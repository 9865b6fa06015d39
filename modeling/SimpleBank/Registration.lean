import SimpleBank.Users
import SimpleBank.Verification

/-! Registration and its background task: which users have had a verification
mail put in the queue by the request that created them. -/
namespace SimpleBank
open Library Db Program

/-- A call of the thread has brought the user into the tables. -/
def Created (config : ServiceConfig) (thread : Nat) (username : String) : Prop :=
  ∃ taken ∈ config.trace, taken.thread = thread ∧
    taken.before.db.users.find? username = none ∧
    (taken.after.db.users.find? username).isSome = true

/-- A call of the thread has put a verification task for the user in the queue. -/
def Enqueued (config : ServiceConfig) (thread : Nat) (username : String) : Prop :=
  ∃ taken ∈ config.trace, taken.thread = thread ∧ ∃ opts,
    taken.after.tasks = taken.before.tasks ++ [⟨Worker.taskSendVerifyEmail, ⟨username⟩, opts⟩]

/-- The outcomes of the commits a thread has made. -/
def commitReplies (history : History) : List (Except Err Unit) :=
  history.filterMap fun
    | ⟨.commit, reply⟩ => some reply
    | _ => none

/-- The tasks a thread has put in the queue. -/
def enqueuedTasks (history : History) : List Worker.Task :=
  history.filterMap fun
    | ⟨.enqueue task, .ok ()⟩ => some task
    | _ => none

/-- A gRPC registration commits once, with its task in the queue, or leaves
both the store and the queue alone. -/
def Booked (username : String) (history : History) : Prop :=
  commitReplies history = [] ∧ enqueuedTasks history = [] ∨
    ∃ reply, commitReplies history = [reply] ∧ enqueuedTasks history = [sendVerifyEmailTask username]

section Registration

variable {deps : Deps} {ok : ServiceConfig → Event Job Choice External → Prop} {w : World}
  {config next : ServiceConfig} {thread : Nat} {job : Job}

theorem mem_commitReplies {history : History} {reply : Except Err Unit} :
    reply ∈ commitReplies history ↔ Said history .commit reply := by
  unfold commitReplies
  rw [List.mem_filterMap]
  constructor
  · rintro ⟨exchange, hmem, hsome⟩
    split at hsome
    · cases hsome
      exact hmem
    · cases hsome
  · exact fun hsaid => ⟨_, hsaid, rfl⟩

theorem mem_enqueuedTasks {history : History} {task : Worker.Task} :
    task ∈ enqueuedTasks history ↔ Said history (.enqueue task) (.ok ()) := by
  unfold enqueuedTasks
  rw [List.mem_filterMap]
  constructor
  · rintro ⟨exchange, hmem, hsome⟩
    split at hsome
    · cases hsome
      exact hmem
    · cases hsome
  · exact fun hsaid => ⟨_, hsaid, rfl⟩

/-- The transaction of a registration, after the password has been hashed. -/
theorem createUserTx_booked (arg : CreateUserParams) (password : String)
    (reply : Except Err String) :
    Always (fun _ _ => True) Valid (fun later _ => Booked arg.username later)
      [⟨.generateFromPassword password, reply⟩]
      (createUserTx ⟨arg, fun user =>
        Worker.distributeTaskSendVerifyEmail ⟨user.username⟩ Gapi.sendVerifyEmailOpts⟩) := by
  refine always_call trivial fun reply _ => ?_
  cases reply with
  | error err => exact .inl ⟨rfl, rfl⟩
  | ok value =>
  refine always_call trivial fun reply hvalid => ?_
  cases reply with
  | error err =>
    refine always_call trivial fun reply _ => ?_
    cases reply with
    | error err => exact .inl ⟨rfl, rfl⟩
    | ok value => exact .inl ⟨rfl, rfl⟩
  | ok user =>
  obtain ⟨_, _, _, -, huser⟩ := hvalid
  have hname : user.username = arg.username := congrArg User.username huser
  refine always_call trivial fun reply _ => ?_
  cases reply with
  | error err =>
    refine always_call trivial fun reply _ => ?_
    cases reply with
    | error err => exact .inl ⟨rfl, rfl⟩
    | ok value => exact .inl ⟨rfl, rfl⟩
  | ok value =>
    have htask : sendVerifyEmailTask arg.username = sendVerifyEmailTask user.username := by
      rw [hname]
    refine always_call trivial fun reply _ => ?_
    cases reply with
    | error err => exact .inr ⟨.error err, rfl, by rw [htask]; rfl⟩
    | ok value => exact .inr ⟨.ok value, rfl, by rw [htask]; rfl⟩

theorem rpcCreateUser_booked {req : Gapi.CreateUserRequest} :
    Always (fun _ _ => True) Valid (fun history _ => Booked req.username history) []
      (Gapi.createUser deps req) := by
  unfold Gapi.createUser
  split
  · exact .inl ⟨rfl, rfl⟩
  refine always_call trivial fun reply _ => ?_
  cases reply with
  | error err => exact .inl ⟨rfl, rfl⟩
  | ok hashedPassword =>
  change Always _ Valid _ _ (createUserTx ⟨req.params hashedPassword, _⟩ >>= _)
  refine Always.bind ?_ (createUserTx_booked (req.params hashedPassword) req.password
    (.ok hashedPassword))
  intro later outcome hbooked
  cases outcome with
  | error err =>
    dsimp only
    split
    · exact hbooked
    · exact hbooked
  | ok user => exact hbooked

/-- A registration by the HTTP API puts nothing in the queue. -/
theorem createUser_enqueues {body : Api.Body Api.CreateUserRequest} :
    Always (fun _ op => ∀ task, op ≠ .enqueue task) Valid (fun _ _ => True) []
      (Api.createUser deps body) := by
  unfold Api.createUser
  split
  · trivial
  refine always_call (by simp) fun reply _ => ?_
  cases reply with
  | error err => trivial
  | ok hashedPassword =>
  refine always_call (by simp) fun reply _ => ?_
  cases reply with
  | error err => trivial
  | ok user => trivial

theorem service_books (deps : Deps) : (service deps).Verified (fun _ _ _ => True) Valid
    fun job history _ => ∀ req, job.request = .rpcCreateUser req → Booked req.username history := by
  refine ⟨fun job => ?_, valid_of_step⟩
  obtain ⟨request, now⟩ := job
  cases request with
  | rpcCreateUser req =>
    change Always _ Valid _ [] (Gapi.createUser deps req >>= fun reply => pure (Response.rpc reply))
    refine Always.bind ?_ rpcCreateUser_booked
    rintro history reply hbooked _ ⟨rfl⟩
    exact hbooked
  | _ => exact (Always.of_trivial _ _).mono (fun _ _ h => h) fun _ _ _ _ h => nomatch h

theorem World.enqueue_spec {choice : Choice} {after : World} {task : Worker.Task}
    (h : w.step deps thread choice (.enqueue task) = some (.ok (), after)) :
    after.tasks = w.tasks ++ [task] := by
  rcases World.callStep_spec (Option.some.inj h) with ⟨_, herr, -⟩ | hresult
  · cases herr
  · cases hresult
    rfl

theorem enqueued_iff (hreach : (service deps).Reach ok (.initial w) config) {username : String} :
    Enqueued config thread username ↔ ∃ opts, Said (config.history thread)
      (.enqueue ⟨Worker.taskSendVerifyEmail, ⟨username⟩, opts⟩) (.ok ()) := by
  constructor
  · rintro ⟨taken, hmem, hthread, opts, htasks⟩
    obtain ⟨choice, hstep⟩ : ∃ choice, taken.before.step deps taken.thread choice
      taken.exchange.op = some (taken.exchange.reply, taken.after) := hreach.steps taken hmem
    refine ⟨opts, Config.mem_history.mpr ⟨taken, hmem, hthread, ?_⟩⟩
    obtain ⟨-, -, hsame | ⟨task, hexchange, hput⟩⟩ := World.step_outside hstep
    · simp [hsame] at htasks
    · rw [htasks] at hput
      simp only [List.append_cancel_left_eq, List.cons.injEq, and_true] at hput
      rw [hput]
      exact hexchange
  · rintro ⟨opts, hsaid⟩
    obtain ⟨taken, hmem, hthread, hexchange⟩ := Config.mem_history.mp hsaid
    obtain ⟨choice, hstep⟩ : ∃ choice, taken.before.step deps taken.thread choice
      taken.exchange.op = some (taken.exchange.reply, taken.after) := hreach.steps taken hmem
    rw [hexchange] at hstep
    exact ⟨taken, hmem, hthread, opts, World.enqueue_spec hstep⟩

/-- Who has been created was created by one of the two registrations. -/
theorem Created.change (htxs : w.txs = .empty) (hreach : (service deps).Reach ok (.initial w) config)
    {username : String} (h : Created config thread username) : ∃ job history exchange row,
      config.job? thread = some job ∧ history <+: config.history thread ∧
      exchange ∈ config.history thread ∧ row.username = username ∧
      UserChange deps job history exchange none row := by
  obtain ⟨taken, hmem, rfl, hnone, hsome⟩ := h
  obtain ⟨job, history, hjob, hprefix, hchange⟩ := hreach.of_trace
    (P := fun job history taken =>
      taken.after.db.users.find? username = taken.before.db.users.find? username ∨
      ∃ row, taken.after.db.users.find? username = some row ∧
        UserChange deps job history taken.exchange (taken.before.db.users.find? username) row)
    (fun hreach htakes => userChange_of_takes htxs hreach htakes username) taken hmem
  rcases hchange with hsame | ⟨row, hrow, hchange⟩
  · rw [hsame, hnone] at hsome
    cases hsome
  · rw [hnone] at hchange
    exact ⟨job, history, taken.exchange, row, hjob, hprefix,
      Config.mem_history.mpr ⟨taken, hmem, rfl, rfl⟩, (Table.find?_mem hrow).2, hchange⟩

/-- A gRPC registration that commits creates its user. -/
theorem created_of_commit (htxs : w.txs = .empty)
    (hreach : (service deps).Reach ok (.initial w) config) {req : Gapi.CreateUserRequest}
    (hjob : job.request = .rpcCreateUser req)
    (htakes : (service deps).Takes config thread job .commit (.ok ()) next) :
    config.world.db.users.find? req.username = none ∧
      (next.world.db.users.find? req.username).isSome = true := by
  have hregular := Regular.reach htxs hreach
  have hstep : config.world.step deps thread htakes.choice .commit = some (.ok (), next.world) :=
    htakes.step_eq
  obtain ⟨tx, -, hopen, hreplays, hnow, hdb⟩ :=
    World.commit_executes hregular.sound (hregular.tracks thread) hstep
  obtain ⟨calls, hcalls, hcommits⟩ := (service_verified deps).at_call hreach htakes
  cases hopen.symm.trans hcalls
  rw [hdb]
  cases hcommits with
  | transfer arg _ hrequested _ _ => simp [Job.transfer, hjob] at hrequested
  | verifyEmail arg _ hlink _ => simp [Job.link, hjob] at hlink
  | createUser other hashedPassword user hother _ hcalls =>
    cases hjob.symm.trans hother
    obtain ⟨_, later, ⟨hnone, huser⟩, hran, -, -, hdb⟩ :=
      replays_cons_ran hreplays hcalls.1 hnow
    have hname : user.username = req.username := congrArg User.username huser
    rw [hdb, replays_nil_ran hran]
    refine ⟨Option.map_eq_none_iff.mp hnone, ?_⟩
    have hput : (config.world.db.put (.user user)).users.find? user.username = some user :=
      Table.find?_put_self _ _
    rw [← hname]
    exact Option.isSome_iff_exists.mpr ⟨user, hput⟩

theorem created_of_said (htxs : w.txs = .empty)
    (hreach : (service deps).Reach ok (.initial w) config) {req : Gapi.CreateUserRequest}
    (hat : config.job? thread = some job) (hjob : job.request = .rpcCreateUser req)
    (hsaid : Said (config.history thread) .commit (.ok ())) :
    Created config thread req.username := by
  obtain ⟨taken, hmem, rfl, hexchange⟩ := Config.mem_history.mp hsaid
  obtain ⟨other, _, hother, -, hcreated⟩ := hreach.of_trace
    (P := fun job _ taken => job.request = .rpcCreateUser req →
      taken.exchange = ⟨.commit, .ok ()⟩ → taken.before.db.users.find? req.username = none ∧
        (taken.after.db.users.find? req.username).isSome = true)
    (fun hreach htakes hjob hexchange => by
      cases hexchange
      exact created_of_commit htxs hreach hjob htakes) taken hmem
  cases hat.symm.trans hother
  exact ⟨taken, hmem, rfl, hcreated hjob hexchange⟩

/-- After a gRPC registration its user is in the tables exactly if its task is
in the queue and its commit has not failed. -/
theorem registration_settled (htxs : w.txs = .empty)
    (hreach : (service deps).Reachable (.initial w) config) {req : Gapi.CreateUserRequest}
    {response : Response} (hjob : job.request = .rpcCreateUser req)
    (hthread : config.threads[thread]? = some ⟨job, .done response⟩) :
    Created config thread req.username ↔ Enqueued config thread req.username ∧
      ¬∃ err, Said (config.history thread) .commit (.error err) := by
  have hat : config.job? thread = some job := by simp [Config.job?, hthread]
  have hbooked := (service_books deps).at_end hreach hthread req hjob
  rw [enqueued_iff hreach]
  constructor
  · intro hcreated
    obtain ⟨other, history, exchange, row, hother, hprefix, hmem, -, hchange⟩ :=
      hcreated.change htxs hreach
    cases hat.symm.trans hother
    cases hchange with
    | created arg _ howes _ =>
      obtain ⟨body, _, hbody, -⟩ := howes
      cases hjob.symm.trans hbody
    | registered found hashedPassword _ hfound _ _ htask =>
      cases hjob.symm.trans hfound
      refine ⟨⟨_, htask.later hprefix⟩, ?_⟩
      rintro ⟨err, hfailed⟩
      have hok := mem_commitReplies.mpr hmem
      have herr := mem_commitReplies.mpr hfailed
      rcases hbooked with ⟨hnil, -⟩ | ⟨reply, hone, -⟩
      · rw [hnil] at hok
        cases hok
      · rw [hone, List.mem_singleton] at hok herr
        cases hok.trans herr.symm
  · rintro ⟨⟨opts, htask⟩, hsound⟩
    have htask := mem_enqueuedTasks.mpr htask
    rcases hbooked with ⟨-, hnil⟩ | ⟨reply, hone, -⟩
    · rw [hnil] at htask
      cases htask
    · have hsaid : Said (config.history thread) .commit reply :=
        mem_commitReplies.mp (by rw [hone]; exact List.mem_cons_self)
      cases reply with
      | error err => exact absurd ⟨err, hsaid⟩ hsound
      | ok value =>
        exact created_of_said htxs hreach hat hjob hsaid

theorem created_takes {op : Op} {reply : op.Reply}
    (htakes : (service deps).Takes config thread job op reply next) {creator : Nat}
    {username : String} : Created next creator username ↔ Created config creator username ∨
      creator = thread ∧ config.world.db.users.find? username = none ∧
        (next.world.db.users.find? username).isSome = true := by
  simp only [Created, htakes.trace_eq, List.mem_append, List.mem_singleton, or_and_right, exists_or,
    exists_eq_left, @eq_comm _ thread]

/-- Users come into the tables by a call of one thread, once. -/
structure CreatedOnce (config : ServiceConfig) : Prop where
  of_isSome : ∀ username, (config.world.db.users.find? username).isSome = true →
    ∃ thread, Created config thread username
  isSome : ∀ thread username, Created config thread username →
    (config.world.db.users.find? username).isSome = true
  unique : ∀ first second username, Created config first username →
    Created config second username → first = second

theorem isSome_user_of_extends {db db' : Database} (hextends : Store.Extends db db')
    {username : String} (h : (db.users.find? username).isSome = true) :
    (db'.users.find? username).isSome = true := by
  have hkept := Database.isSome_of_extends hextends (k := .user username)
    (by simpa [Database.lookup] using h)
  simpa [Database.lookup] using hkept

theorem CreatedOnce.takes (h : CreatedOnce config)
    (hextends : Store.Extends config.world.db next.world.db) {op : Op} {reply : op.Reply}
    (htakes : (service deps).Takes config thread job op reply next) : CreatedOnce next := by
  refine ⟨fun username hsome => ?_, fun creator username hcreated => ?_, fun first second username
    hfirst hsecond => ?_⟩
  · cases hfind : config.world.db.users.find? username with
    | none => exact ⟨thread, (created_takes htakes).mpr (.inr ⟨rfl, hfind, hsome⟩)⟩
    | some user =>
      obtain ⟨creator, hcreated⟩ := h.of_isSome username (by rw [hfind]; rfl)
      exact ⟨creator, (created_takes htakes).mpr (.inl hcreated)⟩
  · rcases (created_takes htakes).mp hcreated with hold | ⟨-, -, hsome⟩
    · exact isSome_user_of_extends hextends (h.isSome creator username hold)
    · exact hsome
  · rcases (created_takes htakes).mp hfirst with hfirst | ⟨rfl, hnone, -⟩
    · rcases (created_takes htakes).mp hsecond with hsecond | ⟨-, hnone, -⟩
      · exact h.unique first second username hfirst hsecond
      · have hsome := h.isSome first username hfirst
        rw [hnone] at hsome
        cases hsome
    · rcases (created_takes htakes).mp hsecond with hsecond | ⟨rfl, -, -⟩
      · have hsome := h.isSome second username hsecond
        rw [hnone] at hsome
        cases hsome
      · rfl

theorem CreatedOnce.reach (htxs : w.txs = .empty) (husers : w.db.users = .empty)
    (hreach : (service deps).Reach ok (.initial w) config) : CreatedOnce config := by
  induction hreach with
  | start =>
    have hnone : ∀ thread username, ¬Created (.initial w) thread username :=
      fun _ _ ⟨_, hmem, _⟩ => nomatch hmem
    refine ⟨fun username hsome => ?_, fun thread username hcreated => absurd hcreated (hnone _ _),
      fun first _ username hcreated => absurd hcreated (hnone _ _)⟩
    rw [Config.initial, husers] at hsome
    cases hsome
  | move hreach _ hmove ih =>
    rcases System.move_cases hmove with ⟨job, rfl, -, rfl⟩ | ⟨_, _, _, _, _, rfl, ⟨htakes⟩⟩ |
      ⟨change, world, rfl, hexternal, rfl⟩
    · exact ⟨ih.of_isSome, ih.isSome, ih.unique⟩
    · exact ih.takes ((Regular.reach htxs hreach).extends_takes htakes) htakes
    · have hsame : world.db.users = _ := World.external_users hexternal
      refine ⟨?_, ?_, ih.unique⟩
      · rw [hsame]
        exact ih.of_isSome
      · rw [hsame]
        exact ih.isSome

theorem not_enqueued_of_http (hreach : (service deps).Reach ok (.initial w) config)
    (hat : config.job? thread = some job) {body : Api.Body Api.CreateUserRequest}
    (hjob : job.request = .createUser body) {username : String} :
    ¬Enqueued config thread username := by
  rw [enqueued_iff hreach]
  rintro ⟨opts, hsaid⟩
  have halways : Always (fun _ op => ∀ task, op ≠ .enqueue task) Valid (fun _ _ => True) []
      (serve deps job) := by
    have hserve : serve deps job = (Api.createUser deps body >>= fun reply =>
        pure (Response.http reply)) := by
      rw [serve, hjob]
      rfl
    rw [hserve]
    exact Always.bind (fun _ _ _ => always_pure.mpr trivial) createUser_enqueues
  obtain ⟨⟨_, program⟩, hthread, rfl⟩ := Option.map_eq_some_iff.mp hat
  obtain ⟨_, hne⟩ := halways.owed (hreach.follows.reaches thread _ program hthread)
    (fun _ hmem => (service_verified deps).replied hreach hmem) _ hsaid
  exact hne _ rfl

/-- Every user has had a verification task put in the queue by the request that
created the user. -/
def AllEnqueued (config : ServiceConfig) : Prop :=
  ∀ user ∈ config.world.db.users.rows, ∃ thread,
    Created config thread user.username ∧ Enqueued config thread user.username

end Registration

namespace Sample

def registering : Job := ⟨.rpcCreateUser ⟨"alice", "Alice", "alice@a", "secret"⟩, 0⟩

/-- Alice registers, and the connection is reset when the transaction commits. -/
def lostCommit : List (Event Job Choice External) :=
  [.arrive registering, .run 0 {}, .run 0 {}, .run 0 {}, .run 0 {},
    .run 0 { fail := some ⟨.text "connection reset", rfl⟩ }]

theorem lostCommit_runs : ((service signed).run (.initial nobody) lostCommit).isSome = true := by
  decide +kernel

def uncommitted : ServiceConfig :=
  ((service signed).run (.initial nobody) lostCommit).get lostCommit_runs

theorem uncommitted_reachable : (service signed).Reachable (.initial nobody) uncommitted :=
  .of_run (Option.some_get lostCommit_runs).symm

theorem uncommitted_replies : uncommitted.threads[0]? = some ⟨registering, .done (.rpc
    (.error ⟨.internal, "failed to create user: connection reset", []⟩))⟩ := by
  rfl

/-- Alice registers by the HTTP API. -/
def httpRegistration : List (Event Job Choice External) :=
  [.arrive ⟨.createUser (.ok ⟨"alice", "secret", "Alice", "alice@a"⟩), 0⟩, .run 0 {}, .run 0 {}]

theorem httpRegistration_runs :
    ((service signed).run (.initial nobody) httpRegistration).isSome = true := by
  decide +kernel

def httpRegistered : ServiceConfig :=
  ((service signed).run (.initial nobody) httpRegistration).get httpRegistration_runs

theorem httpRegistered_reachable : (service signed).Reachable (.initial nobody) httpRegistered :=
  .of_run (Option.some_get httpRegistration_runs).symm

end Sample

/-- A task can be in the queue without its user. -/
theorem not_always_created_iff_enqueued : ¬∀ (deps : Deps) (w : World) (config : ServiceConfig)
    (thread : Nat) (job : Job) (req : Gapi.CreateUserRequest) (response : Response),
    w.txs = .empty → (service deps).Reachable (.initial w) config →
    job.request = .rpcCreateUser req →
    config.threads[thread]? = some ⟨job, .done response⟩ →
    (Created config thread req.username ↔ Enqueued config thread req.username) := by
  intro h
  have hiff := h _ _ _ 0 Sample.registering ⟨"alice", "Alice", "alice@a", "secret"⟩ _ rfl
    Sample.uncommitted_reachable rfl Sample.uncommitted_replies
  have htask : sendVerifyEmailTask "alice" ∈ enqueuedTasks (Sample.uncommitted.history 0) := by
    decide +kernel
  have hnobody : ∀ taken ∈ Sample.uncommitted.trace,
      (taken.after.db.users.find? "alice").isSome = false := by
    decide +kernel
  obtain ⟨taken, hmem, -, -, hsome⟩ := hiff.mpr
    ((enqueued_iff Sample.uncommitted_reachable).mpr ⟨_, mem_enqueuedTasks.mp htask⟩)
  rw [hnobody taken hmem] at hsome
  cases hsome

theorem registration_settled_sample : Created Sample.uncommitted 0 "alice" ↔
    Enqueued Sample.uncommitted 0 "alice" ∧
      ¬∃ err, Said (Sample.uncommitted.history 0) .commit (.error err) :=
  registration_settled rfl Sample.uncommitted_reachable rfl Sample.uncommitted_replies

end SimpleBank
