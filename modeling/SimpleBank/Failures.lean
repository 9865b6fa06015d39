import SimpleBank.Emails
import SimpleBank.Passwords

/-! Which calls of the gRPC methods end in status Internal when nothing outside
the system fails. -/
namespace SimpleBank
open Library Db Program

def Response.internal : Response → Bool
  | .rpc (.error status) => status.code = .internal
  | _ => false

/-- The four gRPC methods. -/
def Job.IsRpc (job : Job) : Prop :=
  match job.request with
  | .rpcCreateUser _ | .rpcLoginUser _ _ | .rpcUpdateUser _ _ | .rpcVerifyEmail _ => True
  | _ => False

/-- The two of them that run a transaction. -/
def Job.Transacts (job : Job) : Prop :=
  match job.request with
  | .rpcCreateUser _ | .rpcVerifyEmail _ => True
  | _ => False

/-- The statements of their transactions. -/
def TxOrder (job : Job) (calls : List Ran) (stmt : Stmt) : Prop :=
  match job.request with
  | .rpcCreateUser req => ∃ hashedPassword, CreateUserOrder (req.params hashedPassword) calls stmt
  | .rpcVerifyEmail req => VerifyEmailOrder ⟨req.emailId, req.secretCode⟩ calls stmt
  | _ => False

/-- Every statement so far has gone through. -/
def AllOk (calls : List Ran) : Prop := ∀ ran ∈ calls, ∃ row, ran.outcome = .ok row

/-- A call that belongs in a transaction is made in one that has not failed, and
the password that is hashed is the one of the request. -/
def Orderly (job : Job) (history : History) : Op → Prop
  | .sql .tx stmt => ∃ calls, openTx history = some calls ∧ TxOrder job calls stmt
  | .commit => ∃ calls, openTx history = some calls ∧ AllOk calls
  | .rollback => ∃ calls, openTx history = some calls
  | .generateFromPassword password => ∃ username, job.request.password = some (username, password)
  | _ => True

/-- What a healthy environment replies. -/
def Healthy (job : Job) : (op : Op) → op.Reply → Prop
  | .begin, reply | .enqueue _, reply => reply = .ok ()
  | .commit, reply | .rollback, reply => job.Transacts → reply = .ok ()
  | .newRandom, reply => ∃ tokenID, reply = .ok tokenID
  | .encrypt _, reply => ∃ token, reply = .ok token
  | .sql .pool (.getUser _), reply => ∀ err, reply = .error err → err = .noRows
  | .sql .tx (.createUser _), reply => job.Transacts →
      ∀ err, reply = .error err → ∃ message, err = .pg uniqueViolation message
  | .sql .tx (.updateUser _), reply => job.Transacts → ∃ user : User, reply = .ok user
  | _, _ => True

/-- The failures of single calls that a method reports as Internal. -/
def doomed : Exchange Op Op.Reply → Bool
  | ⟨.generateFromPassword _, .error _⟩ => true
  | ⟨.sql .pool (.updateUser _), .error err⟩ => !err.isRecordNotFound
  | ⟨.sql .pool (.createSession _), .error _⟩ => true
  | ⟨.sql .tx (.updateVerifyEmail _), .error _⟩ => true
  | _ => false

/-- A method replies Internal exactly if it has met one of these failures. -/
def Blames (history : History) (response : Response) : Prop :=
  response.internal = history.any doomed

theorem blames_append {history : History} {exchange : Exchange Op Op.Reply} {response : Response}
    (hnone : history.any doomed = false) (hlast : response.internal = doomed exchange) :
    Blames (history ++ [exchange]) response := by
  simp [Blames, hnone, hlast]

/-- What a call of the request runs into, by the state it finds: a password too
long to hash, an email that somebody else has, a session id in use, or no link
to open. -/
def Troubled (request : Request) (thread : Nat) (state : World) : Op → Prop
  | .generateFromPassword _ => ∃ username password,
      request.password = some (username, password) ∧ 72 < password.utf8ByteSize
  | .sql .pool (.updateUser _) => ∃ ctx req email, request = .rpcUpdateUser ctx req ∧
      req.email = some email ∧ (state.db.users.find? req.username).isSome = true ∧
      state.db.emailTakenBy req.username email = true
  | .sql .pool (.createSession arg) => (state.db.sessions.find? arg.id).isSome = true
  | .sql .tx (.updateVerifyEmail _) => ∃ req tx, request = .rpcVerifyEmail req ∧
      state.txs.find? thread = some tx ∧ (state.db.verifyEmails.find? req.emailId).filter
        (UpdateVerifyEmailParams.selects ⟨req.emailId, req.secretCode⟩ tx.startedAt) = none
  | _ => False

section Methods

variable {deps : Deps} {job : Job} {history : History}

theorem rpcCreateUser_blames {req : Gapi.CreateUserRequest} (hjob : job.request = .rpcCreateUser req) :
    Always (fun _ _ => True) (Healthy job) (fun history reply => Blames history (.rpc reply)) []
      (Gapi.createUser deps req) := by
  have htransacts : job.Transacts := by simp [Job.Transacts, hjob]
  unfold Gapi.createUser
  split
  · rfl
  refine always_call trivial fun reply _ => ?_
  cases reply with
  | error err => rfl
  | ok hashedPassword =>
  refine always_call trivial fun reply hhealthy => ?_
  cases hhealthy
  refine always_call trivial fun reply hhealthy => ?_
  cases reply with
  | error err =>
    obtain ⟨message, rfl⟩ := hhealthy htransacts err rfl
    refine always_call trivial fun reply hhealthy => ?_
    cases hhealthy htransacts
    rfl
  | ok user =>
  refine always_call trivial fun reply hhealthy => ?_
  cases hhealthy
  refine always_call trivial fun reply hhealthy => ?_
  cases hhealthy htransacts
  rfl

theorem createToken_healthy {now : Time} {username role : String} {duration : Time}
    {tokenType : Token.TokenType} :
    Always (fun _ _ => True) (Healthy job) (fun later outcome =>
        (∃ token payload, outcome = .ok (token, payload)) ∧ later.any doomed = history.any doomed)
      history (Token.createToken now username role duration tokenType) := by
  refine always_call trivial fun reply hhealthy => ?_
  obtain ⟨tokenID, rfl⟩ := hhealthy
  refine always_call trivial fun reply hhealthy => ?_
  obtain ⟨token, rfl⟩ := hhealthy
  exact ⟨⟨token, _, rfl⟩, by simp [doomed]⟩

theorem rpcLoginUser_blames {now : Time} {ctx : Gapi.Context} {req : Gapi.LoginUserRequest} :
    Always (fun _ _ => True) (Healthy job) (fun history reply => Blames history (.rpc reply)) []
      (Gapi.loginUser deps now ctx req) := by
  unfold Gapi.loginUser
  split
  · rfl
  refine always_call trivial fun reply hhealthy => ?_
  cases reply with
  | error err =>
    cases hhealthy err rfl
    rfl
  | ok user =>
  dsimp only [Program.bind]
  split
  · rfl
  refine Always.bind ?_ createToken_healthy
  rintro later _ ⟨⟨accessToken, accessPayload, rfl⟩, hlater⟩
  refine Always.bind ?_ createToken_healthy
  rintro last _ ⟨⟨refreshToken, refreshPayload, rfl⟩, hlast⟩
  refine always_call trivial fun reply _ => ?_
  have hnone : last.any doomed = false := hlast.trans hlater
  cases reply with
  | error err => exact blames_append hnone rfl
  | ok session => exact blames_append hnone rfl

theorem updateUserWith_blames {arg : UpdateUserParams} (hnone : history.any doomed = false) :
    Always (fun _ _ => True) (Healthy job) (fun history reply => Blames history (.rpc reply)) history
      (Gapi.updateUserWith arg) := by
  refine always_call trivial fun reply _ => ?_
  cases reply with
  | error err =>
    dsimp only [Program.bind]
    split <;> rename_i hfound
    · exact blames_append hnone (by simp [doomed, hfound]; rfl)
    · exact blames_append hnone (by simp [doomed, hfound]; rfl)
  | ok user => exact blames_append hnone rfl

theorem rpcUpdateUser_blames {now : Time} {ctx : Gapi.Context} {req : Gapi.UpdateUserRequest} :
    Always (fun _ _ => True) (Healthy job) (fun history reply => Blames history (.rpc reply)) []
      (Gapi.updateUser deps now ctx req) := by
  unfold Gapi.updateUser
  split
  · rfl
  split
  · rfl
  split
  · rfl
  dsimp only
  split
  · exact updateUserWith_blames rfl
  · refine always_call trivial fun reply _ => ?_
    cases reply with
    | error err => rfl
    | ok hashedPassword => exact updateUserWith_blames rfl

theorem rpcVerifyEmail_blames {req : Gapi.VerifyEmailRequest}
    (hjob : job.request = .rpcVerifyEmail req) :
    Always (fun _ _ => True) (Healthy job) (fun history reply => Blames history (.rpc reply)) []
      (Gapi.verifyEmail req) := by
  have htransacts : job.Transacts := by simp [Job.Transacts, hjob]
  unfold Gapi.verifyEmail
  split
  · rfl
  refine always_call trivial fun reply hhealthy => ?_
  cases hhealthy
  refine always_call trivial fun reply _ => ?_
  cases reply with
  | error err =>
    refine always_call trivial fun reply hhealthy => ?_
    cases hhealthy htransacts
    rfl
  | ok link =>
  refine always_call trivial fun reply hhealthy => ?_
  obtain ⟨user, rfl⟩ := hhealthy htransacts
  refine always_call trivial fun reply hhealthy => ?_
  cases hhealthy htransacts
  rfl

theorem serve_blames (hrpc : job.IsRpc) :
    Always (fun _ _ => True) (Healthy job) Blames [] (serve deps job) := by
  obtain ⟨request, now⟩ := job
  cases request with
  | rpcCreateUser req =>
    change Always _ _ _ [] (Gapi.createUser deps req >>= fun reply => pure (Response.rpc reply))
    exact Always.bind (fun _ _ h => h) (rpcCreateUser_blames rfl)
  | rpcLoginUser ctx req =>
    change Always _ _ _ [] (Gapi.loginUser deps now ctx req >>= fun reply => pure (Response.rpc reply))
    exact Always.bind (fun _ _ h => h) rpcLoginUser_blames
  | rpcUpdateUser ctx req =>
    change Always _ _ _ [] (Gapi.updateUser deps now ctx req >>= fun reply =>
      pure (Response.rpc reply))
    exact Always.bind (fun _ _ h => h) rpcUpdateUser_blames
  | rpcVerifyEmail req =>
    change Always _ _ _ [] (Gapi.verifyEmail req >>= fun reply => pure (Response.rpc reply))
    exact Always.bind (fun _ _ h => h) (rpcVerifyEmail_blames rfl)
  | _ => exact hrpc.elim

theorem orderly_of_txOwes {orders : List Ran → Stmt → Prop} {commits : History → List Ran → Prop}
    (horders : ∀ calls stmt, orders calls stmt → TxOrder job calls stmt)
    (hcommits : ∀ later calls, commits later calls → AllOk calls) {later : History} {op : Op}
    (h : TxOwes orders commits history later op) : Orderly job later op := by
  cases op with
  | sql conn stmt =>
    cases conn with
    | pool => trivial
    | tx =>
      obtain ⟨calls, hwithin, horder⟩ := h
      exact ⟨calls, hwithin.opened, horders calls stmt horder⟩
  | commit =>
    obtain ⟨calls, hwithin, hcommit⟩ := h
    exact ⟨calls, hwithin.opened, hcommits later calls hcommit⟩
  | rollback =>
    obtain ⟨calls, hwithin⟩ := h
    exact ⟨calls, hwithin.opened⟩
  | generateFromPassword password => exact h.elim
  | begin | newRandom | encrypt _ | enqueue _ | randomString _ | sendEmail _ => trivial

theorem rpcCreateUser_orderly {req : Gapi.CreateUserRequest}
    (hjob : job.request = .rpcCreateUser req) :
    Always (Orderly job) Valid (fun _ _ => True) [] (Gapi.createUser deps req) := by
  unfold Gapi.createUser
  split
  · trivial
  refine always_call ⟨req.username, by rw [hjob]; rfl⟩ fun reply _ => ?_
  cases reply with
  | error err => trivial
  | ok hashedPassword =>
  change Always _ _ _ _ (createUserTx _ >>= _)
  refine Always.bind ?_ (createUserTx_always rfl fun later op => orderly_of_txOwes ?_ ?_)
  · rintro later (err | user) -
    · dsimp only
      split <;> trivial
    · trivial
  · rintro calls stmt horder
    rw [TxOrder, hjob]
    exact ⟨hashedPassword, horder⟩
  · rintro later calls ⟨user, rfl, -⟩ ran hran
    rw [List.mem_singleton.mp hran]
    exact ⟨user, rfl⟩

theorem createToken_orderly {now : Time} {username role : String} {duration : Time}
    {tokenType : Token.TokenType} :
    Always (Orderly job) Valid (fun _ _ => True) history
      (Token.createToken now username role duration tokenType) := by
  refine always_call trivial fun reply _ => ?_
  cases reply with
  | error err => trivial
  | ok tokenID =>
  refine always_call trivial fun reply _ => ?_
  cases reply <;> trivial

theorem rpcLoginUser_orderly {now : Time} {ctx : Gapi.Context} {req : Gapi.LoginUserRequest} :
    Always (Orderly job) Valid (fun _ _ => True) [] (Gapi.loginUser deps now ctx req) := by
  unfold Gapi.loginUser
  split
  · trivial
  refine always_call trivial fun reply _ => ?_
  cases reply with
  | error err =>
    dsimp only [Program.bind]
    split <;> trivial
  | ok user =>
  dsimp only [Program.bind]
  split
  · trivial
  refine Always.bind ?_ createToken_orderly
  rintro later (err | ⟨accessToken, accessPayload⟩) -
  · trivial
  refine Always.bind ?_ createToken_orderly
  rintro last (err | ⟨refreshToken, refreshPayload⟩) -
  · trivial
  refine always_call trivial fun reply _ => ?_
  cases reply <;> trivial

theorem updateUserWith_orderly {arg : UpdateUserParams} :
    Always (Orderly job) Valid (fun _ _ => True) history (Gapi.updateUserWith arg) := by
  refine always_call trivial fun reply _ => ?_
  cases reply with
  | error err =>
    dsimp only [Program.bind]
    split <;> trivial
  | ok user => trivial

theorem rpcUpdateUser_orderly {now : Time} {ctx : Gapi.Context} {req : Gapi.UpdateUserRequest}
    (hjob : job.request = .rpcUpdateUser ctx req) :
    Always (Orderly job) Valid (fun _ _ => True) [] (Gapi.updateUser deps now ctx req) := by
  unfold Gapi.updateUser
  split
  · trivial
  split
  · trivial
  split
  · trivial
  dsimp only
  split
  · exact updateUserWith_orderly
  · rename_i password hpassword
    have hrequest : job.request.password = some (req.username, password) := by
      rw [hjob, Request.password, hpassword]
      rfl
    refine always_call ⟨req.username, hrequest⟩ fun reply _ => ?_
    cases reply with
    | error err => trivial
    | ok hashedPassword => exact updateUserWith_orderly

theorem rpcVerifyEmail_orderly {req : Gapi.VerifyEmailRequest}
    (hjob : job.request = .rpcVerifyEmail req) :
    Always (Orderly job) Valid (fun _ _ => True) [] (Gapi.verifyEmail req) := by
  unfold Gapi.verifyEmail
  split
  · trivial
  refine Always.bind ?_ (verifyEmailTx_always rfl fun later op => orderly_of_txOwes ?_ ?_)
  · rintro later (err | result) - <;> trivial
  · rintro calls stmt horder
    rw [TxOrder, hjob]
    exact horder
  · rintro later calls ⟨result, rfl⟩ ran hran
    simp only [verifyEmailCalls, List.mem_cons, List.not_mem_nil, or_false] at hran
    rcases hran with rfl | rfl
    · exact ⟨result.verifyEmail, rfl⟩
    · exact ⟨result.user, rfl⟩

theorem service_orderly (deps : Deps) : (service deps).Verified
    (fun job history op => job.IsRpc → Orderly job history op) Valid fun _ _ _ => True := by
  refine ⟨fun job => ?_, valid_of_step⟩
  obtain ⟨request, now⟩ := job
  have rpc : ∀ {program : Act Gapi.Reply},
      Always (Orderly ⟨request, now⟩) Valid (fun _ _ => True) [] program →
      Always (fun history op => Job.IsRpc ⟨request, now⟩ → Orderly ⟨request, now⟩ history op) Valid
        (fun _ _ => True) [] (program >>= fun reply => pure (Response.rpc reply)) := fun h =>
    Always.bind (fun _ _ _ => always_pure.mpr trivial) (h.mono (fun _ _ howes _ => howes) fun _ _ h => h)
  cases request with
  | rpcCreateUser req => exact rpc (rpcCreateUser_orderly rfl)
  | rpcLoginUser ctx req => exact rpc rpcLoginUser_orderly
  | rpcUpdateUser ctx req => exact rpc (rpcUpdateUser_orderly rfl)
  | rpcVerifyEmail req => exact rpc (rpcVerifyEmail_orderly rfl)
  | _ => exact (Always.of_trivial _ _).mono (fun _ _ _ hrpc => hrpc.elim) fun _ _ h => h

end Methods

/-- A transaction that is aborted has met an error. -/
def Aborts (tx : Tx Execution Time) : Prop :=
  tx.aborted = true → ∃ call ∈ tx.calls, aborts call.outcome = true

section Aborts

variable {deps : Deps} {ok : ServiceConfig → Event Job Choice External → Prop} {w w' : World}
  {config : ServiceConfig} {thread : Nat} {choice : Choice}

theorem aborts_extend (tx : Tx Execution Time) (call : Execution) :
    Aborts (tx.extend call (aborts call.outcome)) :=
  fun haborted => ⟨call, List.mem_append_right _ List.mem_cons_self, haborted⟩

theorem aborts_step {op : Op} {reply : op.Reply} (h : ∀ tx ∈ w.txs.rows, Aborts tx)
    (hstep : w.step deps thread choice op = some (reply, w')) : ∀ tx ∈ w'.txs.rows, Aborts tx := by
  have hstepped := World.stepped_of_step hstep
  generalize w'.toTxState = state at hstepped
  intro tx htx
  cases hstepped with
  | quiet _ | autocommit _ _ _ _ => exact h tx htx
  | statement found call _ _ _ _ _ =>
    rcases Table.mem_put htx with rfl | hold
    · exact aborts_extend found call
    · exact h tx hold
  | begin _ =>
    rcases Table.mem_put htx with rfl | hold
    · exact fun haborted => nomatch haborted
    · exact h tx hold
  | commit _ _ | abort _ | rollback _ => exact h tx (Table.mem_erase.mp htx).1

theorem aborts_reach (htxs : w.txs = .empty)
    (hreach : (service deps).Reach ok (.initial w) config) :
    ∀ tx ∈ config.world.txs.rows, Aborts tx := by
  induction hreach with
  | start => simp [Config.initial, htxs, Table.empty]
  | @move config next _ _ _ hmove ih =>
    rcases System.move_cases hmove with ⟨_, rfl, -, rfl⟩ | ⟨thread, _, _, op, reply, rfl, ⟨htakes⟩⟩ |
      ⟨change, world, rfl, hexternal, rfl⟩
    · exact ih
    · have hstep : config.world.step deps thread htakes.choice op = some (reply, next.world) :=
        htakes.step_eq
      exact aborts_step ih hstep
    · obtain ⟨hsame, -⟩ := World.external_spec hexternal
      exact fun tx htx => ih tx (hsame ▸ htx)

end Aborts

/-- What is known when a method makes a call. -/
structure Moment (deps : Deps) (job : Job) (history : History) (thread : Nat) (state : World)
    (op : Op) : Prop where
  orderly : Orderly job history op
  owes : Owes deps job history op
  sound : state.Sound
  tracks : state.Tracks thread history
  aborts : ∀ tx ∈ state.txs.rows, Aborts tx
  emails : UniqueEmails state
  flagged : Flagged state.db
  known : ∀ user, LoggedIn deps job history user →
    (state.db.users.find? user.username).isSome = true

theorem moment_of_trace {deps : Deps} {w : World} {config : ServiceConfig} {thread : Nat} {job : Job}
    {ok : ServiceConfig → Event Job Choice External → Prop} (htxs : w.txs = .empty)
    (husers : w.db.users = .empty) (hlinks : w.db.verifyEmails = .empty)
    (hreach : (service deps).Reach ok (.initial w) config) (hjob : config.job? thread = some job)
    (hrpc : job.IsRpc) {taken : Taken Op Op.Reply World} (hmem : taken ∈ config.trace)
    (hthread : taken.thread = thread) :
    ∃ history, Moment deps job history taken.thread taken.before taken.exchange.op := by
  obtain ⟨found, history, hfound, -, hmoment⟩ := hreach.of_trace
    (P := fun job history taken => job.IsRpc →
      Moment deps job history taken.thread taken.before taken.exchange.op)
    (fun {config _ thread _ _ _} hreach htakes hrpc => by
      have hregular := Regular.reach htxs hreach
      refine ⟨(service_orderly deps).at_call hreach htakes hrpc,
        (service_verified deps).at_call hreach htakes, hregular.sound, hregular.tracks thread,
        aborts_reach htxs hreach, .reach htxs ?_ hreach, .reach htxs (.of_empty husers hlinks) hreach,
        ?_⟩
      · rw [husers]
        exact fun user huser => nomatch huser
      · rintro user ⟨username, _, -, hsaid, -⟩
        obtain ⟨hname, current, hcurrent, -⟩ := user_of_said htxs hreach hsaid
        simp [hname, hcurrent]) taken hmem
  rw [hthread, hjob] at hfound
  cases hfound
  exact ⟨history, hmoment hrpc⟩

namespace Moment

variable {deps : Deps} {job : Job} {history : History} {thread : Nat} {choice : Choice}
  {state after : World} {op : Op} {calls : List Ran}

theorem exists_tx (h : Moment deps job history thread state op)
    (hopen : openTx history = some calls) :
    ∃ tx, state.txs.find? thread = some tx ∧ tx.calls.map Execution.ran = calls := by
  have htracks := h.tracks
  rw [World.Tracks, hopen] at htracks
  exact Option.map_eq_some_iff.mp htracks

/-- Where all statements have gone through, the transaction is not aborted. -/
theorem not_aborted (h : Moment deps job history thread state op) {tx : Tx Execution Time}
    (hfind : state.txs.find? thread = some tx) (hok : AllOk (tx.calls.map Execution.ran)) :
    tx.aborted = false := by
  refine Bool.eq_false_iff.mpr fun haborted => ?_
  obtain ⟨call, hcall, haborts⟩ := h.aborts tx (Table.find?_mem hfind).1 haborted
  obtain ⟨row, hrow⟩ := hok call.ran (List.mem_map_of_mem hcall)
  have houtcome : call.outcome = .ok row := hrow
  rw [houtcome] at haborts
  cases haborts

/-- At the first statement of a transaction. -/
theorem first_statement {stmt : Stmt} (h : Moment deps job history thread state (.sql .tx stmt))
    (hnil : ∀ calls, TxOrder job calls stmt → calls = []) : ∃ tx,
      state.txs.find? thread = some tx ∧ tx.aborted = false ∧ state.view tx = state.db := by
  obtain ⟨calls, hopen, horder⟩ := h.orderly
  obtain ⟨tx, hfind, hcalls⟩ := h.exists_tx hopen
  rw [hnil calls horder] at hcalls
  refine ⟨tx, hfind, h.not_aborted hfind ?_, by simp [TxState.view, List.map_eq_nil_iff.mp hcalls]⟩
  rw [hcalls]
  intro ran hran
  cases hran

theorem createUser_healthy {arg : CreateUserParams}
    (h : Moment deps job history thread state (.sql .tx (.createUser arg)))
    (hhealthy : choice.fail = none) (htransacts : job.Transacts) {err : Err}
    (hstep : state.step deps thread choice (.sql .tx (.createUser arg)) = some (.error err, after)) :
    ∃ message, err = .pg uniqueViolation message := by
  obtain ⟨tx, hfind, haborted, -⟩ := h.first_statement fun calls horder => by
    obtain ⟨request, now⟩ := job
    cases request with
    | rpcCreateUser req =>
      obtain ⟨_, hnil, -⟩ := horder
      exact hnil
    | rpcVerifyEmail req => rcases horder with ⟨-, hstmt⟩ | ⟨_, -, hstmt⟩ <;> cases hstmt
    | _ => exact htransacts.elim
  exact evalCreateUser_error (World.tx_eval hfind haborted hhealthy hstep).symm

/-- The user of a link is there, and keeps an email of its own. -/
theorem updateUser_healthy {arg : UpdateUserParams}
    (h : Moment deps job history thread state (.sql .tx (.updateUser arg)))
    (hhealthy : choice.fail = none) (htransacts : job.Transacts) {reply : Except Err User}
    (hstep : state.step deps thread choice (.sql .tx (.updateUser arg)) = some (reply, after)) :
    ∃ user, reply = .ok user := by
  obtain ⟨calls, hopen, horder⟩ := h.orderly
  obtain ⟨found, link, rfl, rfl⟩ : ∃ found link, calls = [⟨.updateVerifyEmail found, .ok link⟩] ∧
      arg = verifiedUser link.username := by
    obtain ⟨request, now⟩ := job
    cases request with
    | rpcCreateUser req =>
      obtain ⟨_, -, hstmt⟩ := horder
      cases hstmt
    | rpcVerifyEmail req =>
      rcases horder with ⟨-, hstmt⟩ | ⟨link, hcalls, hstmt⟩
      · cases hstmt
      · cases hstmt
        exact ⟨_, link, hcalls, rfl⟩
    | _ => exact htransacts.elim
  obtain ⟨tx, hfind, hcalls⟩ := h.exists_tx hopen
  have haborted : tx.aborted = false := by
    refine h.not_aborted hfind fun ran hran => ?_
    rw [hcalls] at hran
    cases List.mem_singleton.mp hran
    exact ⟨link, rfl⟩
  obtain ⟨hmem, -⟩ := Table.find?_mem hfind
  obtain ⟨_, later, ⟨old, hold, -, hlink⟩, hrest, -, -, hwritten⟩ :=
    replays_cons_ran (h.sound.isolated.replays tx hmem) hcalls (h.sound.timed tx hmem)
  have hview : state.view tx = state.db.put (.verifyEmail link) := by
    rw [replays_nil_ran hrest] at hwritten
    exact hwritten
  have hname : link.username = old.username := (congrArg VerifyEmail.username hlink).trans rfl
  obtain ⟨user, huser⟩ :=
    Option.isSome_iff_exists.mp (h.flagged.owned (Database.lookup_verifyEmail.mp hold))
  rw [← hname] at huser
  obtain ⟨husermem, husername⟩ := Table.find?_mem huser
  have htaken : (state.view tx).emailTakenBy link.username user.email = false := by
    rw [hview]
    refine Database.emailTakenBy_eq_false.mpr fun other hother hemail => ?_
    exact (h.emails.users other hother user husermem hemail).trans husername
  have hreply := World.tx_eval hfind haborted hhealthy hstep
  exact ⟨_, hreply.trans (evalUpdateUser_eq_ok.mpr ⟨user, by rw [hview]; exact huser, htaken, rfl⟩)⟩

/-- A call that meets no failure gets the reply of a healthy environment. -/
theorem healthy (h : Moment deps job history thread state op) (hhealthy : choice.fail = none)
    {reply : op.Reply} (hstep : state.step deps thread choice op = some (reply, after)) :
    Healthy job op reply := by
  cases op with
  | sql conn stmt =>
    cases conn with
    | pool =>
      cases stmt with
      | getUser username =>
        rintro err rfl
        have hreply : .error err = orNoRows (state.db.users.find? username) :=
          World.pool_eval hhealthy hstep
        cases hfind : state.db.users.find? username <;> rw [hfind] at hreply <;> cases hreply
        rfl
      | _ => trivial
    | tx =>
      cases stmt with
      | createUser arg =>
        rintro htransacts err rfl
        exact h.createUser_healthy hhealthy htransacts hstep
      | updateUser arg => exact fun htransacts => h.updateUser_healthy hhealthy htransacts hstep
      | _ => trivial
  | begin =>
    simp only [World.step, World.beginStep, hhealthy] at hstep
    split at hstep <;> cases hstep
    rfl
  | commit =>
    obtain ⟨calls, hopen, hok⟩ := h.orderly
    obtain ⟨tx, hfind, hcalls⟩ := h.exists_tx hopen
    have haborted := h.not_aborted hfind (hcalls.symm ▸ hok)
    simp only [World.step, World.commitStep, hfind, hhealthy, haborted] at hstep
    cases hstep
    exact fun _ => rfl
  | rollback =>
    obtain ⟨calls, hopen⟩ := h.orderly
    obtain ⟨tx, hfind, -⟩ := h.exists_tx hopen
    simp only [World.step, World.rollbackStep, hfind, hhealthy] at hstep
    cases hstep
    exact fun _ => rfl
  | newRandom | encrypt _ =>
    simp only [World.step, World.callStep, hhealthy] at hstep
    cases hstep
    exact ⟨_, rfl⟩
  | enqueue _ =>
    simp only [World.step, World.callStep, hhealthy] at hstep
    cases hstep
    rfl
  | generateFromPassword _ | randomString _ | sendEmail _ => trivial

theorem updateUser_doomed {arg : UpdateUserParams}
    (h : Moment deps job history thread state (.sql .pool (.updateUser arg)))
    {reply : Except Err User} (hreply : reply = evalUpdateUser state.db arg) :
    doomed ⟨.sql .pool (.updateUser arg), reply⟩ = true ↔
      Troubled job.request thread state (.sql .pool (.updateUser arg)) := by
  obtain ⟨ctx, req, _, hjob, -, -, -, husername, -, hemail, -⟩ := h.owes
  have hrefused : doomed ⟨.sql .pool (.updateUser arg), reply⟩ = true ↔
      ∃ err, evalUpdateUser state.db arg = .error err ∧ err.isRecordNotFound = false := by
    rw [← hreply]
    cases reply <;> simp [doomed]
  rw [hrefused, evalUpdateUser_refused, husername]
  constructor
  · rintro ⟨user, huser, htaken⟩
    cases hnew : req.email with
    | none =>
      -- Nobody has the email that the user keeps.
      have hkept : (arg.apply user).email = user.email := by
        simp [UpdateUserParams.apply, hemail, hnew]
      obtain ⟨hmem, hname⟩ := Table.find?_mem huser
      have hfree : state.db.emailTakenBy req.username (arg.apply user).email = false := by
        rw [hkept]
        refine Database.emailTakenBy_eq_false.mpr fun other hother heq => ?_
        exact (h.emails.users other hother user hmem heq).trans hname
      rw [hfree] at htaken
      cases htaken
    | some email =>
      have hset : (arg.apply user).email = email := by
        simp [UpdateUserParams.apply, hemail, hnew]
      exact ⟨ctx, req, email, hjob, hnew, by rw [huser]; rfl, hset ▸ htaken⟩
  · rintro ⟨_, found, email, hfound, hnew, hsome, htaken⟩
    cases hjob.symm.trans hfound
    obtain ⟨user, huser⟩ := Option.isSome_iff_exists.mp hsome
    have hset : (arg.apply user).email = email := by
      simp [UpdateUserParams.apply, hemail, hnew]
    exact ⟨user, huser, hset.symm ▸ htaken⟩

theorem createSession_doomed {arg : CreateSessionParams}
    (h : Moment deps job history thread state (.sql .pool (.createSession arg)))
    {reply : Except Err Session} {now : Time} (hreply : reply = evalCreateSession now state.db arg) :
    doomed ⟨.sql .pool (.createSession arg), reply⟩ = true ↔
      Troubled job.request thread state (.sql .pool (.createSession arg)) := by
  obtain ⟨user, _, hlogged, -, -, -, -, husername, -⟩ := h.owes
  have huser : (state.db.users.find? arg.username).isSome = true := husername ▸ h.known user hlogged
  have hrefused : doomed ⟨.sql .pool (.createSession arg), reply⟩ = true ↔
      ∃ err, evalCreateSession now state.db arg = .error err := by
    rw [← hreply]
    cases reply <;> simp [doomed]
  exact hrefused.trans (evalCreateSession_refused huser)

theorem updateVerifyEmail_doomed {arg : UpdateVerifyEmailParams}
    (h : Moment deps job history thread state (.sql .tx (.updateVerifyEmail arg)))
    (hhealthy : choice.fail = none) {reply : Except Err VerifyEmail}
    (hstep : state.step deps thread choice (.sql .tx (.updateVerifyEmail arg)) = some (reply, after)) :
    doomed ⟨.sql .tx (.updateVerifyEmail arg), reply⟩ = true ↔
      Troubled job.request thread state (.sql .tx (.updateVerifyEmail arg)) := by
  obtain ⟨req, hjob, rfl, hnil⟩ : ∃ req, job.request = .rpcVerifyEmail req ∧
      arg = ⟨req.emailId, req.secretCode⟩ ∧
      ∀ calls, TxOrder job calls (.updateVerifyEmail arg) → calls = [] := by
    obtain ⟨calls, -, horder⟩ := h.orderly
    obtain ⟨request, now⟩ := job
    cases request with
    | rpcCreateUser req =>
      obtain ⟨_, -, hstmt⟩ := horder
      cases hstmt
    | rpcVerifyEmail req =>
      rcases horder with ⟨-, hstmt⟩ | ⟨_, -, hstmt⟩
      · cases hstmt
        refine ⟨req, rfl, rfl, ?_⟩
        rintro calls (⟨hcalls, -⟩ | ⟨_, -, hstmt⟩)
        · exact hcalls
        · cases hstmt
      · cases hstmt
    | _ => exact horder.elim
  obtain ⟨tx, hfind, haborted, hview⟩ := h.first_statement hnil
  have hreply : reply = evalUpdateVerifyEmail tx.startedAt (state.view tx) _ :=
    World.tx_eval hfind haborted hhealthy hstep
  rw [hview] at hreply
  have hrefused : doomed ⟨.sql .tx (.updateVerifyEmail ⟨req.emailId, req.secretCode⟩), reply⟩ = true ↔
      ∃ err, evalUpdateVerifyEmail tx.startedAt state.db ⟨req.emailId, req.secretCode⟩ =
        .error err := by
    rw [← hreply]
    cases reply <;> simp [doomed]
  rw [hrefused, evalUpdateVerifyEmail_refused]
  constructor
  · exact fun hnone => ⟨req, tx, hjob, hfind, hnone⟩
  · rintro ⟨_, _, hfound, hfind', hnone⟩
    cases hjob.symm.trans hfound
    cases hfind.symm.trans hfind'
    exact hnone

/-- Such a call is one of the failures exactly if it runs into trouble. -/
theorem doomed_iff (h : Moment deps job history thread state op) (hbcrypt : Bcrypt deps)
    (hhealthy : choice.fail = none) {reply : op.Reply}
    (hstep : state.step deps thread choice op = some (reply, after)) :
    doomed ⟨op, reply⟩ = true ↔ Troubled job.request thread state op := by
  cases op with
  | sql conn stmt =>
    cases conn with
    | pool =>
      cases stmt with
      | updateUser arg => exact h.updateUser_doomed (World.pool_eval hhealthy hstep)
      | createSession arg => exact h.createSession_doomed (World.pool_eval hhealthy hstep)
      | _ => exact iff_of_false (by rintro ⟨⟩) not_false
    | tx =>
      cases stmt with
      | updateVerifyEmail arg => exact h.updateVerifyEmail_doomed hhealthy hstep
      | _ => exact iff_of_false (by rintro ⟨⟩) not_false
  | generateFromPassword password =>
    obtain ⟨username, hpassword⟩ := h.orderly
    have hreply : reply = deps.generateFromPassword choice.salt password := by
      simp only [World.step, World.callStep, hhealthy] at hstep
      cases hstep
      rfl
    have hlong : doomed ⟨.generateFromPassword password, reply⟩ = true ↔
        72 < password.utf8ByteSize := by
      rw [← Nat.not_le, ← hbcrypt.generates choice.salt password, ← hreply]
      cases reply with
      | error err => simp [doomed]
      | ok hashedPassword => simp [doomed]
    rw [hlong]
    refine ⟨fun hlong => ⟨username, password, hpassword, hlong⟩, ?_⟩
    rintro ⟨_, found, hfound, hlong⟩
    cases hpassword.symm.trans hfound
    exact hlong
  | begin | commit | rollback | newRandom | encrypt _ | enqueue _ | randomString _ | sendEmail _ =>
    exact iff_of_false (by rintro ⟨⟩) not_false

end Moment

/-- Whoever meets no failure gets the replies of a healthy environment. -/
theorem healthy_of_undisturbed {deps : Deps} {w : World} {config : ServiceConfig} {thread : Nat}
    {job : Job} {ok : ServiceConfig → Event Job Choice External → Prop} (htxs : w.txs = .empty)
    (husers : w.db.users = .empty) (hlinks : w.db.verifyEmails = .empty)
    (hreach : (service deps).Reach ok (.initial w) config) (hjob : config.job? thread = some job)
    (hrpc : job.IsRpc) (hundisturbed : Undisturbed deps config thread) :
    ∀ exchange ∈ config.history thread, Healthy job exchange.op exchange.reply := by
  intro exchange hmem
  obtain ⟨taken, htaken, heq, rfl⟩ := Config.mem_history.mp hmem
  obtain ⟨history, hknown⟩ := moment_of_trace htxs husers hlinks hreach hjob hrpc htaken heq
  obtain ⟨choice, hhealthy, hstep⟩ := hundisturbed taken htaken heq
  exact hknown.healthy hhealthy (heq ▸ hstep)

/-- When nothing outside the system fails, a gRPC method replies Internal exactly
if one of its calls runs into trouble. -/
theorem internal_iff_troubled {deps : Deps} {w : World} {config : ServiceConfig} {thread : Nat}
    {job : Job} {response : Response} (hbcrypt : Bcrypt deps) (htxs : w.txs = .empty)
    (husers : w.db.users = .empty) (hlinks : w.db.verifyEmails = .empty)
    (hreach : (service deps).Reachable (.initial w) config) (hrpc : job.IsRpc)
    (hthread : config.threads[thread]? = some ⟨job, .done response⟩)
    (hundisturbed : Undisturbed deps config thread) :
    response.internal = true ↔ ∃ taken ∈ config.trace, taken.thread = thread ∧
      Troubled job.request thread taken.before taken.exchange.op := by
  have hjob : config.job? thread = some job := by simp [Config.job?, hthread]
  have hblames : response.internal = (config.history thread).any doomed :=
    (serve_blames hrpc).reaches (hreach.follows.reaches thread job _ hthread)
      (healthy_of_undisturbed htxs husers hlinks hreach hjob hrpc hundisturbed)
  have hdoomed : ∀ taken ∈ config.trace, taken.thread = thread →
      (doomed taken.exchange = true ↔ Troubled job.request thread taken.before taken.exchange.op) := by
    intro taken htaken heq
    obtain ⟨history, hknown⟩ := moment_of_trace htxs husers hlinks hreach hjob hrpc htaken heq
    obtain ⟨choice, hhealthy, hstep⟩ := hundisturbed taken htaken heq
    exact (heq ▸ hknown).doomed_iff hbcrypt hhealthy hstep
  rw [hblames, List.any_eq_true]
  constructor
  · rintro ⟨exchange, hmem, hdoom⟩
    obtain ⟨taken, htaken, heq, rfl⟩ := Config.mem_history.mp hmem
    exact ⟨taken, htaken, heq, (hdoomed taken htaken heq).mp hdoom⟩
  · rintro ⟨taken, htaken, heq, htroubled⟩
    exact ⟨taken.exchange, Config.mem_history.mpr ⟨taken, htaken, heq, rfl⟩,
      (hdoomed taken htaken heq).mpr htroubled⟩

theorem undisturbed_of_reach {deps : Deps} {w : World} {config : ServiceConfig}
    (hreach : (service deps).Reach (fun _ event => ∀ thread choice, event = .run thread choice →
      choice.fail = none) (.initial w) config) (thread : Nat) : Undisturbed deps config thread := by
  rintro taken hmem rfl
  obtain ⟨_, choice, hhealthy, hstep⟩ := hreach.steps_ok taken hmem
  exact ⟨choice, hhealthy _ choice rfl, hstep⟩

namespace Sample

/-- Somebody opens a link that does not exist. -/
def deadLink : List (Event Job Choice External) :=
  [.arrive ⟨.rpcVerifyEmail ⟨1, code⟩, 0⟩, .run 0 {}, .run 0 {}, .run 0 {}]

theorem deadLink_runs : ((service hashing).run (.initial nobody) deadLink).isSome = true := by
  decide +kernel

def atDeadLink : ServiceConfig := ((service hashing).run (.initial nobody) deadLink).get deadLink_runs

theorem atDeadLink_reach : (service hashing).Reach (fun _ event => ∀ thread choice,
    event = .run thread choice → choice.fail = none) (.initial nobody) atDeadLink := by
  refine System.Reach.extend .start ?_ (Option.some_get deadLink_runs).symm
  intro event hmem config thread choice heq
  subst heq
  simp [deadLink] at hmem
  rw [hmem.2]

theorem deadLink_isRpc : Job.IsRpc ⟨.rpcVerifyEmail ⟨1, code⟩, 0⟩ := trivial

def deadLinkReply : Gapi.Status := Gapi.statusError .internal "failed to verify email"

theorem atDeadLink_replied : atDeadLink.threads[0]? = some ⟨⟨.rpcVerifyEmail ⟨1, code⟩, 0⟩,
    .done (.rpc (.error deadLinkReply))⟩ := by
  rfl

end Sample

/-- A method may reply Internal although nothing outside the system has failed. -/
theorem internal_undisturbed : ¬∀ (deps : Deps) (w : World) (config : ServiceConfig) (thread : Nat)
    (job : Job) (response : Response), Bcrypt deps → w.txs = .empty → w.db.users = .empty →
    w.db.verifyEmails = .empty → (service deps).Reachable (.initial w) config → job.IsRpc →
    config.threads[thread]? = some ⟨job, .done response⟩ → Undisturbed deps config thread →
    response.internal = false := by
  intro h
  have hinternal := h _ _ _ 0 _ _ Sample.hashing_bcrypt rfl rfl rfl
    Sample.atDeadLink_reach.reachable Sample.deadLink_isRpc Sample.atDeadLink_replied
    (undisturbed_of_reach Sample.atDeadLink_reach 0)
  cases hinternal

theorem internal_iff_troubled_sample : (Response.rpc (.error Sample.deadLinkReply)).internal = true ↔
    ∃ taken ∈ Sample.atDeadLink.trace, taken.thread = 0 ∧
      Troubled (.rpcVerifyEmail ⟨1, Sample.code⟩) 0 taken.before taken.exchange.op :=
  internal_iff_troubled Sample.hashing_bcrypt rfl rfl rfl Sample.atDeadLink_reach.reachable
    Sample.deadLink_isRpc Sample.atDeadLink_replied
    (undisturbed_of_reach Sample.atDeadLink_reach 0)

end SimpleBank
