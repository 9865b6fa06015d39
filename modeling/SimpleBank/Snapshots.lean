import SimpleBank.Operations

/-! What an answer shows of the accounts is how they stood at one moment after the
request was sent. -/
namespace SimpleBank
open Library Db Program

/-- The requests that are answered with accounts. -/
def Request.showsAccounts : Request → Bool
  | .createAccount _ _ | .getAccount _ _ | .listAccounts _ _ => true
  | _ => false

def Response.accounts : Response → List Account
  | .http ⟨_, .account account⟩ => [account]
  | .http ⟨_, .accounts accounts⟩ => accounts
  | _ => []

/-- A reply of the store that has these accounts, all of them the caller's. -/
inductive Finds (caller : String) : Exchange Op Op.Reply → List Account → Prop
  | opened {arg : CreateAccountParams} {account : Account} : arg.owner = caller →
      Finds caller ⟨.sql .pool (.createAccount arg), .ok account⟩ [account]
  | read {id : Int} {account : Account} : account.owner = caller →
      Finds caller ⟨.sql .pool (.getAccount id), .ok account⟩ [account]
  | listed {arg : ListAccountsParams} {accounts : List Account} : arg.owner = caller →
      Finds caller ⟨.sql .pool (.listAccounts arg), .ok accounts⟩ accounts

/-- All accounts in an answer are from one reply of the store. -/
def Shows (deps : Deps) (job : Job) (history : History) (response : Response) : Prop :=
  job.request.showsAccounts = true → response.accounts = [] ∨
    ∃ payload, job.bearer deps = some payload ∧
      ∃ exchange ∈ history, Finds payload.username exchange response.accounts

section Shows

variable {deps : Deps} {job : Job} {payload : Token.Payload}

theorem Finds.shows {history : History} {exchange : Exchange Op Op.Reply} {response : Response}
    (h : Finds payload.username exchange response.accounts)
    (hbearer : job.bearer deps = some payload) : Shows deps job (history ++ [exchange]) response :=
  fun _ => .inr ⟨payload, hbearer, exchange, List.mem_append_right _ List.mem_cons_self, h⟩

theorem createAccount_shows {body : Api.Body Api.CreateAccountRequest}
    (hbearer : job.bearer deps = some payload) :
    Always (fun _ _ => True) Valid (fun history reply => Shows deps job history (.http reply)) []
      (Api.createAccount payload body) := by
  unfold Api.createAccount
  split
  · exact fun _ => .inl rfl
  refine always_call trivial fun reply _ => ?_
  cases reply with
  | error err => exact fun _ => .inl rfl
  | ok account => exact Finds.shows (.opened rfl) hbearer

theorem getAccount_shows {uri : Api.Body Api.GetAccountRequest}
    (hbearer : job.bearer deps = some payload) :
    Always (fun _ _ => True) Valid (fun history reply => Shows deps job history (.http reply)) []
      (Api.getAccount payload uri) := by
  unfold Api.getAccount
  split
  · exact fun _ => .inl rfl
  refine always_call trivial fun reply _ => ?_
  cases reply with
  | error err => exact fun _ => .inl rfl
  | ok account =>
    dsimp only [Program.bind]
    split
    · exact fun _ => .inl rfl
    · rename_i howner
      exact Finds.shows (.read (Decidable.not_not.mp howner)) hbearer

theorem listAccounts_shows {query : Api.Body Api.ListAccountRequest}
    (hbearer : job.bearer deps = some payload) :
    Always (fun _ _ => True) Valid (fun history reply => Shows deps job history (.http reply)) []
      (Api.listAccounts payload query) := by
  unfold Api.listAccounts
  split
  · exact fun _ => .inl rfl
  refine always_call trivial fun reply _ => ?_
  cases reply with
  | error err => exact fun _ => .inl rfl
  | ok accounts => exact Finds.shows (.listed rfl) hbearer

theorem authRoute_shows {authorization : String} {handler : Token.Payload → Act Api.Reply}
    (hbearer : job.bearer deps = (Api.authMiddleware deps job.now authorization).toOption)
    (h : ∀ {payload}, job.bearer deps = some payload → Always (fun _ _ => True) Valid
      (fun history reply => Shows deps job history (.http reply)) [] (handler payload)) :
    Always (fun _ _ => True) Valid (Shows deps job) []
      (Response.http <$> Api.authRoute deps job.now authorization handler) := by
  change Always _ Valid _ [] (Api.authRoute deps job.now authorization handler >>= fun reply =>
    pure (Response.http reply))
  refine Always.bind (fun _ _ h => h) ?_
  unfold Api.authRoute
  split
  · exact fun _ => .inl rfl
  · rename_i payload hauth
    exact h (hbearer.trans (by rw [hauth]; rfl))

theorem service_shows (deps : Deps) :
    (service deps).Verified (fun _ _ _ => True) Valid (Shows deps) := by
  refine ⟨fun job => ?_, valid_of_step⟩
  obtain ⟨request, now⟩ := job
  cases request with
  | createAccount authorization body => exact authRoute_shows rfl createAccount_shows
  | getAccount authorization uri => exact authRoute_shows rfl getAccount_shows
  | listAccounts authorization query => exact authRoute_shows rfl listAccounts_shows
  | createUser _ | loginUser _ _ _ | renewAccessToken _ | createTransfer _ _ | rpcCreateUser _
  | rpcLoginUser _ _ | rpcUpdateUser _ _ | rpcVerifyEmail _ | task _ =>
    refine (Always.of_trivial _ _).mono (fun _ _ _ => trivial) fun _ _ _ hshows => ?_
    cases hshows

end Shows

section Snapshots

variable {deps : Deps} {w v : World} {thread : Nat} {choice : Choice}

theorem owner_of_evalListAccounts {db : Database} {arg : ListAccountsParams} {rows : List Account}
    (h : evalListAccounts db arg = .ok rows) {account : Account} (hmem : account ∈ rows) :
    account.owner = arg.owner := by
  unfold evalListAccounts at h
  split at h
  · cases h
  · split at h
    · cases h
    · cases h
      have hsorted := List.mem_of_mem_drop (List.mem_of_mem_take hmem)
      exact of_decide_eq_true
        (List.mem_filter.mp ((List.perm_insertionSort _ _).mem_iff.mp hsorted)).2

/-- A reply outside of a transaction is of the tables as they are. -/
theorem World.pool_answers {stmt : Stmt} {row : stmt.Result}
    (h : w.step deps thread choice (.sql .pool stmt) = some (.ok row, v)) :
    stmt.eval choice.generated w.now w.db = .ok row ∧ v.db = Store.write w.db (stmt.written row) := by
  have hhealthy : choice.fail = none := by
    cases hfail : choice.fail with
    | none => rfl
    | some err =>
      simp only [World.step, World.poolStep, hfail] at h
      cases h
  obtain ⟨generated, now, -, hdb⟩ := World.pool_executes h
  exact ⟨(World.pool_eval hhealthy h).symm, hdb⟩

/-- What has just been found is in the tables. -/
theorem Finds.present {caller : String} {accounts : List Account} {op : Op} {reply : op.Reply}
    (h : Finds caller ⟨op, reply⟩ accounts)
    (hstep : w.step deps thread choice op = some (reply, v)) : ∀ account ∈ accounts,
      account.owner = caller ∧ v.db.accounts.find? account.id = some account := by
  cases h with
  | @opened arg account howner =>
    obtain ⟨heval, hdb⟩ := World.pool_answers hstep
    obtain ⟨-, -, hrow⟩ := evalCreateAccount_eq_ok.mp heval
    intro shown hmem
    rw [List.mem_singleton.mp hmem]
    refine ⟨by rw [hrow]; exact howner, ?_⟩
    rw [hdb]
    exact Table.find?_put_self _ _
  | @read id account howner =>
    obtain ⟨heval, hdb⟩ := World.pool_answers hstep
    have hfind : w.db.accounts.find? id = some account := orNoRows_eq_ok.mp heval
    intro shown hmem
    rw [List.mem_singleton.mp hmem, hdb, (Table.find?_mem hfind).2]
    exact ⟨howner, hfind⟩
  | @listed arg accounts howner =>
    obtain ⟨heval, hdb⟩ := World.pool_answers hstep
    intro shown hmem
    rw [hdb]
    exact ⟨(owner_of_evalListAccounts heval hmem).trans howner,
      Table.find?_of_mem (mem_of_evalListAccounts heval hmem)⟩

variable {sent config : ServiceConfig} {job : Job} {response : Response}

/-- The accounts that an answer shows are the caller's, as they all stood in the
bank at one moment: after everything that had been carried out when the request
was sent, and before anything that was once it has been answered. -/
theorem accounts_at_one_moment (hstart : w.txs = .empty) (hinit : w.db.Consistent)
    (hsent : (service deps).Reach (fun _ event => Sequenced event) (.initial w) sent)
    (hnew : sent.threads.length ≤ thread)
    (hlater : (service deps).Reach (fun _ event => Sequenced event) sent config)
    (hthread : config.threads[thread]? = some ⟨job, .done response⟩)
    (hshows : job.request.showsAccounts = true) :
    ∃ operations bank, sent.operations (Job.operation deps) <+: operations ∧
      operations <+: config.operations (Job.operation deps) ∧
      Bank.machine.Performs (bankOf w.db) operations bank ∧ ∀ account ∈ response.accounts,
        (job.bearer deps).map Token.Payload.username = some account.owner ∧
        bank.holdings account.id = some account.held := by
  rcases (service_shows deps).at_end (hsent.trans hlater) hthread hshows with
    hnil | ⟨payload, hbearer, exchange, hmem, hfinds⟩
  · refine ⟨_, _, hsent.operations_prefix hlater, List.prefix_rfl,
      performs_of_reach hstart hinit (hsent.trans hlater), ?_⟩
    rw [hnil]
    exact fun account hmem => absurd hmem List.not_mem_nil
  obtain ⟨prior, next, _, -, hnext, hend, ⟨htakes⟩⟩ := hlater.taken_since hsent.follows hnew hmem
  have hreach := hsent.trans hnext
  refine ⟨_, _, hsent.operations_prefix hnext, hreach.operations_prefix hend,
    performs_of_reach hstart hinit hreach, fun account hmem => ?_⟩
  obtain ⟨howner, hfind⟩ := hfinds.present htakes.step_eq account hmem
  refine ⟨?_, ?_⟩
  · rw [hbearer, howner]
    rfl
  · simp only [bankOf, hfind, Option.map_some]

end Snapshots

/-- Alice looks at her account when her payment has been answered, and Bob's has not. -/
def Sample.inspection : List (Event Job Choice External) :=
  [.arrive ⟨.getAccount "Bearer alice" (.ok ⟨1⟩), 0⟩, .run 2 {}]

theorem Sample.inspection_runs :
    ((service Sample.deps).run Sample.answered Sample.inspection).isSome = true := by
  decide +kernel

def Sample.inspected : ServiceConfig :=
  ((service Sample.deps).run Sample.answered Sample.inspection).get Sample.inspection_runs

theorem Sample.inspected_reach : (service Sample.deps).Reach (fun _ event => Sequenced event)
    Sample.answered Sample.inspected :=
  .extend .start (by simp [Sample.inspection, Sequenced])
    (Option.some_get Sample.inspection_runs).symm

theorem Sample.inspected_replies : Sample.inspected.threads[2]? =
    some ⟨⟨.getAccount "Bearer alice" (.ok ⟨1⟩), 0⟩,
      .done (.http ⟨200, .account ⟨1, "alice", 90, "USD", 0⟩⟩)⟩ := by
  rfl

theorem accounts_at_one_moment_sample : ∃ operations bank,
    [.pay "alice" ⟨1, 2, 10⟩] <+: operations ∧
      Bank.machine.Performs (bankOf Sample.funded.db) operations bank ∧
      bank.holdings 1 = some ⟨"alice", "USD", 90⟩ := by
  obtain ⟨operations, bank, hsince, -, hperforms, hshown⟩ := accounts_at_one_moment rfl
    Sample.funded_consistent Sample.answered_reach (Nat.le_refl 2) Sample.inspected_reach
    Sample.inspected_replies rfl
  rw [Sample.answered_operations] at hsince
  exact ⟨operations, bank, hsince, hperforms, (hshown _ List.mem_cons_self).2⟩

end SimpleBank
