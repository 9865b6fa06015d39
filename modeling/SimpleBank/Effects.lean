import SimpleBank.Handlers
import SimpleBank.Ledger
import SimpleBank.Runs

/-! What the served requests do to the committed tables: one constructor for
each kind of write, with the reason the request had for it. -/
namespace SimpleBank
open Library Db

abbrev ServiceConfig := Config Op Op.Reply World Job Response

/-- A transfer that is being committed, and the accounts as they are by now. -/
structure Payment (deps : Deps) (job : Job) (db db' : Database) where
  arg : TransferTxParams
  result : TransferTxResult
  payload : Token.Payload
  fromAccount : Account
  toAccount : Account
  requested : job.transfer = some arg
  positive : 0 < arg.amount
  bearer : job.bearer deps = some payload
  from_eq : db.accounts.find? arg.fromAccountID = some fromAccount
  to_eq : db.accounts.find? arg.toAccountID = some toAccount
  owned : fromAccount.owner = payload.username
  sameCurrency : fromAccount.currency = toAccount.currency
  supported : Util.isSupportedCurrency fromAccount.currency = true
  applied : TransferApplied db arg result db'

/-- The request is a registration, by either API. -/
def Job.Registers (job : Job) : Prop :=
  (∃ body, job.request = .createUser body) ∨ ∃ req, job.request = .rpcCreateUser req

theorem Job.Registers.transfer_eq_none {job : Job} (h : job.Registers) : job.transfer = none := by
  rcases h with ⟨body, hjob⟩ | ⟨req, hjob⟩
  · simp [Job.transfer, hjob]
  · simp [Job.transfer, hjob]

theorem Job.Registers.link_eq_none {job : Job} (h : job.Registers) : job.link = none := by
  rcases h with ⟨body, hjob⟩ | ⟨req, hjob⟩
  · simp [Job.link, hjob]
  · simp [Job.link, hjob]

theorem Job.transfer_eq_none_of_link {job : Job} {arg : VerifyEmailTxParams}
    (h : job.link = some arg) : job.transfer = none := by
  unfold Job.link at h
  split at h
  · rename_i hjob
    simp [Job.transfer, hjob]
  · cases h

/-- How a call of a request changes the committed tables. -/
inductive Change (deps : Deps) (job : Job) (history : History) (w : World) (thread : Nat) :
    Exchange Op Op.Reply → Database → Prop
  | nothing {exchange : Exchange Op Op.Reply} : exchange ≠ ⟨.commit, .ok ()⟩ →
      Change deps job history w thread exchange w.db
  | user {exchange : Exchange Op Op.Reply} (row : User) : job.Registers →
      w.db.users.find? row.username = none → row.isEmailVerified = false →
      Change deps job history w thread exchange (w.db.put (.user row))
  | profile (arg : UpdateUserParams) (user : User) : PoolOwes deps job history (.updateUser arg) →
      w.db.users.find? arg.username = some user →
      Change deps job history w thread ⟨.sql .pool (.updateUser arg), .ok (arg.apply user)⟩
        (w.db.put (.user (arg.apply user)))
  | account (arg : CreateAccountParams) (row : Account) :
      w.db.accounts.find? row.id = none → row.balance = 0 →
      Util.isSupportedCurrency row.currency = true →
      Change deps job history w thread ⟨.sql .pool (.createAccount arg), .ok row⟩
        (w.db.put (.account row))
  | session (arg : CreateSessionParams) (row : Session) : w.db.sessions.find? row.id = none →
      Change deps job history w thread ⟨.sql .pool (.createSession arg), .ok row⟩
        (w.db.put (.session row))
  | link (arg : CreateVerifyEmailParams) (row : VerifyEmail) :
      w.db.verifyEmails.find? row.id = none →
      (w.db.users.find? row.username).isSome = true → row.isUsed = false →
      Change deps job history w thread ⟨.sql .pool (.createVerifyEmail arg), .ok row⟩
        (w.db.put (.verifyEmail row))
  | payment {db' : Database} (payment : Payment deps job w.db db') :
      Change deps job history w thread ⟨.commit, .ok ()⟩ db'
  | verified (arg : VerifyEmailTxParams) (tx : Tx Execution Time) (row : VerifyEmail)
      (user : User) : job.link = some arg → w.txs.find? thread = some tx →
      w.db.verifyEmails.find? arg.emailId = some row →
      UpdateVerifyEmailParams.selects ⟨arg.emailId, arg.secretCode⟩ tx.startedAt row = true →
      w.db.users.find? row.username = some user →
      Change deps job history w thread ⟨.commit, .ok ()⟩ ((w.db.put
        (.verifyEmail { row with isUsed := true })).put (.user { user with isEmailVerified := true }))

section Change

variable {deps : Deps} {w : World} {job : Job} {history : History} {thread : Nat}

/-- A statement outside a transaction, by its kind. -/
theorem Change.of_pool {stmt : Stmt} {row : stmt.Result} {generated : Int} {now : Time}
    (howes : PoolOwes deps job history stmt) (hyields : stmt.Yields generated now w.db row) :
    Change deps job history w thread ⟨.sql .pool stmt, .ok row⟩
      (Store.write w.db (stmt.written row)) := by
  cases stmt with
  | createUser arg =>
    obtain ⟨body, req, hjob, -⟩ := howes
    obtain ⟨hnone, rfl⟩ := hyields
    exact .user _ (.inl ⟨body, hjob⟩) (Option.map_eq_none_iff.mp hnone) rfl
  | updateUser arg =>
    obtain ⟨user, huser, rfl⟩ := hyields
    exact .profile arg user howes (Database.lookup_user.mp huser)
  | createAccount arg =>
    obtain ⟨_, req, payload, -, -, rfl, hsupported⟩ := howes
    obtain ⟨⟨-, hnone⟩, -, rfl⟩ := hyields
    exact .account _ _ (Option.map_eq_none_iff.mp hnone) rfl hsupported
  | createSession arg =>
    obtain ⟨hnone, -, rfl⟩ := hyields
    exact .session _ _ (Option.map_eq_none_iff.mp hnone)
  | createVerifyEmail arg =>
    obtain ⟨⟨-, hnone⟩, huser, rfl⟩ := hyields
    refine .link _ _ (Option.map_eq_none_iff.mp hnone) ?_ rfl
    simpa [Database.lookup] using huser
  | addAccountBalance _ | createEntry _ | createTransfer _ | updateVerifyEmail _ =>
    exact howes.elim
  | getUser _ | getAccount _ | listAccounts _ | getSession _ =>
    exact .nothing (by rintro ⟨⟩)

/-- What the statements of a verification do to the tables. -/
theorem verified_of_replays {calls : List Execution} {arg : VerifyEmailTxParams}
    {result : VerifyEmailTxResult} {now : Time} {db : Database} (h : Statements.Replays db calls)
    (hran : calls.map Execution.ran = verifyEmailCalls arg result)
    (hnow : ∀ call ∈ calls, call.now = now) :
    ∃ row user, db.verifyEmails.find? arg.emailId = some row ∧
      UpdateVerifyEmailParams.selects ⟨arg.emailId, arg.secretCode⟩ now row = true ∧
      db.users.find? row.username = some user ∧
      Store.write db (Statements.writtenBy Database calls) =
        (db.put (.verifyEmail { row with isUsed := true })).put
          (.user { user with isEmailVerified := true }) := by
  obtain ⟨_, calls, hlink, hran, hnow, h, hdb⟩ := replays_cons_ran h hran hnow
  rw [hdb]
  obtain ⟨_, calls, huser, hran, -, -, hdb⟩ := replays_cons_ran h hran hnow
  rw [hdb, replays_nil_ran hran]
  obtain ⟨row, hrow, hselects, hused⟩ := hlink
  rw [hused] at huser ⊢
  obtain ⟨user, huser, hverified⟩ := huser
  rw [hverified]
  exact ⟨row, user, Database.lookup_verifyEmail.mp hrow, hselects, Database.lookup_user.mp huser, rfl⟩

end Change

section Takes

variable {deps : Deps} {ok : ServiceConfig → Event Job Choice External → Prop} {w : World}
  {config next : ServiceConfig} {thread : Nat} {job : Job}

theorem valid_of_said (hreach : (service deps).Reach ok (.initial w) config) {op : Op}
    {reply : op.Reply} (hsaid : Said (config.history thread) op reply) : Valid op reply :=
  (service_verified deps).replied hreach hsaid

/-- An account that has been read is there, and still has its owner and currency. -/
theorem account_of_said (hstart : w.txs = .empty)
    (hreach : (service deps).Reach ok (.initial w) config) {id : Int} {account : Account}
    (hsaid : Said (config.history thread) (.sql .pool (.getAccount id)) (.ok account)) :
    ∃ current, config.world.db.accounts.find? id = some current ∧
      current.owner = account.owner ∧ current.currency = account.currency := by
  obtain ⟨_, _, _, hid, -⟩ := valid_of_said hreach hsaid
  obtain ⟨current, hcurrent, hkeeps⟩ :=
    (Regular.reach hstart hreach).seen thread _ _ hsaid _ List.mem_cons_self
  cases current with
  | account current =>
    exact ⟨current, hid ▸ Database.lookup_account.mp hcurrent, hkeeps.2.1, hkeeps.2.2.1⟩
  | _ => simp [Row.Keeps] at hkeeps

/-- A request commits what it may commit. -/
theorem change_of_commits (hstart : w.txs = .empty)
    (hreach : (service deps).Reach ok (.initial w) config) {tx : Tx Execution Time}
    (hcommits : Commits deps job (config.history thread) (tx.calls.map Execution.ran))
    (hfind : config.world.txs.find? thread = some tx)
    (hreplays : Statements.Replays config.world.db tx.calls)
    (hnow : ∀ call ∈ tx.calls, call.now = tx.startedAt) :
    Change deps job (config.history thread) config.world thread ⟨.commit, .ok ()⟩
      (Store.write config.world.db (Statements.writtenBy Database tx.calls)) := by
  cases hcommits with
  | transfer arg result hrequested hmay hran =>
    obtain ⟨hpositive, payload, fromAccount, toAccount, hbearer, hfrom, hto, howner, hsame,
      hsupported⟩ := hmay
    obtain ⟨fromNow, hfromNow, hfromOwner, hfromCurrency⟩ := account_of_said hstart hreach hfrom
    obtain ⟨toNow, htoNow, -, htoCurrency⟩ := account_of_said hstart hreach hto
    exact .payment
      { arg, result, payload
        fromAccount := fromNow
        toAccount := toNow
        requested := hrequested
        positive := hpositive
        bearer := hbearer
        from_eq := hfromNow
        to_eq := htoNow
        owned := hfromOwner.trans howner
        sameCurrency := by rw [hfromCurrency, htoCurrency, hsame]
        supported := by rw [hfromCurrency, hsupported]
        applied := transferApplied_of_replays hreplays hran hnow }
  | verifyEmail arg result hlink hran =>
    obtain ⟨row, user, hrow, hselects, huser, hdb⟩ := verified_of_replays hreplays hran hnow
    rw [hdb]
    exact .verified arg tx row user hlink hfind hrow hselects huser
  | createUser req hashedPassword user hjob _ hcalls =>
    obtain ⟨_, calls, ⟨hnone, huser⟩, hran, -, -, hdb⟩ :=
      replays_cons_ran hreplays hcalls.1 hnow
    rw [hdb, replays_nil_ran hran, huser]
    exact .user _ (.inr ⟨req, hjob⟩) (Option.map_eq_none_iff.mp hnone) rfl

/-- Everything a call of a served request does to the committed tables. -/
theorem change_of_takes (hstart : w.txs = .empty)
    (hreach : (service deps).Reach ok (.initial w) config) {op : Op} {reply : op.Reply}
    (htakes : (service deps).Takes config thread job op reply next) :
    Change deps job (config.history thread) config.world thread ⟨op, reply⟩ next.world.db := by
  have hregular := Regular.reach hstart hreach
  have howes := (service_verified deps).at_call hreach htakes
  obtain ⟨choice, hstep⟩ : ∃ choice,
      config.world.step deps thread choice op = some (reply, next.world) := ⟨_, htakes.step_eq⟩
  have nothing : (⟨op, reply⟩ : Exchange Op Op.Reply) ≠ ⟨.commit, .ok ()⟩ →
      committed (openTx (config.history thread)) ⟨op, reply⟩ = [] →
      Change deps job (config.history thread) config.world thread ⟨op, reply⟩ next.world.db := by
    intro hne hnil
    rw [World.step_db_of_committed_nil hregular.sound (hregular.tracks thread) hstep hnil]
    exact .nothing hne
  cases op with
  | sql conn stmt =>
    cases conn with
    | pool =>
      cases reply with
      | error err => exact nothing (by rintro ⟨⟩) (by cases openTx (config.history thread) <;> rfl)
      | ok row =>
        obtain ⟨_, _, hyields, hdb⟩ := World.pool_executes hstep
        rw [hdb]
        exact .of_pool howes hyields
    | tx => exact nothing (by rintro ⟨⟩) (by cases openTx (config.history thread) <;> rfl)
  | commit =>
    cases reply with
    | error err => exact nothing (by rintro ⟨⟩) (by cases openTx (config.history thread) <;> rfl)
    | ok value =>
      obtain ⟨tx, hfind, hopen, hreplays, hnow, hdb⟩ :=
        World.commit_executes hregular.sound (hregular.tracks thread) hstep
      obtain ⟨calls, hcalls, hcommits⟩ := howes
      cases hopen.symm.trans hcalls
      rw [hdb]
      exact change_of_commits hstart hreach hcommits hfind hreplays hnow
  | begin | rollback | generateFromPassword _ | newRandom | encrypt _ | enqueue _
    | randomString _ | sendEmail _ =>
    exact nothing (by rintro ⟨⟩) (by cases openTx (config.history thread) <;> rfl)

/-- Every call in the trace has changed the tables in one of these ways. -/
theorem changes_of_trace (hstart : w.txs = .empty)
    (hreach : (service deps).Reach ok (.initial w) config) : ∀ taken ∈ config.trace,
      ∃ job history, config.job? taken.thread = some job ∧
        Change deps job history taken.before taken.thread taken.exchange taken.after.db := by
  intro taken hmem
  obtain ⟨job, history, hjob, -, hchange⟩ := hreach.of_trace
    (P := fun job history taken =>
      Change deps job history taken.before taken.thread taken.exchange taken.after.db)
    (fun hreach htakes => change_of_takes hstart hreach htakes) taken hmem
  exact ⟨job, history, hjob, hchange⟩

/-- What an `UpdateUser` call does, when it does something. -/
theorem profile_of_takes (hreach : (service deps).Reach ok (.initial w) config)
    {arg : UpdateUserParams} {row : User}
    (htakes : (service deps).Takes config thread job (.sql .pool (.updateUser arg)) (.ok row) next) :
    ∃ user, PoolOwes deps job (config.history thread) (.updateUser arg) ∧
      config.world.db.users.find? arg.username = some user ∧ row = arg.apply user ∧
      next.world.db = config.world.db.put (.user (arg.apply user)) := by
  have howes := (service_verified deps).at_call hreach htakes
  have hstep : config.world.step deps thread htakes.choice (.sql .pool (.updateUser arg)) =
      some (.ok row, next.world) := htakes.step_eq
  obtain ⟨_, _, ⟨user, huser, rfl⟩, hdb⟩ := World.pool_executes hstep
  exact ⟨user, howes, Database.lookup_user.mp huser, rfl, hdb⟩

/-- What is true of the tables in every run of the served requests: it does not
depend on the sessions, and no call of a request takes it back. -/
theorem database_invariant {P : Database → Prop} (hstart : w.txs = .empty) (hinit : P w.db)
    (hsession : ∀ db row, P db → P (db.put (.session row)))
    (hchange : ∀ {config : ServiceConfig} {thread : Nat} {job : Job} {choice : Choice}
      {exchange : Exchange Op Op.Reply} {db' : Database}, ok config (.run thread choice) → P config.world.db →
      Change deps job (config.history thread) config.world thread exchange db' → P db')
    (hreach : (service deps).Reach ok (.initial w) config) : P config.world.db := by
  induction hreach with
  | start => exact hinit
  | move hreach hok hmove ih =>
    rcases System.move_cases hmove with ⟨_, rfl, -, rfl⟩ | ⟨_, _, _, _, _, rfl, ⟨htakes⟩⟩ |
      ⟨change, world, rfl, hexternal, rfl⟩
    · exact ih
    · exact hchange hok ih (change_of_takes hstart hreach htakes)
    · obtain ⟨-, -, -, -, hdb | ⟨row, -, -, hdb⟩⟩ := World.external_spec hexternal
      · rw [show world.db = _ from hdb]
        exact ih
      · rw [show world.db = _ from hdb]
        exact hsession _ _ ih

/-- A property of the tables holds all along a run exactly if every call meets
the condition under which it keeps the property. -/
theorem visited_iff {P : Database → Prop} {Q : Job → Exchange Op Op.Reply → World → Prop}
    (hinit : P w.db) (hsession : ∀ db row, P (db.put (.session row)) ↔ P db)
    (hstep : ∀ {config next : ServiceConfig} {thread : Nat} {job : Job} {op : Op} {reply : op.Reply},
      (service deps).Reach ok (.initial w) config → P config.world.db →
      (service deps).Takes config thread job op reply next →
      (P next.world.db ↔ Q job ⟨op, reply⟩ config.world))
    (hreach : (service deps).Reach ok (.initial w) config) :
    (∀ world ∈ config.visited, P world.db) ↔
      ∀ taken ∈ config.trace, ∀ job, config.job? taken.thread = some job →
        Q job taken.exchange taken.before := by
  rw [Config.forall_visited]
  induction hreach with
  | start => simp [Config.initial, hinit]
  | @move config next event hreach hok hmove ih =>
    rcases System.move_cases hmove with ⟨job, rfl, -, rfl⟩ | ⟨thread, choice, job, op, reply, rfl,
      ⟨htakes⟩⟩ | ⟨change, world, rfl, hexternal, rfl⟩
    · refine ih.trans (forall₂_congr fun taken hmem => ?_)
      rw [hreach.follows.job?_arrive job hmem]
    · have hstep := fun h => hstep hreach h htakes
      simp only [htakes.trace_eq, List.mem_append, List.mem_singleton, or_imp, forall_and,
        forall_eq, htakes.job?_eq, htakes.job_eq, Option.some.injEq, forall_eq'] at ih ⊢
      rw [← ih]
      tauto
    · have hsame : P world.db ↔ P config.world.db := by
        obtain ⟨-, -, -, -, hdb | ⟨row, -, -, hdb⟩⟩ := World.external_spec hexternal
        · rw [hdb]
        · rw [hdb]
          exact hsession _ _
      rw [hsame]
      exact ih

end Takes
end SimpleBank
