import SimpleBank.Effects

/-! How the row of a user comes about and changes, call by call. -/
namespace SimpleBank
open Library Db

/-- The row that `CreateUser` inserts. -/
def Db.CreateUserParams.Inserts (arg : CreateUserParams) (row : User) : Prop :=
  ∃ createdAt, row = ⟨arg.username, arg.hashedPassword, arg.fullName, arg.email, zeroTime, createdAt,
    false, Util.depositorRole⟩

/-- What a gRPC registration inserts, given the hash of its password. -/
def Gapi.CreateUserRequest.params (req : Gapi.CreateUserRequest) (hashedPassword : String) :
    CreateUserParams :=
  ⟨req.username, hashedPassword, req.fullName, req.email⟩

def sendVerifyEmailTask (username : String) : Worker.Task :=
  ⟨Worker.taskSendVerifyEmail, ⟨username⟩, Gapi.sendVerifyEmailOpts⟩

/-- How a call of a request changes the row of a user. -/
inductive UserChange (deps : Deps) (job : Job) (history : History) :
    Exchange Op Op.Reply → Option User → User → Prop
  | created (arg : CreateUserParams) (row : User) : PoolOwes deps job history (.createUser arg) →
      arg.Inserts row →
      UserChange deps job history ⟨.sql .pool (.createUser arg), .ok row⟩ none row
  | registered (req : Gapi.CreateUserRequest) (hashedPassword : String) (row : User) :
      job.request = .rpcCreateUser req →
      Said history (.generateFromPassword req.password) (.ok hashedPassword) →
      (req.params hashedPassword).Inserts row →
      Said history (.enqueue (sendVerifyEmailTask req.username)) (.ok ()) →
      UserChange deps job history ⟨.commit, .ok ()⟩ none row
  | updated (arg : UpdateUserParams) (user : User) : PoolOwes deps job history (.updateUser arg) →
      user.username = arg.username →
      UserChange deps job history ⟨.sql .pool (.updateUser arg), .ok (arg.apply user)⟩ (some user)
        (arg.apply user)
  | verified (arg : VerifyEmailTxParams) (user : User) : job.link = some arg →
      UserChange deps job history ⟨.commit, .ok ()⟩ (some user) { user with isEmailVerified := true }

section Users

variable {deps : Deps} {ok : ServiceConfig → Event Job Choice External → Prop} {w : World}
  {config next : ServiceConfig} {thread : Nat} {job : Job}

/-- A write to one row of the users, seen from another or from itself. -/
theorem find?_put_user_cases (users : Table String User User.username) (row : User)
    (username : String) : (users.put row).find? username = users.find? username ∨
      username = row.username ∧ (users.put row).find? username = some row := by
  rw [Table.find?_put]
  split
  · rename_i heq
    exact .inr ⟨heq, rfl⟩
  · exact .inl rfl

/-- What a statement outside a transaction does to the row of a user. -/
theorem userChange_of_pool {stmt : Stmt} {result : stmt.Result} {generated : Int} {now : Time}
    {db : Database} {history : History} (howes : PoolOwes deps job history stmt)
    (hyields : stmt.Yields generated now db result) (username : String) :
    (Store.write db (stmt.written result)).users.find? username = db.users.find? username ∨
    ∃ row, (Store.write db (stmt.written result)).users.find? username = some row ∧
      UserChange deps job history ⟨.sql .pool stmt, .ok result⟩ (db.users.find? username) row := by
  cases stmt with
  | createUser arg =>
    obtain ⟨hnone, hrow⟩ := hyields
    rcases find?_put_user_cases db.users result username with hsame | ⟨heq, hput⟩
    · exact .inl hsame
    · refine .inr ⟨result, hput, ?_⟩
      have hfresh : db.users.find? username = none := by
        rw [heq, hrow]
        exact Option.map_eq_none_iff.mp hnone
      rw [hfresh]
      exact .created arg result howes ⟨now, hrow⟩
  | updateUser arg =>
    obtain ⟨user, huser, rfl⟩ := hyields
    have hname : user.username = arg.username :=
      (Table.find?_mem (Database.lookup_user.mp huser)).2
    rcases find?_put_user_cases db.users (arg.apply user) username with hsame | ⟨heq, hput⟩
    · exact .inl hsame
    · refine .inr ⟨arg.apply user, hput, ?_⟩
      have hold : db.users.find? username = some user := by
        rw [heq]
        exact hname ▸ Database.lookup_user.mp huser
      rw [hold]
      exact .updated arg user howes hname
  | addAccountBalance _ | createEntry _ | createTransfer _ | updateVerifyEmail _ =>
    exact howes.elim
  | getUser _ | createAccount _ | getAccount _ | listAccounts _ | createSession _ | getSession _
    | createVerifyEmail _ => exact .inl rfl

/-- What a commit does to the row of a user. -/
theorem userChange_of_commits {history : History} {calls : List Execution} {startedAt : Time}
    {db : Database} (hcommits : Commits deps job history (calls.map Execution.ran))
    (hreplays : Statements.Replays db calls) (hnow : ∀ call ∈ calls, call.now = startedAt)
    (username : String) :
    (Store.write db (Statements.writtenBy Database calls)).users.find? username =
        db.users.find? username ∨
    ∃ row, (Store.write db (Statements.writtenBy Database calls)).users.find? username = some row ∧
      UserChange deps job history ⟨.commit, .ok ()⟩ (db.users.find? username) row := by
  cases hcommits with
  | transfer arg result _ _ hran =>
    rw [(transferApplied_of_replays hreplays hran hnow).database]
    exact .inl rfl
  | verifyEmail arg result hlink hran =>
    obtain ⟨link, user, -, -, huser, hdb⟩ := verified_of_replays hreplays hran hnow
    rw [hdb]
    rcases find?_put_user_cases db.users { user with isEmailVerified := true } username
      with hsame | ⟨heq, hput⟩
    · exact .inl hsame
    · refine .inr ⟨_, hput, ?_⟩
      have hname : user.username = link.username := (Table.find?_mem huser).2
      have hold : db.users.find? username = some user := by
        rw [heq]
        exact hname ▸ huser
      rw [hold]
      exact .verified arg user hlink
  | createUser req hashedPassword user hjob hhash hcalls =>
    obtain ⟨hran, htask⟩ := hcalls
    obtain ⟨_, later, ⟨hnone, huser⟩, hran, -, -, hdb⟩ := replays_cons_ran hreplays hran hnow
    rw [hdb, replays_nil_ran hran]
    rcases find?_put_user_cases db.users user username with hsame | ⟨heq, hput⟩
    · exact .inl hsame
    · refine .inr ⟨user, hput, ?_⟩
      have hname : user.username = req.username := congrArg User.username huser
      have hfresh : db.users.find? username = none := by
        rw [heq, hname]
        exact Option.map_eq_none_iff.mp hnone
      rw [hfresh]
      refine .registered req hashedPassword user hjob hhash ⟨startedAt, huser⟩ ?_
      rw [hname] at htask
      exact htask

/-- Everything a call of a served request does to the row of a user. -/
theorem userChange_of_takes (hstart : w.txs = .empty)
    (hreach : (service deps).Reach ok (.initial w) config) {op : Op} {reply : op.Reply}
    (htakes : (service deps).Takes config thread job op reply next) (username : String) :
    next.world.db.users.find? username = config.world.db.users.find? username ∨
    ∃ row, next.world.db.users.find? username = some row ∧
      UserChange deps job (config.history thread) ⟨op, reply⟩
        (config.world.db.users.find? username) row := by
  have hregular := Regular.reach hstart hreach
  have howes := (service_verified deps).at_call hreach htakes
  have hstep : config.world.step deps thread htakes.choice op = some (reply, next.world) :=
    htakes.step_eq
  have nothing : committed (openTx (config.history thread)) ⟨op, reply⟩ = [] →
      next.world.db.users.find? username = config.world.db.users.find? username := by
    intro hnil
    rw [World.step_db_of_committed_nil hregular.sound (hregular.tracks thread) hstep hnil]
  cases op with
  | sql conn stmt =>
    cases conn with
    | pool =>
      cases reply with
      | error err => exact .inl (nothing (by cases openTx (config.history thread) <;> rfl))
      | ok result =>
        obtain ⟨_, _, hyields, hdb⟩ := World.pool_executes hstep
        rw [hdb]
        exact userChange_of_pool howes hyields username
    | tx => exact .inl (nothing (by cases openTx (config.history thread) <;> rfl))
  | commit =>
    cases reply with
    | error err => exact .inl (nothing (by cases openTx (config.history thread) <;> rfl))
    | ok value =>
      obtain ⟨tx, -, hopen, hreplays, hnow, hdb⟩ :=
        World.commit_executes hregular.sound (hregular.tracks thread) hstep
      obtain ⟨calls, hcalls, hcommits⟩ := howes
      cases hopen.symm.trans hcalls
      rw [hdb]
      exact userChange_of_commits hcommits hreplays hnow username
  | begin | rollback | generateFromPassword _ | newRandom | encrypt _ | enqueue _
    | randomString _ | sendEmail _ =>
    exact .inl (nothing (by cases openTx (config.history thread) <;> rfl))

end Users
end SimpleBank
