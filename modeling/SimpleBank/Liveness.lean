import Mathlib.Data.Prod.Lex
import SimpleBank.Deadlock
import SimpleBank.Handlers
import SimpleBank.Effects
import SimpleBank.Library.Completion

/-! Requests of all kinds in flight at once: they never wait in a circle, each of
them makes few calls, and they can all be brought to their ends. -/
namespace SimpleBank
open Library Db Program

/-- The calls that have nothing to do with a transaction. -/
def Op.Plain : Op → Prop
  | .sql .tx _ | .begin | .commit | .rollback => False
  | _ => True

/-- The calls between the begin and the end of a transaction. -/
def Op.InTx : Op → Prop
  | .sql .tx _ | .enqueue _ => True
  | _ => False

/-- The most calls a request makes; it is a transfer that makes so many. -/
def mostCalls : Nat := 9

section Makes

variable {deps : Deps} {now : Time} {allowed : Op → Prop}

theorem createUser_makes {body : Api.Body Api.CreateUserRequest} :
    (Api.createUser deps body).Makes Op.Plain 2 := by
  unfold Api.createUser
  split
  · trivial
  refine makes_call trivial fun reply => ?_
  cases reply with
  | error err => trivial
  | ok hashedPassword =>
  refine makes_call trivial fun reply => ?_
  cases reply <;> trivial

theorem createToken_makes {username role : String} {duration : Time} {tokenType : Token.TokenType} :
    (Token.createToken now username role duration tokenType).Makes Op.Plain 2 := by
  refine makes_call trivial fun reply => ?_
  cases reply with
  | error err => trivial
  | ok tokenID =>
  refine makes_call trivial fun reply => ?_
  cases reply <;> trivial

theorem loginUser_makes {userAgent clientIP : String} {body : Api.Body Api.LoginUserRequest} :
    (Api.loginUser deps now userAgent clientIP body).Makes Op.Plain 6 := by
  unfold Api.loginUser
  split
  · trivial
  refine makes_call trivial fun reply => ?_
  cases reply with
  | error err => trivial
  | ok user =>
  dsimp only [Program.bind]
  split
  · trivial
  refine createToken_makes.bind 3 ?_
  rintro (err | ⟨accessToken, accessPayload⟩)
  · trivial
  refine createToken_makes.bind 1 ?_
  rintro (err | ⟨refreshToken, refreshPayload⟩)
  · trivial
  refine makes_call trivial fun reply => ?_
  cases reply <;> trivial

theorem renewAccessToken_makes {body : Api.Body Api.RenewAccessTokenRequest} :
    (Api.renewAccessToken deps now body).Makes Op.Plain 3 := by
  unfold Api.renewAccessToken
  split
  · trivial
  split
  · trivial
  refine makes_call trivial fun reply => ?_
  cases reply with
  | error err => trivial
  | ok session =>
  dsimp only [Program.bind]
  split
  · trivial
  split
  · trivial
  split
  · trivial
  split
  · trivial
  refine createToken_makes.bind 0 ?_
  rintro (err | ⟨accessToken, accessPayload⟩) <;> trivial

theorem authRoute_makes {calls : Nat} {authorization : String} {handler : Token.Payload → Act Api.Reply}
    (h : ∀ payload, (handler payload).Makes allowed calls) :
    (Api.authRoute deps now authorization handler).Makes allowed calls := by
  unfold Api.authRoute
  split
  · exact makes_pure.mpr trivial
  · exact h _

theorem createAccount_makes {payload : Token.Payload} {body : Api.Body Api.CreateAccountRequest} :
    (Api.createAccount payload body).Makes Op.Plain 1 := by
  unfold Api.createAccount
  split
  · trivial
  refine makes_call trivial fun reply => ?_
  cases reply <;> trivial

theorem getAccount_makes {payload : Token.Payload} {uri : Api.Body Api.GetAccountRequest} :
    (Api.getAccount payload uri).Makes Op.Plain 1 := by
  unfold Api.getAccount
  split
  · trivial
  refine makes_call trivial fun reply => ?_
  cases reply with
  | error err => trivial
  | ok account =>
    dsimp only [Program.bind]
    split <;> trivial

theorem listAccounts_makes {payload : Token.Payload} {query : Api.Body Api.ListAccountRequest} :
    (Api.listAccounts payload query).Makes Op.Plain 1 := by
  unfold Api.listAccounts
  split
  · trivial
  refine makes_call trivial fun reply => ?_
  cases reply <;> trivial

theorem rpcLoginUser_makes {ctx : Gapi.Context} {req : Gapi.LoginUserRequest} :
    (Gapi.loginUser deps now ctx req).Makes Op.Plain 6 := by
  unfold Gapi.loginUser
  split
  · trivial
  refine makes_call trivial fun reply => ?_
  cases reply with
  | error err =>
    dsimp only [Program.bind]
    split <;> trivial
  | ok user =>
  dsimp only [Program.bind]
  split
  · trivial
  refine createToken_makes.bind 3 ?_
  rintro (err | ⟨accessToken, accessPayload⟩)
  · trivial
  refine createToken_makes.bind 1 ?_
  rintro (err | ⟨refreshToken, refreshPayload⟩)
  · trivial
  refine makes_call trivial fun reply => ?_
  cases reply <;> trivial

theorem updateUserWith_makes {arg : UpdateUserParams} :
    (Gapi.updateUserWith arg).Makes Op.Plain 1 := by
  refine makes_call trivial fun reply => ?_
  cases reply with
  | error err =>
    dsimp only [Program.bind]
    split <;> trivial
  | ok user => trivial

theorem rpcUpdateUser_makes {ctx : Gapi.Context} {req : Gapi.UpdateUserRequest} :
    (Gapi.updateUser deps now ctx req).Makes Op.Plain 2 := by
  unfold Gapi.updateUser
  split
  · trivial
  split
  · trivial
  split
  · trivial
  dsimp only
  split
  · exact updateUserWith_makes.mono (fun _ h => h) (Nat.le_succ _)
  · refine makes_call trivial fun reply => ?_
    cases reply with
    | error err => trivial
    | ok hashedPassword => exact updateUserWith_makes

theorem processTaskSendVerifyEmail_makes {task : Worker.Task} :
    (Worker.processTaskSendVerifyEmail task).Makes Op.Plain 4 := by
  unfold Worker.processTaskSendVerifyEmail
  refine makes_call trivial fun reply => ?_
  cases reply with
  | error err => trivial
  | ok user =>
  refine makes_call trivial fun secretCode => ?_
  refine makes_call trivial fun reply => ?_
  cases reply with
  | error err => trivial
  | ok verifyEmail =>
  refine makes_call trivial fun reply => ?_
  cases reply <;> trivial

end Makes

/-! The three that run a transaction. -/

section Transactions

variable {deps : Deps}

theorem execTx_makes {α : Type} {calls : Nat} {tx fn : Act (Except Err α)}
    (htx : tx = execTx fn) (h : fn.Makes Op.InTx calls) :
    tx.Makes (fun _ => True) (calls + 2) := by
  rw [htx]
  unfold execTx
  refine makes_call trivial fun reply => ?_
  cases reply with
  | error err => exact makes_done.mpr trivial
  | ok value =>
  refine (h.mono (fun _ _ => trivial) (Nat.le_refl _)).bind 1 fun outcome => ?_
  cases outcome <;> refine makes_call trivial fun reply => ?_ <;> cases reply <;> trivial

theorem addMoney_makes {accountID1 accountID2 : Int} {amount1 amount2 : Int64} :
    (addMoney accountID1 amount1 accountID2 amount2).Makes Op.InTx 2 := by
  refine makes_call trivial fun reply => ?_
  cases reply with
  | error err => trivial
  | ok account1 =>
  refine makes_call trivial fun reply => ?_
  cases reply <;> trivial

/-- What `TransferTx` runs in its transaction. -/
theorem transferTx_body (arg : TransferTxParams) :
    ∃ fn, transferTx arg = execTx fn ∧ fn.Makes Op.InTx 5 := by
  refine ⟨_, rfl, makes_call trivial fun reply => ?_⟩
  cases reply with
  | error err => trivial
  | ok transfer =>
  refine makes_call trivial fun reply => ?_
  cases reply with
  | error err => trivial
  | ok fromEntry =>
  refine makes_call trivial fun reply => ?_
  cases reply with
  | error err => trivial
  | ok toEntry =>
  change Makes _ _ (if arg.fromAccountID < arg.toAccountID then _ else _)
  split
  · refine addMoney_makes.bind 0 ?_
    rintro (err | accounts) <;> trivial
  · refine addMoney_makes.bind 0 ?_
    rintro (err | accounts) <;> trivial

/-- What `CreateUserTx` runs in its transaction. -/
theorem createUserTx_body (arg : CreateUserParams) (opts : List Worker.TaskOption) :
    ∃ fn, createUserTx ⟨arg, fun user => Worker.distributeTaskSendVerifyEmail ⟨user.username⟩ opts⟩ =
      execTx fn ∧ fn.Makes Op.InTx 2 := by
  refine ⟨_, rfl, makes_call trivial fun reply => ?_⟩
  cases reply with
  | error err => trivial
  | ok user =>
  refine makes_call trivial fun reply => ?_
  cases reply <;> trivial

/-- What `VerifyEmailTx` runs in its transaction. -/
theorem verifyEmailTx_body (arg : VerifyEmailTxParams) :
    ∃ fn, verifyEmailTx arg = execTx fn ∧ fn.Makes Op.InTx 2 := by
  refine ⟨_, rfl, makes_call trivial fun reply => ?_⟩
  cases reply with
  | error err => trivial
  | ok link =>
  refine makes_call trivial fun reply => ?_
  cases reply <;> trivial

theorem validAccount_makes {accountID : Int} {currency : String} :
    (Api.validAccount accountID currency).Makes (fun _ => True) 1 := by
  refine makes_call trivial fun reply => ?_
  cases reply with
  | error err => trivial
  | ok account =>
    dsimp only [Program.bind]
    split <;> trivial

theorem createTransfer_makes {payload : Token.Payload} {body : Api.Body Api.TransferRequest} :
    (Api.createTransfer payload body).Makes (fun _ => True) mostCalls := by
  unfold Api.createTransfer
  split
  · trivial
  rename_i req _
  refine validAccount_makes.bind 8 ?_
  rintro (reply | fromAccount)
  · trivial
  dsimp only
  split
  · trivial
  refine validAccount_makes.bind 7 ?_
  rintro (reply | toAccount)
  · trivial
  obtain ⟨fn, htx, hfn⟩ := transferTx_body ⟨req.fromAccountID, req.toAccountID, req.amount⟩
  refine (execTx_makes htx hfn).bind 0 ?_
  rintro (err | result) <;> trivial

theorem rpcCreateUser_makes {req : Gapi.CreateUserRequest} :
    (Gapi.createUser deps req).Makes (fun _ => True) 5 := by
  unfold Gapi.createUser
  split
  · trivial
  refine makes_call trivial fun reply => ?_
  cases reply with
  | error err => trivial
  | ok hashedPassword =>
  obtain ⟨fn, htx, hfn⟩ := createUserTx_body
    ⟨req.username, hashedPassword, req.fullName, req.email⟩ Gapi.sendVerifyEmailOpts
  refine (execTx_makes htx hfn).bind 0 ?_
  rintro (err | user)
  · dsimp only
    split <;> trivial
  · trivial

theorem rpcVerifyEmail_makes {req : Gapi.VerifyEmailRequest} :
    (Gapi.verifyEmail req).Makes (fun _ => True) 4 := by
  unfold Gapi.verifyEmail
  split
  · trivial
  obtain ⟨fn, htx, hfn⟩ := verifyEmailTx_body ⟨req.emailId, req.secretCode⟩
  refine (execTx_makes htx hfn).bind 0 ?_
  rintro (err | result) <;> trivial

end Transactions

/-- Every request is plain, or one of the three. -/
theorem plain_or_transacts (deps : Deps) (job : Job) : (serve deps job).Makes Op.Plain mostCalls ∨
    (∃ authorization body, job.request = .createTransfer authorization body) ∨
    (∃ req, job.request = .rpcCreateUser req) ∨ ∃ req, job.request = .rpcVerifyEmail req := by
  obtain ⟨request, now⟩ := job
  have plain : ∀ {α : Type} {program : Act α} {calls : Nat} (f : α → Response),
      program.Makes Op.Plain calls → calls ≤ mostCalls → (f <$> program).Makes Op.Plain mostCalls :=
    fun f h hle => (h.mono (fun _ h => h) hle).map f
  cases request with
  | createUser body => exact .inl (plain _ createUser_makes (by decide))
  | loginUser userAgent clientIP body => exact .inl (plain _ loginUser_makes (by decide))
  | renewAccessToken body => exact .inl (plain _ renewAccessToken_makes (by decide))
  | createAccount authorization body =>
    exact .inl (plain _ (authRoute_makes fun _ => createAccount_makes) (by decide))
  | getAccount authorization uri =>
    exact .inl (plain _ (authRoute_makes fun _ => getAccount_makes) (by decide))
  | listAccounts authorization query =>
    exact .inl (plain _ (authRoute_makes fun _ => listAccounts_makes) (by decide))
  | createTransfer authorization body => exact .inr (.inl ⟨authorization, body, rfl⟩)
  | rpcCreateUser req => exact .inr (.inr (.inl ⟨req, rfl⟩))
  | rpcLoginUser ctx req => exact .inl (plain _ rpcLoginUser_makes (by decide))
  | rpcUpdateUser ctx req => exact .inl (plain _ rpcUpdateUser_makes (by decide))
  | rpcVerifyEmail req => exact .inr (.inr (.inr ⟨req, rfl⟩))
  | task task => exact .inl (plain _ processTaskSendVerifyEmail_makes (by decide))

theorem serve_makes (deps : Deps) (job : Job) :
    (serve deps job).Makes (fun _ => True) mostCalls := by
  rcases plain_or_transacts deps job with hplain | ⟨authorization, body, hjob⟩ | ⟨req, hjob⟩ |
    ⟨req, hjob⟩
  · exact hplain.mono (fun _ _ => trivial) (Nat.le_refl _)
  · rw [serve, hjob]
    exact (authRoute_makes fun _ => createTransfer_makes).map _
  · rw [serve, hjob]
    exact (rpcCreateUser_makes.mono (fun _ h => h) (by decide)).map _
  · rw [serve, hjob]
    exact (rpcVerifyEmail_makes.mono (fun _ h => h) (by decide)).map _

/-! What each call finds open. -/

/-- A statement that follows `calls` in one of the three transactions. -/
inductive Orders (calls : List Ran) (stmt : Stmt) : Prop
  | transfer : Ascending calls stmt → Orders calls stmt
  | verifyEmail (arg : VerifyEmailTxParams) : VerifyEmailOrder arg calls stmt → Orders calls stmt
  | createUser (arg : CreateUserParams) : CreateUserOrder arg calls stmt → Orders calls stmt

/-- A statement outside of a transaction is run with none open. -/
def InOrder (history : History) : Op → Prop
  | .sql .tx stmt => ∃ calls, openTx history = some calls ∧ Orders calls stmt
  | .sql .pool _ | .begin => openTx history = none
  | _ => True

section InOrder

variable {deps : Deps} {history later : History}

theorem inOrder_of_txOwes {orders : List Ran → Stmt → Prop} {commits : History → List Ran → Prop}
    (horders : ∀ calls stmt, orders calls stmt → Orders calls stmt) (hopen : openTx history = none)
    {op : Op} (h : TxOwes orders commits history later op) : InOrder later op := by
  cases op with
  | sql conn stmt =>
    cases conn with
    | pool => exact h.elim
    | tx =>
      obtain ⟨calls, hwithin, horder⟩ := h
      exact ⟨calls, hwithin.opened, horders calls stmt horder⟩
  | begin =>
    cases h
    exact hopen
  | commit | rollback | enqueue _ => trivial
  | generateFromPassword _ | newRandom | encrypt _ | randomString _ | sendEmail _ => exact h.elim

theorem openTx_plain (hopen : openTx history = none) {exchange : Exchange Op Op.Reply}
    (hplain : exchange.op.Plain) : openTx (history ++ [exchange]) = none := by
  rw [openTx_append, hopen]
  obtain ⟨op, reply⟩ := exchange
  cases op with
  | sql conn stmt =>
    cases conn with
    | pool => rfl
    | tx => exact hplain.elim
  | begin | commit | rollback => exact hplain.elim
  | generateFromPassword _ | newRandom | encrypt _ | enqueue _ | randomString _ | sendEmail _ => rfl

theorem inOrder_plain (hopen : openTx history = none) {op : Op} (hplain : op.Plain) :
    InOrder history op := by
  cases op with
  | sql conn stmt =>
    cases conn with
    | pool => exact hopen
    | tx => exact hplain.elim
  | begin => exact hplain.elim
  | _ => trivial

theorem inOrder_of_makes {α : Type} {program : Act α} {calls : Nat}
    (h : program.Makes Op.Plain calls) :
    Always InOrder Valid (fun _ _ => True) [] program := by
  refine (h.always (P := fun later => openTx later = none) ?_ ?_ rfl).mono (fun _ _ h => h)
    fun _ _ _ => trivial
  · exact fun _ _ hopen hplain => inOrder_plain hopen hplain
  · exact fun _ _ hopen hplain => openTx_plain hopen hplain

theorem validAccount_inOrder {accountID : Int} {currency : String} (hopen : openTx history = none) :
    Always InOrder Valid (fun later _ => openTx later = none) history
      (Api.validAccount accountID currency) := by
  refine always_call hopen fun reply _ => ?_
  have hafter := openTx_pool hopen (.getAccount accountID) reply
  cases reply with
  | error err => exact hafter
  | ok account =>
    dsimp only [Program.bind]
    split <;> exact hafter

theorem createTransfer_inOrder {payload : Token.Payload} {body : Api.Body Api.TransferRequest} :
    Always InOrder Valid (fun _ _ => True) []
      (Api.createTransfer payload body) := by
  unfold Api.createTransfer
  split
  · trivial
  refine Always.bind ?_ (validAccount_inOrder rfl)
  rintro read (reply | fromAccount) hread
  · trivial
  dsimp only
  split
  · trivial
  refine Always.bind ?_ (validAccount_inOrder hread)
  rintro checked (reply | toAccount) hchecked
  · trivial
  refine Always.bind ?_ (transferTx_always hchecked fun _ _ =>
    inOrder_of_txOwes (fun _ _ => .transfer) hchecked)
  rintro last (err | result) - <;> trivial

theorem rpcCreateUser_inOrder {req : Gapi.CreateUserRequest} :
    Always InOrder Valid (fun _ _ => True) []
      (Gapi.createUser deps req) := by
  unfold Gapi.createUser
  split
  · trivial
  refine always_call trivial fun reply _ => ?_
  cases reply with
  | error err => trivial
  | ok hashedPassword =>
  change Always _ _ _ _ (createUserTx _ >>= _)
  refine Always.bind ?_ (createUserTx_always rfl fun _ _ =>
    inOrder_of_txOwes (fun _ _ => .createUser _) rfl)
  rintro last (err | user) -
  · dsimp only
    split <;> trivial
  · trivial

theorem rpcVerifyEmail_inOrder {req : Gapi.VerifyEmailRequest} :
    Always InOrder Valid (fun _ _ => True) [] (Gapi.verifyEmail req) := by
  unfold Gapi.verifyEmail
  split
  · trivial
  refine Always.bind ?_ (verifyEmailTx_always rfl fun _ _ =>
    inOrder_of_txOwes (fun _ _ => .verifyEmail _) rfl)
  rintro last (err | result) - <;> trivial

theorem service_inOrder (deps : Deps) :
    (service deps).Verified (fun _ => InOrder) Valid fun _ _ _ => True := by
  refine ⟨fun job => ?_, valid_of_step⟩
  change Always _ _ _ [] (serve deps job)
  rcases plain_or_transacts deps job with hplain | ⟨authorization, body, hjob⟩ | ⟨req, hjob⟩ |
    ⟨req, hjob⟩
  · exact inOrder_of_makes hplain
  · have hroute : Always InOrder Valid (fun _ _ => True) []
        (Api.authRoute deps job.now authorization fun payload => Api.createTransfer payload body) := by
      unfold Api.authRoute
      split
      · trivial
      · exact createTransfer_inOrder
    rw [serve, hjob]
    exact Always.bind (fun _ _ _ => always_pure.mpr trivial) hroute
  · rw [serve, hjob]
    exact Always.bind (fun _ _ _ => always_pure.mpr trivial) rpcCreateUser_inOrder
  · rw [serve, hjob]
    exact Always.bind (fun _ _ _ => always_pure.mpr trivial) rpcVerifyEmail_inOrder

end InOrder

/-! Who waits for whom. -/

/-- A lock on an account is for an update of that account, or for a reference to it. -/
theorem Db.Stmt.account_of_requests {stmt : Stmt} {now : Time} {db : Database} {lock : Lock Key}
    {id : Int} (h : lock ∈ stmt.requests now db) (hkey : lock.key = .account id) :
    lock.mode = .keyShare ∨
      ∃ arg, stmt = .addAccountBalance arg ∧ arg.id = id ∧ lock.mode = .noKeyUpdate := by
  have shared : ∀ {k : Key}, lock ∈ Stmt.keyShare db k → lock.mode = .keyShare := by
    intro k hmem
    rw [mem_keyShare hmem]
  cases stmt with
  | createEntry arg => exact .inl (shared h)
  | createTransfer arg =>
    rcases List.mem_append.mp h with h | h
    · exact .inl (shared h)
    · exact .inl (shared h)
  | createVerifyEmail arg => exact .inl (shared h)
  | createAccount arg | createSession arg =>
    rcases List.mem_cons.mp h with rfl | h
    · cases hkey
    · exact .inl (shared h)
  | addAccountBalance arg =>
    simp only [Stmt.requests] at h
    split at h
    · cases List.mem_singleton.mp h
      cases hkey
      exact .inr ⟨arg, rfl, rfl, rfl⟩
    · cases h
  | createUser arg =>
    simp only [Stmt.requests, List.mem_cons, List.not_mem_nil, or_false] at h
    rcases h with rfl | rfl <;> cases hkey
  | updateUser arg =>
    simp only [Stmt.requests] at h
    split at h
    · split at h
      · cases List.mem_singleton.mp h
        cases hkey
      · simp only [List.mem_cons, List.not_mem_nil, or_false] at h
        rcases h with rfl | rfl | rfl <;> cases hkey
    · cases h
  | updateVerifyEmail arg =>
    simp only [Stmt.requests] at h
    split at h
    · cases List.mem_singleton.mp h
      cases hkey
    · cases h
  | getUser _ | getAccount _ | listAccounts _ | getSession _ => cases h

theorem Db.Stmt.requests_addAccountBalance {arg : AddAccountBalanceParams} {now : Time}
    {db : Database} {lock : Lock Key} (h : lock ∈ (Stmt.addAccountBalance arg).requests now db) :
    lock = ⟨.account arg.id, .noKeyUpdate⟩ := by
  simp only [Stmt.requests] at h
  split at h
  · exact List.mem_singleton.mp h
  · cases h

/-- A link is only locked by those who use it. -/
theorem Db.Stmt.requests_updateVerifyEmail {arg : UpdateVerifyEmailParams} {now : Time}
    {db : Database} {lock : Lock Key} (h : lock ∈ (Stmt.updateVerifyEmail arg).requests now db) :
    lock.key = .verifyEmail arg.id := by
  simp only [Stmt.requests] at h
  split at h
  · rw [List.mem_singleton.mp h]
  · cases h

theorem Db.Stmt.requests_updateUser {arg : UpdateUserParams} {now : Time} {db : Database}
    {lock : Lock Key} (h : lock ∈ (Stmt.updateUser arg).requests now db) (id : Int) :
    lock.key ≠ .verifyEmail id := by
  simp only [Stmt.requests] at h
  split at h
  · split at h
    · rw [List.mem_singleton.mp h]
      simp
    · simp only [List.mem_cons, List.not_mem_nil, or_false] at h
      rcases h with rfl | rfl | rfl <;> simp
  · cases h

/-- `thread` is about to run a statement that has to wait for a lock of `other`,
inside of a transaction of its own or outside of one. -/
inductive WaitsFor (config : ServiceConfig) (thread other : Nat) : Prop
  | tx : Waits config thread other → WaitsFor config thread other
  | pool (job : Job) (stmt : Stmt) (next : Except Err stmt.Result → Act Response)
      (otherTx : Tx Execution Time) :
      config.threads[thread]? = some ⟨job, .call (.sql .pool stmt) next⟩ →
      config.world.txs.find? other = some otherTx →
      blocks (stmt.requests config.world.now config.world.db)
        (Statements.lockedBy Database otherTx.calls) = true →
      WaitsFor config thread other

/-- How far a thread has come with the locks it takes. -/
def stage (config : ServiceConfig) (thread : Nat) : Nat ×ₗ Int :=
  match config.threads[thread]? with
  | some ⟨_, .call (.sql .tx (.addAccountBalance arg)) _⟩ => toLex (2, arg.id)
  | some ⟨_, .call (.sql .tx (.updateUser _)) _⟩ => toLex (1, 0)
  | _ => toLex (0, 0)

section Waiting

variable {deps : Deps} {ok : ServiceConfig → Event Job Choice External → Prop} {w : World}
  {config : ServiceConfig} {thread other third : Nat}

/-- The lock that is waited for, and the statement that waits for it. -/
theorem WaitsFor.spec (h : WaitsFor config thread other) : ∃ job conn stmt next otherTx,
    config.threads[thread]? = some ⟨job, .call (.sql conn stmt) next⟩ ∧
    config.world.txs.find? other = some otherTx ∧ ∃ now db, ∃ want ∈ stmt.requests now db,
      ∃ lock ∈ Statements.lockedBy Database otherTx.calls, want.key = lock.key ∧
        want.mode.conflicts lock.mode = true := by
  cases h with
  | tx h =>
    obtain ⟨job, stmt, next, tx, otherTx, hthread, -, -, hother, hblocks⟩ := h.blocked
    exact ⟨job, .tx, stmt, next, otherTx, hthread, hother, _, _, blocks_iff.mp hblocks⟩
  | pool job stmt next otherTx hthread hother hblocks =>
    exact ⟨job, .pool, stmt, next, otherTx, hthread, hother, _, _, blocks_iff.mp hblocks⟩

/-- A held lock has been asked for by a statement of one of the three transactions. -/
theorem orders_of_locked (hstart : w.txs = .empty)
    (hreach : (service deps).Reach ok (.initial w) config) {tx : Tx Execution Time}
    (hfind : config.world.txs.find? thread = some tx) {lock : Lock Key}
    (hlock : lock ∈ Statements.lockedBy Database tx.calls) : ∃ call ∈ tx.calls,
      (∃ earlier, Orders earlier call.stmt) ∧ ∃ db, lock ∈ call.stmt.locks call.generated call.now db := by
  obtain ⟨call, hcall, hheld⟩ := List.mem_flatMap.mp hlock
  have hheld : lock ∈ call.locks := hheld
  refine ⟨call, hcall, ?_, ?_⟩
  · have htracks := (Regular.reach hstart hreach).tracks thread
    have hmem := mem_of_openTx (htracks.of_find? hfind) call.ran (List.mem_map_of_mem hcall)
    obtain ⟨taken, htaken, hexchange⟩ := List.mem_map.mp hmem
    obtain ⟨_, _, -, howes⟩ :=
      (service_inOrder deps).owed hreach taken (List.mem_filter.mp htaken).1
    rw [hexchange] at howes
    obtain ⟨earlier, -, horders⟩ := howes
    exact ⟨earlier, horders⟩
  · rcases call.acquired with hnil | ⟨db, hlocks⟩
    · rw [hnil] at hheld
      cases hheld
    · exact ⟨db, hlocks ▸ hheld⟩

/-- What is held on an account in an open transaction is from its update, or a
reference. -/
theorem account_of_locked (hstart : w.txs = .empty)
    (hreach : (service deps).Reach ok (.initial w) config) {tx : Tx Execution Time}
    (hfind : config.world.txs.find? thread = some tx) {lock : Lock Key}
    (hlock : lock ∈ Statements.lockedBy Database tx.calls) {id : Int}
    (hkey : lock.key = .account id) : lock.mode = .keyShare ∨
      lock.mode = .noKeyUpdate ∧ ∃ call ∈ tx.calls, ∃ arg, call.stmt = .addAccountBalance arg ∧
        arg.id = id := by
  obtain ⟨call, hcall, ⟨earlier, horders⟩, db, hlocks⟩ := orders_of_locked hstart hreach hfind hlock
  rcases List.mem_append.mp hlocks with hrequest | hserial
  · rcases Stmt.account_of_requests hrequest hkey with hmode | ⟨arg, hstmt, hid, hmode⟩
    · exact .inl hmode
    · exact .inr ⟨hmode, call, hcall, arg, hstmt, hid⟩
  · obtain ⟨k, hk, rfl⟩ := List.mem_map.mp hserial
    generalize call.stmt = stmt at horders hk
    cases horders with
    | transfer h =>
      cases stmt with
      | createTransfer _ | createEntry _ =>
        cases List.mem_singleton.mp hk
        cases hkey
      | addAccountBalance _ => cases hk
      | _ => exact h.elim
    | verifyEmail arg h =>
      obtain ⟨-, rfl⟩ | ⟨_, -, rfl⟩ := h
      · cases hk
      · cases hk
    | createUser arg h =>
      obtain ⟨-, rfl⟩ := h
      cases hk

/-- Who is waited for and waits is inside of a transaction, at a statement in order. -/
theorem WaitsFor.orders (hstart : w.txs = .empty)
    (hreach : (service deps).Reach ok (.initial w) config) (hfirst : WaitsFor config thread other)
    (hsecond : WaitsFor config other third) : ∃ job stmt next tx,
      config.threads[other]? = some ⟨job, .call (.sql .tx stmt) next⟩ ∧
      config.world.txs.find? other = some tx ∧ Orders (tx.calls.map Execution.ran) stmt := by
  obtain ⟨_, _, _, _, tx, -, hfind, -⟩ := hfirst.spec
  obtain ⟨job, conn, stmt, next, _, hthread, -⟩ := hsecond.spec
  have hopen := ((Regular.reach hstart hreach).tracks other).of_find? hfind
  have howes := ((service_inOrder deps).at_thread hreach hthread).1
  cases conn with
  | pool => cases hopen.symm.trans howes
  | tx =>
    obtain ⟨calls, hcalls, horders⟩ := howes
    cases hopen.symm.trans hcalls
    exact ⟨job, stmt, next, tx, hthread, hfind, horders⟩

theorem stage_cases (config : ServiceConfig) (thread : Nat) :
    (∃ job arg next, config.threads[thread]? = some ⟨job, .call (.sql .tx (.addAccountBalance arg)) next⟩ ∧
      stage config thread = toLex (2, arg.id)) ∨
    (∃ job arg next, config.threads[thread]? = some ⟨job, .call (.sql .tx (.updateUser arg)) next⟩ ∧
      stage config thread = toLex (1, 0)) ∨
    stage config thread = toLex (0, 0) := by
  unfold stage
  split
  · exact .inl ⟨_, _, _, ‹_›, rfl⟩
  · exact .inr (.inl ⟨_, _, _, ‹_›, rfl⟩)
  · exact .inr (.inr rfl)

/-- The inserts of a transfer never wait: nobody holds more on an account than
they can share. -/
theorem not_waitsFor_insert (hstart : w.txs = .empty)
    (hreach : (service deps).Reach ok (.initial w) config) {job : Job} {stmt : Stmt}
    {next : Except Err stmt.Result → Act Response}
    (hthread : config.threads[thread]? = some ⟨job, .call (.sql .tx stmt) next⟩)
    (htransfer : OfTransfer stmt) (hinsert : ∀ arg, stmt ≠ .addAccountBalance arg) :
    ¬WaitsFor config thread other := by
  intro h
  obtain ⟨_, _, _, _, tx, hwaiting, hfind, now, db, want, hwant, lock, hlock, hkey, hmode⟩ := h.spec
  cases hthread.symm.trans hwaiting
  rcases htransfer.requests hwant with ⟨id, rfl⟩ | ⟨arg, rfl, -⟩
  · rcases account_of_locked hstart hreach hfind hlock hkey.symm with hshared | ⟨hshared, -⟩
    · rw [hshared] at hmode
      cases hmode
    · rw [hshared] at hmode
      cases hmode
  · exact hinsert arg rfl

/-- Who waits for an account waits for somebody who has updated it. -/
theorem WaitsFor.updated (hstart : w.txs = .empty)
    (hreach : (service deps).Reach ok (.initial w) config) {job : Job} {arg : AddAccountBalanceParams}
    {next : Except Err Account → Act Response} (h : WaitsFor config thread other)
    (hthread : config.threads[thread]? = some ⟨job, .call (.sql .tx (.addAccountBalance arg)) next⟩) :
    ∃ tx, config.world.txs.find? other = some tx ∧
      ⟨.account arg.id, .noKeyUpdate⟩ ∈ Statements.lockedBy Database tx.calls ∧
      ∃ call ∈ tx.calls, ∃ earlier, call.stmt = .addAccountBalance earlier ∧ earlier.id = arg.id := by
  obtain ⟨_, _, _, _, tx, hwaiting, hfind, _, _, want, hwant, lock, hlock, hkey, hmode⟩ := h.spec
  cases hthread.symm.trans hwaiting
  cases Stmt.requests_addAccountBalance hwant
  obtain ⟨k, mode⟩ := lock
  obtain rfl : Key.account arg.id = k := hkey
  rcases account_of_locked hstart hreach hfind hlock rfl with hshared | ⟨hupdate, hcall⟩
  · obtain rfl : mode = .keyShare := hshared
    cases hmode
  · obtain rfl : mode = .noKeyUpdate := hupdate
    exact ⟨tx, hfind, hlock, hcall⟩

/-- Two who wait for accounts, one for the other, go up the account ids. -/
theorem WaitsFor.id_lt (hstart : w.txs = .empty)
    (hreach : (service deps).Reach ok (.initial w) config) {job otherJob : Job}
    {arg otherArg : AddAccountBalanceParams} {next otherNext : Except Err Account → Act Response}
    {tx : Tx Execution Time} (hfirst : WaitsFor config thread other)
    (hsecond : WaitsFor config other third)
    (hthread : config.threads[thread]? = some ⟨job, .call (.sql .tx (.addAccountBalance arg)) next⟩)
    (hother : config.threads[other]? =
      some ⟨otherJob, .call (.sql .tx (.addAccountBalance otherArg)) otherNext⟩)
    (hfind : config.world.txs.find? other = some tx)
    (hascending : Ascending (tx.calls.map Execution.ran) (.addAccountBalance otherArg)) :
    arg.id < otherArg.id := by
  obtain ⟨found, hfound, hlock, call, hcall, earlier, hstmt, hearlier⟩ :=
    hfirst.updated hstart hreach hthread
  obtain ⟨thirdTx, hthird, hthirdLock, -⟩ := hsecond.updated hstart hreach hother
  cases hfind.symm.trans hfound
  have hle : earlier.id ≤ otherArg.id :=
    hascending call.ran (List.mem_map_of_mem hcall) earlier hstmt
  have hne : arg.id ≠ otherArg.id := by
    intro heq
    -- only one of two transactions holds the lock of an update
    obtain ⟨hmem, howner⟩ := Table.find?_mem hfind
    obtain ⟨hthirdMem, hthirdOwner⟩ := Table.find?_mem hthird
    have hdistinct : tx.owner ≠ thirdTx.owner := by
      rw [howner, hthirdOwner]
      rintro rfl
      cases hsecond with
      | tx h => exact h.distinct rfl
      | pool _ _ _ _ hpool _ _ => cases hother.symm.trans hpool
    have hcompatible := (Regular.reach hstart hreach).sound.isolated.compatible tx hmem thirdTx
      hthirdMem hdistinct
    have hblocks : blocks (Statements.lockedBy Database tx.calls)
        (Statements.lockedBy Database thirdTx.calls) = true :=
      blocks_iff.mpr ⟨_, hlock, _, hthirdLock, by rw [heq], rfl⟩
    rw [hcompatible] at hblocks
    cases hblocks
  omega

/-- Along a chain of those who wait, the stages go up. -/
theorem WaitsFor.stage_lt (hstart : w.txs = .empty)
    (hreach : (service deps).Reach ok (.initial w) config) (hfirst : WaitsFor config thread other)
    (hsecond : WaitsFor config other third) : stage config thread < stage config other := by
  obtain ⟨job, stmt, next, tx, hother, hfind, horders⟩ := hfirst.orders hstart hreach hsecond
  obtain ⟨_, conn, _, _, found, hthread, hfound, _, _, want, hwant, lock, hlock, hkey, -⟩ := hfirst.spec
  cases hfind.symm.trans hfound
  obtain ⟨call, hcall, -, db, hlocks⟩ := orders_of_locked hstart hreach hfind hlock
  have hran : call.ran ∈ tx.calls.map Execution.ran := List.mem_map_of_mem hcall
  cases horders with
  | transfer hascending =>
    by_cases hupdate : ∃ arg, stmt = .addAccountBalance arg
    · obtain ⟨arg, rfl⟩ := hupdate
      have hstage : stage config other = toLex (2, arg.id) := by simp [stage, hother]
      rw [hstage]
      rcases stage_cases config thread with ⟨_, earlier, _, hat, hstage⟩ | ⟨_, _, _, -, hstage⟩ | hstage
      · rw [hstage, Prod.Lex.toLex_lt_toLex]
        exact .inr ⟨rfl, hfirst.id_lt hstart hreach hsecond hat hother hfind hascending⟩
      · rw [hstage, Prod.Lex.toLex_lt_toLex]
        exact .inl Nat.one_lt_two
      · rw [hstage, Prod.Lex.toLex_lt_toLex]
        exact .inl Nat.zero_lt_two
    · exact absurd hsecond (not_waitsFor_insert hstart hreach hother hascending.ofTransfer
        fun arg h => hupdate ⟨arg, h⟩)
  | verifyEmail arg horder =>
    obtain ⟨hnil, -⟩ | ⟨link, hcalls, rfl⟩ := horder
    · rw [hnil] at hran
      cases hran
    -- the link is all that is locked by now
    rw [hcalls] at hran
    have hlink : lock.key = .verifyEmail arg.emailId := by
      have hstmt : call.stmt = .updateVerifyEmail ⟨arg.emailId, arg.secretCode⟩ :=
        congrArg Ran.stmt (List.mem_singleton.mp hran)
      rw [hstmt] at hlocks
      rcases List.mem_append.mp hlocks with hrequest | hserial
      · exact Stmt.requests_updateVerifyEmail hrequest
      · cases hserial
    have hstage : stage config other = toLex (1, 0) := by simp [stage, hother]
    rw [hstage]
    rcases stage_cases config thread with ⟨_, _, _, hat, -⟩ | ⟨_, _, _, hat, -⟩ | hstage
    · cases hat.symm.trans hthread
      rw [Stmt.requests_addAccountBalance hwant, hlink] at hkey
      cases hkey
    · cases hat.symm.trans hthread
      exact absurd (hkey.trans hlink) (Stmt.requests_updateUser hwant _)
    · rw [hstage, Prod.Lex.toLex_lt_toLex]
      exact .inl Nat.zero_lt_one
  | createUser arg horder =>
    rw [horder.1] at hran
    cases hran

end Waiting

/-! Who does not wait can go on. -/

section Progress

variable {deps : Deps} {ok : ServiceConfig → Event Job Choice External → Prop} {w : World}
  {config : ServiceConfig} {thread : Nat}

/-- No transaction but the owner's holds a lock that the statement has to wait for. -/
def World.Free (w : World) (owner : Option Nat) (stmt : Stmt) (now : Time) (db : Database) : Prop :=
  ∀ tx ∈ w.txs.rows, owner ≠ some tx.owner →
    blocks (stmt.requests now db) (Statements.lockedBy Database tx.calls) = false

theorem World.Free.grants {w : World} {owner : Option Nat} {stmt : Stmt} {generated : Int}
    {now : Time} {db : Database} (hfree : w.Free owner stmt now db)
    (hunlocked : ∀ k ∈ stmt.serialKey generated, ∀ lock ∈ w.txs.rows.flatMap fun tx =>
      Statements.lockedBy Database tx.calls, k ≠ lock.key) :
    w.grants owner (stmt.locks generated now db) = true := by
  refine List.all_eq_true.mpr fun tx hmem => ?_
  by_cases howner : owner = some tx.owner
  · simp [howner]
  · have hserial : blocks ((stmt.serialKey generated).map fun k => ⟨k, .update⟩)
        (Statements.lockedBy Database tx.calls) = false := by
      by_contra hblocks
      obtain ⟨want, hwant, lock, hlock, hkey, -⟩ := blocks_iff.mp (by simpa using hblocks)
      obtain ⟨k, hk, rfl⟩ := List.mem_map.mp hwant
      exact hunlocked k hk lock (List.mem_flatMap.mpr ⟨tx, hmem, hlock⟩) hkey
    simp [Stmt.locks, blocks_append, hfree tx hmem howner, hserial]

/-- A call that nobody is in the way of can be made, with no failure. -/
theorem World.exists_step_of_free {w : World} {history : History} {op : Op}
    (htracks : w.Tracks thread history) (horder : InOrder history op)
    (hpool : ∀ stmt, op = .sql .pool stmt → w.Free none stmt w.now w.db)
    (htx : ∀ stmt tx, op = .sql .tx stmt → w.txs.find? thread = some tx → tx.aborted = false →
      w.Free (some thread) stmt tx.startedAt (w.view tx)) :
    ∃ choice reply world, choice.fail = none ∧
      w.step deps thread choice op = some (reply, world) := by
  cases op with
  | sql conn stmt =>
    cases conn with
    | pool =>
      obtain ⟨generated, hfresh, hunlocked⟩ := exists_generated stmt w.db
        (w.txs.rows.flatMap fun other => Statements.lockedBy Database other.calls)
      have hgrants : w.grants none (Execution.perform generated w.now w.db stmt).locks = true :=
        (hpool stmt rfl).grants hunlocked
      obtain ⟨reply, world, hstep⟩ : ∃ reply world,
          w.poolStep { generated } stmt = some (reply, world) := by
        simp only [World.poolStep, hgrants, hfresh, Bool.and_true, if_true]
        exact ⟨_, _, rfl⟩
      exact ⟨{ generated }, reply, world, rfl, hstep⟩
    | tx =>
      obtain ⟨calls, hopen, -⟩ := horder
      obtain ⟨tx, hfind, -⟩ := Option.map_eq_some_iff.mp (htracks.trans hopen)
      obtain ⟨generated, hfresh, hunlocked⟩ := exists_generated stmt (w.view tx)
        (w.txs.rows.flatMap fun other => Statements.lockedBy Database other.calls)
      obtain ⟨reply, world, hstep⟩ : ∃ reply world,
          w.txStep thread { generated } stmt = some (reply, world) :=
        World.exists_txStep hfind rfl
          (fun hrunning => (htx stmt tx rfl hfind hrunning).grants hunlocked) hfresh
      exact ⟨{ generated }, reply, world, rfl, hstep⟩
  | begin =>
    have hnone : w.txs.find? thread = none := Option.map_eq_none_iff.mp (htracks.trans horder)
    obtain ⟨reply, world, hstep⟩ : ∃ reply world, w.beginStep thread {} = some (reply, world) := by
      simp only [World.beginStep, hnone, Option.isNone_none, if_true]
      exact ⟨_, _, rfl⟩
    exact ⟨{}, reply, world, rfl, hstep⟩
  | randomString n =>
    exact ⟨{ letters := List.replicate n 0 }, Util.randomString (List.replicate n 0), w, rfl,
      if_pos List.length_replicate⟩
  | commit | rollback | generateFromPassword _ | newRandom | encrypt _ | enqueue _ | sendEmail _ =>
    exact ⟨{}, _, _, rfl, rfl⟩

/-- A request that does not wait can make its next call, with no failure. -/
theorem exists_move_of_free (hstart : w.txs = .empty)
    (hreach : (service deps).Reach ok (.initial w) config) (hunfinished : config.Unfinished thread)
    (hfree : ∀ other, ¬WaitsFor config thread other) :
    ∃ choice next, choice.fail = none ∧
      (service deps).move config (.run thread choice) = some next := by
  obtain ⟨job, op, next, hthread⟩ := hunfinished
  have htracks := (Regular.reach hstart hreach).tracks thread
  have horder := ((service_inOrder deps).at_thread hreach hthread).1
  obtain ⟨choice, reply, world, hhealthy, hstep⟩ : ∃ choice reply world, choice.fail = none ∧
      config.world.step deps thread choice op = some (reply, world) := by
    refine World.exists_step_of_free htracks horder ?_ ?_
    · rintro stmt rfl tx hmem -
      by_contra hblocks
      exact hfree tx.owner (.pool job stmt next tx hthread (Table.find?_of_mem hmem)
        (by simpa using hblocks))
    · rintro stmt tx rfl hfind hrunning other hmem hother
      by_contra hblocks
      exact hfree other.owner (.tx ⟨fun heq => hother (congrArg some heq), job, stmt, next, tx,
        other, hthread, hfind, hrunning, Table.find?_of_mem hmem, by simpa using hblocks⟩)
  obtain ⟨next, hmove⟩ : ∃ next, (service deps).move config (.run thread choice) = some next :=
    System.exists_move hthread hstep
  exact ⟨choice, next, hhealthy, hmove⟩

/-- A request that has ended has closed its transaction. -/
theorem closed_of_finished (hreach : (service deps).Reach ok (.initial w) config)
    (hfinished : ¬config.Unfinished thread) : openTx (config.history thread) = none := by
  cases hthread : config.threads[thread]? with
  | none =>
    rw [hreach.follows.fresh thread (List.getElem?_eq_none_iff.mp hthread)]
    rfl
  | some state =>
    obtain ⟨job, program⟩ := state
    cases program with
    | call op next => exact absurd ⟨job, op, next, hthread⟩ hfinished
    | done response =>
      have hends : Ends (config.history thread) response :=
        (service_verified deps).at_end hreach hthread
      cases response with
      | http reply => exact Settled.closed hends
      | rpc reply => exact Settled.closed hends
      | task result => exact hends.1

/-- A request that is waited for is not at its end. -/
theorem WaitsFor.unfinished (hstart : w.txs = .empty)
    (hreach : (service deps).Reach ok (.initial w) config) {other : Nat}
    (h : WaitsFor config thread other) : config.Unfinished other := by
  obtain ⟨_, _, _, _, tx, -, hfind, -⟩ := h.spec
  by_contra hfinished
  have hopen := ((Regular.reach hstart hreach).tracks other).of_find? hfind
  cases hopen.symm.trans (closed_of_finished hreach hfinished)

theorem Library.Config.Unfinished.lt (h : config.Unfinished thread) :
    thread < config.threads.length := by
  obtain ⟨job, op, next, hthread⟩ := h
  obtain ⟨hlt, -⟩ := List.getElem?_eq_some_iff.mp hthread
  exact hlt

/-- As long as some request is unfinished, one of them can go on. -/
theorem exists_free (hstart : w.txs = .empty)
    (hreach : (service deps).Reach ok (.initial w) config) (hunfinished : config.Unfinished thread) :
    ∃ other, config.Unfinished other ∧ ∀ third, ¬WaitsFor config other third := by
  classical
  have hmembers : ∀ other,
      other ∈ (Finset.range config.threads.length).filter config.Unfinished ↔
        config.Unfinished other := by
    intro other
    rw [Finset.mem_filter, Finset.mem_range]
    exact ⟨And.right, fun h => ⟨h.lt, h⟩⟩
  obtain ⟨other, hother, hfree⟩ := exists_not_waiting
    (fun _ _ _ hfirst hsecond => WaitsFor.stage_lt hstart hreach hfirst hsecond)
    ⟨thread, (hmembers thread).mpr hunfinished⟩
    fun _ _ other hwaits => (hmembers other).mpr (hwaits.unfinished hstart hreach)
  exact ⟨other, (hmembers other).mp hother, hfree⟩

/-- However many requests are in flight: nobody waits in a circle and nobody makes
many calls; whoever waits for nobody can make its next call, and there is somebody
who does unless all have ended; all can be brought to their ends without any
failure, which leaves no transaction open. -/
structure Live (deps : Deps) (config : ServiceConfig) : Prop where
  acyclic : ∀ thread, ¬Relation.TransGen (WaitsFor config) thread thread
  fewCalls : ∀ thread, (config.history thread).length ≤ mostCalls
  goesOn : ∀ thread, config.Unfinished thread → (∀ other, ¬WaitsFor config thread other) →
    ∃ choice next, choice.fail = none ∧ (service deps).move config (.run thread choice) = some next
  free : ∀ thread, config.Unfinished thread →
    ∃ other, config.Unfinished other ∧ ∀ third, ¬WaitsFor config other third
  completes : ∃ events final,
    (∀ event ∈ events, ∃ thread choice, event = .run thread choice ∧ choice.fail = none) ∧
    (service deps).run config events = some final ∧ (∀ thread, ¬final.Unfinished thread) ∧
    final.world.txs.rows = []

/-- Every reachable state is live. -/
theorem service_live (hstart : w.txs = .empty)
    (hreach : (service deps).Reachable (.initial w) config) : Live deps config where
  acyclic := acyclic_of_rank fun _ _ _ hfirst hsecond => hfirst.stage_lt hstart hreach hsecond
  fewCalls := hreach.follows.length_history_le (serve_makes deps)
  goesOn _ := exists_move_of_free hstart hreach
  free _ := exists_free hstart hreach
  completes := by
    obtain ⟨events, final, hevents, hrun, hdone⟩ := hreach.exists_completed
      (fun choice => choice.fail = none) (serve_makes deps) fun config hreach thread hunfinished => by
        obtain ⟨other, hother, hfree⟩ := exists_free hstart hreach hunfinished
        exact ⟨other, exists_move_of_free hstart hreach hother hfree⟩
    refine ⟨events, final, hevents, hrun, hdone, ?_⟩
    have hfinal := hreach.extend hrun
    refine List.eq_nil_iff_forall_not_mem.mpr fun tx hmem => ?_
    have hopen := ((Regular.reach hstart hfinal).tracks tx.owner).of_find? (Table.find?_of_mem hmem)
    cases hopen.symm.trans (closed_of_finished hfinal (hdone tx.owner))

end Progress

/-- Two transfers in opposite directions, up to where one waits for the other. -/
def Sample.crossingRequests : List (Event Job Choice External) :=
  [.arrive ⟨.createTransfer "Bearer alice" (.ok ⟨1, 2, 10, "USD"⟩), 0⟩,
    .arrive ⟨.createTransfer "Bearer bob" (.ok ⟨2, 1, 10, "USD"⟩), 0⟩,
    .run 0 {}, .run 0 {}, .run 1 {}, .run 1 {}, .run 0 {}, .run 1 {}, .run 0 {},
    .run 1 { generated := 2 }, .run 0 {}, .run 0 { generated := 2 }, .run 1 { generated := 3 },
    .run 1 { generated := 4 }, .run 0 {}]

theorem Sample.crossingRequests_run : ((service Sample.deps).run (.initial Sample.funded)
    Sample.crossingRequests).isSome = true := by
  decide +kernel

theorem service_live_sample : Live Sample.deps
    (((service Sample.deps).run (.initial Sample.funded) Sample.crossingRequests).get
      Sample.crossingRequests_run) :=
  service_live rfl (.of_run (Option.some_get Sample.crossingRequests_run).symm)

end SimpleBank
