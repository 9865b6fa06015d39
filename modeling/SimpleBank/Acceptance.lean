import SimpleBank.Bookings
import SimpleBank.Edits
import SimpleBank.Operations

/-! Requests on their own.  One that nobody disturbs carries out what it asks exactly
if it passes its checks, the bank allows it and the rows have room for it. -/
namespace SimpleBank
open Library Db Program

/-- The checks of a request that need no table. -/
def Job.Passes (deps : Deps) (job : Job) : Prop :=
  match job.request with
  | .createUser (.ok req) => req.check deps = .ok () ∧ req.password.utf8ByteSize ≤ 72
  | .rpcCreateUser req =>
    Gapi.validateCreateUserRequest deps req = [] ∧ req.password.utf8ByteSize ≤ 72
  | .rpcUpdateUser _ req => Gapi.validateUpdateUserRequest deps req = [] ∧
      ∀ password, req.password = some password → password.utf8ByteSize ≤ 72
  | .rpcVerifyEmail req => Gapi.validateVerifyEmailRequest req = []
  | .createAccount _ (.ok req) => req.check = .ok ()
  | .createTransfer _ (.ok req) => req.check = .ok ()
  | _ => False

/-- What the rows have to be like, which is nothing to the bank: the balances stay
within 64 bits, the currency is the one of the request, the link is not too old. -/
def Job.Fits (w : World) (job : Job) : Prop :=
  match job.request with
  | .createTransfer _ (.ok req) => Affordable w.db ⟨req.fromAccountID, req.toAccountID, req.amount⟩ ∧
      ∃ account, w.db.accounts.find? req.fromAccountID = some account ∧
        account.currency = req.currency
  | .rpcVerifyEmail req =>
    ∃ link, w.db.verifyEmails.find? req.emailId = some link ∧ w.now < link.expiredAt
  | _ => True

/-- Nothing speaks against the operation that the request asks for. -/
structure Acceptable (deps : Deps) (w : World) (job : Job) (operation : Bank.Operation) : Prop where
  passes : job.Passes deps
  asked : Asks deps job operation
  allowed : (bankOf w.db).Allows operation
  fits : job.Fits w

/-- What becomes of a request: it carries out an operation, or leaves no trace. -/
inductive Decided (deps : Deps) (w : World) (job : Job) (w' : World) : Bool → Prop
  | carried {operation : Bank.Operation} : Acceptable deps w job operation →
      bankOf w'.db = Bank.after operation (bankOf w.db) → Decided deps w job w' true
  | refused : (∀ operation, ¬Acceptable deps w job operation) → w'.db = w.db →
      Decided deps w job w' false

theorem Decided.of_refused {deps : Deps} {w w' : World} {job : Job} {success : Bool}
    (hsuccess : success = false) (h : ∀ operation, ¬Acceptable deps w job operation)
    (hdb : w'.db = w.db) : Decided deps w job w' success := by
  subst hsuccess
  exact .refused h hdb

section Tables

variable {db : Database}

theorem emailFree_iff {username email : String} :
    (bankOf db).EmailFree username email ↔ db.emailTakenBy username email = false := by
  simp only [Database.emailTakenBy, List.any_eq_false, Bool.and_eq_true, decide_eq_true_eq, not_and,
    ne_eq, Decidable.not_not]
  constructor
  · intro h user hmem hemail
    refine h user.username user.member ?_ hemail
    simp only [bankOf, Table.find?_of_mem hmem, Option.map_some]
  · intro h other member hmember hemail
    obtain ⟨user, huser, rfl⟩ := Option.map_eq_some_iff.mp hmember
    obtain ⟨hmem, rfl⟩ := Table.find?_mem huser
    exact h user hmem hemail

theorem emailTaken_eq {username email : String} (h : db.users.find? username = none) :
    db.emailTaken email = db.emailTakenBy username email := by
  rw [Bool.eq_iff_iff, Database.emailTaken, Database.emailTakenBy, List.any_eq_true, List.any_eq_true]
  refine exists_congr fun user => and_congr_right fun hmem => ?_
  simp [Table.ne_of_find?_eq_none h user hmem]

theorem allows_register_iff {username fullName email : String} :
    (bankOf db).Allows (.register username fullName email) ↔
      db.users.find? username = none ∧ db.emailTaken email = false := by
  simp only [Bank.Allows, emailFree_iff]
  refine (and_congr_left' Option.map_eq_none_iff).trans (and_congr_right fun hnone => ?_)
  rw [emailTaken_eq hnone]

/-- A member's own email is free for that member. -/
theorem emailFree_of_find? (hconsistent : db.Consistent) {username : String} {user : User}
    (h : db.users.find? username = some user) : (bankOf db).EmailFree username user.email := by
  intro other member hmember hemail
  obtain ⟨found, hfound, rfl⟩ := Option.map_eq_some_iff.mp hmember
  have hsame : Row.emailEntry (.user found) = some (.email user.email) :=
    congrArg (fun email => some (Key.email email)) hemail
  exact Key.user.inj (hconsistent.emails (Database.lookup_user.mpr hfound)
    (Database.lookup_user.mpr h) hsame rfl)

theorem allows_edit_iff (hconsistent : db.Consistent) {caller role : String}
    {arg : UpdateUserParams} :
    (bankOf db).Allows (.edit caller role arg.username arg.fullName arg.email) ↔
      (role = Util.bankerRole ∨ caller = arg.username) ∧
        ∃ user, db.users.find? arg.username = some user ∧
          db.emailTakenBy arg.username (arg.apply user).email = false := by
  refine and_congr_right fun _ => ?_
  cases hfind : db.users.find? arg.username with
  | none => simp [bankOf, hfind]
  | some user =>
    have hmember : ((bankOf db).members arg.username).isSome = true := by simp [bankOf, hfind]
    simp only [hmember, true_and, Option.some.injEq, exists_eq_left', ← emailFree_iff,
      UpdateUserParams.apply]
    cases arg.email with
    | none => simpa using emailFree_of_find? hconsistent hfind
    | some email => simp

theorem allows_openAccount_iff {id : Int} {caller currency : String} :
    (bankOf db).Allows (.openAccount id caller currency) ↔ db.accounts.find? id = none ∧
      (db.users.find? caller).isSome = true ∧ Util.isSupportedCurrency currency = true ∧
      db.ownerCurrencyTaken caller currency = false := by
  refine and_congr Option.map_eq_none_iff (and_congr (by simp [bankOf]) (and_congr_right fun _ => ?_))
  simp only [Database.ownerCurrencyTaken, List.any_eq_false, Bool.and_eq_true, decide_eq_true_eq]
  constructor
  · intro h account hmem
    refine h account.id account.held ?_
    simp only [bankOf, Table.find?_of_mem hmem, Option.map_some]
  · intro h other holding hholding
    obtain ⟨account, haccount, rfl⟩ := Option.map_eq_some_iff.mp hholding
    exact h account (Table.find?_mem haccount).1

theorem allows_verify_iff {id : Int} {code : String} :
    (bankOf db).Allows (.verify id code) ↔ ∃ link, db.verifyEmails.find? id = some link ∧
      link.secretCode = code ∧ link.isUsed = false ∧ (db.users.find? link.username).isSome = true := by
  simp [Bank.Allows, bankOf, VerifyEmail.invitation]

theorem allows_pay_iff {caller : String} {arg : TransferTxParams} :
    (bankOf db).Allows (.pay caller arg.remittance) ↔ 0 < arg.amount ∧ ∃ fromAccount toAccount,
      db.accounts.find? arg.fromAccountID = some fromAccount ∧
      db.accounts.find? arg.toAccountID = some toAccount ∧ fromAccount.owner = caller ∧
      fromAccount.currency = toAccount.currency := by
  simp [Bank.Allows, bankOf, TransferTxParams.remittance, Account.held, Int64.lt_iff_toInt_lt]

end Tables

/-- What a request asks, read off the request. -/
theorem asks_iff {deps : Deps} {job : Job} {operation : Bank.Operation} :
    Asks deps job operation ↔ match job.request with
      | .createUser (.ok req) => operation = .register req.username req.fullName req.email
      | .rpcCreateUser req => operation = .register req.username req.fullName req.email
      | .rpcUpdateUser _ req => ∃ payload, job.bearer deps = some payload ∧
          operation = .edit payload.username payload.role req.username req.fullName req.email
      | .rpcVerifyEmail req => operation = .verify req.emailId req.secretCode
      | .task task => ∃ id code, operation = .invite id task.payload.username code
      | .createAccount _ (.ok req) => ∃ payload id, job.bearer deps = some payload ∧
          operation = .openAccount id payload.username req.currency
      | .createTransfer _ (.ok req) => ∃ payload, job.bearer deps = some payload ∧
          operation = .pay payload.username
            (TransferTxParams.remittance ⟨req.fromAccountID, req.toAccountID, req.amount⟩)
      | _ => False := by
  constructor
  · intro h
    cases h with
    | createUser hjob | rpcCreateUser hjob | rpcVerifyEmail hjob => rw [hjob]
    | task hjob =>
      rw [hjob]
      exact ⟨_, _, rfl⟩
    | rpcUpdateUser hjob hbearer | createTransfer hjob hbearer =>
      rw [hjob]
      exact ⟨_, hbearer, rfl⟩
    | createAccount hjob hbearer =>
      rw [hjob]
      exact ⟨_, _, hbearer, rfl⟩
  · intro h
    split at h
    · exact h ▸ .createUser ‹_›
    · exact h ▸ .rpcCreateUser ‹_›
    · obtain ⟨payload, hbearer, rfl⟩ := h
      exact .rpcUpdateUser ‹_› hbearer
    · exact h ▸ .rpcVerifyEmail ‹_›
    · obtain ⟨id, code, rfl⟩ := h
      exact .task ‹_›
    · obtain ⟨payload, id, hbearer, rfl⟩ := h
      exact .createAccount ‹_› hbearer
    · obtain ⟨payload, hbearer, rfl⟩ := h
      exact .createTransfer ‹_› hbearer
    · exact h.elim

section Solo

variable {deps : Deps} {w v : World} {job : Job}

theorem undisturbedly_pool {stmt : Stmt} {reply : Except Err stmt.Result}
    (h : Undisturbedly deps (.sql .pool stmt) w reply v) : ∃ generated,
      stmt.freshSerial generated w.db = true ∧ reply = stmt.eval generated w.now w.db ∧
      v = { w with db := Store.write w.db (stmt.effect reply) } := by
  obtain ⟨choice, hhealthy, hstep⟩ := h
  simp only [World.step, World.poolStep, hhealthy] at hstep
  split at hstep
  · rename_i hgranted
    obtain ⟨-, hfresh⟩ := Bool.and_eq_true_iff.mp hgranted
    obtain ⟨rfl, rfl⟩ := Prod.mk.inj (Option.some.inj hstep)
    exact ⟨choice.generated, hfresh, rfl, rfl⟩
  · cases hstep

/-- bcrypt takes any password that is short enough. -/
theorem hashPassword_ends (hbcrypt : Bcrypt deps) {password : String} {outcome : Except Err String}
    (h : Evaluates (Undisturbedly deps) (Util.hashPassword password) w outcome v) : w = v ∧
      ((∃ hashedPassword, outcome = .ok hashedPassword ∧ password.utf8ByteSize ≤ 72) ∨
        ∃ err, outcome = .error err ∧ ¬password.utf8ByteSize ≤ 72) := by
  obtain ⟨reply, v1, ⟨choice, hhealthy, hstep⟩, hrest⟩ := evaluates_call.mp h
  simp only [World.step, World.callStep, hhealthy] at hstep
  obtain ⟨hreply, rfl⟩ := Prod.mk.inj (Option.some.inj hstep)
  have hshort := hbcrypt.generates choice.salt password
  cases reply with
  | error err =>
    obtain ⟨rfl, rfl⟩ := evaluates_done.mp hrest
    refine ⟨rfl, .inr ⟨_, rfl, fun hle => ?_⟩⟩
    obtain ⟨hashedPassword, hok⟩ := hshort.mpr hle
    cases hreply.symm.trans hok
  | ok hashedPassword =>
    obtain ⟨rfl, rfl⟩ := evaluates_done.mp hrest
    exact ⟨rfl, .inl ⟨hashedPassword, rfl, hshort.mp ⟨_, hreply⟩⟩⟩

theorem createUser_decided (hbcrypt : Bcrypt deps) {body : Api.Body Api.CreateUserRequest}
    (hjob : job.request = .createUser body) {reply : Api.Reply}
    (h : Evaluates (Undisturbedly deps) (Api.createUser deps body) w reply v) :
    Decided deps w job v (Response.http reply).success := by
  -- what it takes, from the checks to the unique indexes
  have hneeds : ∀ {operation}, Acceptable deps w job operation → ∃ req, body = .ok req ∧
      (req.check deps = .ok () ∧ req.password.utf8ByteSize ≤ 72) ∧
      w.db.users.find? req.username = none ∧ w.db.emailTaken req.email = false := by
    rintro operation ⟨hpasses, hasked, hallowed, -⟩
    simp only [Job.Passes, hjob] at hpasses
    simp only [asks_iff, hjob] at hasked
    cases body with
    | error message => exact hpasses.elim
    | ok req =>
      obtain rfl : operation = .register req.username req.fullName req.email := hasked
      exact ⟨req, rfl, hpasses, allows_register_iff.mp hallowed⟩
  unfold Api.createUser at h
  split at h
  · rename_i err hbind
    obtain ⟨rfl, rfl⟩ := evaluates_done.mp h
    refine .refused (fun operation haccept => ?_) rfl
    obtain ⟨req, rfl, ⟨hcheck, -⟩, -⟩ := hneeds haccept
    cases hbind.symm.trans (Api.bind_eq_ok.mpr ⟨rfl, hcheck⟩)
  · rename_i req hbind
    obtain ⟨rfl, hcheck⟩ := Api.bind_eq_ok.mp hbind
    obtain ⟨outcome, v1, hhash, h⟩ := evaluates_bind.mp h
    obtain ⟨rfl, ⟨hashedPassword, rfl, hshort⟩ | ⟨err, rfl, hlong⟩⟩ := hashPassword_ends hbcrypt hhash
    · obtain ⟨reply, v2, hquery, h⟩ := evaluates_call.mp h
      obtain ⟨generated, -, hreply, rfl⟩ := undisturbedly_pool hquery
      cases reply with
      | error err =>
        obtain ⟨rfl, rfl⟩ := evaluates_done.mp h
        refine .of_refused ?_ (fun operation haccept => ?_) rfl
        · dsimp only [Response.success]
          split <;> rfl
        · obtain ⟨req, ⟨⟩, -, hnone, htaken⟩ := hneeds haccept
          cases hreply.trans (evalCreateUser_eq_ok.mpr ⟨hnone, htaken, rfl⟩)
      | ok user =>
        obtain ⟨rfl, rfl⟩ := evaluates_done.mp h
        obtain ⟨hnone, htaken, rfl⟩ := evalCreateUser_eq_ok.mp hreply.symm
        have haccept : Acceptable deps w job (.register req.username req.fullName req.email) := by
          refine ⟨?_, .createUser hjob, allows_register_iff.mpr ⟨hnone, htaken⟩, ?_⟩
          · simp only [Job.Passes, hjob]
            exact ⟨hcheck, hshort⟩
          · simp only [Job.Fits, hjob]
        exact .carried haccept (bankOf_put_user _ _)
    · obtain ⟨rfl, rfl⟩ := evaluates_done.mp h
      refine .refused (fun operation haccept => ?_) rfl
      obtain ⟨req, ⟨⟩, ⟨-, hshort⟩, -⟩ := hneeds haccept
      exact hlong hshort

theorem createAccount_decided {authorization : String} {body : Api.Body Api.CreateAccountRequest}
    (hjob : job.request = .createAccount authorization body) {reply : Api.Reply}
    (h : Evaluates (Undisturbedly deps) (Api.authRoute deps job.now authorization fun payload =>
      Api.createAccount payload body) w reply v) :
    Decided deps w job v (Response.http reply).success := by
  have hbearer : ∀ payload, job.bearer deps = some payload ↔
      Api.authMiddleware deps job.now authorization = .ok payload := by
    intro payload
    simp only [Job.bearer, hjob, toOption_eq_some]
  have hneeds : ∀ {operation}, Acceptable deps w job operation → ∃ req payload, body = .ok req ∧
      req.check = .ok () ∧ Api.authMiddleware deps job.now authorization = .ok payload ∧
      (w.db.users.find? payload.username).isSome = true ∧
      w.db.ownerCurrencyTaken payload.username req.currency = false := by
    rintro operation ⟨hpasses, hasked, hallowed, -⟩
    simp only [Job.Passes, hjob] at hpasses
    simp only [asks_iff, hjob] at hasked
    cases body with
    | error message => exact hpasses.elim
    | ok req =>
      obtain ⟨payload, id, hpayload, rfl⟩ := hasked
      obtain ⟨-, howner, -, htaken⟩ := allows_openAccount_iff.mp hallowed
      exact ⟨req, payload, rfl, hpasses, (hbearer payload).mp hpayload, howner, htaken⟩
  unfold Api.authRoute at h
  split at h
  · rename_i err hauth
    obtain ⟨rfl, rfl⟩ := evaluates_done.mp h
    refine .refused (fun operation haccept => ?_) rfl
    obtain ⟨_, payload, -, -, hok, -⟩ := hneeds haccept
    cases hauth.symm.trans hok
  rename_i payload hauth
  unfold Api.createAccount at h
  split at h
  · rename_i err hbind
    obtain ⟨rfl, rfl⟩ := evaluates_done.mp h
    refine .refused (fun operation haccept => ?_) rfl
    obtain ⟨req, _, rfl, hcheck, -⟩ := hneeds haccept
    cases hbind.symm.trans (Api.bind_eq_ok.mpr ⟨rfl, hcheck⟩)
  rename_i req hbind
  obtain ⟨rfl, hcheck⟩ := Api.bind_eq_ok.mp hbind
  obtain ⟨reply, v1, hquery, h⟩ := evaluates_call.mp h
  obtain ⟨generated, hfresh, hreply, rfl⟩ := undisturbedly_pool hquery
  cases reply with
  | error err =>
    obtain ⟨rfl, rfl⟩ := evaluates_done.mp h
    refine .of_refused ?_ (fun operation haccept => ?_) rfl
    · dsimp only [Response.success]
      split <;> rfl
    · obtain ⟨_, _, ⟨⟩, -, hok, howner, htaken⟩ := hneeds haccept
      cases hauth.symm.trans hok
      cases hreply.trans (evalCreateAccount_eq_ok.mpr ⟨htaken, howner, rfl⟩)
  | ok account =>
    obtain ⟨rfl, rfl⟩ := evaluates_done.mp h
    obtain ⟨htaken, howner, rfl⟩ := evalCreateAccount_eq_ok.mp hreply.symm
    have hnone := (Stmt.freshSerial_iff.mp hfresh _ List.mem_cons_self).2
    have haccept : Acceptable deps w job
        (.openAccount generated payload.username req.currency) := by
      refine ⟨?_, .createAccount hjob ((hbearer payload).mpr hauth), ?_, ?_⟩
      · simpa only [Job.Passes, hjob] using hcheck
      · exact allows_openAccount_iff.mpr ⟨Option.map_eq_none_iff.mp hnone, howner,
          (Api.CreateAccountRequest.check_eq_ok.mp hcheck).2, htaken⟩
      · simp only [Job.Fits, hjob]
    exact .carried haccept (bankOf_put_account _ _)

theorem validAccount_ends {accountID : Int} {currency : String} {outcome : Except Api.Reply Account}
    (h : Evaluates (Undisturbedly deps) (Api.validAccount accountID currency) w outcome v) : w = v ∧
      ((∃ account, outcome = .ok account ∧ w.db.accounts.find? accountID = some account ∧
          account.currency = currency) ∨
        ∃ reply, outcome = .error reply ∧ (Response.http reply).success = false ∧
          ∀ account, w.db.accounts.find? accountID = some account → account.currency ≠ currency) := by
  obtain ⟨reply, v1, hquery, h⟩ := evaluates_call.mp h
  obtain ⟨generated, -, hreply, rfl⟩ := undisturbedly_pool hquery
  cases reply with
  | error err =>
    obtain ⟨rfl, rfl⟩ := evaluates_done.mp h
    refine ⟨rfl, .inr ⟨_, rfl, ?_, fun account hfind => ?_⟩⟩
    · dsimp only [Response.success]
      unfold Api.notFoundOrInternal
      split <;> rfl
    · cases hreply.trans (orNoRows_eq_ok.mpr hfind)
  | ok account =>
    have hfind : w.db.accounts.find? accountID = some account := orNoRows_eq_ok.mp hreply.symm
    dsimp only [Program.bind] at h
    split at h
    · rename_i hne
      obtain ⟨rfl, rfl⟩ := evaluates_done.mp h
      refine ⟨rfl, .inr ⟨_, rfl, rfl, fun other hother => ?_⟩⟩
      cases hfind.symm.trans hother
      exact hne
    · rename_i heq
      obtain ⟨rfl, rfl⟩ := evaluates_done.mp h
      exact ⟨rfl, .inl ⟨account, rfl, hfind, Decidable.not_not.mp heq⟩⟩

theorem createTransfer_decided (hidle : w.txs = .empty) {authorization : String}
    {body : Api.Body Api.TransferRequest} (hjob : job.request = .createTransfer authorization body)
    {reply : Api.Reply}
    (h : Evaluates (Undisturbedly deps) (Api.authRoute deps job.now authorization fun payload =>
      Api.createTransfer payload body) w reply v) :
    Decided deps w job v (Response.http reply).success := by
  have hbearer : ∀ payload, job.bearer deps = some payload ↔
      Api.authMiddleware deps job.now authorization = .ok payload := by
    intro payload
    simp only [Job.bearer, hjob, toOption_eq_some]
  have hneeds : ∀ {operation}, Acceptable deps w job operation → ∃ req payload fromAccount toAccount,
      body = .ok req ∧ req.check = .ok () ∧
      Api.authMiddleware deps job.now authorization = .ok payload ∧
      w.db.accounts.find? req.fromAccountID = some fromAccount ∧
      w.db.accounts.find? req.toAccountID = some toAccount ∧ fromAccount.owner = payload.username ∧
      fromAccount.currency = req.currency ∧ toAccount.currency = req.currency ∧
      Affordable w.db ⟨req.fromAccountID, req.toAccountID, req.amount⟩ := by
    rintro operation ⟨hpasses, hasked, hallowed, hfits⟩
    simp only [Job.Passes, hjob] at hpasses
    simp only [asks_iff, hjob] at hasked
    simp only [Job.Fits, hjob] at hfits
    cases body with
    | error message => exact hpasses.elim
    | ok req =>
      obtain ⟨payload, hpayload, rfl⟩ := hasked
      obtain ⟨-, fromAccount, toAccount, hfrom, hto, howner, hsame⟩ := allows_pay_iff.mp hallowed
      obtain ⟨hroom, account, haccount, hcurrency⟩ := hfits
      cases hfrom.symm.trans haccount
      exact ⟨req, payload, fromAccount, toAccount, rfl, hpasses, (hbearer payload).mp hpayload, hfrom,
        hto, howner, hcurrency, hsame.symm.trans hcurrency, hroom⟩
  unfold Api.authRoute at h
  split at h
  · rename_i err hauth
    obtain ⟨rfl, rfl⟩ := evaluates_done.mp h
    refine .refused (fun operation haccept => ?_) rfl
    obtain ⟨_, payload, _, _, -, -, hok, -⟩ := hneeds haccept
    cases hauth.symm.trans hok
  rename_i payload hauth
  unfold Api.createTransfer at h
  split at h
  · rename_i err hbind
    obtain ⟨rfl, rfl⟩ := evaluates_done.mp h
    refine .refused (fun operation haccept => ?_) rfl
    obtain ⟨req, _, _, _, rfl, hcheck, -⟩ := hneeds haccept
    cases hbind.symm.trans (Api.bind_eq_ok.mpr ⟨rfl, hcheck⟩)
  rename_i req hbind
  obtain ⟨rfl, hcheck⟩ := Api.bind_eq_ok.mp hbind
  obtain ⟨outcome, v1, hread, h⟩ := evaluates_bind.mp h
  obtain ⟨rfl, ⟨fromAccount, rfl, hfrom, hcurrency⟩ | ⟨reply, rfl, hfailed, hnone⟩⟩ :=
    validAccount_ends hread
  swap
  · obtain ⟨rfl, rfl⟩ := evaluates_done.mp h
    refine .of_refused hfailed (fun operation haccept => ?_) rfl
    obtain ⟨_, _, _, _, ⟨⟩, -, -, hfrom, -, -, hcurrency, -⟩ := hneeds haccept
    exact hnone _ hfrom hcurrency
  dsimp only at h
  split at h
  · rename_i hother
    obtain ⟨rfl, rfl⟩ := evaluates_done.mp h
    refine .refused (fun operation haccept => ?_) rfl
    obtain ⟨_, _, _, _, ⟨⟩, -, hok, hfound, -, howner, -⟩ := hneeds haccept
    cases hauth.symm.trans hok
    cases hfrom.symm.trans hfound
    exact hother howner
  rename_i howner
  obtain ⟨outcome, v1, hread, h⟩ := evaluates_bind.mp h
  obtain ⟨rfl, ⟨toAccount, rfl, hto, hsame⟩ | ⟨reply, rfl, hfailed, hnone⟩⟩ := validAccount_ends hread
  swap
  · obtain ⟨rfl, rfl⟩ := evaluates_done.mp h
    refine .of_refused hfailed (fun operation haccept => ?_) rfl
    obtain ⟨_, _, _, _, ⟨⟩, -, -, -, hto, -, -, hcurrency, -⟩ := hneeds haccept
    exact hnone _ hto hcurrency
  obtain ⟨-, -, hpositive, hsupported⟩ := Api.TransferRequest.check_eq_ok.mp hcheck
  obtain ⟨outcome, v1, htransfer, hend⟩ := evaluates_bind.mp h
  rcases transferTx_ends hidle htransfer with ⟨result, db, rfl, rfl, happlied⟩ | ⟨err, rfl, rfl, hfails⟩
  · obtain ⟨rfl, rfl⟩ := evaluates_done.mp hend
    have hpayload := (hbearer payload).mpr hauth
    have howner := Decidable.not_not.mp howner
    have hcurrencies := hcurrency.trans hsame.symm
    have haccept : Acceptable deps w job (.pay payload.username
        (TransferTxParams.remittance ⟨req.fromAccountID, req.toAccountID, req.amount⟩)) := by
      refine ⟨?_, .createTransfer hjob hpayload, ?_, ?_⟩
      · simpa only [Job.Passes, hjob] using hcheck
      · exact allows_pay_iff.mpr ⟨hpositive, fromAccount, toAccount, hfrom, hto, howner, hcurrencies⟩
      · simp only [Job.Fits, hjob]
        exact ⟨(feasible_iff hpositive).mp happlied.feasible, fromAccount, hfrom, hcurrency⟩
    exact .carried haccept (bankOf_payment ⟨_, result, payload, fromAccount, toAccount,
      by simp only [Job.transfer, hjob], hpositive, hpayload, hfrom, hto, howner, hcurrencies,
      hcurrency ▸ hsupported, happlied⟩)
  · obtain ⟨rfl, rfl⟩ := evaluates_done.mp hend
    refine .refused (fun operation haccept => ?_) rfl
    obtain ⟨_, _, _, _, ⟨⟩, -, -, -, -, -, -, -, hroom⟩ := hneeds haccept
    exact hfails ((feasible_iff hpositive).mpr hroom)

/-- `CreateUserTx` on its own: the row and the task, or neither. -/
theorem createUserTx_ends (hidle : w.txs = .empty) {arg : CreateUserParams}
    {opts : List Worker.TaskOption} {outcome : Except Err User}
    (h : Evaluates (Undisturbedly deps) (createUserTx
      ⟨arg, fun user => Worker.distributeTaskSendVerifyEmail ⟨user.username⟩ opts⟩) w outcome v) :
    (∃ user, outcome = .ok user ∧ evalCreateUser w.now w.db arg = .ok user ∧
        v.db = w.db.put (.user user)) ∨
      ∃ err, outcome = .error err ∧ evalCreateUser w.now w.db arg = .error err ∧ v.db = w.db := by
  obtain ⟨reply, v1, hbegin, h⟩ := evaluates_call.mp h
  obtain ⟨rfl, hinside⟩ := undisturbedly_begin hidle hbegin
  obtain ⟨reply, v2, hquery, h⟩ := evaluates_call.mp h
  obtain ⟨generated, -, hreply, hopen, hwritten⟩ := undisturbedly_query hinside hquery
  cases reply with
  | error err =>
    obtain ⟨reply, v3, hrollback, hend⟩ := evaluates_call.mp h
    obtain ⟨rfl, rfl⟩ := undisturbedly_rollback hidle hopen hrollback
    obtain ⟨rfl, rfl⟩ := evaluates_done.mp hend
    exact .inr ⟨err, rfl, hreply.symm, rfl⟩
  | ok user =>
    obtain ⟨calls, rfl, hdb⟩ := hwritten user rfl
    obtain ⟨reply, v3, ⟨choice, hhealthy, hstep⟩, h⟩ := evaluates_call.mp h
    simp only [World.step, World.callStep, hhealthy] at hstep
    obtain ⟨rfl, rfl⟩ := Prod.mk.inj (Option.some.inj hstep)
    obtain ⟨reply, v4, hcommit, h⟩ := evaluates_call.mp h
    -- the task is in the queue by now, whatever becomes of the transaction
    obtain ⟨rfl, rfl⟩ := undisturbedly_commit
      (w := { w with tasks := w.tasks ++ [⟨Worker.taskSendVerifyEmail, ⟨user.username⟩, opts⟩] })
      hidle ⟨calls, rfl, hdb⟩ hcommit
    obtain ⟨rfl, rfl⟩ := evaluates_done.mp h
    exact .inl ⟨user, rfl, hreply.symm, rfl⟩

theorem rpcCreateUser_decided (hbcrypt : Bcrypt deps) (hidle : w.txs = .empty)
    {req : Gapi.CreateUserRequest} (hjob : job.request = .rpcCreateUser req) {reply : Gapi.Reply}
    (h : Evaluates (Undisturbedly deps) (Gapi.createUser deps req) w reply v) :
    Decided deps w job v (Response.rpc reply).success := by
  have hneeds : ∀ {operation}, Acceptable deps w job operation →
      (Gapi.validateCreateUserRequest deps req = [] ∧ req.password.utf8ByteSize ≤ 72) ∧
      w.db.users.find? req.username = none ∧ w.db.emailTaken req.email = false := by
    rintro operation ⟨hpasses, hasked, hallowed, -⟩
    simp only [Job.Passes, hjob] at hpasses
    simp only [asks_iff, hjob] at hasked
    rw [hasked] at hallowed
    exact ⟨hpasses, allows_register_iff.mp hallowed⟩
  unfold Gapi.createUser at h
  split at h
  · rename_i violation violations hviolations
    obtain ⟨rfl, rfl⟩ := evaluates_done.mp h
    refine .refused (fun operation haccept => ?_) rfl
    cases hviolations.symm.trans (hneeds haccept).1.1
  rename_i hvalid
  obtain ⟨outcome, v1, hhash, h⟩ := evaluates_bind.mp h
  obtain ⟨rfl, ⟨hashedPassword, rfl, hshort⟩ | ⟨err, rfl, hlong⟩⟩ := hashPassword_ends hbcrypt hhash
  swap
  · obtain ⟨rfl, rfl⟩ := evaluates_done.mp h
    exact .refused (fun operation haccept => hlong (hneeds haccept).1.2) rfl
  obtain ⟨outcome, v1, htx, hend⟩ := evaluates_bind.mp h
  rcases createUserTx_ends hidle htx with ⟨user, rfl, heval, hdb⟩ | ⟨err, rfl, heval, hdb⟩
  · obtain ⟨rfl, rfl⟩ := evaluates_done.mp hend
    obtain ⟨hnone, htaken, rfl⟩ := evalCreateUser_eq_ok.mp heval
    have haccept : Acceptable deps w job (.register req.username req.fullName req.email) := by
      refine ⟨?_, .rpcCreateUser hjob, allows_register_iff.mpr ⟨hnone, htaken⟩, ?_⟩
      · simp only [Job.Passes, hjob]
        exact ⟨hvalid, hshort⟩
      · simp only [Job.Fits, hjob]
    exact .carried haccept (hdb ▸ bankOf_put_user _ _)
  · have hno : ∀ operation, ¬Acceptable deps w job operation := by
      intro operation haccept
      obtain ⟨-, hnone, htaken⟩ := hneeds haccept
      cases heval.symm.trans (evalCreateUser_eq_ok.mpr ⟨hnone, htaken, rfl⟩)
    dsimp only at hend
    split at hend
    · obtain ⟨rfl, rfl⟩ := evaluates_done.mp hend
      exact .refused hno hdb
    · obtain ⟨rfl, rfl⟩ := evaluates_done.mp hend
      exact .refused hno hdb

theorem updateUserWith_decided (hconsistent : w.db.Consistent) {ctx : Gapi.Context}
    {req : Gapi.UpdateUserRequest} {payload : Token.Payload} {arg : UpdateUserParams}
    (hjob : job.request = .rpcUpdateUser ctx req) (hpasses : job.Passes deps)
    (hbearer : job.bearer deps = some payload)
    (hrole : payload.role = Util.bankerRole ∨ payload.username = req.username)
    (husername : req.username = arg.username) (hfullName : req.fullName = arg.fullName)
    (hemail : req.email = arg.email) (hunverified : arg.isEmailVerified = none) {reply : Gapi.Reply}
    (h : Evaluates (Undisturbedly deps) (Gapi.updateUserWith arg) w reply v) :
    Decided deps w job v (Response.rpc reply).success := by
  obtain ⟨result, v1, hquery, hend⟩ := evaluates_call.mp h
  obtain ⟨generated, -, hreply, rfl⟩ := undisturbedly_pool hquery
  have hasked : Asks deps job
      (.edit payload.username payload.role arg.username arg.fullName arg.email) := by
    rw [← husername, ← hfullName, ← hemail]
    exact .rpcUpdateUser hjob hbearer
  rw [husername] at hrole
  cases result with
  | error err =>
    have hno : ∀ operation, ¬Acceptable deps w job operation := by
      rintro operation ⟨-, hother, hallowed, -⟩
      simp only [asks_iff, hjob] at hother
      obtain ⟨found, hfound, rfl⟩ := hother
      rw [husername, hfullName, hemail] at hallowed
      obtain ⟨-, user, hfind, hfree⟩ := (allows_edit_iff hconsistent).mp hallowed
      cases hreply.trans (evalUpdateUser_eq_ok.mpr ⟨user, hfind, hfree, rfl⟩)
    dsimp only [Program.bind] at hend
    split at hend
    · obtain ⟨rfl, rfl⟩ := evaluates_done.mp hend
      exact .refused hno rfl
    · obtain ⟨rfl, rfl⟩ := evaluates_done.mp hend
      exact .refused hno rfl
  | ok user =>
    obtain ⟨rfl, rfl⟩ := evaluates_done.mp hend
    obtain ⟨old, hfind, hfree, rfl⟩ := evalUpdateUser_eq_ok.mp hreply.symm
    have hallowed := (allows_edit_iff hconsistent).mpr ⟨hrole, old, hfind, hfree⟩
    exact .carried ⟨hpasses, hasked, hallowed, by simp only [Job.Fits, hjob]⟩
      (bankOf_edited hfind hunverified _ _)

theorem rpcUpdateUser_decided (hbcrypt : Bcrypt deps) (hconsistent : w.db.Consistent)
    {ctx : Gapi.Context} {req : Gapi.UpdateUserRequest}
    (hjob : job.request = .rpcUpdateUser ctx req) {reply : Gapi.Reply}
    (h : Evaluates (Undisturbedly deps) (Gapi.updateUser deps job.now ctx req) w reply v) :
    Decided deps w job v (Response.rpc reply).success := by
  have hauthorized : ∀ payload, job.bearer deps = some payload ↔ Gapi.authorizeUser deps job.now ctx
      [Util.bankerRole, Util.depositorRole] = .ok payload := by
    intro payload
    simp only [Job.bearer, hjob, toOption_eq_some]
  have hpasses : job.Passes deps ↔ Gapi.validateUpdateUserRequest deps req = [] ∧
      ∀ password, req.password = some password → password.utf8ByteSize ≤ 72 := by
    simp only [Job.Passes, hjob]
  have hneeds : ∀ {operation}, Acceptable deps w job operation → ∃ payload,
      Gapi.authorizeUser deps job.now ctx [Util.bankerRole, Util.depositorRole] = .ok payload ∧
      (payload.role = Util.bankerRole ∨ payload.username = req.username) := by
    rintro operation ⟨-, hasked, hallowed, -⟩
    simp only [asks_iff, hjob] at hasked
    obtain ⟨payload, hbearer, rfl⟩ := hasked
    exact ⟨payload, (hauthorized payload).mp hbearer, hallowed.1⟩
  unfold Gapi.updateUser at h
  split at h
  · rename_i err hrefused
    obtain ⟨rfl, rfl⟩ := evaluates_done.mp h
    refine .refused (fun operation haccept => ?_) rfl
    obtain ⟨payload, hok, -⟩ := hneeds haccept
    cases hrefused.symm.trans hok
  rename_i payload hauth
  split at h
  · rename_i violation violations hviolations
    obtain ⟨rfl, rfl⟩ := evaluates_done.mp h
    refine .refused (fun operation haccept => ?_) rfl
    cases hviolations.symm.trans (hpasses.mp haccept.passes).1
  rename_i hvalid
  split at h
  · rename_i hother
    obtain ⟨rfl, rfl⟩ := evaluates_done.mp h
    refine .refused (fun operation haccept => ?_) rfl
    obtain ⟨found, hok, hrole⟩ := hneeds haccept
    cases hauth.symm.trans hok
    exact hrole.elim hother.1 hother.2
  rename_i hown
  have hrole : payload.role = Util.bankerRole ∨ payload.username = req.username := by
    rcases Decidable.not_and_iff_not_or_not.mp hown with h | h
    · exact .inl (Decidable.not_not.mp h)
    · exact .inr (Decidable.not_not.mp h)
  have hbearer := (hauthorized payload).mpr hauth
  dsimp only at h
  split at h
  · rename_i hnone
    have hpasses := hpasses.mpr ⟨hvalid, fun password hsome => by cases hnone.symm.trans hsome⟩
    exact updateUserWith_decided hconsistent hjob hpasses hbearer hrole rfl rfl rfl rfl h
  rename_i password hsome
  obtain ⟨outcome, v1, hhash, hend⟩ := evaluates_bind.mp h
  obtain ⟨rfl, ⟨hashedPassword, rfl, hshort⟩ | ⟨err, rfl, hlong⟩⟩ := hashPassword_ends hbcrypt hhash
  · have hpasses : job.Passes deps := by
      refine hpasses.mpr ⟨hvalid, fun other hother => ?_⟩
      cases hsome.symm.trans hother
      exact hshort
    exact updateUserWith_decided hconsistent hjob hpasses hbearer hrole rfl rfl rfl rfl hend
  · obtain ⟨rfl, rfl⟩ := evaluates_done.mp hend
    exact .refused (fun operation haccept => hlong ((hpasses.mp haccept.passes).2 password hsome)) rfl

/-- The link can be opened, and is somebody's. -/
def Openable (w : World) (arg : VerifyEmailTxParams) (link : VerifyEmail) (user : User) : Prop :=
  w.db.verifyEmails.find? arg.emailId = some link ∧
    UpdateVerifyEmailParams.selects ⟨arg.emailId, arg.secretCode⟩ w.now link = true ∧
    w.db.users.find? link.username = some user

/-- `VerifyEmailTx` on its own: the link and the flag, or neither. -/
theorem verifyEmailTx_ends (hidle : w.txs = .empty) (hconsistent : w.db.Consistent)
    {arg : VerifyEmailTxParams} {outcome : Except Err VerifyEmailTxResult}
    (h : Evaluates (Undisturbedly deps) (verifyEmailTx arg) w outcome v) :
    (∃ result db, outcome = .ok result ∧ v = { w with db := db } ∧ ∃ link user,
        Openable w arg link user ∧ db = (w.db.put (.verifyEmail { link with isUsed := true })).put
          (.user { user with isEmailVerified := true })) ∨
      ∃ err, outcome = .error err ∧ v = w ∧ ¬∃ link user, Openable w arg link user := by
  refine execTx_ends hidle (fun v v' outcome hinside h => ?_) h
  refine .of_query hinside h (fun _ => rfl) ?_ ?_
  · rintro _ err herror ⟨link, user, hlink, hselects, -⟩
    cases herror.symm.trans (evalUpdateVerifyEmail_eq_ok.mpr ⟨link, hlink, hselects, rfl⟩)
  intro _ row v1 _ hone hinside h
  obtain ⟨link, hlink, hselects, rfl⟩ := evalUpdateVerifyEmail_eq_ok.mp hone
  refine .of_query hinside h (fun _ => rfl) ?_ ?_
  · rintro _ err herror ⟨found, user, hfound, -, huser⟩
    cases hlink.symm.trans hfound
    have hfree := emailFree_iff.mp (emailFree_of_find? hconsistent huser)
    have hok : evalUpdateUser (w.db.put (.verifyEmail { link with isUsed := true }))
        (verification link.username) = .ok { user with isEmailVerified := true } :=
      evalUpdateUser_eq_ok.mpr ⟨user, huser, hfree, rfl⟩
    cases herror.symm.trans hok
  intro _ row v2 _ htwo hinside h
  obtain ⟨user, huser, -, rfl⟩ := evalUpdateUser_eq_ok.mp htwo
  obtain ⟨rfl, rfl⟩ := evaluates_done.mp h
  exact .ok _ hinside ⟨link, user, ⟨hlink, hselects, huser⟩, rfl⟩

theorem rpcVerifyEmail_decided (hidle : w.txs = .empty) (hconsistent : w.db.Consistent)
    {req : Gapi.VerifyEmailRequest} (hjob : job.request = .rpcVerifyEmail req) {reply : Gapi.Reply}
    (h : Evaluates (Undisturbedly deps) (Gapi.verifyEmail req) w reply v) :
    Decided deps w job v (Response.rpc reply).success := by
  have hneeds : ∀ {operation}, Acceptable deps w job operation →
      Gapi.validateVerifyEmailRequest req = [] ∧
      ∃ link user, Openable w ⟨req.emailId, req.secretCode⟩ link user := by
    rintro operation ⟨hpasses, hasked, hallowed, hfits⟩
    simp only [Job.Passes, hjob] at hpasses
    simp only [asks_iff, hjob] at hasked
    simp only [Job.Fits, hjob] at hfits
    rw [hasked] at hallowed
    obtain ⟨link, hlink, hcode, hunused, huser⟩ := allows_verify_iff.mp hallowed
    obtain ⟨found, hfound, hintime⟩ := hfits
    cases hlink.symm.trans hfound
    obtain ⟨user, huser⟩ := Option.isSome_iff_exists.mp huser
    exact ⟨hpasses, link, user, hlink,
      selects_iff.mpr ⟨(Table.find?_mem hlink).2, hcode, hunused, hintime⟩, huser⟩
  unfold Gapi.verifyEmail at h
  split at h
  · rename_i violation violations hviolations
    obtain ⟨rfl, rfl⟩ := evaluates_done.mp h
    refine .refused (fun operation haccept => ?_) rfl
    cases hviolations.symm.trans (hneeds haccept).1
  rename_i hvalid
  obtain ⟨outcome, v1, htx, hend⟩ := evaluates_bind.mp h
  rcases verifyEmailTx_ends hidle hconsistent htx with
    ⟨result, db, rfl, rfl, link, user, ⟨hlink, hselects, huser⟩, rfl⟩ | ⟨err, rfl, rfl, hno⟩
  · obtain ⟨rfl, rfl⟩ := evaluates_done.mp hend
    obtain ⟨-, hcode, hunused, hintime⟩ := selects_iff.mp hselects
    have haccept : Acceptable deps w job (.verify req.emailId req.secretCode) := by
      refine ⟨?_, .rpcVerifyEmail hjob, ?_, ?_⟩
      · simpa only [Job.Passes, hjob] using hvalid
      · exact allows_verify_iff.mpr ⟨link, hlink, hcode, hunused, by rw [huser]; rfl⟩
      · simp only [Job.Fits, hjob]
        exact ⟨link, hlink, hintime⟩
    exact .carried haccept (bankOf_verified _ hlink huser)
  · obtain ⟨rfl, rfl⟩ := evaluates_done.mp hend
    exact .refused (fun operation haccept => hno (hneeds haccept).2) rfl

/-- Whatever a request does next that is on its own, it can do. -/
theorem RunsSolo.goesOn {history : History} {op : Op} (h : RunsSolo 0 history w)
    (horder : InOrder history op) : ∃ reply v, Undisturbedly deps op w reply v ∧ Valid op reply ∧
      RunsSolo 0 (history ++ [⟨op, reply⟩]) v := by
  obtain ⟨choice, reply, v, hhealthy, hstep⟩ : ∃ choice reply v, choice.fail = none ∧
      w.step deps 0 choice op = some (reply, v) := by
    refine World.exists_step_of_free h.tracks horder ?_ ?_
    · rintro stmt rfl tx hmem -
      -- a statement outside of a transaction finds none open
      have hown : tx.owner = 0 := by
        by_contra hne
        cases (h.others _ hne).symm.trans (Table.find?_of_mem hmem)
      have hnone := Option.map_eq_none_iff.mp (h.tracks.trans horder)
      cases hnone.symm.trans (hown ▸ Table.find?_of_mem hmem)
    · rintro stmt tx rfl - - other hmem hother
      cases (h.others _ fun hown => hother (congrArg some hown.symm)).symm.trans
        (Table.find?_of_mem hmem)
  exact ⟨reply, v, ⟨choice, hhealthy, hstep⟩, valid_of_step hstep, h.step hstep⟩

/-- A request on its own is answered. -/
theorem exists_served (hidle : w.txs = .empty) (job : Job) :
    ∃ response v, Evaluates (Undisturbedly deps) (serve deps job) w response v :=
  ((service_inOrder deps).always job).exists_evaluates (RunsSolo 0)
    (fun _ _ _ horder hsolo => hsolo.goesOn horder)
    ⟨by simp [World.Tracks, hidle], by simp [hidle]⟩

theorem serve_decided (hbcrypt : Bcrypt deps) (hidle : w.txs = .empty)
    (hconsistent : w.db.Consistent) (hoperates : job.request.operates = true) {response : Response}
    (h : Evaluates (Undisturbedly deps) (serve deps job) w response v) :
    Decided deps w job v response.success := by
  unfold serve at h
  split at h
  case h_1 body hjob =>
    obtain ⟨reply, v1, hrun, hend⟩ := evaluates_bind.mp h
    obtain ⟨rfl, rfl⟩ := evaluates_done.mp hend
    exact createUser_decided hbcrypt hjob hrun
  case h_4 authorization body hjob =>
    obtain ⟨reply, v1, hrun, hend⟩ := evaluates_bind.mp h
    obtain ⟨rfl, rfl⟩ := evaluates_done.mp hend
    exact createAccount_decided hjob hrun
  case h_7 authorization body hjob =>
    obtain ⟨reply, v1, hrun, hend⟩ := evaluates_bind.mp h
    obtain ⟨rfl, rfl⟩ := evaluates_done.mp hend
    exact createTransfer_decided hidle hjob hrun
  case h_8 req hjob =>
    obtain ⟨reply, v1, hrun, hend⟩ := evaluates_bind.mp h
    obtain ⟨rfl, rfl⟩ := evaluates_done.mp hend
    exact rpcCreateUser_decided hbcrypt hidle hjob hrun
  case h_10 ctx req hjob =>
    obtain ⟨reply, v1, hrun, hend⟩ := evaluates_bind.mp h
    obtain ⟨rfl, rfl⟩ := evaluates_done.mp hend
    exact rpcUpdateUser_decided hbcrypt hconsistent hjob hrun
  case h_11 req hjob =>
    obtain ⟨reply, v1, hrun, hend⟩ := evaluates_bind.mp h
    obtain ⟨rfl, rfl⟩ := evaluates_done.mp hend
    exact rpcVerifyEmail_decided hidle hconsistent hjob hrun
  all_goals
    rename_i hjob
    rw [hjob] at hoperates
    cases hoperates

end Solo

end SimpleBank
