import Mathlib.Data.List.Sort
import SimpleBank.Db.Error
import SimpleBank.Db.Schema

/-! The SQL statements of `db/query` that the served code issues.  A statement
is evaluated on the rows its transaction sees; `requests` are the locks it has
to wait for and `written` the rows it leaves behind. -/
namespace SimpleBank.Db
open Library

structure CreateUserParams where
  username : String
  hashedPassword : String
  fullName : String
  email : String
  deriving DecidableEq, Repr

/-- A `none` is a parameter with `Valid: false`, which `COALESCE` skips. -/
structure UpdateUserParams where
  hashedPassword : Option String
  passwordChangedAt : Option Time
  fullName : Option String
  email : Option String
  isEmailVerified : Option Bool
  username : String
  deriving DecidableEq, Repr

structure CreateAccountParams where
  owner : String
  balance : Int64
  currency : String
  deriving DecidableEq, Repr

structure ListAccountsParams where
  owner : String
  limit : Int32
  offset : Int32
  deriving DecidableEq, Repr

structure AddAccountBalanceParams where
  amount : Int64
  id : Int
  deriving DecidableEq, Repr

structure CreateEntryParams where
  accountID : Int
  amount : Int64
  deriving DecidableEq, Repr

structure CreateTransferParams where
  fromAccountID : Int
  toAccountID : Int
  amount : Int64
  deriving DecidableEq, Repr

structure CreateSessionParams where
  id : UUID
  username : String
  refreshToken : String
  userAgent : String
  clientIp : String
  isBlocked : Bool
  expiresAt : Time
  deriving DecidableEq, Repr

structure CreateVerifyEmailParams where
  username : String
  email : String
  secretCode : String
  deriving DecidableEq, Repr

structure UpdateVerifyEmailParams where
  id : Int
  secretCode : String
  deriving DecidableEq, Repr

inductive Stmt where
  | createUser (arg : CreateUserParams)
  | getUser (username : String)
  | updateUser (arg : UpdateUserParams)
  | createAccount (arg : CreateAccountParams)
  | getAccount (id : Int)
  | listAccounts (arg : ListAccountsParams)
  | addAccountBalance (arg : AddAccountBalanceParams)
  | createEntry (arg : CreateEntryParams)
  | createTransfer (arg : CreateTransferParams)
  | createSession (arg : CreateSessionParams)
  | getSession (id : UUID)
  | createVerifyEmail (arg : CreateVerifyEmailParams)
  | updateVerifyEmail (arg : UpdateVerifyEmailParams)
  deriving DecidableEq, Repr

/-- `bigint` addition raises an error where it would overflow. -/
def addBigint (x y : Int64) : Except Err Int64 :=
  if -2 ^ 63 ≤ x.toInt + y.toInt ∧ x.toInt + y.toInt < 2 ^ 63 then .ok (x + y)
  else .error (.pg "22003" "bigint out of range")

theorem addBigint_eq_ok {x y z : Int64} :
    addBigint x y = .ok z ↔ z.toInt = x.toInt + y.toInt := by
  unfold addBigint
  constructor
  · intro h
    split at h
    · rename_i hrange
      cases h
      rw [Int64.toInt_add, Int.bmod_eq_of_le (by omega) (by omega)]
    · cases h
  · intro h
    have hrange : -2 ^ 63 ≤ x.toInt + y.toInt ∧ x.toInt + y.toInt < 2 ^ 63 := by
      rw [← h]
      exact ⟨z.le_toInt, z.toInt_lt⟩
    rw [if_pos hrange]
    congr 1
    apply Int64.toInt_inj.mp
    rw [Int64.toInt_add, Int.bmod_eq_of_le (by omega) (by omega), h]

/-- A unique index with an entry `taken` refuses a second one. -/
def unique (constraint : String) (taken : Bool) : Except Err Unit :=
  if taken then
    .error (.pg uniqueViolation
      ("duplicate key value violates unique constraint \"" ++ constraint ++ "\""))
  else .ok ()

/-- A foreign key needs the row it refers to. -/
def references (table constraint : String) (present : Bool) : Except Err Unit :=
  if present then .ok ()
  else .error (.pg foreignKeyViolation
    ("insert or update on table \"" ++ table ++ "\" violates foreign key constraint \"" ++
      constraint ++ "\""))

@[simp] theorem unique_eq_ok {constraint : String} {taken : Bool} {value : Unit} :
    unique constraint taken = .ok value ↔ taken = false := by
  cases taken <;> simp [unique]

@[simp] theorem references_eq_ok {table constraint : String} {present : Bool} {value : Unit} :
    references table constraint present = .ok value ↔ present = true := by
  cases present <;> simp [references]

namespace Database

def emailTaken (db : Database) (email : String) : Bool :=
  db.users.rows.any fun user => user.email = email

/-- Another user's email, for an `UPDATE` of `username`. -/
def emailTakenBy (db : Database) (username email : String) : Bool :=
  db.users.rows.any fun user => user.email = email && user.username ≠ username

def ownerCurrencyTaken (db : Database) (owner currency : String) : Bool :=
  db.accounts.rows.any fun account => account.owner = owner && account.currency = currency

end Database

/-- The row `COALESCE` makes of a user. -/
def UpdateUserParams.apply (arg : UpdateUserParams) (user : User) : User :=
  { user with
    hashedPassword := arg.hashedPassword.getD user.hashedPassword
    passwordChangedAt := (arg.passwordChangedAt.map timestamptz).getD user.passwordChangedAt
    fullName := arg.fullName.getD user.fullName
    email := arg.email.getD user.email
    isEmailVerified := arg.isEmailVerified.getD user.isEmailVerified }

/-- The `WHERE` clause of `UpdateVerifyEmail`, `now` being `now()`. -/
def UpdateVerifyEmailParams.selects (arg : UpdateVerifyEmailParams) (now : Time)
    (row : VerifyEmail) : Bool :=
  row.id = arg.id && row.secretCode = arg.secretCode && !row.isUsed && now < row.expiredAt

/-- How long a verification link lasts: `interval '15 minutes'`. -/
def verifyEmailLifetime : Time := 15 * 60 * second

/-! One function for each statement.  `now` is `now()`, the start of the
transaction, and `generated` the next value of the table's sequence. -/

section Eval

variable (generated : Int) (now : Time) (db : Database)

def orNoRows {ρ : Type} : Option ρ → Except Err ρ
  | some row => .ok row
  | none => .error .noRows

def evalCreateUser (arg : CreateUserParams) : Except Err User := do
  unique "users_pkey" (db.users.find? arg.username).isSome
  unique "users_email_key" (db.emailTaken arg.email)
  return { username := arg.username, hashedPassword := arg.hashedPassword,
           fullName := arg.fullName, email := arg.email, passwordChangedAt := zeroTime,
           createdAt := now, isEmailVerified := false, role := "depositor" }

def evalGetUser (username : String) : Except Err User := orNoRows (db.users.find? username)

def evalUpdateUser (arg : UpdateUserParams) : Except Err User := do
  let user ← orNoRows (db.users.find? arg.username)
  unique "users_email_key" (db.emailTakenBy arg.username (arg.apply user).email)
  return arg.apply user

def evalCreateAccount (arg : CreateAccountParams) : Except Err Account := do
  unique "owner_currency_key" (db.ownerCurrencyTaken arg.owner arg.currency)
  references "accounts" "accounts_owner_fkey" (db.users.find? arg.owner).isSome
  return { id := generated, owner := arg.owner, balance := arg.balance,
           currency := arg.currency, createdAt := now }

def evalGetAccount (id : Int) : Except Err Account := orNoRows (db.accounts.find? id)

def evalListAccounts (arg : ListAccountsParams) : Except Err (List Account) :=
  if arg.offset < 0 then .error (.pg "2201X" "OFFSET must not be negative")
  else if arg.limit < 0 then .error (.pg "2201W" "LIMIT must not be negative")
  else
    let owned := db.accounts.rows.filter fun account => account.owner = arg.owner
    let ordered := owned.insertionSort fun left right => left.id ≤ right.id
    .ok ((ordered.drop arg.offset.toInt.toNat).take arg.limit.toInt.toNat)

def evalAddAccountBalance (arg : AddAccountBalanceParams) : Except Err Account := do
  let account ← orNoRows (db.accounts.find? arg.id)
  let balance ← addBigint account.balance arg.amount
  return { account with balance }

def evalCreateEntry (arg : CreateEntryParams) : Except Err Entry := do
  references "entries" "entries_account_id_fkey" (db.accounts.find? arg.accountID).isSome
  return { id := generated, accountID := arg.accountID, amount := arg.amount, createdAt := now }

def evalCreateTransfer (arg : CreateTransferParams) : Except Err Transfer := do
  references "transfers" "transfers_from_account_id_fkey"
    (db.accounts.find? arg.fromAccountID).isSome
  references "transfers" "transfers_to_account_id_fkey"
    (db.accounts.find? arg.toAccountID).isSome
  return { id := generated, fromAccountID := arg.fromAccountID, toAccountID := arg.toAccountID,
           amount := arg.amount, createdAt := now }

def evalCreateSession (arg : CreateSessionParams) : Except Err Session := do
  unique "sessions_pkey" (db.sessions.find? arg.id).isSome
  references "sessions" "sessions_username_fkey" (db.users.find? arg.username).isSome
  return { id := arg.id, username := arg.username, refreshToken := arg.refreshToken,
           userAgent := arg.userAgent, clientIp := arg.clientIp, isBlocked := arg.isBlocked,
           expiresAt := timestamptz arg.expiresAt, createdAt := now }

def evalGetSession (id : UUID) : Except Err Session := orNoRows (db.sessions.find? id)

def evalCreateVerifyEmail (arg : CreateVerifyEmailParams) : Except Err VerifyEmail := do
  references "verify_emails" "verify_emails_username_fkey" (db.users.find? arg.username).isSome
  return { id := generated, username := arg.username, email := arg.email,
           secretCode := arg.secretCode, isUsed := false, createdAt := now,
           expiredAt := now + verifyEmailLifetime }

def evalUpdateVerifyEmail (arg : UpdateVerifyEmailParams) : Except Err VerifyEmail := do
  let row ← orNoRows ((db.verifyEmails.find? arg.id).filter (arg.selects now))
  return { row with isUsed := true }

end Eval

namespace Stmt

def Result : Stmt → Type
  | .createUser _ | .getUser _ | .updateUser _ => User
  | .createAccount _ | .getAccount _ | .addAccountBalance _ => Account
  | .listAccounts _ => List Account
  | .createEntry _ => Entry
  | .createTransfer _ => Transfer
  | .createSession _ | .getSession _ => Session
  | .createVerifyEmail _ | .updateVerifyEmail _ => VerifyEmail

/-- The key a `bigserial` default gives the new row. -/
def serialKey (generated : Int) : Stmt → List Key
  | .createAccount _ => [.account generated]
  | .createEntry _ => [.entry generated]
  | .createTransfer _ => [.transfer generated]
  | .createVerifyEmail _ => [.verifyEmail generated]
  | _ => []

/-- A sequence starts at 1 and never gives out a value that is in use. -/
def freshSerial (generated : Int) (db : Database) (stmt : Stmt) : Bool :=
  (stmt.serialKey generated).all fun k => 0 < generated && (db.lookup k).isNone

/-- The statement's effect as PostgreSQL computes it. -/
def eval (generated : Int) (now : Time) (db : Database) : (stmt : Stmt) → Except Err stmt.Result
  | .createUser arg => evalCreateUser now db arg
  | .getUser username => evalGetUser db username
  | .updateUser arg => evalUpdateUser db arg
  | .createAccount arg => evalCreateAccount generated now db arg
  | .getAccount id => evalGetAccount db id
  | .listAccounts arg => evalListAccounts db arg
  | .addAccountBalance arg => evalAddAccountBalance db arg
  | .createEntry arg => evalCreateEntry generated now db arg
  | .createTransfer arg => evalCreateTransfer generated now db arg
  | .createSession arg => evalCreateSession now db arg
  | .getSession id => evalGetSession db id
  | .createVerifyEmail arg => evalCreateVerifyEmail generated now db arg
  | .updateVerifyEmail arg => evalUpdateVerifyEmail now db arg

/-- Every writing statement returns the row it wrote. -/
def written : (stmt : Stmt) → stmt.Result → List Row
  | .createUser _, row | .updateUser _, row => [.user row]
  | .createAccount _, row | .addAccountBalance _, row => [.account row]
  | .createEntry _, row => [.entry row]
  | .createTransfer _, row => [.transfer row]
  | .createSession _, row => [.session row]
  | .createVerifyEmail _, row | .updateVerifyEmail _, row => [.verifyEmail row]
  | .getUser _, _ | .getAccount _, _ | .listAccounts _, _ | .getSession _, _ => []

/-- A foreign key locks the row it refers to, once there is one. -/
def keyShare (db : Database) (k : Key) : List (Lock Key) :=
  if (db.lookup k).isSome then [⟨k, .keyShare⟩] else []

/-- The locks a statement waits for.  An insert also waits for whoever is about
to enter or drop the same value in a unique index; an `UPDATE` that changes the
column of such an index takes the stronger row lock. -/
def requests (now : Time) (db : Database) : Stmt → List (Lock Key)
  | .createUser arg => [⟨.user arg.username, .update⟩, ⟨.email arg.email, .update⟩]
  | .updateUser arg =>
    match db.users.find? arg.username with
    | some user =>
      if (arg.apply user).email = user.email then [⟨.user arg.username, .noKeyUpdate⟩]
      else [⟨.user arg.username, .update⟩, ⟨.email (arg.apply user).email, .update⟩,
        ⟨.email user.email, .update⟩]
    | none => []
  | .createAccount arg =>
    ⟨.ownerCurrency arg.owner arg.currency, .update⟩ :: keyShare db (.user arg.owner)
  | .addAccountBalance arg =>
    if (db.accounts.find? arg.id).isSome then [⟨.account arg.id, .noKeyUpdate⟩] else []
  | .createEntry arg => keyShare db (.account arg.accountID)
  | .createTransfer arg =>
    keyShare db (.account arg.fromAccountID) ++ keyShare db (.account arg.toAccountID)
  | .createSession arg => ⟨.session arg.id, .update⟩ :: keyShare db (.user arg.username)
  | .createVerifyEmail arg => keyShare db (.user arg.username)
  | .updateVerifyEmail arg =>
    if ((db.verifyEmails.find? arg.id).filter (arg.selects now)).isSome then
      [⟨.verifyEmail arg.id, .noKeyUpdate⟩]
    else []
  | .getUser _ | .getAccount _ | .listAccounts _ | .getSession _ => []

/-- What a statement has locked once it ran: nobody else can touch a row that
is not committed yet. -/
def locks (generated : Int) (now : Time) (db : Database) (stmt : Stmt) : List (Lock Key) :=
  stmt.requests now db ++ (stmt.serialKey generated).map fun k => ⟨k, .update⟩

end Stmt
end SimpleBank.Db
