import SimpleBank.Library.RowLocks

/-! The six tables of the schema after the last migration, and how a row is
found in them.  Besides the primary keys, `Key` names the entries of the unique
indexes on `users.email` and `accounts (owner, currency)`. -/
namespace SimpleBank.Db
open Library

/-- Nanoseconds since the Unix epoch. -/
abbrev Time := Int
abbrev UUID := BitVec 128

/-- The precision of a `timestamptz` column is one microsecond. -/
def timestamptz (time : Time) : Time := time - time % 1000

def second : Time := 1000000000

/-- `0001-01-01 00:00:00Z`, Go's zero time. -/
def zeroTime : Time := -62135596800 * second

structure User where
  username : String
  hashedPassword : String
  fullName : String
  email : String
  passwordChangedAt : Time
  createdAt : Time
  isEmailVerified : Bool
  role : String
  deriving DecidableEq, Repr

structure Account where
  id : Int
  owner : String
  balance : Int64
  currency : String
  createdAt : Time
  deriving DecidableEq, Repr

structure Entry where
  id : Int
  accountID : Int
  amount : Int64
  createdAt : Time
  deriving DecidableEq, Repr

structure Transfer where
  id : Int
  fromAccountID : Int
  toAccountID : Int
  amount : Int64
  createdAt : Time
  deriving DecidableEq, Repr

structure Session where
  id : UUID
  username : String
  refreshToken : String
  userAgent : String
  clientIp : String
  isBlocked : Bool
  expiresAt : Time
  createdAt : Time
  deriving DecidableEq, Repr

structure VerifyEmail where
  id : Int
  username : String
  email : String
  secretCode : String
  isUsed : Bool
  createdAt : Time
  expiredAt : Time
  deriving DecidableEq, Repr

inductive Key where
  | user (username : String)
  | email (email : String)
  | account (id : Int)
  | ownerCurrency (owner currency : String)
  | entry (id : Int)
  | transfer (id : Int)
  | session (id : UUID)
  | verifyEmail (id : Int)
  deriving DecidableEq, Repr

inductive Row where
  | user (row : User)
  | account (row : Account)
  | entry (row : Entry)
  | transfer (row : Transfer)
  | session (row : Session)
  | verifyEmail (row : VerifyEmail)
  deriving DecidableEq, Repr

namespace Row

def key : Row → Key
  | .user row => .user row.username
  | .account row => .account row.id
  | .entry row => .entry row.id
  | .transfer row => .transfer row.id
  | .session row => .session row.id
  | .verifyEmail row => .verifyEmail row.id

/-- The columns nobody updates, and that a used verification row stays used.
There is no `DELETE` among the served statements, and blocking a session is all
that is done to the tables from outside. -/
def Keeps : Row → Row → Prop
  | .user old, .user row => row.username = old.username ∧ row.role = old.role ∧
      row.createdAt = old.createdAt
  | .account old, .account row => row.id = old.id ∧ row.owner = old.owner ∧
      row.currency = old.currency ∧ row.createdAt = old.createdAt
  | .session old, .session row => row = { old with isBlocked := row.isBlocked }
  | .verifyEmail old, .verifyEmail row =>
      (old.isUsed = true → row.isUsed = true) ∧ row = { old with isUsed := row.isUsed }
  | old, row => row = old

theorem keeps_refl (row : Row) : row.Keeps row := by
  cases row <;> simp [Keeps]

theorem keeps_trans {a b c : Row} (hab : a.Keeps b) (hbc : b.Keeps c) : a.Keeps c := by
  cases a <;> cases b <;> simp [Keeps] at hab <;> cases c <;> simp [Keeps] at hbc ⊢
  case user.user.user => simp_all
  case account.account.account => simp_all
  case session.session.session => rw [hbc, hab]
  case verifyEmail.verifyEmail.verifyEmail =>
    exact ⟨fun h => hbc.1 (hab.1 h), by rw [hbc.2, hab.2]⟩
  all_goals simp_all

end Row

structure Database where
  users : Table String User User.username
  accounts : Table Int Account Account.id
  entries : Table Int Entry Entry.id
  transfers : Table Int Transfer Transfer.id
  sessions : Table UUID Session Session.id
  verifyEmails : Table Int VerifyEmail VerifyEmail.id
  deriving DecidableEq

namespace Database

def empty : Database := ⟨.empty, .empty, .empty, .empty, .empty, .empty⟩

/-- The entries of the two unique indexes are looked up by the statements that
need them; as keys they only carry locks. -/
def lookup (db : Database) : Key → Option Row
  | .user username => (db.users.find? username).map .user
  | .account id => (db.accounts.find? id).map .account
  | .entry id => (db.entries.find? id).map .entry
  | .transfer id => (db.transfers.find? id).map .transfer
  | .session id => (db.sessions.find? id).map .session
  | .verifyEmail id => (db.verifyEmails.find? id).map .verifyEmail
  | .email _ | .ownerCurrency _ _ => none

def put (db : Database) : Row → Database
  | .user row => { db with users := db.users.put row }
  | .account row => { db with accounts := db.accounts.put row }
  | .entry row => { db with entries := db.entries.put row }
  | .transfer row => { db with transfers := db.transfers.put row }
  | .session row => { db with sessions := db.sessions.put row }
  | .verifyEmail row => { db with verifyEmails := db.verifyEmails.put row }

@[simp] theorem lookup_user {db : Database} {username : String} {row : User} :
    db.lookup (.user username) = some (.user row) ↔ db.users.find? username = some row := by
  simp [lookup]

@[simp] theorem lookup_account {db : Database} {id : Int} {row : Account} :
    db.lookup (.account id) = some (.account row) ↔ db.accounts.find? id = some row := by
  simp [lookup]

@[simp] theorem lookup_session {db : Database} {id : UUID} {row : Session} :
    db.lookup (.session id) = some (.session row) ↔ db.sessions.find? id = some row := by
  simp [lookup]

@[simp] theorem lookup_verifyEmail {db : Database} {id : Int} {row : VerifyEmail} :
    db.lookup (.verifyEmail id) = some (.verifyEmail row) ↔
      db.verifyEmails.find? id = some row := by
  simp [lookup]

theorem key_of_lookup {db : Database} {k : Key} {row : Row} (h : db.lookup k = some row) :
    row.key = k := by
  cases k <;> simp only [lookup, Option.map_eq_some_iff, reduceCtorEq] at h
  all_goals
    obtain ⟨found, hfind, rfl⟩ := h
    exact congrArg _ (Table.find?_mem hfind).2

theorem lookup_put (db : Database) (row : Row) (k : Key) [Decidable (k = row.key)] :
    (db.put row).lookup k = if k = row.key then some row else db.lookup k := by
  cases row <;> cases k <;>
    simp only [put, lookup, Row.key, Key.user.injEq, Key.account.injEq, Key.entry.injEq,
      Key.transfer.injEq, Key.session.injEq, Key.verifyEmail.injEq, Table.find?_put,
      reduceCtorEq, if_false] <;>
    split <;> simp_all

end Database

instance : Store Database Key Row where
  lookup := Database.lookup
  put := Database.put
  key := Row.key
  keeps := Row.Keeps
  lookup_put := Database.lookup_put
  keeps_refl := Row.keeps_refl
  keeps_trans := Row.keeps_trans

end SimpleBank.Db
