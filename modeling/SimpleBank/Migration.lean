import SimpleBank.Library.Ddl

/-! The scripts of `db/migration`, which the server runs when it starts. -/
namespace SimpleBank.Migration
open Library.Ddl

/-- `timestamptz NOT NULL DEFAULT (now())`. -/
def createdAt : ColumnDef :=
  { name := "created_at", type := .timestamptz, notNull := true, default := some (.now 0) }

/-- `bigserial PRIMARY KEY`. -/
def serialId : ColumnDef := { name := "id", type := .bigserial, key := some .primaryKey }

/-- `0001-01-01 00:00:00Z`. -/
def zeroTimestamp : Int := -62135596800000000

/-- `interval '15 minutes'`. -/
def fifteenMinutes : Int := 900000000

def initSchemaUp : List Stmt :=
  [.createTable "accounts"
    [serialId,
     { name := "owner", type := .varchar, notNull := true },
     { name := "balance", type := .bigint, notNull := true },
     { name := "currency", type := .varchar, notNull := true },
     createdAt],
   .createTable "entries"
    [serialId,
     { name := "account_id", type := .bigint, notNull := true },
     { name := "amount", type := .bigint, notNull := true },
     createdAt],
   .createTable "transfers"
    [serialId,
     { name := "from_account_id", type := .bigint, notNull := true },
     { name := "to_account_id", type := .bigint, notNull := true },
     { name := "amount", type := .bigint, notNull := true },
     createdAt],
   .addForeignKey "entries" ["account_id"] "accounts" ["id"],
   .addForeignKey "transfers" ["from_account_id"] "accounts" ["id"],
   .addForeignKey "transfers" ["to_account_id"] "accounts" ["id"],
   .createIndex "accounts" ["owner"],
   .createIndex "entries" ["account_id"],
   .createIndex "transfers" ["from_account_id"],
   .createIndex "transfers" ["to_account_id"],
   .createIndex "transfers" ["from_account_id", "to_account_id"],
   .commentOnColumn "entries" "amount" "can be negative or positive",
   .commentOnColumn "transfers" "amount" "must be positive"]

def initSchemaDown : List Stmt :=
  [.dropTable true "entries" false,
   .dropTable true "transfers" false,
   .dropTable true "accounts" false]

def addUsersUp : List Stmt :=
  [.createTable "users"
    [{ name := "username", type := .varchar, key := some .primaryKey },
     { name := "hashed_password", type := .varchar, notNull := true },
     { name := "full_name", type := .varchar, notNull := true },
     { name := "email", type := .varchar, notNull := true, key := some .unique },
     { name := "password_changed_at", type := .timestamptz, notNull := true,
       default := some (.literal (.timestamptz zeroTimestamp)) },
     createdAt],
   .addForeignKey "accounts" ["owner"] "users" ["username"],
   .addUnique "accounts" "owner_currency_key" ["owner", "currency"]]

def addUsersDown : List Stmt :=
  [.dropConstraint true "accounts" true "owner_currency_key",
   .dropConstraint true "accounts" true "accounts_owner_fkey",
   .dropTable true "users" false]

def addSessionsUp : List Stmt :=
  [.createTable "sessions"
    [{ name := "id", type := .uuid, key := some .primaryKey },
     { name := "username", type := .varchar, notNull := true },
     { name := "refresh_token", type := .varchar, notNull := true },
     { name := "user_agent", type := .varchar, notNull := true },
     { name := "client_ip", type := .varchar, notNull := true },
     { name := "is_blocked", type := .boolean, notNull := true,
       default := some (.literal (.boolean false)) },
     { name := "expires_at", type := .timestamptz, notNull := true },
     createdAt],
   .addForeignKey "sessions" ["username"] "users" ["username"]]

def addSessionsDown : List Stmt := [.dropTable true "sessions" false]

def addVerifyEmailsUp : List Stmt :=
  [.createTable "verify_emails"
    [serialId,
     { name := "username", type := .varchar, notNull := true },
     { name := "email", type := .varchar, notNull := true },
     { name := "secret_code", type := .varchar, notNull := true },
     { name := "is_used", type := .boolean, notNull := true,
       default := some (.literal (.boolean false)) },
     createdAt,
     { name := "expired_at", type := .timestamptz, notNull := true,
       default := some (.now fifteenMinutes) }],
   .addForeignKey "verify_emails" ["username"] "users" ["username"],
   .addColumn "users"
    { name := "is_email_verified", type := .boolean, notNull := true,
      default := some (.literal (.boolean false)) }]

def addVerifyEmailsDown : List Stmt :=
  [.dropTable true "verify_emails" true,
   .dropColumn "users" "is_email_verified"]

def addRoleToUsersUp : List Stmt :=
  [.addColumn "users"
    { name := "role", type := .varchar, notNull := true,
      default := some (.literal (.varchar "depositor")) }]

def addRoleToUsersDown : List Stmt := [.dropColumn "users" "role"]

/-- The up script that leads to this version. -/
def up : Nat → List Stmt
  | 1 => initSchemaUp
  | 2 => addUsersUp
  | 3 => addSessionsUp
  | 4 => addVerifyEmailsUp
  | 5 => addRoleToUsersUp
  | _ => []

/-- The down script that leads away from this version. -/
def down : Nat → List Stmt
  | 1 => initSchemaDown
  | 2 => addUsersDown
  | 3 => addSessionsDown
  | 4 => addVerifyEmailsDown
  | 5 => addRoleToUsersDown
  | _ => []

/-- The version after the last script. -/
def latest : Nat := 5

/-- The schema that the up scripts build from an empty database. -/
def schemaAt : Nat → Schema
  | 0 => .empty
  | version + 1 => ((schemaAt version).run (up (version + 1))).toOption.getD .empty

/-- The up scripts from one version to a later one. -/
def migrateUp (now : Nat → Int) (version : Nat) : Nat → State → Except Err State
  | 0, state => .ok state
  | target + 1, state =>
    if version ≤ target then
      migrateUp now version target state >>= fun state => run (now (target + 1)) state (up (target + 1))
    else .ok state

/-- The down scripts from one version to an earlier one. -/
def migrateDown (now : Nat → Int) (target : Nat) : Nat → State → Except Err State
  | 0, state => .ok state
  | version + 1, state =>
    if target ≤ version then
      run (now (version + 1)) state (down (version + 1)) >>= migrateDown now target version
    else .ok state

end SimpleBank.Migration
