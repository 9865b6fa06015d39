import SimpleBank.Db.Execution
import SimpleBank.Library.Interleaving
import SimpleBank.Token.Payload
import SimpleBank.Util

/-! What the code runs against: PostgreSQL at READ COMMITTED, the task queue,
the mailer, the clock, and the sources of randomness.  A failure is a choice of
the environment at any call. -/
namespace SimpleBank
open Library Db

structure MailAddress where
  name : String
  address : String
  deriving DecidableEq, Repr

/-- Third-party functions, and the configuration the server was started with. -/
structure Deps where
  config : Util.Config
  encrypt : Token.Payload → BitVec 192 → String
  decrypt : String → Option Token.Payload
  generateFromPassword : BitVec 128 → String → Except Err String
  compareHashAndPassword : String → String → Except Err Unit
  parseAddress : String → Option MailAddress
  isEmail : String → Bool

namespace Worker

structure PayloadSendVerifyEmail where
  username : String
  deriving DecidableEq, Repr

inductive TaskOption where
  | maxRetry (n : Nat)
  | processIn (duration : Time)
  | queue (name : String)
  deriving DecidableEq, Repr

structure Task where
  type : String
  payload : PayloadSendVerifyEmail
  opts : List TaskOption
  deriving DecidableEq, Repr

end Worker

structure Mail where
  subject : String
  content : String
  recipients : List String
  cc : List String
  bcc : List String
  attachFiles : List String
  deriving DecidableEq, Repr

/-- A statement goes to the pool or to the transaction its thread has open. -/
inductive Conn where
  | pool
  | tx
  deriving DecidableEq, Repr

inductive Op where
  | sql (conn : Conn) (stmt : Stmt)
  | begin
  | commit
  | rollback
  | generateFromPassword (password : String)
  | newRandom
  | encrypt (payload : Token.Payload)
  | enqueue (task : Worker.Task)
  | randomString (n : Nat)
  | sendEmail (mail : Mail)
  deriving DecidableEq, Repr

def Op.Reply : Op → Type
  | .sql _ stmt => Except Err stmt.Result
  | .begin | .commit | .rollback | .enqueue _ | .sendEmail _ => Except Err Unit
  | .generateFromPassword _ | .encrypt _ => Except Err String
  | .newRandom => Except Err UUID
  | .randomString _ => String

abbrev Act := Program Op Op.Reply

/-! The calls as programs. -/
namespace Call

def query (conn : Conn) (stmt : Stmt) : Act (Except Err stmt.Result) := .perform (Op.sql conn stmt)
def begin : Act (Except Err Unit) := .perform Op.begin
def commit : Act (Except Err Unit) := .perform Op.commit
def rollback : Act (Except Err Unit) := .perform Op.rollback
def generateFromPassword (password : String) : Act (Except Err String) :=
  .perform (Op.generateFromPassword password)
def newRandom : Act (Except Err UUID) := .perform Op.newRandom
def encrypt (payload : Token.Payload) : Act (Except Err String) := .perform (Op.encrypt payload)
def enqueue (task : Worker.Task) : Act (Except Err Unit) := .perform (Op.enqueue task)
def randomString (n : Nat) : Act String := .perform (Op.randomString n)
def sendEmail (mail : Mail) : Act (Except Err Unit) := .perform (Op.sendEmail mail)

end Call

/-- The committed tables and open transactions, and what else outlives a
request.  `issued` are the tokens ever encrypted under the configured key. -/
structure World extends TxState Database Execution Time where
  clock : Time
  tasks : List Worker.Task
  issued : List (String × Token.Payload)

/-- An error that has nothing to do with the statement it hits. -/
abbrev Outage := { err : Err // err.infrastructure = true }

/-- What the environment decides at a call. -/
structure Choice where
  fail : Option Outage := none
  generated : Int := 1
  uuid : UUID := 0
  salt : BitVec 128 := 0
  nonce : BitVec 192 := 0
  letters : List (Fin 26) := []

def txClosed : Err := .text "tx is closed"

def inFailedSqlTransaction : Err := .pg "25P02"
  "current transaction is aborted, commands ignored until end of transaction block"

def commitRollback : Err := .text "commit unexpectedly resulted in rollback"

/-- Whether an outcome leaves its transaction aborted: an error of the server
does, an empty result does not. -/
def aborts {α : Type} : Except Err α → Bool
  | .ok _ | .error .noRows => false
  | .error _ => true

namespace World

/-- `now()` in a transaction that starts at once. -/
def now (w : World) : Time := timestamptz w.clock

/-- A statement outside a transaction is one of its own.  A choice that the
statement would have to wait for, or a sequence value in use, is none. -/
def poolStep (choice : Choice) (stmt : Stmt) (w : World) :
    Option (Except Err stmt.Result × World) :=
  match choice.fail with
  | some outage => some (.error outage.val, w)
  | none =>
    let call := Execution.perform choice.generated w.now w.db stmt
    if w.grants none call.locks && stmt.freshSerial choice.generated w.db then
      some (call.outcome, { w with db := Store.write w.db call.rows })
    else none

def extendTx (w : World) (tx : Tx Execution Time) (call : Execution) : World :=
  { w with txs := w.txs.put (tx.extend call (aborts call.outcome)) }

def txStep (thread : Nat) (choice : Choice) (stmt : Stmt) (w : World) :
    Option (Except Err stmt.Result × World) :=
  match w.txs.find? thread with
  | none => some (.error txClosed, w)
  | some tx =>
    if tx.aborted then
      some (.error inFailedSqlTransaction,
        w.extendTx tx (.failed tx.startedAt stmt inFailedSqlTransaction))
    else
      match choice.fail with
      | some outage => some (.error outage.val, w.extendTx tx (.failed tx.startedAt stmt outage.val))
      | none =>
        let call := Execution.perform choice.generated tx.startedAt (w.view tx) stmt
        if w.grants (some thread) call.locks &&
            stmt.freshSerial choice.generated (w.view tx) then
          some (call.outcome, w.extendTx tx call)
        else none

/-- A thread begins one transaction at a time. -/
def beginStep (thread : Nat) (choice : Choice) (w : World) :
    Option (Except Err Unit × World) :=
  match choice.fail with
  | some outage => some (.error outage.val, w)
  | none =>
    if (w.txs.find? thread).isNone then
      some (.ok (), { w with txs := w.txs.put (.fresh thread w.now) })
    else none

def closeTx (thread : Nat) (w : World) : World := { w with txs := w.txs.erase thread }

/-- A commit that fails persists nothing. -/
def commitStep (thread : Nat) (choice : Choice) (w : World) : Except Err Unit × World :=
  match w.txs.find? thread with
  | none => (.error txClosed, w)
  | some tx =>
    match choice.fail with
    | some outage => (.error outage.val, w.closeTx thread)
    | none =>
      if tx.aborted then (.error commitRollback, w.closeTx thread)
      else (.ok (), { w with db := w.view tx, txs := w.txs.erase thread })

def rollbackStep (thread : Nat) (choice : Choice) (w : World) : Except Err Unit × World :=
  match w.txs.find? thread with
  | none => (.error txClosed, w)
  | some _ =>
    match choice.fail with
    | some outage => (.error outage.val, w.closeTx thread)
    | none => (.ok (), w.closeTx thread)

/-- A call outside the database: it fails, or `result` is what happens. -/
def callStep {α : Type} (choice : Choice) (w : World) (result : Except Err α × World) :
    Except Err α × World :=
  match choice.fail with
  | some outage => (.error outage.val, w)
  | none => result

def step (deps : Deps) (thread : Nat) (choice : Choice) :
    (op : Op) → World → Option (op.Reply × World)
  | .sql .pool stmt, w => w.poolStep choice stmt
  | .sql .tx stmt, w => w.txStep thread choice stmt
  | .begin, w => w.beginStep thread choice
  | .commit, w => some (w.commitStep thread choice)
  | .rollback, w => some (w.rollbackStep thread choice)
  | .generateFromPassword password, w =>
    some (callStep choice w (deps.generateFromPassword choice.salt password, w))
  | .newRandom, w => some (callStep choice w (.ok choice.uuid, w))
  | .encrypt payload, w =>
    let token := deps.encrypt payload choice.nonce
    some (callStep choice w (.ok token, { w with issued := w.issued ++ [(token, payload)] }))
  | .enqueue task, w => some (callStep choice w (.ok (), { w with tasks := w.tasks ++ [task] }))
  | .randomString n, w =>
    if choice.letters.length = n then some (Util.randomString choice.letters, w) else none
  | .sendEmail _, w => some (callStep choice w (.ok (), w))

end World

/-- What happens to the world besides the requests: time passes, and somebody
sets `is_blocked` on a session by hand. -/
inductive External where
  | tick (elapsed : Nat)
  | block (session : UUID)
  deriving DecidableEq, Repr

def World.external : External → World → Option World
  | .tick elapsed, w => some { w with clock := w.clock + elapsed }
  | .block session, w =>
    match w.db.sessions.find? session with
    | none => some w
    | some row =>
      if w.grants none [⟨.session session, .noKeyUpdate⟩] then
        some { w with db := w.db.put (.session { row with isBlocked := true }) }
      else none

/-- Any set of programs, run concurrently against the world. -/
def World.system (deps : Deps) {J α : Type} (accepts : World → J → Bool) (serve : J → Act α) :
    System Op Op.Reply World J Choice External α where
  accepts := accepts
  serve := serve
  step := fun thread choice op w => w.step deps thread choice op
  external := World.external

/-! A small bank to try the results on.  The token of a user is the username. -/
namespace Sample

def user (username : String) : User :=
  { username, hashedPassword := "secret", fullName := username, email := username,
    passwordChangedAt := zeroTime, createdAt := 0, isEmailVerified := false,
    role := Util.depositorRole }

def deps : Deps where
  config := ⟨900 * second, 86400 * second⟩
  encrypt payload _ := payload.username
  decrypt token :=
    if token = "alice" ∨ token = "bob" then
      some (Token.newPayload 0 0 token Util.depositorRole (900 * second) Token.tokenTypeAccessToken)
    else none
  generateFromPassword _ password := .ok password
  compareHashAndPassword hashedPassword password :=
    if hashedPassword = password then .ok () else .error (.text "mismatch")
  parseAddress address := some ⟨"", address⟩
  isEmail _ := true

def world : World where
  db := { Database.empty with users := (Table.empty.put (user "alice")).put (user "bob") }
  txs := .empty
  clock := 0
  tasks := []
  issued := []

def accounts : Table Int Account Account.id :=
  (Table.empty.put ⟨1, "alice", 100, "USD", 0⟩).put ⟨2, "bob", 100, "USD", 0⟩

/-- The same with some money on two accounts. -/
def funded : World := { world with db := { world.db with accounts := accounts } }

end Sample
end SimpleBank
