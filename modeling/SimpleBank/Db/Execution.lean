import SimpleBank.Db.Evaluation

/-! Statements that have been executed, as transactions keep them.  `Yields` is
what the result of a statement says about the rows that only a conflicting
transaction could have changed, so it outlives the moment of execution. -/
namespace SimpleBank.Db
open Library

namespace Database

/-- Rows that were read are still there, up to what updates may change. -/
def Seen (db : Database) (rows : List Row) : Prop :=
  ∀ row ∈ rows, ∃ current, db.lookup row.key = some current ∧ row.Keeps current

theorem Seen.mono {db db' : Database} {rows : List Row} (h : db.Seen rows)
    (hextends : Store.Extends db db') : db'.Seen rows := by
  intro row hrow
  obtain ⟨current, hcurrent, hkeeps⟩ := h row hrow
  obtain ⟨later, hlater, hkeeps'⟩ := hextends _ current hcurrent
  exact ⟨later, hlater, Row.keeps_trans hkeeps hkeeps'⟩

theorem seen_singleton {db : Database} {row : Row} (h : db.lookup row.key = some row) :
    db.Seen [row] := by
  intro other hother
  rw [List.mem_singleton.mp hother]
  exact ⟨row, h, Row.keeps_refl row⟩

theorem isSome_of_extends {db db' : Database} (hextends : Store.Extends db db') {k : Key}
    (h : (db.lookup k).isSome = true) : (db'.lookup k).isSome = true := by
  obtain ⟨row, hrow⟩ := Option.isSome_iff_exists.mp h
  obtain ⟨row', hrow', -⟩ := hextends k row hrow
  exact Option.isSome_iff_exists.mpr ⟨row', hrow'⟩

end Database

namespace Stmt

/-- Every row of the reply, written by the statement or not. -/
def returned : (stmt : Stmt) → stmt.Result → List Row
  | .createUser _, row | .getUser _, row | .updateUser _, row => [.user row]
  | .createAccount _, row | .getAccount _, row | .addAccountBalance _, row => [.account row]
  | .listAccounts _, rows => List.map .account rows
  | .createEntry _, row => [.entry row]
  | .createTransfer _, row => [.transfer row]
  | .createSession _, row | .getSession _, row => [.session row]
  | .createVerifyEmail _, row | .updateVerifyEmail _, row => [.verifyEmail row]

/-- The rows a statement leaves behind. -/
def effect (stmt : Stmt) : Except Err stmt.Result → List Row
  | .ok row => stmt.written row
  | .error _ => []

/-- `row` is the result of the statement on `db`, as far as `db` cannot move
under it. What was only read may since have been updated. -/
def Yields (generated : Int) (now : Time) (db : Database) : (stmt : Stmt) → stmt.Result → Prop
  | .createUser arg, row => db.lookup (.user arg.username) = none ∧
      row = ⟨arg.username, arg.hashedPassword, arg.fullName, arg.email, zeroTime, now, false,
        "depositor"⟩
  | .getUser username, row => row.username = username ∧ db.Seen [.user row]
  | .updateUser arg, row => ∃ user, db.lookup (.user arg.username) = some (.user user) ∧
      row = arg.apply user
  | .createAccount arg, row => (0 < generated ∧ db.lookup (.account generated) = none) ∧
      (db.lookup (.user arg.owner)).isSome = true ∧
      row = ⟨generated, arg.owner, arg.balance, arg.currency, now⟩
  | .getAccount id, row => row.id = id ∧ db.Seen [.account row]
  | .listAccounts _, rows => db.Seen (List.map .account rows)
  | .addAccountBalance arg, row => ∃ account, db.lookup (.account arg.id) = some (.account account) ∧
      row.balance.toInt = account.balance.toInt + arg.amount.toInt ∧
      row = { account with balance := row.balance }
  | .createEntry arg, row => (0 < generated ∧ db.lookup (.entry generated) = none) ∧
      (db.lookup (.account arg.accountID)).isSome = true ∧
      row = ⟨generated, arg.accountID, arg.amount, now⟩
  | .createTransfer arg, row => (0 < generated ∧ db.lookup (.transfer generated) = none) ∧
      (db.lookup (.account arg.fromAccountID)).isSome = true ∧
      (db.lookup (.account arg.toAccountID)).isSome = true ∧
      row = ⟨generated, arg.fromAccountID, arg.toAccountID, arg.amount, now⟩
  | .createSession arg, row => db.lookup (.session arg.id) = none ∧
      (db.lookup (.user arg.username)).isSome = true ∧
      row = ⟨arg.id, arg.username, arg.refreshToken, arg.userAgent, arg.clientIp, arg.isBlocked,
        timestamptz arg.expiresAt, now⟩
  | .getSession id, row => row.id = id ∧ db.Seen [.session row]
  | .createVerifyEmail arg, row => (0 < generated ∧ db.lookup (.verifyEmail generated) = none) ∧
      (db.lookup (.user arg.username)).isSome = true ∧
      row = ⟨generated, arg.username, arg.email, arg.secretCode, false, now,
        now + verifyEmailLifetime⟩
  | .updateVerifyEmail arg, row => ∃ old,
      db.lookup (.verifyEmail arg.id) = some (.verifyEmail old) ∧ arg.selects now old = true ∧
      row = { old with isUsed := true }

/-- A statement that failed has left nothing behind. -/
def Allows (generated : Int) (now : Time) (db : Database) (stmt : Stmt) :
    Except Err stmt.Result → Prop
  | .ok row => stmt.Yields generated now db row
  | .error _ => True

variable {generated : Int} {now : Time} {db : Database}

theorem yields_of_eval {stmt : Stmt} {row : stmt.Result}
    (hfresh : freshSerial generated db stmt = true)
    (h : eval generated now db stmt = .ok row) : stmt.Yields generated now db row := by
  rw [freshSerial_iff] at hfresh
  cases stmt with
  | createUser arg =>
    obtain ⟨hnone, -, hrow⟩ := evalCreateUser_eq_ok.mp h
    exact ⟨by simp [Database.lookup, hnone], hrow⟩
  | getUser username =>
    have hfind : db.users.find? username = some row := orNoRows_eq_ok.mp h
    obtain ⟨-, hkey⟩ := Table.find?_mem hfind
    exact ⟨hkey, Database.seen_singleton (Database.lookup_user.mpr (hkey ▸ hfind))⟩
  | updateUser arg =>
    obtain ⟨user, hfind, -, hrow⟩ := evalUpdateUser_eq_ok.mp h
    exact ⟨user, Database.lookup_user.mpr hfind, hrow⟩
  | createAccount arg =>
    obtain ⟨-, howner, hrow⟩ := evalCreateAccount_eq_ok.mp h
    exact ⟨hfresh _ List.mem_cons_self, by simpa [Database.lookup] using howner, hrow⟩
  | getAccount id =>
    have hfind : db.accounts.find? id = some row := orNoRows_eq_ok.mp h
    obtain ⟨-, hkey⟩ := Table.find?_mem hfind
    exact ⟨hkey, Database.seen_singleton (Database.lookup_account.mpr (hkey ▸ hfind))⟩
  | listAccounts arg =>
    intro seen hseen
    obtain ⟨account, hmem, rfl⟩ := List.mem_map.mp hseen
    have hrow := mem_of_evalListAccounts h hmem
    exact ⟨_, Database.lookup_account.mpr (Table.find?_of_mem hrow), Row.keeps_refl _⟩
  | addAccountBalance arg =>
    obtain ⟨account, hfind, hbalance, hrow⟩ := evalAddAccountBalance_eq_ok.mp h
    exact ⟨account, Database.lookup_account.mpr hfind, hbalance, hrow⟩
  | createEntry arg =>
    obtain ⟨haccount, hrow⟩ := evalCreateEntry_eq_ok.mp h
    exact ⟨hfresh _ List.mem_cons_self, by simpa [Database.lookup] using haccount, hrow⟩
  | createTransfer arg =>
    obtain ⟨hfrom, hto, hrow⟩ := evalCreateTransfer_eq_ok.mp h
    exact ⟨hfresh _ List.mem_cons_self, by simpa [Database.lookup] using hfrom,
      by simpa [Database.lookup] using hto, hrow⟩
  | createSession arg =>
    obtain ⟨hnone, huser, hrow⟩ := evalCreateSession_eq_ok.mp h
    exact ⟨by simp [Database.lookup, hnone], by simpa [Database.lookup] using huser, hrow⟩
  | getSession id =>
    have hfind : db.sessions.find? id = some row := orNoRows_eq_ok.mp h
    obtain ⟨-, hkey⟩ := Table.find?_mem hfind
    exact ⟨hkey, Database.seen_singleton (Database.lookup_session.mpr (hkey ▸ hfind))⟩
  | createVerifyEmail arg =>
    obtain ⟨huser, hrow⟩ := evalCreateVerifyEmail_eq_ok.mp h
    exact ⟨hfresh _ List.mem_cons_self, by simpa [Database.lookup] using huser, hrow⟩
  | updateVerifyEmail arg =>
    obtain ⟨old, hfind, hselects, hrow⟩ := evalUpdateVerifyEmail_eq_ok.mp h
    exact ⟨old, Database.lookup_verifyEmail.mpr hfind, hselects, hrow⟩

/-- Only a change of the rows it wrote could take a result back. -/
theorem Yields.stable {stmt : Stmt} {row : stmt.Result} {db' : Database}
    (h : stmt.Yields generated now db row) (hextends : Store.Extends db db')
    (hwritten : ∀ new ∈ stmt.written row, db'.lookup new.key = db.lookup new.key) :
    stmt.Yields generated now db' row := by
  cases stmt with
  | createUser arg =>
    obtain ⟨hnone, rfl⟩ := h
    exact ⟨(hwritten _ List.mem_cons_self).trans hnone, rfl⟩
  | getUser username => exact ⟨h.1, h.2.mono hextends⟩
  | updateUser arg =>
    obtain ⟨user, huser, rfl⟩ := h
    have hkey : Row.key (.user user) = .user arg.username := Database.key_of_lookup huser
    have hsame := hwritten _ List.mem_cons_self
    exact ⟨user, (hkey ▸ hsame).trans huser, rfl⟩
  | createAccount arg =>
    obtain ⟨⟨hpos, hnone⟩, howner, rfl⟩ := h
    exact ⟨⟨hpos, (hwritten _ List.mem_cons_self).trans hnone⟩,
      Database.isSome_of_extends hextends howner, rfl⟩
  | getAccount id => exact ⟨h.1, h.2.mono hextends⟩
  | listAccounts arg => exact Database.Seen.mono h hextends
  | addAccountBalance arg =>
    obtain ⟨account, haccount, hbalance, hrow⟩ := h
    have hkey : Row.key (.account account) = .account arg.id := Database.key_of_lookup haccount
    have hsame := hwritten (.account row) List.mem_cons_self
    rw [show Row.key (.account row) = .account arg.id by rw [hrow]; exact hkey] at hsame
    exact ⟨account, hsame.trans haccount, hbalance, hrow⟩
  | createEntry arg =>
    obtain ⟨⟨hpos, hnone⟩, haccount, rfl⟩ := h
    exact ⟨⟨hpos, (hwritten _ List.mem_cons_self).trans hnone⟩,
      Database.isSome_of_extends hextends haccount, rfl⟩
  | createTransfer arg =>
    obtain ⟨⟨hpos, hnone⟩, hfrom, hto, rfl⟩ := h
    exact ⟨⟨hpos, (hwritten _ List.mem_cons_self).trans hnone⟩,
      Database.isSome_of_extends hextends hfrom, Database.isSome_of_extends hextends hto, rfl⟩
  | createSession arg =>
    obtain ⟨hnone, huser, rfl⟩ := h
    exact ⟨(hwritten _ List.mem_cons_self).trans hnone, Database.isSome_of_extends hextends huser, rfl⟩
  | getSession id => exact ⟨h.1, h.2.mono hextends⟩
  | createVerifyEmail arg =>
    obtain ⟨⟨hpos, hnone⟩, huser, rfl⟩ := h
    exact ⟨⟨hpos, (hwritten _ List.mem_cons_self).trans hnone⟩,
      Database.isSome_of_extends hextends huser, rfl⟩
  | updateVerifyEmail arg =>
    obtain ⟨old, hold, hselects, rfl⟩ := h
    have hkey : Row.key (.verifyEmail old) = .verifyEmail arg.id := Database.key_of_lookup hold
    have hsame := hwritten _ List.mem_cons_self
    exact ⟨old, (hkey ▸ hsame).trans hold, hselects, rfl⟩

/-- A new row has a new key, and an update changes only what it may change. -/
theorem Yields.admits {stmt : Stmt} {row : stmt.Result}
    (h : stmt.Yields generated now db row) : Store.Admits db (stmt.written row) := by
  have single : ∀ {new : Row},
      (∀ old, db.lookup new.key = some old → old.Keeps new) → Store.Admits db [new] := by
    intro new hnew row hrow
    rw [List.mem_singleton.mp hrow]
    exact hnew
  cases stmt with
  | createUser arg =>
    obtain ⟨hnone, rfl⟩ := h
    exact single fun old hold => nomatch hnone.symm.trans hold
  | updateUser arg =>
    obtain ⟨user, huser, rfl⟩ := h
    have hkey : Row.key (.user user) = .user arg.username := Database.key_of_lookup huser
    refine single fun old hold => ?_
    cases (hkey ▸ huser).symm.trans hold
    exact ⟨rfl, rfl, rfl⟩
  | createAccount arg =>
    obtain ⟨⟨-, hnone⟩, -, rfl⟩ := h
    exact single fun old hold => nomatch hnone.symm.trans hold
  | addAccountBalance arg =>
    obtain ⟨account, haccount, -, hrow⟩ := h
    have hkey : Row.key (.account account) = .account arg.id := Database.key_of_lookup haccount
    refine single fun old hold => ?_
    rw [hrow] at hold ⊢
    cases (hkey ▸ haccount).symm.trans hold
    exact ⟨rfl, rfl, rfl, rfl⟩
  | createEntry arg =>
    obtain ⟨⟨-, hnone⟩, -, rfl⟩ := h
    exact single fun old hold => nomatch hnone.symm.trans hold
  | createTransfer arg =>
    obtain ⟨⟨-, hnone⟩, -, -, rfl⟩ := h
    exact single fun old hold => nomatch hnone.symm.trans hold
  | createSession arg =>
    obtain ⟨hnone, -, rfl⟩ := h
    exact single fun old hold => nomatch hnone.symm.trans hold
  | createVerifyEmail arg =>
    obtain ⟨⟨-, hnone⟩, -, rfl⟩ := h
    exact single fun old hold => nomatch hnone.symm.trans hold
  | updateVerifyEmail arg =>
    obtain ⟨old, hold, -, rfl⟩ := h
    have hkey : Row.key (.verifyEmail old) = .verifyEmail arg.id := Database.key_of_lookup hold
    refine single fun current hcurrent => ?_
    cases (hkey ▸ hold).symm.trans hcurrent
    exact ⟨fun _ => rfl, rfl⟩
  | getUser _ | getAccount _ | listAccounts _ | getSession _ => exact fun _ hnew => nomatch hnew

/-- What a statement replies is in the tables once it is committed. -/
theorem Yields.seen {stmt : Stmt} {row : stmt.Result}
    (h : stmt.Yields generated now db row) :
    (Store.write db (stmt.written row)).Seen (stmt.returned row) := by
  have single : ∀ new : Row, (Store.write db [new]).Seen [new] := fun new =>
    Database.seen_singleton ((Database.lookup_put db new new.key).trans (if_pos rfl))
  cases stmt with
  | getUser _ | getAccount _ | getSession _ => exact h.2
  | listAccounts _ => exact h
  | createUser _ | updateUser _ | createAccount _ | addAccountBalance _ | createEntry _
    | createTransfer _ | createSession _ | createVerifyEmail _ | updateVerifyEmail _ =>
    exact single _

end Stmt

/-- An executed statement: the clock and the sequence value it used, its
outcome and the locks it holds.  They are the locks of the statement, or none
if it failed before it asked for them. -/
structure Execution where
  stmt : Stmt
  generated : Int
  now : Time
  outcome : Except Err stmt.Result
  locks : List (Lock Key)
  covers : ∀ row ∈ stmt.effect outcome, ∃ lock ∈ locks,
    lock.key = row.key ∧ lock.mode.exclusive = true
  acquired : locks = [] ∨ ∃ db, locks = stmt.locks generated now db

namespace Execution

/-- A statement that never got to run. -/
def failed (now : Time) (stmt : Stmt) (err : Err) : Execution :=
  ⟨stmt, 0, now, .error err, [], fun _ hrow => (nomatch hrow), .inl rfl⟩

/-- A statement carried out on the rows it sees. -/
def perform (generated : Int) (now : Time) (db : Database) (stmt : Stmt) : Execution where
  stmt := stmt
  generated := generated
  now := now
  outcome := stmt.eval generated now db
  locks := stmt.locks generated now db
  covers := by
    cases h : stmt.eval generated now db with
    | ok row => exact Stmt.covers_written h
    | error err => exact fun _ hrow => nomatch hrow
  acquired := .inr ⟨db, rfl⟩

def rows (execution : Execution) : List Row := execution.stmt.effect execution.outcome

def Holds (db : Database) (execution : Execution) : Prop :=
  execution.stmt.Allows execution.generated execution.now db execution.outcome

theorem holds_failed (db : Database) (now : Time) (stmt : Stmt) (err : Err) :
    (failed now stmt err).Holds db :=
  trivial

theorem holds_perform {generated : Int} {now : Time} {db : Database} {stmt : Stmt}
    (hfresh : Stmt.freshSerial generated db stmt = true) :
    (perform generated now db stmt).Holds db := by
  show stmt.Allows generated now db (stmt.eval generated now db)
  cases h : stmt.eval generated now db with
  | ok row => exact Stmt.yields_of_eval hfresh h
  | error err => trivial

theorem Holds.admits {db : Database} {execution : Execution} (h : execution.Holds db) :
    Store.Admits db execution.rows := by
  obtain ⟨stmt, generated, now, outcome, locks, covers, acquired⟩ := execution
  cases outcome with
  | ok row => exact Stmt.Yields.admits h
  | error err => exact fun _ hrow => nomatch hrow

theorem Holds.stable {db db' : Database} {execution : Execution} (h : execution.Holds db)
    (hextends : Store.Extends db db') (hlocked : ∀ lock ∈ execution.locks,
      lock.mode.exclusive = true → db'.lookup lock.key = db.lookup lock.key) :
    execution.Holds db' := by
  obtain ⟨stmt, generated, now, outcome, locks, covers, acquired⟩ := execution
  cases outcome with
  | ok row =>
    refine Stmt.Yields.stable h hextends ?_
    intro new hnew
    obtain ⟨lock, hlock, hkey, hmode⟩ := covers new hnew
    rw [← hkey]
    exact hlocked lock hlock hmode
  | error err => trivial

end Execution

instance : Statements Database Key Row Execution where
  locks := Execution.locks
  rows := Execution.rows
  holds := Execution.Holds
  covers := Execution.covers
  admits := Execution.Holds.admits
  stable := Execution.Holds.stable

end SimpleBank.Db
