import SimpleBank.Library.UniqueIndex
import SimpleBank.Runs

/-! What the schema promises of the tables, in every state that any programs
reach, whatever statements they issue in whatever transactions: rows fit their
columns, references lead to rows, and the two unique indexes are unique. -/
namespace SimpleBank
open Library Db

namespace Db

/-- A value of a `bigint` column. -/
def IsBigint (number : Int) : Prop := -2 ^ 63 ≤ number ∧ number < 2 ^ 63

/-- A value of a `timestamptz` column. -/
def IsTimestamptz (time : Time) : Prop := 1000 ∣ time

instance (number : Int) : Decidable (IsBigint number) := inferInstanceAs (Decidable (_ ∧ _))
instance (time : Time) : Decidable (IsTimestamptz time) := inferInstanceAs (Decidable (1000 ∣ time))

theorem isTimestamptz_timestamptz (time : Time) : IsTimestamptz (timestamptz time) :=
  Int.dvd_self_sub_emod

namespace Row

/-- Its values are values of its columns. -/
def Storable : Row → Prop
  | .user row => IsTimestamptz row.passwordChangedAt ∧ IsTimestamptz row.createdAt
  | .account row => IsBigint row.id ∧ IsTimestamptz row.createdAt
  | .entry row => IsBigint row.id ∧ IsBigint row.accountID ∧ IsTimestamptz row.createdAt
  | .transfer row => IsBigint row.id ∧ IsBigint row.fromAccountID ∧ IsBigint row.toAccountID ∧
      IsTimestamptz row.createdAt
  | .session row => IsTimestamptz row.expiresAt ∧ IsTimestamptz row.createdAt
  | .verifyEmail row => IsBigint row.id ∧ IsTimestamptz row.createdAt ∧ IsTimestamptz row.expiredAt

instance : DecidablePred Storable := fun row => by
  cases row <;> exact inferInstanceAs (Decidable (_ ∧ _))

/-- The rows that its foreign keys refer to. -/
def refers : Row → List Key
  | .user _ => []
  | .account row => [.user row.owner]
  | .entry row => [.account row.accountID]
  | .transfer row => [.account row.fromAccountID, .account row.toAccountID]
  | .session row => [.user row.username]
  | .verifyEmail row => [.user row.username]

/-- Its entry in `users_email_key`. -/
def emailEntry : Row → Option Key
  | .user row => some (.email row.email)
  | _ => none

/-- Its entry in `owner_currency_key`. -/
def ownerCurrencyEntry : Row → Option Key
  | .account row => some (.ownerCurrency row.owner row.currency)
  | _ => none

end Row

namespace Database

def Storable (db : Database) : Prop := ∀ k row, db.lookup k = some row → row.Storable

def Referential (db : Database) : Prop :=
  ∀ k row, db.lookup k = some row → ∀ ref ∈ row.refers, (db.lookup ref).isSome = true

/-- What the schema promises of the tables, besides their primary keys. -/
structure Consistent (db : Database) : Prop where
  storable : db.Storable
  referential : db.Referential
  emails : UniqueIn Row.emailEntry db
  ownerCurrencies : UniqueIn Row.ownerCurrencyEntry db

/-- The rows of all tables. -/
def rows (db : Database) : List Row :=
  db.users.rows.map .user ++ db.accounts.rows.map .account ++ db.entries.rows.map .entry ++
    db.transfers.rows.map .transfer ++ db.sessions.rows.map .session ++
    db.verifyEmails.rows.map .verifyEmail

theorem mem_rows {db : Database} {row : Row} : row ∈ db.rows ↔ db.lookup row.key = some row := by
  cases row <;> simp [rows, lookup, Row.key, Table.mem_iff]

theorem forall_lookup_iff {db : Database} {P : Row → Prop} :
    (∀ k row, db.lookup k = some row → P row) ↔ ∀ row ∈ db.rows, P row := by
  constructor
  · exact fun h row hmem => h row.key row (mem_rows.mp hmem)
  · intro h k row hrow
    exact h row (mem_rows.mpr (key_of_lookup hrow ▸ hrow))

theorem uniqueIn_iff {db : Database} {entry : Row → Option Key} : UniqueIn entry db ↔
    ∀ row ∈ db.rows, ∀ other ∈ db.rows, (entry row).isSome → entry row = entry other →
      row.key = other.key := by
  constructor
  · intro h row hrow other hother hsome hsame
    obtain ⟨e, he⟩ := Option.isSome_iff_exists.mp hsome
    exact h (mem_rows.mp hrow) (mem_rows.mp hother) he (hsame.symm.trans he)
  · intro h k k' row other e hrow hother he he'
    have hsame := h row (mem_rows.mpr (key_of_lookup hrow ▸ hrow)) other
      (mem_rows.mpr (key_of_lookup hother ▸ hother)) (by simp [he]) (he.trans he'.symm)
    rw [← key_of_lookup hrow, ← key_of_lookup hother, hsame]

/-- The same, row by row. -/
theorem consistent_iff {db : Database} : db.Consistent ↔
    (∀ row ∈ db.rows, row.Storable) ∧
    (∀ row ∈ db.rows, ∀ ref ∈ row.refers, (db.lookup ref).isSome = true) ∧
    (∀ row ∈ db.rows, ∀ other ∈ db.rows, row.emailEntry.isSome →
      row.emailEntry = other.emailEntry → row.key = other.key) ∧
    ∀ row ∈ db.rows, ∀ other ∈ db.rows, row.ownerCurrencyEntry.isSome →
      row.ownerCurrencyEntry = other.ownerCurrencyEntry → row.key = other.key := by
  rw [← forall_lookup_iff, ← forall_lookup_iff, ← uniqueIn_iff, ← uniqueIn_iff]
  exact ⟨fun h => ⟨h.storable, h.referential, h.emails, h.ownerCurrencies⟩,
    fun ⟨hstorable, hreferential, hemails, hownerCurrencies⟩ =>
      ⟨hstorable, hreferential, hemails, hownerCurrencies⟩⟩

theorem Storable.write {db : Database} (h : db.Storable) {rows : List Row}
    (hrows : ∀ row ∈ rows, row.Storable) : Database.Storable (Store.write db rows) := by
  intro k row hrow
  rcases Store.lookup_write rows db k with hsame | ⟨other, hmem, -, hfound⟩
  · exact h k row (hsame.symm.trans hrow)
  · cases hfound.symm.trans hrow
    exact hrows row hmem

theorem isSome_put {db : Database} (row : Row) {ref : Key} (h : (db.lookup ref).isSome = true) :
    ((db.put row).lookup ref).isSome = true := by
  rw [lookup_put]
  split
  · rfl
  · exact h

theorem Referential.put {db : Database} (h : db.Referential) {row : Row}
    (hrow : ∀ ref ∈ row.refers, (db.lookup ref).isSome = true) : (db.put row).Referential := by
  intro k other hother ref href
  rw [lookup_put] at hother
  split at hother
  · cases hother
    exact isSome_put row (hrow ref href)
  · exact isSome_put row (h k other hother ref href)

theorem Referential.write {db : Database} (h : db.Referential) {rows : List Row}
    (hrows : ∀ row ∈ rows, ∀ ref ∈ row.refers, (db.lookup ref).isSome = true) :
    Database.Referential (Store.write db rows) := by
  induction rows generalizing db with
  | nil => exact h
  | cons row rows ih =>
    refine ih (h.put (hrows row List.mem_cons_self)) fun other hmem ref href => ?_
    exact isSome_put row (hrows other (List.mem_cons_of_mem _ hmem) ref href)

end Database

/-! What a statement that succeeds on consistent tables has checked. -/

section Statement

variable {generated : Int} {now : Time} {db : Database} {stmt : Stmt} {row : stmt.Result}

/-- A row that is written refers to rows that are there. -/
theorem refers_of_yields (h : stmt.Yields generated now db row) (hdb : db.Referential) :
    ∀ new ∈ stmt.written row, ∀ ref ∈ new.refers, (db.lookup ref).isSome = true := by
  cases stmt with
  | createUser _ | updateUser _ =>
    intro new hnew ref href
    cases List.mem_singleton.mp hnew
    cases href
  | createAccount arg =>
    obtain ⟨-, howner, rfl⟩ := h
    simpa [Stmt.written, Row.refers] using howner
  | addAccountBalance arg =>
    obtain ⟨account, haccount, -, hrow⟩ := h
    have hrefers := hdb _ _ haccount
    rw [hrow]
    simpa [Stmt.written, Row.refers] using hrefers
  | createEntry arg =>
    obtain ⟨-, haccount, rfl⟩ := h
    simpa [Stmt.written, Row.refers] using haccount
  | createTransfer arg =>
    obtain ⟨-, hfrom, hto, rfl⟩ := h
    simpa [Stmt.written, Row.refers] using ⟨hfrom, hto⟩
  | createSession arg =>
    obtain ⟨-, huser, rfl⟩ := h
    simpa [Stmt.written, Row.refers] using huser
  | createVerifyEmail arg =>
    obtain ⟨-, huser, rfl⟩ := h
    simpa [Stmt.written, Row.refers] using huser
  | updateVerifyEmail arg =>
    obtain ⟨old, hold, -, rfl⟩ := h
    have hrefers := hdb _ _ hold
    simpa [Stmt.written, Row.refers] using hrefers
  | getUser _ | getAccount _ | listAccounts _ | getSession _ => exact fun _ hnew => nomatch hnew

/-- A row that is written fits its columns, when the sequences have not run out. -/
theorem storable_of_yields (h : stmt.Yields generated now db row) (hdb : db.Storable)
    (hgenerated : generated < 2 ^ 63) (hnow : IsTimestamptz now) :
    ∀ new ∈ stmt.written row, new.Storable := by
  have single : ∀ {new : Row}, new.Storable → ∀ other ∈ [new], other.Storable := by
    intro new hnew other hother
    rw [List.mem_singleton.mp hother]
    exact hnew
  have serial : 0 < generated → IsBigint generated := fun hpos => ⟨by omega, hgenerated⟩
  have account : ∀ {id : Int}, (db.lookup (.account id)).isSome = true → IsBigint id := by
    intro id hsome
    obtain ⟨found, hfound⟩ := Option.isSome_iff_exists.mp hsome
    have hkey := Database.key_of_lookup hfound
    have hstorable := hdb _ _ hfound
    cases found <;> cases hkey
    exact hstorable.1
  cases stmt with
  | createUser arg =>
    obtain ⟨-, rfl⟩ := h
    have hzero : IsTimestamptz zeroTime := by decide
    exact single ⟨hzero, hnow⟩
  | updateUser arg =>
    obtain ⟨user, huser, rfl⟩ := h
    obtain ⟨hchanged, hcreated⟩ := hdb _ _ huser
    refine single ⟨?_, hcreated⟩
    show IsTimestamptz ((arg.passwordChangedAt.map timestamptz).getD user.passwordChangedAt)
    cases arg.passwordChangedAt with
    | none => exact hchanged
    | some time => exact isTimestamptz_timestamptz time
  | createAccount arg =>
    obtain ⟨⟨hpos, -⟩, -, rfl⟩ := h
    exact single ⟨serial hpos, hnow⟩
  | addAccountBalance arg =>
    obtain ⟨old, hold, -, hrow⟩ := h
    obtain ⟨hid, hcreated⟩ := hdb _ _ hold
    rw [hrow]
    exact single ⟨hid, hcreated⟩
  | createEntry arg =>
    obtain ⟨⟨hpos, -⟩, haccount, rfl⟩ := h
    exact single ⟨serial hpos, account haccount, hnow⟩
  | createTransfer arg =>
    obtain ⟨⟨hpos, -⟩, hfrom, hto, rfl⟩ := h
    exact single ⟨serial hpos, account hfrom, account hto, hnow⟩
  | createSession arg =>
    obtain ⟨-, -, rfl⟩ := h
    exact single ⟨isTimestamptz_timestamptz _, hnow⟩
  | createVerifyEmail arg =>
    obtain ⟨⟨hpos, -⟩, -, rfl⟩ := h
    exact single ⟨serial hpos, hnow, Int.dvd_add hnow (by decide)⟩
  | updateVerifyEmail arg =>
    obtain ⟨old, hold, -, rfl⟩ := h
    obtain ⟨hid, hcreated, hexpired⟩ := hdb _ _ hold
    exact single ⟨hid, hcreated, hexpired⟩
  | getUser _ | getAccount _ | listAccounts _ | getSession _ => exact fun _ hnew => nomatch hnew

/-- A row without an entry, or with the entry it had, is no matter to an index. -/
theorem checks_put {entry : Row → Option Key} {call : Execution} {new : Row}
    (hrows : call.rows = [new]) (hclaims : Claims entry db call.locks new)
    (hunique : UniqueIn entry db → UniqueIn entry (db.put new)) : Checks entry db call := by
  refine ⟨fun other hother => ?_, ?_⟩
  · rw [show Statements.rows Database call = [new] from hrows] at hother
    rw [List.mem_singleton.mp hother]
    exact hclaims
  · rw [show Statements.rows Database call = [new] from hrows]
    exact hunique

theorem checks_put_kept {entry : Row → Option Key} {call : Execution} {new : Row}
    (hrows : call.rows = [new])
    (hkept : entry new = none ∨ ∃ old, db.lookup new.key = some old ∧ entry old = entry new) :
    Checks entry db call := by
  rcases hkept with hnone | ⟨old, hold, hsame⟩
  · exact checks_put hrows (fun e he => nomatch hnone.symm.trans he)
      fun h => h.put fun e he => nomatch hnone.symm.trans he
  · exact checks_put hrows (fun e he => .inl ⟨old, hold, hsame.trans he⟩) fun h => h.put_kept hold hsame

theorem checks_nil {entry : Row → Option Key} {call : Execution} (hrows : call.rows = []) :
    Checks entry db call := by
  have hnil : Statements.rows Database call = [] := hrows
  constructor
  · intro other hother
    rw [hnil] at hother
    cases hother
  · rw [hnil]
    exact id

theorem rows_perform (h : stmt.eval generated now db = .ok row) :
    (Execution.perform generated now db stmt).rows = stmt.written row := by
  show stmt.effect (stmt.eval generated now db) = stmt.written row
  rw [h]
  rfl

theorem rows_perform_error {err : Err} (h : stmt.eval generated now db = .error err) :
    (Execution.perform generated now db stmt).rows = [] := by
  show stmt.effect (stmt.eval generated now db) = []
  rw [h]
  rfl

theorem user_of_emailEntry {k e : Key} {found : Row} (h : db.lookup k = some found)
    (hentry : found.emailEntry = some e) : ∃ user ∈ db.users.rows,
      k = .user user.username ∧ e = .email user.email := by
  have hkey := Database.key_of_lookup h
  cases found <;> cases hentry
  rename_i user
  subst hkey
  exact ⟨user, (Table.find?_mem (Database.lookup_user.mp h)).1, rfl, rfl⟩

theorem account_of_ownerCurrencyEntry {k e : Key} {found : Row} (h : db.lookup k = some found)
    (hentry : found.ownerCurrencyEntry = some e) : ∃ account ∈ db.accounts.rows,
      k = .account account.id ∧ e = .ownerCurrency account.owner account.currency := by
  have hkey := Database.key_of_lookup h
  cases found <;> cases hentry
  rename_i account
  subst hkey
  exact ⟨account, (Table.find?_mem (Database.lookup_account.mp h)).1, rfl, rfl⟩

/-- A new email is free and gets locked. -/
theorem checks_emails (generated : Int) (now : Time) (db : Database) (stmt : Stmt) :
    Checks Row.emailEntry db (Execution.perform generated now db stmt) := by
  cases heval : stmt.eval generated now db with
  | error err => exact checks_nil (rows_perform_error heval)
  | ok row =>
  have hrows := rows_perform heval
  cases stmt with
  | createUser arg =>
    obtain ⟨-, htaken, rfl⟩ := evalCreateUser_eq_ok.mp heval
    have hfree : ∀ user ∈ db.users.rows, user.email ≠ arg.email := by
      simpa [Database.emailTaken] using htaken
    refine checks_put hrows (fun e he => .inr ⟨⟨.email arg.email, .update⟩, ?_, ?_, rfl⟩) fun h =>
      h.put fun e he k other hother hentry => ?_
    · exact List.mem_append_left _ (List.mem_cons_of_mem _ List.mem_cons_self)
    · exact Option.some.inj he
    · obtain ⟨user, huser, -, hemail⟩ := user_of_emailEntry hother hentry
      have hsame : arg.email = user.email := Key.email.inj ((Option.some.inj he).trans hemail)
      exact absurd hsame.symm (hfree user huser)
  | updateUser arg =>
    obtain ⟨user, huser, htaken, rfl⟩ := evalUpdateUser_eq_ok.mp heval
    have hold : db.lookup (.user arg.username) = some (.user user) := Database.lookup_user.mpr huser
    have hkey : Row.key (.user user) = .user arg.username := Database.key_of_lookup hold
    have hnew : Row.key (.user (arg.apply user)) = .user arg.username := hkey
    by_cases hemail : (arg.apply user).email = user.email
    · refine checks_put_kept hrows (.inr ⟨.user user, hnew ▸ hold, ?_⟩)
      exact congrArg (fun email => some (Key.email email)) hemail.symm
    have hfree : ∀ other ∈ db.users.rows, other.email = (arg.apply user).email →
        other.username = arg.username := by
      simpa [Database.emailTakenBy] using htaken
    refine checks_put hrows
      (fun e he => .inr ⟨⟨.email (arg.apply user).email, .update⟩, ?_, ?_, rfl⟩) fun h =>
      h.put fun e he k other hother hentry => ?_
    · show _ ∈ Stmt.locks generated now db (.updateUser arg)
      simp [Stmt.locks, Stmt.requests, huser, hemail]
    · exact Option.some.inj he
    · obtain ⟨found, hfound, rfl, hsame⟩ := user_of_emailEntry hother hentry
      have hsame : (arg.apply user).email = found.email :=
        Key.email.inj ((Option.some.inj he).trans hsame)
      exact (congrArg Key.user (hfree found hfound hsame.symm)).trans hnew.symm
  | createAccount _ | addAccountBalance _ | createEntry _ | createTransfer _ | createSession _
    | createVerifyEmail _ | updateVerifyEmail _ => exact checks_put_kept hrows (.inl rfl)
  | getUser _ | getAccount _ | listAccounts _ | getSession _ => exact checks_nil hrows

/-- So is a new pair of owner and currency. -/
theorem checks_ownerCurrencies (generated : Int) (now : Time) (db : Database) (stmt : Stmt) :
    Checks Row.ownerCurrencyEntry db (Execution.perform generated now db stmt) := by
  cases heval : stmt.eval generated now db with
  | error err => exact checks_nil (rows_perform_error heval)
  | ok row =>
  have hrows := rows_perform heval
  cases stmt with
  | createAccount arg =>
    obtain ⟨htaken, -, rfl⟩ := evalCreateAccount_eq_ok.mp heval
    have hfree : ∀ account ∈ db.accounts.rows, account.owner = arg.owner →
        account.currency ≠ arg.currency := by
      simpa [Database.ownerCurrencyTaken] using htaken
    refine checks_put hrows
      (fun e he => .inr ⟨⟨.ownerCurrency arg.owner arg.currency, .update⟩, ?_, ?_, rfl⟩) fun h =>
      h.put fun e he k other hother hentry => ?_
    · exact List.mem_append_left _ List.mem_cons_self
    · exact Option.some.inj he
    · obtain ⟨account, haccount, -, hsame⟩ := account_of_ownerCurrencyEntry hother hentry
      obtain ⟨howner, hcurrency⟩ := Key.ownerCurrency.inj ((Option.some.inj he).trans hsame)
      exact absurd hcurrency.symm (hfree account haccount howner.symm)
  | addAccountBalance arg =>
    obtain ⟨account, haccount, -, hrow⟩ := evalAddAccountBalance_eq_ok.mp heval
    have hold : db.lookup (.account arg.id) = some (.account account) :=
      Database.lookup_account.mpr haccount
    have hkey : Row.key (.account account) = .account arg.id := Database.key_of_lookup hold
    refine checks_put_kept hrows (.inr ⟨.account account, ?_, ?_⟩)
    · rw [hrow]
      exact hkey ▸ hold
    · rw [hrow]
      rfl
  | createUser _ | updateUser _ | createEntry _ | createTransfer _ | createSession _
    | createVerifyEmail _ | updateVerifyEmail _ => exact checks_put_kept hrows (.inl rfl)
  | getUser _ | getAccount _ | listAccounts _ | getSession _ => exact checks_nil hrows

end Statement

theorem Database.Referential.replays {db : Database} (h : db.Referential) {calls : List Execution}
    (hreplays : Statements.Replays db calls) :
    Database.Referential (Store.write db (Statements.writtenBy Database calls)) := by
  induction calls generalizing db with
  | nil => exact h
  | cons call calls ih =>
    rw [Statements.writtenBy_cons, Store.write_append]
    refine ih (h.write ?_) hreplays.2
    have hcall : call.Holds db := hreplays.1
    obtain ⟨stmt, generated, now, outcome, locks, covers, acquired⟩ := call
    cases outcome with
    | ok row => exact refers_of_yields hcall h
    | error err => exact fun _ hrow => nomatch hrow

end Db

/-- The tables are consistent, and so is what any open transaction sees. -/
structure Intact (state : TxState Database Execution Time) : Prop where
  referential : state.db.Referential
  storable : state.db.Storable
  pending : ∀ tx ∈ state.txs.rows, ∀ row ∈ Statements.writtenBy Database tx.calls, row.Storable
  started : ∀ tx ∈ state.txs.rows, IsTimestamptz tx.startedAt
  emails : state.Indexed Row.emailEntry
  ownerCurrencies : state.Indexed Row.ownerCurrencyEntry

namespace Intact

variable {state : TxState Database Execution Time} {thread : Nat} {tx : Tx Execution Time}

theorem of_empty (htxs : state.txs = .empty) (h : state.db.Consistent) : Intact state where
  referential := h.referential
  storable := h.storable
  pending := by simp [htxs, Table.empty]
  started := by simp [htxs, Table.empty]
  emails := .of_empty htxs h.emails
  ownerCurrencies := .of_empty htxs h.ownerCurrencies

theorem consistent (h : Intact state) : state.db.Consistent :=
  ⟨h.storable, h.referential, h.emails.unique, h.ownerCurrencies.unique⟩

theorem storable_view (h : Intact state) (hfind : state.txs.find? thread = some tx) :
    Database.Storable (state.view tx) :=
  h.storable.write (h.pending tx (Table.find?_mem hfind).1)

theorem begin (h : Intact state) {startedAt : Time} (hstarted : IsTimestamptz startedAt) :
    Intact { state with txs := state.txs.put (.fresh thread startedAt) } := by
  refine ⟨h.referential, h.storable, fun tx htx => ?_, fun tx htx => ?_, h.emails.begin startedAt,
    h.ownerCurrencies.begin startedAt⟩
  · rcases Table.mem_put htx with rfl | htx
    · exact fun _ hrow => nomatch hrow
    · exact h.pending tx htx
  · rcases Table.mem_put htx with rfl | htx
    · exact hstarted
    · exact h.started tx htx

theorem close (h : Intact state) : Intact { state with txs := state.txs.erase thread } where
  referential := h.referential
  storable := h.storable
  pending tx htx := h.pending tx (Table.mem_erase.mp htx).1
  started tx htx := h.started tx (Table.mem_erase.mp htx).1
  emails := h.emails.close
  ownerCurrencies := h.ownerCurrencies.close

theorem commit (h : Intact state) (hisolated : state.Isolated)
    (hfind : state.txs.find? thread = some tx) :
    Intact (⟨state.view tx, state.txs.erase thread⟩ : TxState Database Execution Time) where
  referential := h.referential.replays (hisolated.replays tx (Table.find?_mem hfind).1)
  storable := h.storable_view hfind
  pending other hother := h.pending other (Table.mem_erase.mp hother).1
  started other hother := h.started other (Table.mem_erase.mp hother).1
  emails := h.emails.commit hisolated hfind
  ownerCurrencies := h.ownerCurrencies.commit hisolated hfind

/-- The rows that a statement writes on storable tables. -/
theorem storable_perform {generated : Int} {now : Time} {db : Database} {stmt : Stmt}
    (hdb : db.Storable) (hgenerated : generated < 2 ^ 63) (hnow : IsTimestamptz now)
    (hfresh : stmt.freshSerial generated db = true) :
    ∀ row ∈ (Execution.perform generated now db stmt).rows, row.Storable := by
  cases heval : stmt.eval generated now db with
  | error err =>
    rw [rows_perform_error heval]
    exact fun _ hrow => nomatch hrow
  | ok row =>
    rw [rows_perform heval]
    exact storable_of_yields (Stmt.yields_of_eval hfresh heval) hdb hgenerated hnow

theorem autocommit (h : Intact state) {generated : Int} {now : Time} {stmt : Stmt} {call : Execution}
    (hcall : call = .perform generated now state.db stmt) (hgenerated : generated < 2 ^ 63)
    (hnow : IsTimestamptz now) (hfresh : stmt.freshSerial generated state.db = true)
    (hgrants : state.grants none call.locks = true) :
    Intact { state with db := Store.write state.db call.rows } := by
  subst hcall
  have hreplays : Statements.Replays state.db [Execution.perform generated now state.db stmt] :=
    ⟨Execution.holds_perform hfresh, trivial⟩
  have hreferential := h.referential.replays hreplays
  rw [Statements.writtenBy_cons, Statements.writtenBy_nil, List.append_nil] at hreferential
  exact
    { referential := hreferential
      storable := h.storable.write (storable_perform h.storable hgenerated hnow hfresh)
      pending := h.pending
      started := h.started
      emails := h.emails.autocommit hgrants (checks_emails _ _ _ _)
      ownerCurrencies := h.ownerCurrencies.autocommit hgrants (checks_ownerCurrencies _ _ _ _) }

theorem statement (h : Intact state) {call : Execution} {aborted : Bool}
    (hfind : state.txs.find? thread = some tx) (hstorable : ∀ row ∈ call.rows, row.Storable)
    (hemails : Checks Row.emailEntry (state.view tx) call)
    (hownerCurrencies : Checks Row.ownerCurrencyEntry (state.view tx) call) :
    Intact { state with txs := state.txs.put (tx.extend call aborted) } := by
  obtain ⟨hmem, -⟩ := Table.find?_mem hfind
  refine ⟨h.referential, h.storable, fun other hother => ?_, fun other hother => ?_,
    h.emails.statement hfind hemails, h.ownerCurrencies.statement hfind hownerCurrencies⟩
  · rcases Table.mem_put hother with rfl | hother
    · intro row hrow
      rw [Tx.extend, Statements.writtenBy_append, List.mem_append] at hrow
      rcases hrow with hrow | hrow
      · exact h.pending tx hmem row hrow
      · rw [Statements.writtenBy_cons, Statements.writtenBy_nil, List.append_nil] at hrow
        exact hstorable row hrow
    · exact h.pending other hother
  · rcases Table.mem_put hother with rfl | hother
    · exact h.started tx hmem
    · exact h.started other hother

/-- Blocking a session by hand. -/
theorem block (h : Intact state) {row : Session} (hfind : state.db.sessions.find? row.id = some row)
    (hgrants : state.grants none [⟨.session row.id, .noKeyUpdate⟩] = true) :
    Intact { state with db := state.db.put (.session { row with isBlocked := true }) } := by
  have hold : state.db.lookup (.session row.id) = some (.session row) :=
    Database.lookup_session.mpr hfind
  have hindexed : ∀ {entry : Row → Option Key},
      entry (.session { row with isBlocked := true }) = none → state.Indexed entry →
      TxState.Indexed entry
        { state with db := state.db.put (.session { row with isBlocked := true }) } := by
    intro entry hnone hindexed
    have hcovers : ∀ new ∈ [Row.session { row with isBlocked := true }],
        ∃ lock ∈ [(⟨.session row.id, .noKeyUpdate⟩ : Lock Key)],
          lock.key = new.key ∧ lock.mode.exclusive = true := by
      intro new hnew
      rw [List.mem_singleton.mp hnew]
      exact ⟨_, List.mem_cons_self, rfl, rfl⟩
    refine hindexed.committed hcovers ?_ ?_ fun tx htx =>
      ⟨htx, TxState.not_blocks_of_grants hgrants htx (by simp)⟩
    · exact hindexed.unique.put fun e he => nomatch hnone.symm.trans he
    · intro new hnew e he
      rw [List.mem_singleton.mp hnew] at he
      cases hnone.symm.trans he
  obtain ⟨hexpires, hcreated⟩ := h.storable _ _ hold
  have hstorable : ∀ new ∈ [Row.session { row with isBlocked := true }], new.Storable := by
    intro new hnew
    rw [List.mem_singleton.mp hnew]
    exact ⟨hexpires, hcreated⟩
  exact
    { referential := h.referential.put fun ref href => h.referential _ _ hold ref href
      storable := h.storable.write hstorable
      pending := h.pending
      started := h.started
      emails := hindexed rfl h.emails
      ownerCurrencies := hindexed rfl h.ownerCurrencies }

end Intact

namespace World

variable {deps : Deps} {thread : Nat} {choice : Choice} {w w' : World}

/-- What a statement does outside any transaction, if it gets to run. -/
theorem poolStep_performed {stmt : Stmt} {reply : Except Err stmt.Result}
    (h : w.poolStep choice stmt = some (reply, w')) :
    w' = w ∨ stmt.freshSerial choice.generated w.db = true ∧ ∃ call : Execution,
      call = .perform choice.generated w.now w.db stmt ∧ w.grants none call.locks = true ∧
      w' = { w with db := Store.write w.db call.rows } := by
  unfold poolStep at h
  split at h
  · cases h
    exact .inl rfl
  dsimp only at h
  split at h
  · rename_i hgranted
    obtain ⟨hgrants, hfresh⟩ := Bool.and_eq_true_iff.mp hgranted
    cases h
    exact .inr ⟨hfresh, _, rfl, hgrants, rfl⟩
  · cases h

/-- What a statement adds to an open transaction, and that it has been checked there. -/
theorem txStep_checked {stmt : Stmt} {reply : Except Err stmt.Result}
    (hview : ∀ tx, w.txs.find? thread = some tx →
      Database.Storable (w.view tx) ∧ IsTimestamptz tx.startedAt)
    (hgenerated : choice.generated < 2 ^ 63) (h : w.txStep thread choice stmt = some (reply, w')) :
    w' = w ∨ ∃ tx call, w.txs.find? thread = some tx ∧ w' = w.extendTx tx call ∧
      (∀ row ∈ call.rows, row.Storable) ∧ Checks Row.emailEntry (w.view tx) call ∧
      Checks Row.ownerCurrencyEntry (w.view tx) call := by
  unfold txStep at h
  split at h
  · cases h
    exact .inl rfl
  rename_i tx hfind
  have failed : ∀ err, (∀ row ∈ (Execution.failed tx.startedAt stmt err).rows, row.Storable) ∧
      Checks Row.emailEntry (w.view tx) (.failed tx.startedAt stmt err) ∧
      Checks Row.ownerCurrencyEntry (w.view tx) (.failed tx.startedAt stmt err) :=
    fun _ => ⟨fun _ hrow => absurd hrow List.not_mem_nil, checks_nil rfl, checks_nil rfl⟩
  split at h
  · cases h
    exact .inr ⟨tx, _, hfind, rfl, failed _⟩
  split at h
  · cases h
    exact .inr ⟨tx, _, hfind, rfl, failed _⟩
  dsimp only at h
  split at h
  · rename_i hgranted
    cases h
    obtain ⟨hstorable, hstarted⟩ := hview tx hfind
    exact .inr ⟨tx, _, hfind, rfl,
      Intact.storable_perform hstorable hgenerated hstarted (Bool.and_eq_true_iff.mp hgranted).2,
      checks_emails _ _ _ _, checks_ownerCurrencies _ _ _ _⟩
  · cases h

theorem intact_step (h : Intact w.toTxState) (hsound : w.Sound)
    (hgenerated : choice.generated < 2 ^ 63) {op : Op} {reply : op.Reply}
    (hstep : w.step deps thread choice op = some (reply, w')) :
    Intact w'.toTxState := by
  cases op with
  | sql conn stmt =>
    cases conn with
    | pool =>
      rcases poolStep_performed hstep with rfl | ⟨hfresh, call, hcall, hgrants, rfl⟩
      · exact h
      · exact h.autocommit hcall hgenerated (isTimestamptz_timestamptz w.clock) hfresh hgrants
    | tx =>
      have hview : ∀ tx, w.txs.find? thread = some tx →
          Database.Storable (w.view tx) ∧ IsTimestamptz tx.startedAt :=
        fun tx hfind => ⟨h.storable_view hfind, h.started tx (Table.find?_mem hfind).1⟩
      rcases txStep_checked hview hgenerated hstep with rfl |
        ⟨tx, call, hfind, rfl, hstorable, hemails, hownerCurrencies⟩
      · exact h
      · exact h.statement hfind hstorable hemails hownerCurrencies
  | begin =>
    rcases beginStep_spec hstep with ⟨err, -, rfl⟩ | ⟨-, -, rfl⟩
    · exact h
    · exact h.begin (isTimestamptz_timestamptz w.clock)
  | commit =>
    rcases commitStep_spec (Option.some.inj hstep) with ⟨-, -, rfl⟩ | ⟨-, rfl⟩ |
      ⟨tx, hfind, -, -, rfl⟩
    · exact h
    · exact h.close
    · exact h.commit hsound.isolated hfind
  | rollback =>
    rcases rollbackStep_spec (Option.some.inj hstep) with ⟨-, rfl⟩ | rfl
    · exact h
    · exact h.close
  | generateFromPassword _ | newRandom | encrypt _ | enqueue _ | randomString _ | sendEmail _ =>
    have hstepped := stepped_of_step hstep
    generalize w'.toTxState = state at hstepped
    cases hstepped with
    | quiet _ => exact h

end World

/-- The sequences do not run out. -/
def Sequenced {J : Type} : Event J Choice External → Prop
  | .run _ choice => choice.generated < 2 ^ 63
  | _ => True

section Reach

variable {J α : Type} {deps : Deps} {accepts : World → J → Bool} {serve : J → Act α}
  {ok : Config Op Op.Reply World J α → Event J Choice External → Prop} {w : World}
  {config : Config Op Op.Reply World J α}

theorem Intact.reach (hstart : w.txs = .empty) (hinit : w.db.Consistent)
    (hok : ∀ config event, ok config event → Sequenced event)
    (hreach : (World.system deps accepts serve).Reach ok (.initial w) config) :
    Intact config.world.toTxState := by
  induction hreach with
  | start => exact .of_empty hstart hinit
  | @move config next event hreach hevent hmove ih =>
    rcases System.move_cases hmove with ⟨_, rfl, -, rfl⟩ |
      ⟨thread, choice, _, _, _, rfl, ⟨htakes⟩⟩ | ⟨change, world, rfl, hexternal, rfl⟩
    · exact ih
    · exact World.intact_step ih (Regular.reach hstart hreach).sound (hok _ _ hevent)
        (htakes.step_choice hmove)
    · obtain ⟨htxs, -, -, -, hdb⟩ := World.external_spec hexternal
      have hstate : world.toTxState = ⟨world.db, config.world.txs⟩ := by rw [← htxs]
      show Intact world.toTxState
      rw [hstate]
      rcases hdb with hdb | ⟨row, hfind, hgrants, hdb⟩
      · rw [hdb]
        exact ih
      · rw [hdb]
        exact ih.block hfind hgrants

/-- Whatever programs run against the tables, and however they interleave, the
tables keep every promise of the schema. -/
theorem consistent_of_reach (hstart : w.txs = .empty) (hinit : w.db.Consistent)
    (hok : ∀ config event, ok config event → Sequenced event)
    (hreach : (World.system deps accepts serve).Reach ok (.initial w) config) :
    config.world.db.Consistent :=
  (Intact.reach hstart hinit hok hreach).consistent

end Reach

namespace Sample

theorem funded_consistent : funded.db.Consistent :=
  Database.consistent_iff.mpr (by decide +kernel)

/-- A transaction that inserts a user. -/
def registers (username : String) : Act (Except Err Unit) := do
  let _ ← Call.begin
  let _ ← Call.query .tx (.createUser ⟨username, "secret", username, username⟩)
  Call.commit

/-- Two of them at once. -/
def registrations : List (Event String Choice External) :=
  [.arrive "carol", .arrive "dave", .run 0 {}, .run 1 {}, .run 0 {}, .run 1 {}, .run 1 {}, .run 0 {}]

theorem registrations_run : ((World.system deps (fun _ _ => true) registers).run (.initial funded)
    registrations).isSome = true := by
  decide +kernel

end Sample

theorem consistent_of_reach_sample :
    (((World.system Sample.deps (fun _ _ => true) Sample.registers).run (.initial Sample.funded)
      Sample.registrations).get Sample.registrations_run).world.db.Consistent :=
  consistent_of_reach rfl Sample.funded_consistent (fun _ _ h => h)
    (.extend .start (by simp [Sample.registrations, Sequenced]) (Option.some_get _).symm)

end SimpleBank
