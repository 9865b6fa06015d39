import SimpleBank.Library.Lockstep
import SimpleBank.Transfers

/-! Ledgers that one user cannot tell apart: all columns of all accounts are the
same but for the balances of other people's accounts. -/
namespace SimpleBank
open Library Db

def Db.Entry.withId (entry : Entry) (id : Int) : Entry := { entry with id }

def Db.Transfer.withId (transfer : Transfer) (id : Int) : Transfer := { transfer with id }

/-- An account without its balance, unless it is the user's. -/
def Db.Account.masked (username : String) (account : Account) : Account :=
  if account.owner = username then account else { account with balance := 0 }

/-- The same account to `username`, and its owner as it is in the long run. -/
structure AlikeAccounts (owner : Int → String) (username : String) (account other : Account) :
    Prop where
  masked_eq : account.masked username = other.masked username
  owned : account.owner = owner account.id

section Masked

variable {owner : Int → String} {username : String} {account other : Account}

theorem masked_of_owned (h : account.owner = username) : account.masked username = account :=
  if_pos h

theorem masked_of_not_owned (h : account.owner ≠ username) :
    account.masked username = { account with balance := 0 } :=
  if_neg h

@[simp] theorem masked_id : (account.masked username).id = account.id := by
  unfold Account.masked
  split <;> rfl

@[simp] theorem masked_owner : (account.masked username).owner = account.owner := by
  unfold Account.masked
  split <;> rfl

@[simp] theorem masked_currency : (account.masked username).currency = account.currency := by
  unfold Account.masked
  split <;> rfl

theorem eq_of_masked_eq (h : account.masked username = other.masked username)
    (howned : account.owner = username) : account = other := by
  have howner : account.owner = other.owner := by
    have hmasked := congrArg Account.owner h
    simpa only [masked_owner] using hmasked
  rwa [masked_of_owned howned, masked_of_owned (howner ▸ howned)] at h

namespace AlikeAccounts

variable (h : AlikeAccounts owner username account other)

include h

theorem id_eq : account.id = other.id := by
  have hid := congrArg Account.id h.masked_eq
  simpa using hid

theorem owner_eq : account.owner = other.owner := by
  have howner := congrArg Account.owner h.masked_eq
  simpa using howner

theorem currency_eq : account.currency = other.currency := by
  have hcurrency := congrArg Account.currency h.masked_eq
  simpa using hcurrency

theorem eq_of_owned (howned : account.owner = username) : account = other :=
  eq_of_masked_eq h.masked_eq howned

end AlikeAccounts

theorem AlikeAccounts.withBalance (h : AlikeAccounts owner username account other)
    {balance balance' : Int64} (hbalance : account.owner = username → balance = balance') :
    AlikeAccounts owner username { account with balance } { other with balance := balance' } := by
  refine ⟨?_, h.owned⟩
  by_cases howned : account.owner = username
  · rw [h.eq_of_owned howned, hbalance howned]
  · have howned' : other.owner ≠ username := h.owner_eq ▸ howned
    have hmasked := h.masked_eq
    rw [masked_of_not_owned howned, masked_of_not_owned howned'] at hmasked
    simpa [masked_of_not_owned, howned, howned'] using hmasked

end Masked

/-- What an addition replies that does not fit a `bigint`. -/
def bigintOutOfRange : Err := .pg "22003" "bigint out of range"

structure AlikeDatabases (owner : Int → String) (username : String) (db db' : Database) : Prop where
  accounts : Table.Related (AlikeAccounts owner username) db.accounts db'.accounts
  user : (db.users.find? username).isSome = (db'.users.find? username).isSome

/-- Rows of the ledger.  Entries and transfers are not compared, as no request
reads them. -/
def AlikeRows (owner : Int → String) (username : String) : Row → Row → Prop
  | .account row, .account other => AlikeAccounts owner username row other
  | .entry _, .entry _ | .transfer _, .transfer _ => True
  | _, _ => False

/-- Results of statements, without the ids of entries and transfers. -/
def AlikeResults (owner : Int → String) (username : String) :
    (stmt : Stmt) → stmt.Result → stmt.Result → Prop
  | .getAccount id, row, other => AlikeAccounts owner username row other ∧ Account.id row = id
  | .addAccountBalance arg, row, other =>
    AlikeAccounts owner username row other ∧ Account.id row = arg.id
  | .createAccount _, row, other => row = other
  | .listAccounts _, rows, others => rows = others
  | .createEntry _, row, other => Entry.withId row 0 = Entry.withId other 0
  | .createTransfer _, row, other => Transfer.withId row 0 = Transfer.withId other 0
  | _, _, _ => False

/-- The statements of the requests of `username` for accounts and transfers. -/
def MayRun (username : String) : Conn → Stmt → Prop
  | .pool, .createAccount arg => arg.owner = username
  | .pool, .listAccounts arg => arg.owner = username
  | .pool, .getAccount _ => True
  | .tx, .createTransfer _ | .tx, .createEntry _ | .tx, .addAccountBalance _ => True
  | _, _ => False

section Evaluation

variable {owner : Int → String} {username : String} {db db' : Database} {generated generated' : Int}
  {now : Time}

theorem AlikeDatabases.put (h : AlikeDatabases owner username db db') {row other : Row}
    (hrow : AlikeRows owner username row other) :
    AlikeDatabases owner username (db.put row) (db'.put other) := by
  cases row <;> cases other <;> first | exact hrow.elim | skip
  · exact ⟨h.accounts.put hrow hrow.id_eq, h.user⟩
  · exact ⟨h.accounts, h.user⟩
  · exact ⟨h.accounts, h.user⟩

theorem AlikeDatabases.write (h : AlikeDatabases owner username db db') {rows others : List Row}
    (hrows : List.Forall₂ (AlikeRows owner username) rows others) :
    AlikeDatabases owner username (Store.write db rows) (Store.write db' others) := by
  induction hrows generalizing db db' with
  | nil => exact h
  | cons hrow _ ih => exact ih (h.put hrow)

/-- The accounts of the user are the same rows in both. -/
theorem AlikeDatabases.mem_accounts (h : AlikeDatabases owner username db db') {account : Account}
    (howned : account.owner = username) :
    account ∈ db.accounts.rows ↔ account ∈ db'.accounts.rows := by
  rw [Table.mem_iff, Table.mem_iff]
  rcases h.accounts.find?_cases account.id with ⟨hleft, hright⟩ | ⟨row, other, hleft, hright, hrow⟩
  · rw [hleft, hright]
  · rw [hleft, hright, Option.some.injEq, Option.some.injEq]
    constructor
    · rintro rfl
      exact (hrow.eq_of_owned howned).symm
    · rintro rfl
      exact hrow.eq_of_owned (hrow.owner_eq.trans howned)

theorem evalGetAccount_alike (h : AlikeDatabases owner username db db') (id : Int) :
    Outcomes (AlikeResults owner username (.getAccount id)) (evalGetAccount db id)
      (evalGetAccount db' id) := by
  unfold evalGetAccount
  rcases h.accounts.find?_cases id with ⟨hleft, hright⟩ | ⟨row, other, hleft, hright, hrow⟩
  · rw [hleft, hright]
    rfl
  · rw [hleft, hright]
    exact ⟨hrow, (Table.find?_mem hleft).2⟩

theorem ownerCurrencyTaken_alike (h : AlikeDatabases owner username db db') (currency : String) :
    db.ownerCurrencyTaken username currency = db'.ownerCurrencyTaken username currency := by
  rw [Bool.eq_iff_iff]
  simp only [Database.ownerCurrencyTaken, List.any_eq_true, Bool.and_eq_true, decide_eq_true_eq]
  constructor
  · rintro ⟨account, hmem, howned, hcurrency⟩
    exact ⟨account, (h.mem_accounts howned).mp hmem, howned, hcurrency⟩
  · rintro ⟨account, hmem, howned, hcurrency⟩
    exact ⟨account, (h.mem_accounts howned).mpr hmem, howned, hcurrency⟩

theorem evalCreateAccount_alike (h : AlikeDatabases owner username db db') {arg : CreateAccountParams}
    (howned : arg.owner = username) :
    evalCreateAccount generated now db arg = evalCreateAccount generated now db' arg := by
  simp only [evalCreateAccount, howned, ownerCurrencyTaken_alike h, h.user]

/-- What is sorted by ids that tell the values apart comes in one order only. -/
theorem insertionSort_eq_of_perm {α : Type} (key : α → Int) {left right : List α}
    (hperm : left.Perm right) (hkey : ∀ a ∈ left, ∀ b ∈ left, key a = key b → a = b) :
    left.insertionSort (fun a b => key a ≤ key b) = right.insertionSort fun a b => key a ≤ key b := by
  have : Std.Total fun a b : α => key a ≤ key b := ⟨fun a b => Int.le_total (key a) (key b)⟩
  have : IsTrans α fun a b => key a ≤ key b := ⟨fun a b c => Int.le_trans⟩
  have hleft := List.perm_insertionSort (fun a b => key a ≤ key b) left
  have hright := List.perm_insertionSort (fun a b => key a ≤ key b) right
  refine List.Perm.eq_of_pairwise ?_ (List.pairwise_insertionSort _ left)
    (List.pairwise_insertionSort _ right) (hleft.trans (hperm.trans hright.symm))
  intro a b ha hb hle hge
  exact hkey a (hleft.mem_iff.mp ha) b (hperm.mem_iff.mpr (hright.mem_iff.mp hb))
    (Int.le_antisymm hle hge)

/-- Listing sorts by the id, so the order of the tables does not show. -/
theorem evalListAccounts_alike (h : AlikeDatabases owner username db db') {arg : ListAccountsParams}
    (howned : arg.owner = username) : evalListAccounts db arg = evalListAccounts db' arg := by
  have hperm : (db.accounts.rows.filter fun account => account.owner = arg.owner).Perm
      (db'.accounts.rows.filter fun account => account.owner = arg.owner) := by
    refine (List.perm_ext_iff_of_nodup (List.Nodup.filter _ (List.Nodup.of_map _ db.accounts.nodup))
      (List.Nodup.filter _ (List.Nodup.of_map _ db'.accounts.nodup))).mpr fun account => ?_
    simp only [List.mem_filter, decide_eq_true_eq]
    exact and_congr_left fun hown => h.mem_accounts (hown.trans howned)
  have hsorted := insertionSort_eq_of_perm Account.id hperm fun a ha b hb hid => by
    have hfind := Table.find?_of_mem (List.mem_filter.mp ha).1
    rw [hid, Table.find?_of_mem (List.mem_filter.mp hb).1] at hfind
    exact (Option.some.inj hfind).symm
  unfold evalListAccounts
  dsimp only
  rw [hsorted]

theorem addBigint_error {x y : Int64} {err : Err} (h : addBigint x y = .error err) :
    err = bigintOutOfRange := by
  unfold addBigint at h
  split at h
  · cases h
  · cases h
    rfl

theorem evalAddAccountBalance_of_find? {arg : AddAccountBalanceParams} {account : Account}
    (h : db.accounts.find? arg.id = some account) : evalAddAccountBalance db arg =
      (addBigint account.balance arg.amount).map fun balance => { account with balance } := by
  simp only [evalAddAccountBalance, h, orNoRows, bind, Except.bind]
  cases addBigint account.balance arg.amount <;> rfl

theorem evalAddAccountBalance_alike (h : AlikeDatabases owner username db db')
    {arg : AddAccountBalanceParams} (hfits : evalAddAccountBalance db arg ≠ .error bigintOutOfRange)
    (hfits' : evalAddAccountBalance db' arg ≠ .error bigintOutOfRange) :
    Outcomes (AlikeResults owner username (.addAccountBalance arg)) (evalAddAccountBalance db arg)
      (evalAddAccountBalance db' arg) := by
  rcases h.accounts.find?_cases arg.id with ⟨hleft, hright⟩ | ⟨row, other, hleft, hright, hrow⟩
  · simp only [evalAddAccountBalance, hleft, hright]
    rfl
  · rw [evalAddAccountBalance_of_find? hleft] at hfits ⊢
    rw [evalAddAccountBalance_of_find? hright] at hfits' ⊢
    have hsame : row.owner = username →
        addBigint row.balance arg.amount = addBigint other.balance arg.amount := fun howned => by
      rw [hrow.eq_of_owned howned]
    cases hadd : addBigint row.balance arg.amount with
    | error err => exact absurd (by rw [hadd, addBigint_error hadd]; rfl) hfits
    | ok balance =>
    cases hadd' : addBigint other.balance arg.amount with
    | error err => exact absurd (by rw [hadd', addBigint_error hadd']; rfl) hfits'
    | ok balance' =>
    rw [hadd, hadd'] at hsame
    exact ⟨hrow.withBalance fun howned => Except.ok.inj (hsame howned), (Table.find?_mem hleft).2⟩

theorem isSome_account (h : AlikeDatabases owner username db db') (id : Int) :
    (db.accounts.find? id).isSome = (db'.accounts.find? id).isSome :=
  h.accounts.isSome_eq id

theorem evalCreateEntry_alike (h : AlikeDatabases owner username db db') (arg : CreateEntryParams) :
    Outcomes (AlikeResults owner username (.createEntry arg)) (evalCreateEntry generated now db arg)
      (evalCreateEntry generated' now db' arg) := by
  simp only [evalCreateEntry, isSome_account h]
  cases (db'.accounts.find? arg.accountID).isSome <;> rfl

theorem evalCreateTransfer_alike (h : AlikeDatabases owner username db db')
    (arg : CreateTransferParams) : Outcomes (AlikeResults owner username (.createTransfer arg))
      (evalCreateTransfer generated now db arg) (evalCreateTransfer generated' now db' arg) := by
  simp only [evalCreateTransfer, isSome_account h]
  cases (db'.accounts.find? arg.fromAccountID).isSome <;>
    cases (db'.accounts.find? arg.toAccountID).isSome <;> rfl

end Evaluation

/-- An addition that does not fit. -/
def overflows : Exchange Op Op.Reply → Bool
  | ⟨.sql _ (.addAccountBalance _), .error err⟩ => err = bigintOutOfRange
  | _ => false

/-- The same choice at a call, up to the ids of new entries and transfers. -/
def SameChoice : Op → Choice → Choice → Prop
  | .sql _ (.createEntry _), choice, other | .sql _ (.createTransfer _), choice, other =>
    other = { choice with generated := other.generated }
  | _, choice, other => other = choice

/-- The rows of entries and transfers, which are locked as soon as they are new. -/
def Db.Key.booked : Key → Bool
  | .entry _ | .transfer _ => true
  | _ => false

/-- The locks that others may have to wait for. -/
def contended (locks : List (Lock Key)) : List (Lock Key) := locks.filter fun lock => !lock.key.booked

structure AlikeCalls (owner : Int → String) (username : String) (call other : Execution) : Prop where
  rows : List.Forall₂ (AlikeRows owner username) call.rows other.rows
  locks : contended call.locks = contended other.locks

section Statements

variable {owner : Int → String} {username : String} {db db' : Database} {conn : Conn} {stmt : Stmt}
  {choice choice' : Choice} {now : Time}

theorem SameChoice.fail_eq {op : Op} (h : SameChoice op choice choice') :
    choice'.fail = choice.fail := by
  unfold SameChoice at h
  split at h <;> rw [h]

theorem SameChoice.refl (op : Op) (choice : Choice) : SameChoice op choice choice := by
  unfold SameChoice
  split <;> rfl

theorem eval_alike (hmay : MayRun username conn stmt) (h : AlikeDatabases owner username db db')
    (hsame : SameChoice (.sql conn stmt) choice choice')
    (hfits : overflows ⟨.sql conn stmt, stmt.eval choice.generated now db⟩ = false)
    (hfits' : overflows ⟨.sql conn stmt, stmt.eval choice'.generated now db'⟩ = false) :
    Outcomes (AlikeResults owner username stmt) (stmt.eval choice.generated now db)
      (stmt.eval choice'.generated now db') := by
  cases conn with
  | pool =>
    cases stmt with
    | createAccount arg =>
      cases hsame
      simp only [Stmt.eval, evalCreateAccount_alike h hmay]
      cases evalCreateAccount choice.generated now db' arg <;> rfl
    | getAccount id => exact evalGetAccount_alike h id
    | listAccounts arg =>
      simp only [Stmt.eval, evalListAccounts_alike h hmay]
      cases evalListAccounts db' arg <;> rfl
    | _ => exact hmay.elim
  | tx =>
    cases stmt with
    | createTransfer arg => exact evalCreateTransfer_alike h arg
    | createEntry arg => exact evalCreateEntry_alike h arg
    | addAccountBalance arg =>
      have fits : ∀ {outcome : Except Err Account},
          overflows ⟨.sql .tx (.addAccountBalance arg), outcome⟩ = false →
          outcome ≠ .error bigintOutOfRange := by
        rintro _ hfits rfl
        cases hfits
      exact evalAddAccountBalance_alike h (fits hfits) (fits hfits')
    | _ => exact hmay.elim

/-- What the statement leaves behind is alike. -/
theorem effect_alike {outcome outcome' : Except Err stmt.Result}
    (h : Outcomes (AlikeResults owner username stmt) outcome outcome')
    (hnew : (∃ arg, stmt = .createAccount arg) → ∀ account, .account account ∈ stmt.effect outcome →
      account.owner = owner account.id) :
    List.Forall₂ (AlikeRows owner username) (stmt.effect outcome) (stmt.effect outcome') := by
  cases outcome with
  | error err =>
    cases outcome' with
    | error err' => exact .nil
    | ok row' => exact h.elim
  | ok row =>
  cases outcome' with
  | error err' => exact h.elim
  | ok row' =>
  cases stmt with
  | getAccount _ | listAccounts _ => exact .nil
  | createAccount arg =>
    cases h
    exact .cons ⟨rfl, hnew ⟨arg, rfl⟩ row List.mem_cons_self⟩ .nil
  | addAccountBalance arg => exact .cons h.1 .nil
  | createEntry _ | createTransfer _ => exact .cons trivial .nil
  | _ => exact h.elim

theorem contended_locks (hmay : MayRun username conn stmt) (h : AlikeDatabases owner username db db')
    (hsame : SameChoice (.sql conn stmt) choice choice') :
    contended (stmt.locks choice.generated now db) =
      contended (stmt.locks choice'.generated now db') := by
  have hkeys : ∀ id, Stmt.keyShare db (.account id) = Stmt.keyShare db' (.account id) := by
    intro id
    simp [Stmt.keyShare, Database.lookup, isSome_account h]
  cases conn with
  | pool =>
    cases stmt with
    | createAccount arg =>
      cases hsame
      have hkey : Stmt.keyShare db (.user arg.owner) = Stmt.keyShare db' (.user arg.owner) := by
        rw [show arg.owner = username from hmay]
        simp [Stmt.keyShare, Database.lookup, h.user]
      simp only [Stmt.locks, Stmt.requests, Stmt.serialKey, hkey]
    | getAccount _ | listAccounts _ => rfl
    | _ => exact hmay.elim
  | tx =>
    cases stmt with
    | createTransfer arg =>
      simp [Stmt.locks, Stmt.requests, Stmt.serialKey, hkeys, contended, Key.booked]
    | createEntry arg =>
      simp [Stmt.locks, Stmt.requests, Stmt.serialKey, hkeys, contended, Key.booked]
    | addAccountBalance arg =>
      simp [Stmt.locks, Stmt.requests, Stmt.serialKey, isSome_account h]
    | _ => exact hmay.elim

theorem mem_serialKey_of_booked (hmay : MayRun username conn stmt) {generated : Int}
    {lock : Lock Key} (hlock : lock ∈ stmt.locks generated now db) (hbooked : lock.key.booked = true) :
    lock.key ∈ stmt.serialKey generated := by
  rcases List.mem_append.mp hlock with hlock | hlock
  · have hkey : ∀ k, k.booked = false → lock ∈ Stmt.keyShare db k → False := by
      intro k hfree hmem
      unfold Stmt.keyShare at hmem
      split at hmem
      · rw [List.mem_singleton.mp hmem, hfree] at hbooked
        cases hbooked
      · cases hmem
    cases conn with
    | pool =>
      cases stmt with
      | createAccount arg =>
        rcases List.mem_cons.mp hlock with rfl | hlock
        · cases hbooked
        · exact (hkey _ rfl hlock).elim
      | getAccount _ | listAccounts _ => cases hlock
      | _ => exact hmay.elim
    | tx =>
      cases stmt with
      | createTransfer arg =>
        rcases List.mem_append.mp hlock with hlock | hlock
        · exact (hkey _ rfl hlock).elim
        · exact (hkey _ rfl hlock).elim
      | createEntry arg => exact (hkey _ rfl hlock).elim
      | addAccountBalance arg =>
        simp only [Stmt.requests] at hlock
        split at hlock
        · rw [List.mem_singleton.mp hlock] at hbooked
          cases hbooked
        · cases hlock
      | _ => exact hmay.elim
  · obtain ⟨k, hk, rfl⟩ := List.mem_map.mp hlock
    exact hk

/-- The id of an entry or transfer, as a bound for new ones. -/
def Db.Key.serial : Key → Int
  | .entry id | .transfer id => id
  | _ => 0

/-- There is always an id for a new row that nobody has used or locked. -/
theorem exists_unused_serial (hmay : MayRun username conn stmt)
    (h : AlikeDatabases owner username db db')
    (hfresh : stmt.freshSerial choice.generated db = true) (locks : List (Lock Key)) :
    ∃ generated, SameChoice (.sql conn stmt) choice { choice with generated } ∧
      stmt.freshSerial generated db' = true ∧
      ∀ k ∈ stmt.serialKey generated, k.booked = true → ∀ lock ∈ locks, lock.key ≠ k := by
  obtain ⟨generated, hle, hbound⟩ : ∃ generated, nextId db' ≤ generated ∧
      ∀ lock ∈ locks, lock.key.serial < generated := by
    refine ⟨max (nextId db') ((locks.map fun lock => lock.key.serial).foldr max 0 + 1),
      Int.le_max_left _ _, fun lock hmem => ?_⟩
    have hserial := le_foldr_max (List.mem_map_of_mem (f := fun lock => lock.key.serial) hmem)
    exact Int.lt_of_lt_of_le (Int.lt_add_one_of_le hserial) (Int.le_max_right _ _)
  have hbooks : ∀ k, k.serial = generated → ∀ lock ∈ locks, lock.key ≠ k := by
    rintro k hserial lock hmem rfl
    exact absurd (hbound lock hmem) (by rw [hserial]; exact Int.lt_irrefl _)
  cases conn with
  | pool =>
    cases stmt with
    | createAccount arg =>
      refine ⟨choice.generated, rfl, ?_, ?_⟩
      · rw [Stmt.freshSerial_iff] at hfresh ⊢
        intro k hk
        obtain ⟨hpos, hnone⟩ := hfresh k hk
        cases List.mem_singleton.mp hk
        refine ⟨hpos, ?_⟩
        have hsame := isSome_account h choice.generated
        rw [Option.map_eq_none_iff.mp hnone] at hsame
        simpa [Database.lookup] using hsame.symm
      · intro k hk hbooked
        cases List.mem_singleton.mp hk
        cases hbooked
    | getAccount _ | listAccounts _ =>
      refine ⟨choice.generated, rfl, rfl, fun k hk _ => ?_⟩
      cases hk
    | _ => exact hmay.elim
  | tx =>
    cases stmt with
    | createTransfer arg | createEntry arg =>
      refine ⟨generated, rfl, freshSerial_of_nextId_le hle _, fun k hk _ => hbooks k ?_⟩
      rw [List.mem_singleton.mp hk]
      rfl
    | addAccountBalance _ =>
      refine ⟨choice.generated, rfl, rfl, fun k hk _ => ?_⟩
      cases hk
    | _ => exact hmay.elim

end Statements

structure AlikeTxs (owner : Int → String) (username : String) (tx other : Tx Execution Time) :
    Prop where
  startedAt : tx.startedAt = other.startedAt
  aborted : tx.aborted = other.aborted
  calls : List.Forall₂ (AlikeCalls owner username) tx.calls other.calls

structure AlikeWorlds (owner : Int → String) (username : String) (w w' : World) : Prop where
  db : AlikeDatabases owner username w.db w'.db
  txs : Table.Related (AlikeTxs owner username) w.txs w'.txs
  clock : w.clock = w'.clock

/-- The calls of the requests of `username` for accounts and transfers. -/
def May (username : String) : Op → Prop
  | .sql conn stmt => MayRun username conn stmt
  | .begin | .commit | .rollback => True
  | _ => False

def AlikeReplies (owner : Int → String) (username : String) : (op : Op) → op.Reply → op.Reply → Prop
  | .sql _ stmt, reply, other => Outcomes (AlikeResults owner username stmt) reply other
  | .begin, reply, other | .commit, reply, other | .rollback, reply, other => reply = other
  | _, _, _ => False

section Steps

variable {owner : Int → String} {username : String} {w w' v v' : World} {thread : Nat}
  {choice choice' : Choice} {stmt : Stmt} {tx tx' : Tx Execution Time} {call call' : Execution}

theorem aborts_alike {α : Type} {related : α → α → Prop} {outcome outcome' : Except Err α}
    (h : Outcomes related outcome outcome') : aborts outcome = aborts outcome' := by
  cases outcome <;> cases outcome'
  · rw [show _ = _ from h]
  · exact h.elim
  · exact h.elim
  · rfl

theorem AlikeTxs.extend (h : AlikeTxs owner username tx tx')
    (hcall : AlikeCalls owner username call call') {aborted aborted' : Bool}
    (haborted : aborted = aborted') :
    AlikeTxs owner username (tx.extend call aborted) (tx'.extend call' aborted') :=
  ⟨h.startedAt, haborted, List.rel_append h.calls (.cons hcall .nil)⟩

theorem AlikeTxs.mem_lockedBy (h : AlikeTxs owner username tx tx') {lock : Lock Key}
    (hlock : lock ∈ Statements.lockedBy Database tx'.calls) (hbooked : lock.key.booked = false) :
    lock ∈ Statements.lockedBy Database tx.calls := by
  have hcontended : contended (Statements.lockedBy Database tx.calls) =
      contended (Statements.lockedBy Database tx'.calls) := by
    have hcalls := h.calls
    generalize tx.calls = calls at hcalls ⊢
    generalize tx'.calls = calls' at hcalls ⊢
    induction hcalls with
    | nil => rfl
    | cons hcall _ ih =>
      simp only [Statements.lockedBy_cons, contended, List.filter_append] at ih ⊢
      exact congrArg₂ (· ++ ·) hcall.locks ih
  have hmem : lock ∈ contended (Statements.lockedBy Database tx'.calls) :=
    List.mem_filter.mpr ⟨hlock, by simp [hbooked]⟩
  rw [← hcontended] at hmem
  exact (List.mem_filter.mp hmem).1

theorem failed_alike (owner : Int → String) (username : String) {now now' : Time} (stmt : Stmt)
    (err : Err) : AlikeCalls owner username (.failed now stmt err) (.failed now' stmt err) :=
  ⟨.nil, rfl⟩

theorem mem_accounts_of_created {db : Database} {arg : CreateAccountParams}
    {outcome : Except Err Account} {account : Account}
    (h : .account account ∈ Stmt.effect (.createAccount arg) outcome) :
    account ∈ (Store.write db (Stmt.effect (.createAccount arg) outcome)).accounts.rows := by
  cases outcome with
  | error err => cases h
  | ok row =>
    cases List.mem_singleton.mp h
    exact Table.mem_iff.mpr (Table.find?_put_self db.accounts account)

namespace AlikeWorlds

variable (h : AlikeWorlds owner username w w')

include h

theorem now_eq : w.now = w'.now := by
  rw [World.now, h.clock, World.now]

theorem view (htx : AlikeTxs owner username tx tx') :
    AlikeDatabases owner username (w.view tx) (w'.view tx') :=
  h.db.write (List.rel_flatMap htx.calls fun _ _ hcall => hcall.rows)

theorem write {rows rows' : List Row} (hrows : List.Forall₂ (AlikeRows owner username) rows rows') :
    AlikeWorlds owner username { w with db := Store.write w.db rows }
      { w' with db := Store.write w'.db rows' } :=
  ⟨h.db.write hrows, h.txs, h.clock⟩

theorem closeTx (thread : Nat) : AlikeWorlds owner username (w.closeTx thread) (w'.closeTx thread) :=
  ⟨h.db, h.txs.erase thread, h.clock⟩

theorem extendTx (htx : AlikeTxs owner username tx tx') (howner : tx.owner = tx'.owner)
    (hcall : AlikeCalls owner username call call')
    (haborts : aborts call.outcome = aborts call'.outcome) :
    AlikeWorlds owner username (w.extendTx tx call) (w'.extendTx tx' call') :=
  ⟨h.db, h.txs.put (htx.extend hcall haborts) howner, h.clock⟩

/-- What is granted in one world is granted in the other, new ids being nobody's. -/
theorem grants {locks locks' : List (Lock Key)} (hlocks : contended locks = contended locks')
    {thread : Option Nat} (hgrants : w.grants thread locks = true)
    (hnew : ∀ lock ∈ locks', lock.key.booked = true → ∀ tx ∈ w'.txs.rows,
      ∀ held ∈ Statements.lockedBy Database tx.calls, held.key ≠ lock.key) :
    w'.grants thread locks' = true := by
  refine List.all_eq_true.mpr fun tx' hmem' => ?_
  rw [Bool.or_eq_true, decide_eq_true_eq, Bool.not_eq_true', or_iff_not_imp_left]
  intro hother
  refine Bool.eq_false_iff.mpr fun hblocks => ?_
  obtain ⟨want, hwant, held, hheld, hkey, hmode⟩ := blocks_iff.mp hblocks
  have hbooked : want.key.booked = false := Bool.eq_false_iff.mpr fun hbooked =>
    hnew want hwant hbooked tx' hmem' held hheld hkey.symm
  rcases h.txs.find?_cases tx'.owner with ⟨-, hnone⟩ | ⟨tx, found, hfind, hfound, htx⟩
  · rw [Table.find?_of_mem hmem'] at hnone
    cases hnone
  rw [Table.find?_of_mem hmem'] at hfound
  cases hfound
  obtain ⟨hmem, howner⟩ := Table.find?_mem hfind
  have hwant' : want ∈ locks := by
    have hcontended : want ∈ contended locks' := List.mem_filter.mpr ⟨hwant, by simp [hbooked]⟩
    rw [← hlocks] at hcontended
    exact (List.mem_filter.mp hcontended).1
  have hheld' : held ∈ Statements.lockedBy Database tx.calls :=
    htx.mem_lockedBy hheld (hkey ▸ hbooked)
  have hblocks : blocks locks (Statements.lockedBy Database tx.calls) = true :=
    blocks_iff.mpr ⟨want, hwant', held, hheld', hkey, hmode⟩
  rw [TxState.not_blocks_of_grants hgrants hmem (howner ▸ hother)] at hblocks
  cases hblocks

theorem poolStep (hmay : MayRun username .pool stmt)
    (hsame : SameChoice (.sql .pool stmt) choice choice') {reply reply' : Except Err stmt.Result}
    (hstep : w.poolStep choice stmt = some (reply, v))
    (hstep' : w'.poolStep choice' stmt = some (reply', v'))
    (hfits : overflows ⟨.sql .pool stmt, reply⟩ = false)
    (hfits' : overflows ⟨.sql .pool stmt, reply'⟩ = false)
    (howned : ∀ account ∈ v.db.accounts.rows, account.owner = owner account.id) :
    Outcomes (AlikeResults owner username stmt) reply reply' ∧ AlikeWorlds owner username v v' := by
  unfold World.poolStep at hstep hstep'
  rw [hsame.fail_eq] at hstep'
  cases hfail : choice.fail with
  | some outage =>
    rw [hfail] at hstep hstep'
    cases hstep
    cases hstep'
    exact ⟨rfl, h⟩
  | none =>
    rw [hfail] at hstep hstep'
    dsimp only at hstep hstep'
    split at hstep <;> cases hstep
    split at hstep' <;> cases hstep'
    rw [← h.now_eq] at hfits' ⊢
    have houtcomes := eval_alike hmay h.db hsame hfits hfits'
    refine ⟨houtcomes, h.write (effect_alike houtcomes ?_)⟩
    rintro ⟨arg, rfl⟩ account hmem
    exact howned account (mem_accounts_of_created hmem)

theorem txStep (hmay : MayRun username .tx stmt)
    (hsame : SameChoice (.sql .tx stmt) choice choice') {reply reply' : Except Err stmt.Result}
    (hstep : w.txStep thread choice stmt = some (reply, v))
    (hstep' : w'.txStep thread choice' stmt = some (reply', v'))
    (hfits : overflows ⟨.sql .tx stmt, reply⟩ = false)
    (hfits' : overflows ⟨.sql .tx stmt, reply'⟩ = false) :
    Outcomes (AlikeResults owner username stmt) reply reply' ∧ AlikeWorlds owner username v v' := by
  unfold World.txStep at hstep hstep'
  rcases h.txs.find?_cases thread with ⟨hnone, hnone'⟩ | ⟨tx, tx', hfind, hfind', htx⟩
  · rw [hnone] at hstep
    rw [hnone'] at hstep'
    cases hstep
    cases hstep'
    exact ⟨rfl, h⟩
  have howner : tx.owner = tx'.owner :=
    (Table.find?_mem hfind).2.trans (Table.find?_mem hfind').2.symm
  rw [hfind] at hstep
  rw [hfind', hsame.fail_eq] at hstep'
  simp only [← htx.aborted] at hstep'
  cases haborted : tx.aborted with
  | true =>
    simp only [haborted, if_true] at hstep hstep'
    cases hstep
    cases hstep'
    exact ⟨rfl, h.extendTx htx howner (failed_alike ..) rfl⟩
  | false =>
  simp only [haborted, Bool.false_eq_true, if_false] at hstep hstep'
  cases hfail : choice.fail with
  | some outage =>
    rw [hfail] at hstep hstep'
    cases hstep
    cases hstep'
    exact ⟨rfl, h.extendTx htx howner (failed_alike ..) rfl⟩
  | none =>
    rw [hfail] at hstep hstep'
    dsimp only at hstep hstep'
    split at hstep <;> cases hstep
    split at hstep' <;> cases hstep'
    rw [← htx.startedAt] at hfits' ⊢
    have houtcomes := eval_alike hmay (h.view htx) hsame hfits hfits'
    refine ⟨houtcomes, h.extendTx htx howner ⟨effect_alike houtcomes ?_, ?_⟩
      (aborts_alike houtcomes)⟩
    · rintro ⟨arg, rfl⟩
      exact hmay.elim
    · exact contended_locks hmay (h.view htx) hsame

theorem begin {reply reply' : Except Err Unit} (hfail : choice'.fail = choice.fail)
    (hstep : w.beginStep thread choice = some (reply, v))
    (hstep' : w'.beginStep thread choice' = some (reply', v')) :
    reply = reply' ∧ AlikeWorlds owner username v v' := by
  unfold World.beginStep at hstep hstep'
  rw [hfail] at hstep'
  cases hfail : choice.fail with
  | some outage =>
    rw [hfail] at hstep hstep'
    cases hstep
    cases hstep'
    exact ⟨rfl, h⟩
  | none =>
    rw [hfail] at hstep hstep'
    dsimp only at hstep hstep'
    split at hstep <;> cases hstep
    split at hstep' <;> cases hstep'
    rw [h.now_eq]
    exact ⟨rfl, h.db, h.txs.put ⟨rfl, rfl, .nil⟩ rfl, h.clock⟩

theorem commit (thread : Nat) (hfail : choice'.fail = choice.fail) :
    (w.commitStep thread choice).1 = (w'.commitStep thread choice').1 ∧
      AlikeWorlds owner username (w.commitStep thread choice).2 (w'.commitStep thread choice').2 := by
  unfold World.commitStep
  rcases h.txs.find?_cases thread with ⟨hnone, hnone'⟩ | ⟨tx, tx', hfind, hfind', htx⟩
  · rw [hnone, hnone']
    exact ⟨rfl, h⟩
  rw [hfind, hfind', hfail]
  cases choice.fail with
  | some outage => exact ⟨rfl, h.closeTx thread⟩
  | none =>
    simp only [← htx.aborted]
    split
    · exact ⟨rfl, h.closeTx thread⟩
    · exact ⟨rfl, h.view htx, h.txs.erase thread, h.clock⟩

theorem rollback (thread : Nat) (hfail : choice'.fail = choice.fail) :
    (w.rollbackStep thread choice).1 = (w'.rollbackStep thread choice').1 ∧
      AlikeWorlds owner username (w.rollbackStep thread choice).2
        (w'.rollbackStep thread choice').2 := by
  unfold World.rollbackStep
  rcases h.txs.find?_cases thread with ⟨hnone, hnone'⟩ | ⟨tx, tx', hfind, hfind', htx⟩
  · rw [hnone, hnone']
    exact ⟨rfl, h⟩
  rw [hfind, hfind', hfail]
  cases choice.fail with
  | some outage => exact ⟨rfl, h.closeTx thread⟩
  | none => exact ⟨rfl, h.closeTx thread⟩

/-- Calls that may be made get alike replies and leave alike worlds, unless an
addition overflows. -/
theorem step {deps : Deps} {op : Op} (hmay : May username op) (hsame : SameChoice op choice choice')
    {reply reply' : op.Reply} (hstep : w.step deps thread choice op = some (reply, v))
    (hstep' : w'.step deps thread choice' op = some (reply', v'))
    (hfits : overflows ⟨op, reply⟩ = false) (hfits' : overflows ⟨op, reply'⟩ = false)
    (howned : ∀ account ∈ v.db.accounts.rows, account.owner = owner account.id) :
    AlikeReplies owner username op reply reply' ∧ AlikeWorlds owner username v v' := by
  cases op with
  | sql conn stmt =>
    cases conn with
    | pool => exact h.poolStep hmay hsame hstep hstep' hfits hfits' howned
    | tx => exact h.txStep hmay hsame hstep hstep' hfits hfits'
  | begin => exact h.begin hsame.fail_eq hstep hstep'
  | commit =>
    have hcommit := h.commit thread hsame.fail_eq
    rw [Option.some.inj hstep, Option.some.inj hstep'] at hcommit
    exact hcommit
  | rollback =>
    have hrollback := h.rollback thread hsame.fail_eq
    rw [Option.some.inj hstep, Option.some.inj hstep'] at hrollback
    exact hrollback
  | _ => exact hmay.elim

theorem exists_poolStep (hmay : MayRun username .pool stmt)
    (hstep : (w.poolStep choice stmt).isSome = true) : ∃ choice',
      SameChoice (.sql .pool stmt) choice choice' ∧ (w'.poolStep choice' stmt).isSome = true := by
  unfold World.poolStep at hstep ⊢
  cases hfail : choice.fail with
  | some outage => exact ⟨choice, .refl _ choice, by simp [hfail]⟩
  | none =>
    simp only [hfail] at hstep
    split at hstep
    · rename_i hgranted
      obtain ⟨hgrants, hfresh⟩ := Bool.and_eq_true_iff.mp hgranted
      obtain ⟨generated, hsame, hfresh', hnew⟩ := exists_unused_serial hmay h.db hfresh
        (w'.txs.rows.flatMap fun tx => Statements.lockedBy Database tx.calls)
      have hgrants' : w'.grants none (Execution.perform generated w'.now w'.db stmt).locks = true := by
        refine h.grants (h.now_eq ▸ contended_locks hmay h.db hsame) hgrants ?_
        intro lock hlock hbooked tx htx held hheld
        exact hnew _ (mem_serialKey_of_booked hmay hlock hbooked) hbooked held
          (List.mem_flatMap.mpr ⟨tx, htx, hheld⟩)
      refine ⟨_, hsame, ?_⟩
      simp only [hfail, hgrants', hfresh', Bool.and_true, if_true]
      rfl
    · cases hstep

theorem exists_txStep (hmay : MayRun username .tx stmt)
    (hstep : (w.txStep thread choice stmt).isSome = true) : ∃ choice',
      SameChoice (.sql .tx stmt) choice choice' ∧ (w'.txStep thread choice' stmt).isSome = true := by
  unfold World.txStep at hstep ⊢
  rcases h.txs.find?_cases thread with ⟨-, hnone⟩ | ⟨tx, tx', hfind, hfind', htx⟩
  · exact ⟨choice, .refl _ choice, by simp [hnone]⟩
  simp only [hfind] at hstep
  simp only [hfind', ← htx.aborted]
  cases haborted : tx.aborted with
  | true => exact ⟨choice, .refl _ choice, by simp⟩
  | false =>
  simp only [haborted, Bool.false_eq_true, if_false] at hstep ⊢
  cases hfail : choice.fail with
  | some outage => exact ⟨choice, .refl _ choice, by simp [hfail]⟩
  | none =>
    simp only [hfail] at hstep
    split at hstep
    · rename_i hgranted
      obtain ⟨hgrants, hfresh⟩ := Bool.and_eq_true_iff.mp hgranted
      obtain ⟨generated, hsame, hfresh', hnew⟩ := exists_unused_serial hmay (h.view htx) hfresh
        (w'.txs.rows.flatMap fun tx => Statements.lockedBy Database tx.calls)
      have hgrants' : w'.grants (some thread)
          (Execution.perform generated tx'.startedAt (w'.view tx') stmt).locks = true := by
        refine h.grants (htx.startedAt ▸ contended_locks hmay (h.view htx) hsame) hgrants ?_
        intro lock hlock hbooked other hother held hheld
        exact hnew _ (mem_serialKey_of_booked hmay hlock hbooked) hbooked held
          (List.mem_flatMap.mpr ⟨other, hother, hheld⟩)
      refine ⟨_, hsame, ?_⟩
      simp only [hfail, hgrants', hfresh', Bool.and_true, if_true]
      rfl
    · cases hstep

/-- A call that need not wait in one world need not wait in the other. -/
theorem exists_step {deps : Deps} {op : Op} (hmay : May username op)
    (hstep : (w.step deps thread choice op).isSome = true) : ∃ choice',
      SameChoice op choice choice' ∧ (w'.step deps thread choice' op).isSome = true := by
  cases op with
  | sql conn stmt =>
    cases conn with
    | pool => exact h.exists_poolStep hmay hstep
    | tx => exact h.exists_txStep hmay hstep
  | begin =>
    refine ⟨choice, .refl _ choice, ?_⟩
    simp only [World.step, World.beginStep, ← Option.not_isSome, h.txs.isSome_eq thread] at hstep ⊢
    cases hfail : choice.fail with
    | some outage => rfl
    | none =>
      simp only [hfail] at hstep
      split at hstep
      · rename_i hopen
        simp only [hopen, if_true]
        rfl
      · cases hstep
  | commit | rollback => exact ⟨choice, .refl _ choice, rfl⟩
  | _ => exact hmay.elim

end AlikeWorlds

end Steps

end SimpleBank
