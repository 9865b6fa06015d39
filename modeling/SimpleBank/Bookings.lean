import SimpleBank.Transfers

/-! `TransferTx` on its own: when it commits, what it books and what it
returns, whatever sequence values its inserts draw. -/
namespace SimpleBank
open Library Db Program

/-- A call that meets no failure, when nobody else is connected. -/
def Undisturbedly (deps : Deps) (op : Op) (w : World) (reply : op.Reply) (w' : World) : Prop :=
  ∃ choice : Choice, choice.fail = none ∧ w.step deps 0 choice op = some (reply, w')

/-- `w` with an open transaction. -/
def OpenIn (w v : World) : Prop :=
  ∃ tx : Tx Execution Time, tx.owner = 0 ∧ v = { w with txs := Table.empty.put tx }

section Solo

variable {deps : Deps} {w v v' : World} {db : Database}

theorem undisturbedly_begin (hidle : w.txs = .empty) {reply : Except Err Unit}
    (h : Undisturbedly deps .begin w reply v) : reply = .ok () ∧ Inside w w.db v := by
  obtain ⟨choice, hhealthy, hstep⟩ := h
  simp only [World.step, World.beginStep, hhealthy, hidle, Table.find?_empty, Option.isNone_none,
    if_true] at hstep
  cases hstep
  refine ⟨rfl, [], ?_, rfl⟩
  rfl

/-- A statement is evaluated on what the transaction sees. -/
theorem undisturbedly_query {stmt : Stmt} {reply : Except Err stmt.Result}
    (hinside : Inside w db v) (h : Undisturbedly deps (.sql .tx stmt) v reply v') :
    ∃ generated, stmt.freshSerial generated db = true ∧
      reply = stmt.eval generated w.now db ∧ OpenIn w v' ∧
      ∀ row, reply = .ok row → Inside w (Store.write db (stmt.written row)) v' := by
  obtain ⟨choice, hhealthy, hstep⟩ := h
  obtain ⟨calls, rfl, rfl⟩ := hinside
  have hreply := World.tx_eval (find?_inTx w calls) rfl hhealthy hstep
  simp only [World.step, World.txStep, find?_inTx, hhealthy, Bool.false_eq_true, if_false] at hstep
  split at hstep
  · rename_i hgranted
    obtain ⟨-, hfresh⟩ := Bool.and_eq_true_iff.mp hgranted
    obtain ⟨houtcome, rfl⟩ := Prod.mk.inj (Option.some.inj hstep)
    refine ⟨choice.generated, hfresh, hreply, ⟨_, rfl, rfl⟩, ?_⟩
    intro row hrow
    have hok := houtcome.trans hrow
    refine ⟨_, extendTx_inTx w calls (congrArg aborts hok), ?_⟩
    rw [Statements.writtenBy_append, Store.write_append]
    simp only [Statements.writtenBy_cons, Statements.writtenBy_nil, List.append_nil]
    exact congrArg _ (congrArg stmt.effect hok).symm
  · cases hstep

theorem undisturbedly_commit (hidle : w.txs = .empty) {reply : Except Err Unit}
    (hinside : Inside w db v) (h : Undisturbedly deps .commit v reply v') :
    reply = .ok () ∧ v' = { w with db := db } := by
  obtain ⟨choice, hhealthy, hstep⟩ := h
  obtain ⟨calls, rfl, rfl⟩ := hinside
  simp only [World.step, World.commitStep, find?_inTx, hhealthy, Bool.false_eq_true, if_false]
    at hstep
  cases hstep
  refine ⟨rfl, ?_⟩
  rw [show (w.inTx calls).txs.erase 0 = w.txs by rw [hidle]; rfl]
  rfl

theorem undisturbedly_rollback (hidle : w.txs = .empty) {reply : Except Err Unit}
    (hopen : OpenIn w v) (h : Undisturbedly deps .rollback v reply v') :
    reply = .ok () ∧ v' = w := by
  obtain ⟨choice, hhealthy, hstep⟩ := h
  obtain ⟨tx, howner, rfl⟩ := hopen
  have hfind : (Table.put Table.empty tx : Table Nat _ Tx.owner).find? 0 = some tx := by
    rw [← howner]
    exact Table.find?_put_self _ tx
  have herase : (Table.put Table.empty tx : Table Nat _ Tx.owner).erase 0 = .empty := by
    ext1
    simp [Table.erase, Table.put, Table.empty, upsert, howner]
  simp only [World.step, World.rollbackStep, World.closeTx, hfind, hhealthy, herase] at hstep
  cases hstep
  refine ⟨rfl, ?_⟩
  rw [← hidle]

/-- How a body ends that runs on its own: with its rows in the transaction, or
with an error. -/
inductive BodyEnds {α : Type} (w : World) (books : α → Database → Prop) (fails : Prop) :
    Except Err α → World → Prop
  | ok {db : Database} {v : World} (value : α) : Inside w db v → books value db →
      BodyEnds w books fails (.ok value) v
  | error {v : World} (err : Err) : OpenIn w v → fails → BodyEnds w books fails (.error err) v

/-- A transaction commits what its body has booked, or leaves no trace. -/
theorem execTx_ends {α : Type} {fn : Act (Except Err α)} {books : α → Database → Prop}
    {fails : Prop} (hidle : w.txs = .empty) {outcome : Except Err α}
    (hfn : ∀ v v' outcome, Inside w w.db v → Evaluates (Undisturbedly deps) fn v outcome v' →
      BodyEnds w books fails outcome v')
    (h : Evaluates (Undisturbedly deps) (execTx fn) w outcome v) :
    (∃ value db, outcome = .ok value ∧ v = { w with db := db } ∧ books value db) ∨
      (∃ err, outcome = .error err ∧ v = w ∧ fails) := by
  obtain ⟨reply, v1, hbegin, hrun⟩ := evaluates_call.mp h
  obtain ⟨rfl, hinside⟩ := undisturbedly_begin hidle hbegin
  change Evaluates _ (fn >>= _) v1 outcome v at hrun
  obtain ⟨result, v2, hbody, hend⟩ := evaluates_bind.mp hrun
  cases hfn v1 v2 result hinside hbody with
  | ok value hinside hbooks =>
    obtain ⟨reply, v3, hcommit, hdone⟩ := evaluates_call.mp hend
    obtain ⟨rfl, rfl⟩ := undisturbedly_commit hidle hinside hcommit
    obtain ⟨rfl, rfl⟩ := evaluates_done.mp hdone
    exact .inl ⟨value, _, rfl, rfl, hbooks⟩
  | error err hopen hfails =>
    obtain ⟨reply, v3, hrollback, hdone⟩ := evaluates_call.mp hend
    obtain ⟨rfl, rfl⟩ := undisturbedly_rollback hidle hopen hrollback
    obtain ⟨rfl, rfl⟩ := evaluates_done.mp hdone
    exact .inr ⟨err, rfl, rfl, hfails⟩

/-- A body that goes on with a statement and gives up at its error. -/
theorem BodyEnds.of_query {α : Type} {stmt : Stmt}
    {next : Except Err stmt.Result → Act (Except Err α)} {books : α → Database → Prop}
    {fails : Prop} {outcome : Except Err α} (hinside : Inside w db v)
    (h : Evaluates (Undisturbedly deps) (.call (.sql .tx stmt) next) v outcome v')
    (hgivesUp : ∀ err, next (.error err) = .done (.error err))
    (herror : ∀ generated err, stmt.eval generated w.now db = .error err → fails)
    (hok : ∀ generated row v1, stmt.freshSerial generated db = true →
      stmt.eval generated w.now db = .ok row → Inside w (Store.write db (stmt.written row)) v1 →
      Evaluates (Undisturbedly deps) (next (.ok row)) v1 outcome v' →
      BodyEnds w books fails outcome v') :
    BodyEnds w books fails outcome v' := by
  obtain ⟨reply, v1, hquery, hrest⟩ := evaluates_call.mp h
  obtain ⟨generated, hfresh, hreply, hopen, hinside'⟩ := undisturbedly_query hinside hquery
  cases reply with
  | error err =>
    rw [hgivesUp] at hrest
    obtain ⟨rfl, rfl⟩ := evaluates_done.mp hrest
    exact .error err hopen (herror generated err hreply.symm)
  | ok row => exact hok generated row v1 hfresh hreply.symm (hinside' row rfl) hrest

/-- The two additions a transfer makes are possible. -/
def CanAdd (accounts : Table Int Account Account.id) (first second : AddAccountBalanceParams) :
    Prop :=
  ∃ account1 account2, AddsMoney accounts first second account1 account2

theorem addsTo_iff_eval {arg : AddAccountBalanceParams} {row : Account} :
    AddsTo db.accounts arg row ↔ evalAddAccountBalance db arg = .ok row := by
  rw [evalAddAccountBalance_eq_ok]
  constructor
  · rintro ⟨account, hfind, hmoved⟩
    exact ⟨account, hfind, hmoved.balance_eq, hmoved.rest_eq⟩
  · rintro ⟨account, hfind, hbalance, hrest⟩
    exact ⟨account, hfind, hbalance, hrest⟩

theorem addMoney_ends {accountID1 accountID2 : Int} {amount1 amount2 : Int64}
    {outcome : Except Err (Account × Account)} (hinside : Inside w db v)
    (h : Evaluates (Undisturbedly deps) (addMoney accountID1 amount1 accountID2 amount2) v outcome
      v') :
    BodyEnds w (fun accounts db' =>
        AddsMoney db.accounts ⟨amount1, accountID1⟩ ⟨amount2, accountID2⟩ accounts.1 accounts.2 ∧
        db' = { db with accounts := (db.accounts.put accounts.1).put accounts.2 })
      (¬CanAdd db.accounts ⟨amount1, accountID1⟩ ⟨amount2, accountID2⟩) outcome v' := by
  refine .of_query hinside h (fun _ => rfl) ?_ ?_
  · rintro _ err herror ⟨account1, account2, hfirst, -⟩
    cases herror.symm.trans (addsTo_iff_eval.mp hfirst)
  intro _ account1 v1 _ hone hinside h
  have hfirst : AddsTo db.accounts ⟨amount1, accountID1⟩ account1 := addsTo_iff_eval.mpr hone
  refine .of_query hinside h (fun _ => rfl) ?_ ?_
  · rintro _ err herror ⟨other1, account2, hother, hsecond⟩
    cases hone.symm.trans (addsTo_iff_eval.mp hother)
    have hok : evalAddAccountBalance (db.put (.account account1)) ⟨amount2, accountID2⟩ =
        .ok account2 := addsTo_iff_eval.mp hsecond
    cases herror.symm.trans hok
  intro _ account2 v2 _ htwo hinside h
  obtain ⟨rfl, rfl⟩ := evaluates_done.mp h
  exact .ok _ hinside ⟨⟨hfirst, addsTo_iff_eval.mpr htwo⟩, rfl⟩

theorem CanAdd.isSome {accounts : Table Int Account Account.id}
    {first second : AddAccountBalanceParams} (h : CanAdd accounts first second) :
    (accounts.find? first.id).isSome = true ∧ (accounts.find? second.id).isSome = true := by
  obtain ⟨account1, account2, hmoney⟩ := h
  obtain ⟨old1, old2, hold1, hold2, -⟩ := hmoney.holding ""
  simp [hold1, hold2]

/-- Both balances can be updated, in the order of the ids. -/
def Feasible (db : Database) (arg : TransferTxParams) : Prop :=
  if arg.fromAccountID < arg.toAccountID then
    CanAdd db.accounts ⟨-arg.amount, arg.fromAccountID⟩ ⟨arg.amount, arg.toAccountID⟩
  else CanAdd db.accounts ⟨arg.amount, arg.toAccountID⟩ ⟨-arg.amount, arg.fromAccountID⟩

theorem Feasible.isSome {arg : TransferTxParams} (h : Feasible db arg) :
    (db.accounts.find? arg.fromAccountID).isSome = true ∧
      (db.accounts.find? arg.toAccountID).isSome = true := by
  unfold Feasible at h
  split at h
  · exact h.isSome
  · exact h.isSome.symm

theorem transferTx_ends {arg : TransferTxParams} {outcome : Except Err TransferTxResult}
    (hidle : w.txs = .empty)
    (h : Evaluates (Undisturbedly deps) (transferTx arg) w outcome v) :
    (∃ result db, outcome = .ok result ∧ v = { w with db := db } ∧
        TransferApplied w.db arg result db) ∨
      (∃ err, outcome = .error err ∧ v = w ∧ ¬Feasible w.db arg) := by
  refine execTx_ends hidle ?_ h
  intro v v' outcome hinside h
  refine .of_query hinside h (fun _ => rfl) ?_ ?_
  · intro _ err herror hfeasible
    cases herror.symm.trans
      (evalCreateTransfer_eq_ok.mpr ⟨hfeasible.isSome.1, hfeasible.isSome.2, rfl⟩)
  intro id1 transfer v1 hfresh1 hone hinside h
  obtain ⟨-, -, rfl⟩ := evalCreateTransfer_eq_ok.mp hone
  refine .of_query hinside h (fun _ => rfl) ?_ ?_
  · intro _ err herror hfeasible
    cases herror.symm.trans (evalCreateEntry_eq_ok.mpr ⟨hfeasible.isSome.1, rfl⟩)
  intro id2 fromEntry v2 hfresh2 htwo hinside h
  obtain ⟨-, rfl⟩ := evalCreateEntry_eq_ok.mp htwo
  refine .of_query hinside h (fun _ => rfl) ?_ ?_
  · intro _ err herror hfeasible
    cases herror.symm.trans (evalCreateEntry_eq_ok.mpr ⟨hfeasible.isSome.2, rfl⟩)
  intro id3 toEntry v3 hfresh3 hthree hinside h
  obtain ⟨-, rfl⟩ := evalCreateEntry_eq_ok.mp hthree
  have hnewTransfer := (Stmt.freshSerial_iff.mp hfresh1 _ List.mem_cons_self).2
  have hnewFromEntry := (Stmt.freshSerial_iff.mp hfresh2 _ List.mem_cons_self).2
  have hnewToEntry := (Stmt.freshSerial_iff.mp hfresh3 _ List.mem_cons_self).2
  -- what has been written so far is there whichever account comes first
  have happlied : ∀ fromAccount toAccount db', _ → _ → TransferApplied w.db arg
      ⟨⟨id1, arg.fromAccountID, arg.toAccountID, arg.amount, w.now⟩, fromAccount, toAccount,
        ⟨id2, arg.fromAccountID, -arg.amount, w.now⟩, ⟨id3, arg.toAccountID, arg.amount, w.now⟩⟩
      db' := fun fromAccount toAccount db' hmoney hdb' =>
    { transfer := ⟨rfl, rfl, rfl⟩
      fromEntry := ⟨rfl, rfl⟩
      toEntry := ⟨rfl, rfl⟩
      freshTransfer := Option.map_eq_none_iff.mp hnewTransfer
      freshFromEntry := Option.map_eq_none_iff.mp hnewFromEntry
      freshToEntry := Option.map_eq_none_iff.mp hnewToEntry
      money := hmoney
      database := hdb' }
  change Evaluates _ (if _ then addMoney _ _ _ _ >>= _ else addMoney _ _ _ _ >>= _) _ _ _ at h
  split at h
  · rename_i hlt
    obtain ⟨accounts, v4, hmoney, h⟩ := evaluates_bind.mp h
    cases addMoney_ends hinside hmoney with
    | error err hopen hfails =>
      obtain ⟨rfl, rfl⟩ := evaluates_done.mp h
      refine .error err hopen fun hfeasible => hfails ?_
      rwa [Feasible, if_pos hlt] at hfeasible
    | ok accounts hinside hadds =>
      obtain ⟨rfl, rfl⟩ := evaluates_done.mp h
      obtain ⟨hadds, rfl⟩ := hadds
      exact .ok _ hinside (happlied _ _ _ (by rwa [if_pos hlt]) (by rw [if_pos hlt]; rfl))
  · rename_i hge
    obtain ⟨accounts, v4, hmoney, h⟩ := evaluates_bind.mp h
    cases addMoney_ends hinside hmoney with
    | error err hopen hfails =>
      obtain ⟨rfl, rfl⟩ := evaluates_done.mp h
      refine .error err hopen fun hfeasible => hfails ?_
      rwa [Feasible, if_neg hge] at hfeasible
    | ok accounts hinside hadds =>
      obtain ⟨rfl, rfl⟩ := evaluates_done.mp h
      obtain ⟨hadds, rfl⟩ := hadds
      exact .ok _ hinside (happlied _ _ _ (by rwa [if_neg hge]) (by rw [if_neg hge]; rfl))

/-- A thread runs on its own, and its transaction is what its history says. -/
structure RunsSolo (thread : Nat) (history : History) (w : World) : Prop where
  tracks : w.Tracks thread history
  others : ∀ other, other ≠ thread → w.txs.find? other = none

theorem RunsSolo.grants {thread : Nat} {history : History} (h : RunsSolo thread history w)
    (locks : List (Lock Key)) : w.grants (some thread) locks = true := by
  refine List.all_eq_true.mpr fun tx htx => ?_
  have howner : tx.owner = thread := by
    by_contra hne
    cases (h.others _ hne).symm.trans (Table.find?_of_mem htx)
  simp [howner]

/-- Whatever a transaction has to do next, it can do. -/
theorem RunsSolo.exists_step {thread : Nat} {history : History} {orders : List Ran → Stmt → Prop}
    {commits : History → List Ran → Prop} {op : Op} (h : RunsSolo thread history w)
    (howes : TxOwes orders commits [] history op) : ∃ choice reply w', choice.fail = none ∧
      w.step deps thread choice op = some (reply, w') := by
  have htracks := h.tracks
  cases op with
  | sql conn stmt =>
    cases conn with
    | pool => exact howes.elim
    | tx =>
      obtain ⟨calls, hwithin, -⟩ := howes
      rw [World.Tracks, hwithin.opened] at htracks
      obtain ⟨tx, hfind, -⟩ := Option.map_eq_some_iff.mp htracks
      let choice : Choice := { generated := nextId (w.view tx) }
      have hhealthy : choice.fail = none := rfl
      obtain ⟨reply, w', hstep⟩ := World.exists_txStep hfind hhealthy (fun _ => h.grants _)
        (freshSerial_of_nextId_le (Int.le_refl _) stmt)
      exact ⟨choice, reply, w', rfl, hstep⟩
  | begin =>
    cases howes
    have hnone := Option.map_eq_none_iff.mp htracks
    refine ⟨{}, .ok (), { w with txs := w.txs.put (.fresh thread w.now) }, rfl, ?_⟩
    simp only [World.step, World.beginStep, hnone, Option.isNone_none, if_true]
    rfl
  | commit | rollback | enqueue _ => exact ⟨{}, _, _, rfl, rfl⟩
  | generateFromPassword _ | newRandom | encrypt _ | randomString _ | sendEmail _ =>
    exact howes.elim

theorem RunsSolo.step {thread : Nat} {choice : Choice} {history : History} {op : Op}
    {reply : op.Reply} (h : RunsSolo thread history w)
    (hstep : w.step deps thread choice op = some (reply, v)) :
    RunsSolo thread (history ++ [⟨op, reply⟩]) v := by
  refine ⟨h.tracks.step hstep, fun other hne => ?_⟩
  have hsame := (World.stepped_of_step hstep).move.find?_of_ne hne
  exact hsame.trans (h.others other hne)

/-- On its own, a transfer never has to wait. -/
theorem exists_transferTx_ends (hidle : w.txs = .empty) (arg : TransferTxParams) :
    ∃ outcome w', Evaluates (Undisturbedly deps) (transferTx arg) w outcome w' := by
  have halways : (transferTx arg).Always (TransferOwes arg) Valid (TransferEnds arg) [] :=
    transferTx_always rfl fun _ _ h => h
  refine halways.exists_evaluates (RunsSolo 0) ?_ ⟨?_, ?_⟩
  · intro history op state howes hsolo
    obtain ⟨choice, reply, w', hhealthy, hstep⟩ : ∃ choice reply w', choice.fail = none ∧
        state.step deps 0 choice op = some (reply, w') := hsolo.exists_step howes
    exact ⟨reply, w', ⟨choice, hhealthy, hstep⟩, valid_of_step hstep, hsolo.step hstep⟩
  · simp [World.Tracks, hidle]
  · simp [hidle]

end Solo

section Amounts

variable {accounts : Table Int Account Account.id} {db db' : Database} {arg : TransferTxParams}

theorem exists_addsTo_iff {arg : AddAccountBalanceParams} : (∃ row, AddsTo accounts arg row) ↔
    ∃ account, accounts.find? arg.id = some account ∧
      -2 ^ 63 ≤ account.balance.toInt + arg.amount.toInt ∧
      account.balance.toInt + arg.amount.toInt ≤ 2 ^ 63 - 1 := by
  constructor
  · rintro ⟨row, account, hfind, hmoved⟩
    have hle := row.balance.le_toInt
    have hlt := row.balance.toInt_lt
    rw [hmoved.balance_eq] at hle hlt
    exact ⟨account, hfind, hle, by omega⟩
  · rintro ⟨account, hfind, hle, hlt⟩
    have hadd : addBigint account.balance arg.amount = .ok (account.balance + arg.amount) :=
      if_pos ⟨hle, by omega⟩
    exact ⟨{ account with balance := account.balance + arg.amount }, account, hfind,
      addBigint_eq_ok.mp hadd, rfl⟩

theorem canAdd_iff_of_ne {first second : AddAccountBalanceParams} (hne : first.id ≠ second.id) :
    CanAdd accounts first second ↔
      (∃ row, AddsTo accounts first row) ∧ ∃ row, AddsTo accounts second row := by
  have hsame : ∀ {row other}, AddsTo accounts first row →
      (AddsTo (accounts.put row) second other ↔ AddsTo accounts second other) := by
    intro row other hfirst
    rw [AddsTo, AddsTo, Table.find?_put_of_ne]
    rw [hfirst.id_eq]
    exact hne.symm
  constructor
  · rintro ⟨account1, account2, hfirst, hsecond⟩
    exact ⟨⟨account1, hfirst⟩, account2, (hsame hfirst).mp hsecond⟩
  · rintro ⟨⟨account1, hfirst⟩, account2, hsecond⟩
    exact ⟨account1, account2, hfirst, (hsame hfirst).mpr hsecond⟩

/-- Added to one account, the second amount meets the first. -/
theorem canAdd_iff_self {first second : AddAccountBalanceParams} (hid : first.id = second.id) :
    CanAdd accounts first second ↔ ∃ account, accounts.find? first.id = some account ∧
      (-2 ^ 63 ≤ account.balance.toInt + first.amount.toInt ∧
        account.balance.toInt + first.amount.toInt ≤ 2 ^ 63 - 1) ∧
      -2 ^ 63 ≤ account.balance.toInt + first.amount.toInt + second.amount.toInt ∧
      account.balance.toInt + first.amount.toInt + second.amount.toInt ≤ 2 ^ 63 - 1 := by
  have hput : ∀ {row}, AddsTo accounts first row →
      (accounts.put row).find? second.id = some row := by
    intro row hfirst
    rw [← hid]
    exact hfirst.find?_self
  constructor
  · rintro ⟨account1, account2, hfirst, hsecond⟩
    obtain ⟨account, hfind, hrange⟩ := exists_addsTo_iff.mp ⟨_, hfirst⟩
    obtain ⟨middle, hmiddle, hrange'⟩ := exists_addsTo_iff.mp ⟨_, hsecond⟩
    cases (hput hfirst).symm.trans hmiddle
    obtain ⟨old, hold, hmoved⟩ := hfirst
    cases hfind.symm.trans hold
    rw [hmoved.balance_eq] at hrange'
    exact ⟨account, hfind, hrange, hrange'⟩
  · rintro ⟨account, hfind, hrange, hrange'⟩
    obtain ⟨account1, hfirst⟩ := exists_addsTo_iff.mpr ⟨account, hfind, hrange⟩
    have hmiddle := hput hfirst
    obtain ⟨old, hold, hmoved⟩ := id hfirst
    cases hfind.symm.trans hold
    rw [← hmoved.balance_eq] at hrange'
    obtain ⟨account2, hsecond⟩ := exists_addsTo_iff.mpr ⟨account1, hmiddle, hrange'⟩
    exact ⟨account1, account2, hfirst, hsecond⟩

/-- When a transfer of a positive amount goes through. -/
def Affordable (db : Database) (arg : TransferTxParams) : Prop :=
  ∃ fromAccount toAccount, db.accounts.find? arg.fromAccountID = some fromAccount ∧
    db.accounts.find? arg.toAccountID = some toAccount ∧
    if arg.fromAccountID = arg.toAccountID then
      toAccount.balance.toInt + arg.amount.toInt ≤ 2 ^ 63 - 1
    else -2 ^ 63 ≤ fromAccount.balance.toInt - arg.amount.toInt ∧
      toAccount.balance.toInt + arg.amount.toInt ≤ 2 ^ 63 - 1

theorem feasible_iff (hpos : 0 < arg.amount) : Feasible db arg ↔ Affordable db arg := by
  have hpositive : 0 < arg.amount.toInt := Int64.lt_iff_toInt_lt.mp hpos
  have hneg : (-arg.amount).toInt = -arg.amount.toInt := toInt_neg_of_ne (by omega)
  unfold Feasible Affordable
  by_cases heq : arg.fromAccountID = arg.toAccountID
  · rw [if_neg (by omega), canAdd_iff_self heq.symm]
    simp only [heq, if_true, hneg]
    constructor
    · rintro ⟨account, hfind, ⟨-, hle⟩, -⟩
      exact ⟨account, account, hfind, hfind, hle⟩
    · rintro ⟨_, account, -, hfind, hle⟩
      have hbalance := account.balance.le_toInt
      exact ⟨account, hfind, ⟨by omega, hle⟩, by omega, by omega⟩
  · have hboth : Feasible db arg ↔ (∃ row, AddsTo db.accounts ⟨-arg.amount, arg.fromAccountID⟩ row) ∧
        ∃ row, AddsTo db.accounts ⟨arg.amount, arg.toAccountID⟩ row := by
      unfold Feasible
      split
      · exact canAdd_iff_of_ne heq
      · exact (canAdd_iff_of_ne (Ne.symm heq)).trans and_comm
    rw [Feasible] at hboth
    rw [hboth, exists_addsTo_iff, exists_addsTo_iff]
    simp only [heq, if_false, hneg]
    constructor
    · rintro ⟨⟨fromAccount, hfrom, hle, -⟩, toAccount, hto, -, hle'⟩
      exact ⟨fromAccount, toAccount, hfrom, hto, by omega, hle'⟩
    · rintro ⟨fromAccount, toAccount, hfrom, hto, hle, hle'⟩
      have hbalance := toAccount.balance.le_toInt
      have hbalance' := fromAccount.balance.toInt_lt
      exact ⟨⟨fromAccount, hfrom, by omega, by omega⟩, toAccount, hto, by omega, hle'⟩

/-- The old tables with the rows of one transfer. -/
structure Transferred (db : Database) (arg : TransferTxParams) (db' : Database) : Prop where
  transfers : ∃ transfer : Transfer, db.transfers.find? transfer.id = none ∧
    transfer.fromAccountID = arg.fromAccountID ∧ transfer.toAccountID = arg.toAccountID ∧
    transfer.amount = arg.amount ∧ db'.transfers = db.transfers.put transfer
  entries : ∃ fromEntry toEntry : Entry, db.entries.find? fromEntry.id = none ∧
    (db.entries.put fromEntry).find? toEntry.id = none ∧
    fromEntry.accountID = arg.fromAccountID ∧ fromEntry.amount.toInt = -arg.amount.toInt ∧
    toEntry.accountID = arg.toAccountID ∧ toEntry.amount = arg.amount ∧
    db'.entries = (db.entries.put fromEntry).put toEntry
  balances : ∀ {id account}, db.accounts.find? id = some account →
    ∃ account', db'.accounts.find? id = some account' ∧
      account.Moved account' ((if id = arg.fromAccountID then -arg.amount.toInt else 0) +
        if id = arg.toAccountID then arg.amount.toInt else 0)
  noAccount : ∀ {id}, db.accounts.find? id = none → db'.accounts.find? id = none
  rest : db'.users = db.users ∧ db'.sessions = db.sessions ∧ db'.verifyEmails = db.verifyEmails

theorem TransferApplied.transferred {result : TransferTxResult} (h : TransferApplied db arg result db')
    (hneg : (-arg.amount).toInt = -arg.amount.toInt) : Transferred db arg db' where
  transfers := by
    refine ⟨result.transfer, h.freshTransfer, h.transfer.1, h.transfer.2.1, h.transfer.2.2, ?_⟩
    rw [h.database]
  entries := by
    refine ⟨result.fromEntry, result.toEntry, h.freshFromEntry, h.freshToEntry, h.fromEntry.1, ?_,
      h.toEntry.1, h.toEntry.2, ?_⟩
    · rw [h.fromEntry.2, hneg]
    · rw [h.database]
  balances hfind := by
    obtain ⟨account', hfind', hmoved⟩ := h.find? hfind
    rw [TransferTxParams.change, hneg] at hmoved
    exact ⟨account', hfind', hmoved⟩
  noAccount hfind := h.find?_none hfind
  rest := by
    rw [h.database]
    exact ⟨rfl, rfl, rfl⟩

theorem TransferApplied.feasible {result : TransferTxResult}
    (h : TransferApplied db arg result db') : Feasible db arg := by
  have hmoney := h.money
  unfold Feasible
  split at hmoney
  · rename_i hlt
    rw [if_pos hlt]
    exact ⟨_, _, hmoney⟩
  · rename_i hge
    rw [if_neg hge]
    exact ⟨_, _, hmoney⟩

/-- What a transfer returns is what is in the tables then. -/
structure Reports (db : Database) (arg : TransferTxParams) (result : TransferTxResult)
    (db' : Database) : Prop where
  fromAccount : db'.accounts.find? arg.fromAccountID = some result.fromAccount
  toAccount : db'.accounts.find? arg.toAccountID = some result.toAccount
  transfer : db.transfers.find? result.transfer.id = none ∧
    db'.transfers = db.transfers.put result.transfer
  entries : db.entries.find? result.fromEntry.id = none ∧
    (db.entries.put result.fromEntry).find? result.toEntry.id = none ∧
    db'.entries = (db.entries.put result.fromEntry).put result.toEntry

theorem AddsMoney.find?_second {first second : AddAccountBalanceParams}
    {account1 account2 : Account} (h : AddsMoney accounts first second account1 account2) :
    ((accounts.put account1).put account2).find? second.id = some account2 :=
  h.2.find?_self

theorem AddsMoney.find?_first {first second : AddAccountBalanceParams}
    {account1 account2 : Account} (h : AddsMoney accounts first second account1 account2)
    (hne : first.id ≠ second.id) :
    ((accounts.put account1).put account2).find? first.id = some account1 := by
  rw [Table.find?_put_of_ne _ _ (by rw [h.2.id_eq]; exact hne)]
  exact h.1.find?_self

/-- Each account it returns is the row as its own update left it. -/
theorem TransferApplied.reports_iff {result : TransferTxResult}
    (h : TransferApplied db arg result db') (hpos : 0 < arg.amount) :
    Reports db arg result db' ↔ arg.fromAccountID ≠ arg.toAccountID := by
  have hmoney := h.money
  have hrows : db'.transfers = db.transfers.put result.transfer ∧
      db'.entries = (db.entries.put result.fromEntry).put result.toEntry := by
    rw [h.database]
    exact ⟨rfl, rfl⟩
  have haccounts : db'.accounts = if arg.fromAccountID < arg.toAccountID then
      (db.accounts.put result.fromAccount).put result.toAccount
    else (db.accounts.put result.toAccount).put result.fromAccount := by
    rw [h.database]
  constructor
  · rintro ⟨hfrom, hto, -, -⟩ heq
    have hge : ¬arg.fromAccountID < arg.toAccountID := by omega
    rw [if_neg hge] at hmoney
    rw [← heq] at hto
    -- `toAccount` is the row before the amount was taken off again.
    obtain ⟨hadded, middle, hmiddle, hmoved⟩ := hmoney
    have hput : (db.accounts.put result.toAccount).find? arg.fromAccountID =
        some result.toAccount := by
      rw [heq]
      exact hadded.find?_self
    cases hput.symm.trans hmiddle
    have hsame := Option.some.inj (hfrom.symm.trans hto)
    have hpositive : 0 < arg.amount.toInt := Int64.lt_iff_toInt_lt.mp hpos
    have hbalance := hmoved.balance_eq
    rw [hsame, toInt_neg_of_ne (by omega)] at hbalance
    omega
  · intro hne
    refine ⟨?_, ?_, ⟨h.freshTransfer, hrows.1⟩, h.freshFromEntry, h.freshToEntry, hrows.2⟩
    · rw [haccounts]
      split at hmoney
      · rename_i hlt
        rw [if_pos hlt]
        exact hmoney.find?_first hne
      · rename_i hge
        rw [if_neg hge]
        exact hmoney.find?_second
    · rw [haccounts]
      split at hmoney
      · rename_i hlt
        rw [if_pos hlt]
        exact hmoney.find?_second
      · rename_i hge
        rw [if_neg hge]
        exact hmoney.find?_first hne.symm

/-- The balances of all accounts. -/
def Db.Database.total (db : Database) : Int := db.accounts.sum fun account => account.balance.toInt

structure Conserves (db : Database) (result : TransferTxResult) (db' : Database) : Prop where
  total_eq : db'.total = db.total
  entries_eq : result.fromEntry.amount.toInt + result.toEntry.amount.toInt = 0

theorem AddsTo.total {arg : AddAccountBalanceParams} {row : Account} (h : AddsTo accounts arg row) :
    ((accounts.put row).sum fun account => account.balance.toInt) =
      (accounts.sum fun account => account.balance.toInt) + arg.amount.toInt := by
  have hid := h.id_eq
  obtain ⟨account, hfind, hmoved⟩ := h
  rw [Table.sum_put _ (hid ▸ hfind), hmoved.balance_eq]
  omega

theorem TransferApplied.total {result : TransferTxResult} (h : TransferApplied db arg result db') :
    db'.total = db.total + ((-arg.amount).toInt + arg.amount.toInt) := by
  have hmoney := h.money
  rw [h.database, Database.total, Database.total]
  dsimp only
  split at hmoney
  · rename_i hlt
    rw [if_pos hlt, hmoney.2.total, hmoney.1.total, Int.add_assoc]
  · rename_i hge
    rw [if_neg hge, hmoney.2.total, hmoney.1.total, Int.add_assoc, Int.add_comm arg.amount.toInt]

theorem TransferApplied.conserves_iff {result : TransferTxResult}
    (h : TransferApplied db arg result db') :
    Conserves db result db' ↔ arg.amount.toInt ≠ -2 ^ 63 := by
  have htotal := h.total
  constructor
  · rintro ⟨hsame, -⟩ hmin
    have hneg : (-arg.amount).toInt = -2 ^ 63 := by
      rw [Int64.toInt_neg, hmin]
      rfl
    rw [hneg, hmin] at htotal
    omega
  · intro hmin
    have hneg := toInt_neg_of_ne hmin
    refine ⟨by omega, ?_⟩
    rw [h.fromEntry.2, h.toEntry.2, hneg]
    omega

end Amounts

section Exact

variable {deps : Deps} {w w' : World} {arg : TransferTxParams} {result : TransferTxResult}

/-- On its own, a transfer of a positive amount comes to an end, commits exactly
if both accounts can take it, and books it or leaves no trace. -/
theorem transferTx_exact (hidle : w.txs = .empty) (hpos : 0 < arg.amount) :
    (∃ outcome w', Evaluates (Undisturbedly deps) (transferTx arg) w outcome w') ∧
    ∀ outcome w', Evaluates (Undisturbedly deps) (transferTx arg) w outcome w' →
      (outcome.isOk = true ↔ Affordable w.db arg) ∧
      (outcome.isOk = true → ∃ db, w' = { w with db := db } ∧ Transferred w.db arg db) ∧
      (outcome.isOk = false → w' = w) := by
  refine ⟨exists_transferTx_ends hidle arg, fun outcome w' h => ?_⟩
  rw [← feasible_iff hpos]
  have hpositive : 0 < arg.amount.toInt := Int64.lt_iff_toInt_lt.mp hpos
  rcases transferTx_ends hidle h with ⟨result, db, rfl, rfl, happlied⟩ | ⟨err, rfl, rfl, hfails⟩
  · refine ⟨iff_of_true rfl happlied.feasible, fun _ => ⟨db, rfl, ?_⟩, ?_⟩
    · exact happlied.transferred (toInt_neg_of_ne (by omega))
    · intro hfalse
      cases hfalse
  · refine ⟨iff_of_false Bool.false_ne_true hfails, ?_, fun _ => rfl⟩
    intro htrue
    cases htrue

theorem transferTx_exact_sample :
    ∃ outcome w', Evaluates (Undisturbedly Sample.deps) (transferTx ⟨1, 2, 10⟩) Sample.funded
      outcome w' :=
  (transferTx_exact rfl (by decide)).1

theorem exists_transferTx_ok (hidle : w.txs = .empty) (hfeasible : Feasible w.db arg) :
    ∃ result w', Evaluates (Undisturbedly deps) (transferTx arg) w (.ok result) w' ∧
      TransferApplied w.db arg result w'.db := by
  obtain ⟨outcome, w', hrun⟩ : ∃ outcome w', Evaluates (Undisturbedly deps) (transferTx arg) w
      outcome w' := exists_transferTx_ends hidle arg
  rcases transferTx_ends hidle hrun with ⟨result, db, rfl, rfl, happlied⟩ | ⟨err, rfl, rfl, hfails⟩
  · exact ⟨result, _, hrun, happlied⟩
  · exact absurd hfeasible hfails

theorem Sample.feasible_payment : Feasible Sample.funded.db ⟨1, 2, 10⟩ :=
  (feasible_iff (by decide)).mpr ⟨⟨1, "alice", 100, "USD", 0⟩, ⟨2, "bob", 100, "USD", 0⟩, rfl, rfl,
    by decide⟩

theorem Sample.feasible_self : Feasible Sample.funded.db ⟨1, 1, 10⟩ :=
  (feasible_iff (by decide)).mpr ⟨⟨1, "alice", 100, "USD", 0⟩, ⟨1, "alice", 100, "USD", 0⟩, rfl, rfl,
    by decide⟩

theorem Sample.feasible_least : Feasible Sample.funded.db ⟨1, 2, Int64.minValue⟩ :=
  (canAdd_iff_of_ne (by decide)).mpr
    ⟨exists_addsTo_iff.mpr ⟨⟨1, "alice", 100, "USD", 0⟩, rfl, by decide⟩,
      exists_addsTo_iff.mpr ⟨⟨2, "bob", 100, "USD", 0⟩, rfl, by decide⟩⟩

/-- A committed transfer returns the rows it leaves, unless it was to the
account it came from. -/
theorem transferTx_reports_iff (hidle : w.txs = .empty) (hpos : 0 < arg.amount)
    (h : Evaluates (Undisturbedly deps) (transferTx arg) w (.ok result) w') :
    Reports w.db arg result w'.db ↔ arg.fromAccountID ≠ arg.toAccountID := by
  rcases transferTx_ends hidle h with ⟨_, db, ⟨⟩, rfl, happlied⟩ | ⟨err, ⟨⟩, -⟩
  exact happlied.reports_iff hpos

theorem transferTx_misreports :
    ∃ result w', Evaluates (Undisturbedly Sample.deps) (transferTx ⟨1, 1, 10⟩) Sample.funded
      (.ok result) w' ∧ ¬Reports Sample.funded.db ⟨1, 1, 10⟩ result w'.db := by
  obtain ⟨result, w', hrun, happlied⟩ := exists_transferTx_ok rfl Sample.feasible_self
  exact ⟨result, w', hrun, fun h => (happlied.reports_iff (by decide)).mp h rfl⟩

theorem transferTx_reports_iff_sample :
    ∃ result w', Evaluates (Undisturbedly Sample.deps) (transferTx ⟨1, 2, 10⟩) Sample.funded
      (.ok result) w' ∧ (Reports Sample.funded.db ⟨1, 2, 10⟩ result w'.db ↔ (1 : Int) ≠ 2) := by
  obtain ⟨result, w', hrun, -⟩ := exists_transferTx_ok rfl Sample.feasible_payment
  exact ⟨result, w', hrun, transferTx_reports_iff rfl (by decide) hrun⟩

/-- A committed transfer conserves the money, unless its amount is the one that
negation leaves as it is. -/
theorem transferTx_conserves_iff (hidle : w.txs = .empty)
    (h : Evaluates (Undisturbedly deps) (transferTx arg) w (.ok result) w') :
    Conserves w.db result w'.db ↔ arg.amount.toInt ≠ -2 ^ 63 := by
  rcases transferTx_ends hidle h with ⟨_, db, ⟨⟩, rfl, happlied⟩ | ⟨err, ⟨⟩, -⟩
  exact happlied.conserves_iff

theorem transferTx_loses_money :
    ∃ result w', Evaluates (Undisturbedly Sample.deps) (transferTx ⟨1, 2, Int64.minValue⟩)
      Sample.funded (.ok result) w' ∧ ¬Conserves Sample.funded.db result w'.db := by
  obtain ⟨result, w', hrun, happlied⟩ := exists_transferTx_ok rfl Sample.feasible_least
  exact ⟨result, w', hrun, fun h => happlied.conserves_iff.mp h rfl⟩

theorem transferTx_conserves_iff_sample :
    ∃ result w', Evaluates (Undisturbedly Sample.deps) (transferTx ⟨1, 2, 10⟩) Sample.funded
      (.ok result) w' ∧ (Conserves Sample.funded.db result w'.db ↔
        (10 : Int64).toInt ≠ -2 ^ 63) := by
  obtain ⟨result, w', hrun, -⟩ := exists_transferTx_ok rfl Sample.feasible_payment
  exact ⟨result, w', hrun, transferTx_conserves_iff rfl hrun⟩

end Exact
end SimpleBank
