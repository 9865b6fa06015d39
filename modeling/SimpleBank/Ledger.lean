import SimpleBank.Transactions

/-! What the five statements of a transfer do to the tables when they are
executed one after another. -/
namespace SimpleBank
open Library Db

/-- The balance of an account, if it is one of this currency. -/
def Db.Account.holding (currency : String) (account : Account) : Int :=
  if account.currency = currency then account.balance.toInt else 0

/-- The amount of an entry, if it is one of this account. -/
def Db.Entry.share (accountID : Int) (entry : Entry) : Int :=
  if entry.accountID = accountID then entry.amount.toInt else 0

/-- Negation wraps around for the least amount only. -/
theorem toInt_neg_of_ne {amount : Int64} (h : amount.toInt ≠ -2 ^ 63) :
    (-amount).toInt = -amount.toInt := by
  have hle := amount.le_toInt
  have hlt := amount.toInt_lt
  rw [Int64.toInt_neg, Int.bmod_eq_of_le (by omega) (by omega)]

/-- What a transfer adds to the balance of an account and to its entries. -/
def Db.TransferTxParams.change (arg : TransferTxParams) (accountID : Int) : Int :=
  (if accountID = arg.fromAccountID then (-arg.amount).toInt else 0) +
    (if accountID = arg.toAccountID then arg.amount.toInt else 0)

/-- `account'` is `account` with `amount` added to its balance. -/
structure Db.Account.Moved (account account' : Account) (amount : Int) : Prop where
  balance_eq : account'.balance.toInt = account.balance.toInt + amount
  rest_eq : account' = { account with balance := account'.balance }

theorem Db.Account.Moved.refl (account : Account) : account.Moved account 0 := ⟨by omega, rfl⟩

theorem Db.Account.Moved.trans {a b c : Account} {x y : Int} (hab : a.Moved b x)
    (hbc : b.Moved c y) : a.Moved c (x + y) := by
  refine ⟨?_, ?_⟩
  · rw [hbc.balance_eq, hab.balance_eq, Int.add_assoc]
  · rw [hbc.rest_eq, hab.rest_eq]

theorem Db.Account.Moved.currency_eq {account account' : Account} {amount : Int}
    (h : account.Moved account' amount) : account'.currency = account.currency := by
  rw [h.rest_eq]

/-- `row` is the account `arg.id` with `arg.amount` added to its balance. -/
def AddsTo (accounts : Table Int Account Account.id) (arg : AddAccountBalanceParams)
    (row : Account) : Prop :=
  ∃ account, accounts.find? arg.id = some account ∧ account.Moved row arg.amount.toInt

namespace AddsTo

variable {accounts : Table Int Account Account.id} {arg : AddAccountBalanceParams} {row : Account}

theorem id_eq (h : AddsTo accounts arg row) : row.id = arg.id := by
  obtain ⟨account, hfind, hmoved⟩ := h
  rw [hmoved.rest_eq]
  exact (Table.find?_mem hfind).2

theorem find?_self (h : AddsTo accounts arg row) : (accounts.put row).find? arg.id = some row := by
  rw [← h.id_eq]
  exact Table.find?_put_self _ _

/-- An account after some money has been added to the account `arg.id`. -/
theorem find? (h : AddsTo accounts arg row) {id : Int} {account : Account}
    (hfind : accounts.find? id = some account) :
    ∃ account', (accounts.put row).find? id = some account' ∧
      account.Moved account' (if id = arg.id then arg.amount.toInt else 0) := by
  have hid := h.id_eq
  obtain ⟨old, hold, hmoved⟩ := h
  rw [Table.find?_put, hid]
  split
  · rename_i heq
    subst heq
    cases hold.symm.trans hfind
    exact ⟨row, rfl, hmoved⟩
  · exact ⟨account, hfind, .refl account⟩

theorem find?_none (h : AddsTo accounts arg row) {id : Int} (hfind : accounts.find? id = none) :
    (accounts.put row).find? id = none := by
  rw [Table.find?_put, h.id_eq]
  split
  · rename_i heq
    subst heq
    obtain ⟨old, hold, -⟩ := h
    rw [hfind] at hold
    cases hold
  · exact hfind

theorem holding (h : AddsTo accounts arg row) (currency : String) :
    ∃ account, accounts.find? arg.id = some account ∧
      (accounts.put row).sum (Account.holding currency) =
        accounts.sum (Account.holding currency) +
          (if account.currency = currency then arg.amount.toInt else 0) := by
  have hid := h.id_eq
  obtain ⟨account, hfind, hmoved⟩ := h
  refine ⟨account, hfind, ?_⟩
  rw [Table.sum_put _ (hid ▸ hfind), Account.holding, Account.holding, hmoved.currency_eq,
    hmoved.balance_eq]
  split <;> omega

end AddsTo

/-- Two additions in the order in which `addMoney` makes them. -/
def AddsMoney (accounts : Table Int Account Account.id) (first second : AddAccountBalanceParams)
    (account1 account2 : Account) : Prop :=
  AddsTo accounts first account1 ∧ AddsTo (accounts.put account1) second account2

namespace AddsMoney

variable {accounts : Table Int Account Account.id} {first second : AddAccountBalanceParams}
  {account1 account2 : Account}

theorem find? (h : AddsMoney accounts first second account1 account2) {id : Int}
    {account : Account} (hfind : accounts.find? id = some account) :
    ∃ account', ((accounts.put account1).put account2).find? id = some account' ∧
      account.Moved account' ((if id = first.id then first.amount.toInt else 0) +
        (if id = second.id then second.amount.toInt else 0)) := by
  obtain ⟨middle, hmiddle, hfirst⟩ := h.1.find? hfind
  obtain ⟨last, hlast, hsecond⟩ := h.2.find? hmiddle
  exact ⟨last, hlast, hfirst.trans hsecond⟩

theorem find?_none (h : AddsMoney accounts first second account1 account2) {id : Int}
    (hfind : accounts.find? id = none) :
    ((accounts.put account1).put account2).find? id = none :=
  h.2.find?_none (h.1.find?_none hfind)

theorem holding (h : AddsMoney accounts first second account1 account2) (currency : String) :
    ∃ old1 old2, accounts.find? first.id = some old1 ∧ accounts.find? second.id = some old2 ∧
      ((accounts.put account1).put account2).sum (Account.holding currency) =
        accounts.sum (Account.holding currency) +
          ((if old1.currency = currency then first.amount.toInt else 0) +
            (if old2.currency = currency then second.amount.toInt else 0)) := by
  obtain ⟨old1, hold1, hsum1⟩ := h.1.holding currency
  obtain ⟨middle, hmiddle, hsum2⟩ := h.2.holding currency
  cases hold2 : accounts.find? second.id with
  | none => cases (h.1.find?_none hold2).symm.trans hmiddle
  | some old2 =>
    obtain ⟨middle', hmiddle', hmoved⟩ := h.1.find? hold2
    cases hmiddle.symm.trans hmiddle'
    refine ⟨old1, old2, hold1, rfl, ?_⟩
    rw [hsum2, hsum1, hmoved.currency_eq, Int.add_assoc]

end AddsMoney

/-- `TransferTx arg` on `db` returns `result` and leaves `db'`. -/
structure TransferApplied (db : Database) (arg : TransferTxParams) (result : TransferTxResult)
    (db' : Database) : Prop where
  transfer : result.transfer.fromAccountID = arg.fromAccountID ∧
    result.transfer.toAccountID = arg.toAccountID ∧ result.transfer.amount = arg.amount
  fromEntry : result.fromEntry.accountID = arg.fromAccountID ∧ result.fromEntry.amount = -arg.amount
  toEntry : result.toEntry.accountID = arg.toAccountID ∧ result.toEntry.amount = arg.amount
  freshTransfer : db.transfers.find? result.transfer.id = none
  freshFromEntry : db.entries.find? result.fromEntry.id = none
  freshToEntry : (db.entries.put result.fromEntry).find? result.toEntry.id = none
  money : if arg.fromAccountID < arg.toAccountID then
      AddsMoney db.accounts ⟨-arg.amount, arg.fromAccountID⟩ ⟨arg.amount, arg.toAccountID⟩
        result.fromAccount result.toAccount
    else
      AddsMoney db.accounts ⟨arg.amount, arg.toAccountID⟩ ⟨-arg.amount, arg.fromAccountID⟩
        result.toAccount result.fromAccount
  database : db' = { db with
    transfers := db.transfers.put result.transfer
    entries := (db.entries.put result.fromEntry).put result.toEntry
    accounts := if arg.fromAccountID < arg.toAccountID then
        (db.accounts.put result.fromAccount).put result.toAccount
      else (db.accounts.put result.toAccount).put result.fromAccount }

namespace TransferApplied

variable {db db' : Database} {arg : TransferTxParams} {result : TransferTxResult}

/-- Whichever account is updated first, each gets its share. -/
theorem find? (h : TransferApplied db arg result db') {id : Int} {account : Account}
    (hfind : db.accounts.find? id = some account) :
    ∃ account', db'.accounts.find? id = some account' ∧ account.Moved account' (arg.change id) := by
  have hmoney := h.money
  rw [h.database]
  dsimp only
  split at hmoney
  · rename_i hlt
    rw [if_pos hlt]
    exact hmoney.find? hfind
  · rename_i hge
    rw [if_neg hge]
    obtain ⟨account', hfind', hmoved⟩ := hmoney.find? hfind
    exact ⟨account', hfind', by rw [TransferTxParams.change, Int.add_comm]; exact hmoved⟩

theorem find?_none (h : TransferApplied db arg result db') {id : Int}
    (hfind : db.accounts.find? id = none) : db'.accounts.find? id = none := by
  have hmoney := h.money
  rw [h.database]
  dsimp only
  split at hmoney
  · rename_i hlt
    rw [if_pos hlt]
    exact hmoney.find?_none hfind
  · rename_i hge
    rw [if_neg hge]
    exact hmoney.find?_none hfind

theorem holding (h : TransferApplied db arg result db') (currency : String) :
    ∃ fromAccount toAccount, db.accounts.find? arg.fromAccountID = some fromAccount ∧
      db.accounts.find? arg.toAccountID = some toAccount ∧
      db'.accounts.sum (Account.holding currency) = db.accounts.sum (Account.holding currency) +
        ((if fromAccount.currency = currency then (-arg.amount).toInt else 0) +
          (if toAccount.currency = currency then arg.amount.toInt else 0)) := by
  have hmoney := h.money
  rw [h.database]
  dsimp only
  split at hmoney
  · rename_i hlt
    rw [if_pos hlt]
    exact hmoney.holding currency
  · rename_i hge
    rw [if_neg hge]
    obtain ⟨toAccount, fromAccount, hto, hfrom, hsum⟩ := hmoney.holding currency
    exact ⟨fromAccount, toAccount, hfrom, hto, by rw [hsum, Int.add_comm (ite _ _ _)]⟩

theorem share (h : TransferApplied db arg result db') (accountID : Int) :
    db'.entries.sum (Entry.share accountID) =
      db.entries.sum (Entry.share accountID) + arg.change accountID := by
  rw [h.database]
  dsimp only
  rw [Table.sum_put_fresh _ h.freshToEntry, Table.sum_put_fresh _ h.freshFromEntry]
  simp only [Entry.share, h.fromEntry, h.toEntry, TransferTxParams.change,
    @eq_comm _ _ accountID, Int.add_assoc]

end TransferApplied

theorem addsTo_of_yields {generated : Int} {now : Time} {db : Database}
    {arg : AddAccountBalanceParams} {row : Account}
    (h : (Stmt.addAccountBalance arg).Yields generated now db row) : AddsTo db.accounts arg row := by
  obtain ⟨account, haccount, hbalance, hrow⟩ := h
  exact ⟨account, Database.lookup_account.mp haccount, hbalance, hrow⟩

/-- Replaying a list of calls, the first of which is known. -/
theorem replays_cons_ran {db : Database} {calls : List Execution} {stmt : Stmt}
    {row : stmt.Result} {rest : List Ran} {now : Time} (h : Statements.Replays db calls)
    (hran : calls.map Execution.ran = ⟨stmt, .ok row⟩ :: rest)
    (hnow : ∀ call ∈ calls, call.now = now) :
    ∃ generated later, stmt.Yields generated now db row ∧ later.map Execution.ran = rest ∧
      (∀ call ∈ later, call.now = now) ∧
      Statements.Replays (Store.write db (stmt.written row)) later ∧
      Store.write db (Statements.writtenBy Database calls) =
        Store.write (Store.write db (stmt.written row)) (Statements.writtenBy Database later) := by
  cases calls with
  | nil => cases hran
  | cons call calls =>
    obtain ⟨hcall, hrest⟩ := List.cons.inj hran
    have hrows : call.rows = stmt.written row := Execution.rows_of_ran hcall
    refine ⟨call.generated, calls, ?_, hrest,
      fun other hmem => hnow other (List.mem_cons_of_mem _ hmem), ?_, ?_⟩
    · rw [← hnow call List.mem_cons_self]
      exact Execution.yields h.1 hcall
    · rw [← hrows]
      exact h.2
    · rw [Statements.writtenBy_cons, Store.write_append, ← hrows]
      rfl

theorem replays_nil_ran {db : Database} {calls : List Execution}
    (hran : calls.map Execution.ran = []) :
    Store.write db (Statements.writtenBy Database calls) = db := by
  rw [List.map_eq_nil_iff.mp hran]
  rfl

theorem transferApplied_of_replays {db : Database} {calls : List Execution}
    {arg : TransferTxParams} {result : TransferTxResult} {now : Time}
    (h : Statements.Replays db calls) (hran : calls.map Execution.ran = transferCalls arg result)
    (hnow : ∀ call ∈ calls, call.now = now) :
    TransferApplied db arg result (Store.write db (Statements.writtenBy Database calls)) := by
  obtain ⟨_, calls, htransfer, hran, hnow, h, hdb⟩ := replays_cons_ran h hran hnow
  rw [hdb]
  obtain ⟨_, calls, hfrom, hran, hnow, h, hdb⟩ := replays_cons_ran h hran hnow
  rw [hdb]
  obtain ⟨_, calls, hto, hran, hnow, h, hdb⟩ := replays_cons_ran h hran hnow
  rw [hdb]
  obtain ⟨⟨-, hfreshTransfer⟩, -, -, htransfer⟩ := htransfer
  obtain ⟨⟨-, hfreshFrom⟩, -, hfrom⟩ := hfrom
  obtain ⟨⟨-, hfreshTo⟩, -, hto⟩ := hto
  have hfields : result.transfer.fromAccountID = arg.fromAccountID ∧
      result.transfer.toAccountID = arg.toAccountID ∧ result.transfer.amount = arg.amount := by
    rw [htransfer]
    exact ⟨rfl, rfl, rfl⟩
  have hfromFields : result.fromEntry.accountID = arg.fromAccountID ∧
      result.fromEntry.amount = -arg.amount := by
    rw [hfrom]
    exact ⟨rfl, rfl⟩
  have htoFields : result.toEntry.accountID = arg.toAccountID ∧
      result.toEntry.amount = arg.amount := by
    rw [hto]
    exact ⟨rfl, rfl⟩
  have hfreshTransfer' : db.transfers.find? result.transfer.id = none := by
    rw [htransfer]
    exact Option.map_eq_none_iff.mp hfreshTransfer
  have hfreshFrom' : db.entries.find? result.fromEntry.id = none := by
    rw [hfrom]
    exact Option.map_eq_none_iff.mp hfreshFrom
  have hfreshTo' : (db.entries.put result.fromEntry).find? result.toEntry.id = none := by
    rw [show result.toEntry.id = _ from congrArg Entry.id hto]
    exact Option.map_eq_none_iff.mp hfreshTo
  by_cases hlt : arg.fromAccountID < arg.toAccountID
  · simp only [moneyCalls, if_pos hlt] at hran
    obtain ⟨_, calls, hfirst, hran, hnow, h, hdb⟩ := replays_cons_ran h hran hnow
    rw [hdb]
    obtain ⟨_, calls, hsecond, hran, -, -, hdb⟩ := replays_cons_ran h hran hnow
    rw [hdb, replays_nil_ran hran]
    refine ⟨hfields, hfromFields, htoFields, hfreshTransfer', hfreshFrom', hfreshTo', ?_, ?_⟩
    · rw [if_pos hlt]
      have hfirst := addsTo_of_yields hfirst
      have hsecond := addsTo_of_yields hsecond
      exact ⟨hfirst, hsecond⟩
    · rw [if_pos hlt]
      rfl
  · simp only [moneyCalls, if_neg hlt] at hran
    obtain ⟨_, calls, hfirst, hran, hnow, h, hdb⟩ := replays_cons_ran h hran hnow
    rw [hdb]
    obtain ⟨_, calls, hsecond, hran, -, -, hdb⟩ := replays_cons_ran h hran hnow
    rw [hdb, replays_nil_ran hran]
    refine ⟨hfields, hfromFields, htoFields, hfreshTransfer', hfreshFrom', hfreshTo', ?_, ?_⟩
    · rw [if_neg hlt]
      have hfirst := addsTo_of_yields hfirst
      have hsecond := addsTo_of_yields hsecond
      exact ⟨hfirst, hsecond⟩
    · rw [if_neg hlt]
      rfl

end SimpleBank
