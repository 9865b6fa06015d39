import SimpleBank.Ledger
import SimpleBank.Runs

/-! Concurrent calls of `TransferTx` against running the committed ones alone,
one after another, in the order in which they committed. -/
namespace SimpleBank
open Library Db Program

abbrev TransferConfig := Config Op Op.Reply World TransferTxParams (Except Err TransferTxResult)

/-- Any calls of `TransferTx`, arriving at any time. -/
abbrev transfers (deps : Deps) :
    System Op Op.Reply World TransferTxParams Choice External (Except Err TransferTxResult) :=
  World.system deps (fun _ _ => true) transferTx

def TransferOwes (arg : TransferTxParams) : History → Op → Prop :=
  TxOwes Ascending (fun _ calls => ∃ result, calls = transferCalls arg result) []

def TransferEnds (arg : TransferTxParams) : History → Except Err TransferTxResult → Prop :=
  TxPost (fun result _ calls => calls = transferCalls arg result) []

theorem transfers_verified (deps : Deps) :
    (transfers deps).Verified TransferOwes Valid TransferEnds :=
  ⟨fun _ => transferTx_always rfl fun _ _ h => h, valid_of_step⟩

/-- A sequence value that no row uses. -/
def nextId (db : Database) : Int :=
  (db.accounts.rows.map Account.id ++ db.entries.rows.map Entry.id ++
    db.transfers.rows.map Transfer.id ++ db.verifyEmails.rows.map VerifyEmail.id).foldr max 0 + 1

theorem le_foldr_max {values : List Int} {value : Int} (h : value ∈ values) :
    value ≤ values.foldr max 0 := by
  induction values with
  | nil => cases h
  | cons head tail ih =>
    rcases List.mem_cons.mp h with rfl | h
    · exact Int.le_max_left _ _
    · exact (ih h).trans (Int.le_max_right _ _)

theorem nextId_pos (db : Database) : 0 < nextId db := by
  have general : ∀ values : List Int, 0 ≤ values.foldr max 0 := by
    intro values
    induction values with
    | nil => exact Int.le_refl 0
    | cons head tail ih => exact ih.trans (Int.le_max_right _ _)
  have := general (db.accounts.rows.map Account.id ++ db.entries.rows.map Entry.id ++
    db.transfers.rows.map Transfer.id ++ db.verifyEmails.rows.map VerifyEmail.id)
  unfold nextId
  omega

theorem find?_of_nextId_le {ρ : Type} {key : ρ → Int} {table : Table Int ρ key} {db : Database}
    {generated : Int} (hle : nextId db ≤ generated) (h : ∀ row ∈ table.rows, key row < nextId db) :
    table.find? generated = none := by
  cases hfind : table.find? generated with
  | none => rfl
  | some row =>
    obtain ⟨hmem, hkey⟩ := Table.find?_mem hfind
    have := h row hmem
    omega

theorem freshSerial_of_nextId_le {db : Database} {generated : Int} (hle : nextId db ≤ generated)
    (stmt : Stmt) : stmt.freshSerial generated db = true := by
  have below : ∀ value, value ∈ db.accounts.rows.map Account.id ++ db.entries.rows.map Entry.id ++
      db.transfers.rows.map Transfer.id ++ db.verifyEmails.rows.map VerifyEmail.id →
      value < nextId db := fun value hmem => Int.lt_add_one_of_le (le_foldr_max hmem)
  rw [Stmt.freshSerial_iff]
  intro k hk
  refine ⟨(nextId_pos db).trans_le hle, ?_⟩
  cases stmt with
  | createAccount _ =>
    cases List.mem_singleton.mp hk
    exact Option.map_eq_none_iff.mpr (find?_of_nextId_le hle fun row hmem => below _ (by grind))
  | createEntry _ =>
    cases List.mem_singleton.mp hk
    exact Option.map_eq_none_iff.mpr (find?_of_nextId_le hle fun row hmem => below _ (by grind))
  | createTransfer _ =>
    cases List.mem_singleton.mp hk
    exact Option.map_eq_none_iff.mpr (find?_of_nextId_le hle fun row hmem => below _ (by grind))
  | createVerifyEmail _ =>
    cases List.mem_singleton.mp hk
    exact Option.map_eq_none_iff.mpr (find?_of_nextId_le hle fun row hmem => below _ (by grind))
  | _ => cases hk

theorem lookup_nextId (db : Database) (stmt : Stmt) {k : Key}
    (h : k ∈ stmt.serialKey (nextId db)) : db.lookup k = none :=
  (Stmt.freshSerial_iff.mp (freshSerial_of_nextId_le (Int.le_refl _) stmt) k h).2

/-- One call of a program that runs alone and meets no failure. -/
def alone (deps : Deps) (op : Op) (w : World) : Option (op.Reply × World) :=
  let db := match w.txs.find? 0 with
    | some tx => w.view tx
    | none => w.db
  w.step deps 0 { generated := nextId db } op

/-- The calls of `TransferTx` one after another, with their replies. -/
def sequentially (deps : Deps) : List TransferTxParams → World →
    Option (List (Except Err TransferTxResult) × World)
  | [], w => some ([], w)
  | arg :: args, w =>
    ((transferTx arg).runWith (alone deps) w).bind fun first =>
      (sequentially deps args first.2).map fun rest => (first.1 :: rest.1, rest.2)

theorem sequentially_append (deps : Deps) (args : List TransferTxParams) (arg : TransferTxParams)
    (w : World) : sequentially deps (args ++ [arg]) w =
      (sequentially deps args w).bind fun before =>
        ((transferTx arg).runWith (alone deps) before.2).map fun last =>
          (before.1 ++ [last.1], last.2) := by
  induction args generalizing w with
  | nil =>
    simp only [List.nil_append, sequentially, Option.bind_some]
    cases (transferTx arg).runWith (alone deps) w <;> rfl
  | cons first rest ih =>
    simp only [List.cons_append, sequentially, ih]
    cases (transferTx first).runWith (alone deps) w with
    | none => rfl
    | some result =>
      simp only [Option.bind_some]
      cases sequentially deps rest result.2 with
      | none => rfl
      | some before =>
        simp only [Option.bind_some, Option.map_some]
        cases (transferTx arg).runWith (alone deps) before.2 <;> rfl

section Alone

variable (deps : Deps) {w v : World} {db : Database}

/-- `w` with one transaction open, which has run `calls`. -/
def World.inTx (w : World) (calls : List Execution) : World :=
  { w with txs := Table.empty.put ⟨0, w.now, calls, false⟩ }

@[simp] theorem find?_inTx (w : World) (calls : List Execution) :
    (w.inTx calls).txs.find? 0 = some ⟨0, w.now, calls, false⟩ :=
  Table.find?_put_self _ (⟨0, w.now, calls, false⟩ : Tx Execution Time)

theorem grants_inTx (w : World) (calls : List Execution) (locks : List (Lock Key)) :
    (w.inTx calls).grants (some 0) locks = true := by
  simp [TxState.grants, World.inTx, Table.put, upsert, Table.empty]

theorem extendTx_inTx (w : World) (calls : List Execution) {call : Execution}
    (hok : aborts call.outcome = false) :
    (w.inTx calls).extendTx ⟨0, w.now, calls, false⟩ call = w.inTx (calls ++ [call]) := by
  simp only [World.extendTx, hok]
  rfl

/-- The only transaction of `w` is open in `v`, and sees `db`. -/
def Inside (w : World) (db : Database) (v : World) : Prop :=
  ∃ calls, v = w.inTx calls ∧ db = Store.write w.db (Statements.writtenBy Database calls)

theorem alone_begin (hidle : w.txs = .empty) :
    ∃ v, alone deps .begin w = some (.ok (), v) ∧ Inside w w.db v := by
  refine ⟨w.inTx [], ?_, [], rfl, rfl⟩
  simp only [alone, World.step, World.beginStep, hidle, Table.find?_empty, Option.isNone_none,
    if_true]
  rfl

theorem alone_query {stmt : Stmt} {row : stmt.Result} (hinside : Inside w db v)
    (heval : stmt.eval (nextId db) w.now db = .ok row) :
    ∃ v', alone deps (.sql .tx stmt) v = some (.ok row, v') ∧
      Inside w (Store.write db (stmt.written row)) v' := by
  obtain ⟨calls, rfl, hdb⟩ := hinside
  have hrows : (Execution.perform (nextId db) w.now db stmt).rows = stmt.written row :=
    congrArg stmt.effect heval
  have hok : aborts (Execution.perform (nextId db) w.now db stmt).outcome = false :=
    congrArg aborts heval
  have hview : (w.inTx calls).view ⟨0, w.now, calls, false⟩ = db := hdb.symm
  have halone : alone deps (.sql .tx stmt) (w.inTx calls) =
      (w.inTx calls).txStep 0 { generated := nextId db } stmt := by
    simp only [alone, find?_inTx, hview]
    rfl
  refine ⟨w.inTx (calls ++ [Execution.perform (nextId db) w.now db stmt]), ?_, _, rfl, ?_⟩
  · rw [halone, ← extendTx_inTx w calls hok]
    rw [← hview] at heval ⊢
    exact World.txStep_ok (find?_inTx w calls) rfl rfl heval (grants_inTx w calls _)
      (freshSerial_of_nextId_le (Int.le_refl _) stmt)
  · rw [Statements.writtenBy_append, Store.write_append, ← hdb]
    simp only [Statements.writtenBy_cons, Statements.writtenBy_nil, List.append_nil]
    exact congrArg _ hrows.symm

theorem alone_commit (hidle : w.txs = .empty) (hinside : Inside w db v) :
    alone deps .commit v = some (.ok (), { w with db := db }) := by
  obtain ⟨calls, rfl, rfl⟩ := hinside
  simp only [alone, World.step, World.commitStep, find?_inTx]
  rw [show (w.inTx calls).txs.erase 0 = w.txs by rw [hidle]; rfl]
  rfl

theorem addMoney_alone {accountID1 accountID2 : Int} {amount1 amount2 : Int64}
    {account1 account2 : Account} (hinside : Inside w db v)
    (hmoney : AddsMoney db.accounts ⟨amount1, accountID1⟩ ⟨amount2, accountID2⟩ account1 account2) :
    ∃ v', (addMoney accountID1 amount1 accountID2 amount2).runWith (alone deps) v =
        some (.ok (account1, account2), v') ∧
      Inside w { db with accounts := (db.accounts.put account1).put account2 } v' := by
  obtain ⟨⟨old1, hfind1, hmoved1⟩, old2, hfind2, hmoved2⟩ := hmoney
  obtain ⟨v1, hone, hinside⟩ := alone_query deps hinside
    (show Stmt.eval _ _ _ (Stmt.addAccountBalance ⟨amount1, accountID1⟩) = .ok account1 from
      evalAddAccountBalance_eq_ok.mpr ⟨old1, hfind1, hmoved1.balance_eq, hmoved1.rest_eq⟩)
  obtain ⟨v2, htwo, hinside⟩ := alone_query deps hinside
    (show Stmt.eval _ _ _ (Stmt.addAccountBalance ⟨amount2, accountID2⟩) = .ok account2 from
      evalAddAccountBalance_eq_ok.mpr ⟨old2, hfind2, hmoved2.balance_eq, hmoved2.rest_eq⟩)
  exact ⟨v2, (runWith_call hone).trans (runWith_call htwo), hinside⟩

theorem execTx_alone {α : Type} {fn : Act (Except Err α)} {value : α} (hidle : w.txs = .empty)
    (hfn : ∀ v, Inside w w.db v →
      ∃ v', fn.runWith (alone deps) v = some (.ok value, v') ∧ Inside w db v') :
    (execTx fn).runWith (alone deps) w = some (.ok value, { w with db := db }) := by
  obtain ⟨v, hbegin, hinside⟩ := alone_begin deps hidle
  obtain ⟨v', hrun, hinside⟩ := hfn v hinside
  refine (runWith_call hbegin).trans ?_
  change (fn >>= _).runWith (alone deps) v = _
  rw [Program.runWith_bind, hrun, Option.bind_some]
  exact (runWith_call (alone_commit deps hidle hinside)).trans rfl

/-- What a transfer has done once, it does again when it runs alone. -/
theorem transferTx_alone {arg : TransferTxParams} {fromAccount toAccount : Account}
    (hidle : w.txs = .empty) (hfrom : (w.db.accounts.find? arg.fromAccountID).isSome = true)
    (hto : (w.db.accounts.find? arg.toAccountID).isSome = true)
    (hmoney : if arg.fromAccountID < arg.toAccountID then
        AddsMoney w.db.accounts ⟨-arg.amount, arg.fromAccountID⟩ ⟨arg.amount, arg.toAccountID⟩
          fromAccount toAccount
      else
        AddsMoney w.db.accounts ⟨arg.amount, arg.toAccountID⟩ ⟨-arg.amount, arg.fromAccountID⟩
          toAccount fromAccount) :
    ∃ result w', (transferTx arg).runWith (alone deps) w = some (.ok result, w') ∧
      w'.txs = .empty ∧ result.fromAccount = fromAccount ∧ result.toAccount = toAccount ∧
      TransferApplied w.db arg result w'.db := by
  let transfer : Transfer :=
    ⟨nextId w.db, arg.fromAccountID, arg.toAccountID, arg.amount, w.now⟩
  let db1 : Database := w.db.put (.transfer transfer)
  let fromEntry : Entry := ⟨nextId db1, arg.fromAccountID, -arg.amount, w.now⟩
  let db2 : Database := db1.put (.entry fromEntry)
  let toEntry : Entry := ⟨nextId db2, arg.toAccountID, arg.amount, w.now⟩
  let db3 : Database := db2.put (.entry toEntry)
  let result : TransferTxResult := ⟨transfer, fromAccount, toAccount, fromEntry, toEntry⟩
  let db4 : Database := { db3 with
    accounts := if arg.fromAccountID < arg.toAccountID then
        (w.db.accounts.put fromAccount).put toAccount
      else (w.db.accounts.put toAccount).put fromAccount }
  refine ⟨result, { w with db := db4 }, execTx_alone deps hidle ?_, hidle, rfl, rfl, ?_⟩
  · intro v hinside
    obtain ⟨v1, hone, hinside⟩ := alone_query deps hinside
      (show Stmt.eval _ _ _ (.createTransfer ⟨arg.fromAccountID, arg.toAccountID, arg.amount⟩) =
        .ok transfer from evalCreateTransfer_eq_ok.mpr ⟨hfrom, hto, rfl⟩)
    obtain ⟨v2, htwo, hinside⟩ := alone_query deps hinside
      (show Stmt.eval _ _ _ (.createEntry ⟨arg.fromAccountID, -arg.amount⟩) = .ok fromEntry from
        evalCreateEntry_eq_ok.mpr ⟨hfrom, rfl⟩)
    obtain ⟨v3, hthree, hinside⟩ := alone_query deps hinside
      (show Stmt.eval _ _ _ (.createEntry ⟨arg.toAccountID, arg.amount⟩) = .ok toEntry from
        evalCreateEntry_eq_ok.mpr ⟨hto, rfl⟩)
    by_cases hlt : arg.fromAccountID < arg.toAccountID
    · rw [if_pos hlt] at hmoney
      obtain ⟨v4, hfour, hinside⟩ := addMoney_alone deps hinside hmoney
      refine ⟨v4, (runWith_call hone).trans ((runWith_call htwo).trans
        ((runWith_call hthree).trans ?_)), ?_⟩
      · dsimp only [Program.bind]
        rw [if_pos hlt]
        rw [Program.runWith_bind, hfour]
        rfl
      · simp only [db4, if_pos hlt]
        exact hinside
    · rw [if_neg hlt] at hmoney
      obtain ⟨v4, hfour, hinside⟩ := addMoney_alone deps hinside hmoney
      refine ⟨v4, (runWith_call hone).trans ((runWith_call htwo).trans
        ((runWith_call hthree).trans ?_)), ?_⟩
      · dsimp only [Program.bind]
        rw [if_neg hlt]
        rw [Program.runWith_bind, hfour]
        rfl
      · simp only [db4, if_neg hlt]
        exact hinside
  · exact
      { transfer := ⟨rfl, rfl, rfl⟩
        fromEntry := ⟨rfl, rfl⟩
        toEntry := ⟨rfl, rfl⟩
        freshTransfer := Option.map_eq_none_iff.mp
          (lookup_nextId _ (.createTransfer ⟨0, 0, 0⟩) List.mem_cons_self)
        freshFromEntry := Option.map_eq_none_iff.mp
          (lookup_nextId db1 (.createEntry ⟨0, 0⟩) List.mem_cons_self)
        freshToEntry := Option.map_eq_none_iff.mp
          (lookup_nextId db2 (.createEntry ⟨0, 0⟩) List.mem_cons_self)
        money := hmoney
        database := rfl }

end Alone

theorem transferCalls_rows_inj {arg : TransferTxParams} {left right : TransferTxResult}
    (h : (transferCalls arg left).flatMap Ran.rows = (transferCalls arg right).flatMap Ran.rows) :
    left = right := by
  obtain ⟨transfer, fromAccount, toAccount, fromEntry, toEntry⟩ := left
  obtain ⟨transfer', fromAccount', toAccount', fromEntry', toEntry'⟩ := right
  unfold transferCalls moneyCalls at h
  split at h
  · simp only [List.flatMap_cons, List.flatMap_nil, Ran.rows, Stmt.effect,
      Stmt.written, List.cons_append, List.nil_append, List.cons.injEq, Row.transfer.injEq,
      Row.entry.injEq, Row.account.injEq] at h
    obtain ⟨rfl, rfl, rfl, rfl, rfl, -⟩ := h
    rfl
  · simp only [List.flatMap_cons, List.flatMap_nil, Ran.rows, Stmt.effect,
      Stmt.written, List.cons_append, List.nil_append, List.cons.injEq, Row.transfer.injEq,
      Row.entry.injEq, Row.account.injEq] at h
    obtain ⟨rfl, rfl, rfl, rfl, rfl, -⟩ := h
    rfl

/-- After its commit a transfer makes no further call, and replies with what it
has committed. -/
theorem done_of_commit {arg : TransferTxParams} {history : History} {calls : List Ran}
    {result : TransferTxResult} {program : Act (Except Err TransferTxResult)}
    (hwithin : Within [] history calls) (hcalls : calls = transferCalls arg result)
    (h : program.Always (TransferOwes arg) Valid (TransferEnds arg)
      (history ++ [⟨.commit, .ok ()⟩])) : program = .done (.ok result) := by
  have hafter := hwithin.commit
  have hclosed : ∀ calls', ¬Within [] (history ++ [⟨.commit, .ok ()⟩]) calls' := fun _ hopen =>
    nomatch hopen.opened.symm.trans hafter.closed
  cases program with
  | call op next =>
    have howes := h.1
    cases op with
    | sql conn stmt =>
      cases conn with
      | pool => exact howes.elim
      | tx =>
        obtain ⟨_, hopen, -⟩ := howes
        exact absurd hopen (hclosed _)
    | begin => exact absurd howes (List.append_ne_nil_of_right_ne_nil _ (List.cons_ne_nil _ _))
    | commit =>
      obtain ⟨_, hopen, -⟩ := howes
      exact absurd hopen (hclosed _)
    | rollback | enqueue _ =>
      obtain ⟨_, hopen⟩ := howes
      exact absurd hopen (hclosed _)
    | generateFromPassword _ | newRandom | encrypt _ | randomString _ | sendEmail _ =>
      exact howes.elim
  | done value =>
    have hdurable := hafter.durable_eq
    cases value with
    | error err =>
      have hnil := (show Unchanged _ _ from h).durable_eq
      rw [hnil, hcalls] at hdurable
      simp [durable, durableFrom, transferCalls, Ran.rows, Stmt.effect, Stmt.written] at hdurable
    | ok value =>
      obtain ⟨before, others, -, hothers, hsame⟩ := h
      have hrows := hdurable.symm.trans hothers.durable_eq
      rw [hcalls, hsame] at hrows
      rw [transferCalls_rows_inj (List.append_cancel_left hrows)]

section Step

variable {deps : Deps} {ok : TransferConfig → Event TransferTxParams Choice External → Prop}
  {w : World} {config next : TransferConfig} {thread : Nat} {arg : TransferTxParams}

/-- A call either commits a whole transfer or leaves the tables alone. -/
theorem transfers_takes (htxs : w.txs = .empty)
    (hreach : (transfers deps).Reach ok (.initial w) config) {op : Op} {reply : op.Reply}
    (htakes : (transfers deps).Takes config thread arg op reply next) :
    ((⟨op, reply⟩ : Exchange Op Op.Reply) ≠ ⟨.commit, .ok ()⟩ ∧
      next.world.db = config.world.db) ∨
    ((⟨op, reply⟩ : Exchange Op Op.Reply) = ⟨.commit, .ok ()⟩ ∧ ∃ result,
      next.threads[thread]? = some ⟨arg, .done (.ok result)⟩ ∧
      TransferApplied config.world.db arg result next.world.db) := by
  have hregular := Regular.reach htxs hreach
  obtain ⟨howes, hnext⟩ := (transfers_verified deps).at_thread hreach htakes.thread_eq
  obtain ⟨choice, hstep⟩ : ∃ choice,
      config.world.step deps thread choice op = some (reply, next.world) := ⟨_, htakes.step_eq⟩
  have nothing : (⟨op, reply⟩ : Exchange Op Op.Reply) ≠ ⟨.commit, .ok ()⟩ →
      committed (openTx (config.history thread)) ⟨op, reply⟩ = [] →
      (⟨op, reply⟩ : Exchange Op Op.Reply) ≠ ⟨.commit, .ok ()⟩ ∧
        next.world.db = config.world.db := fun hne hnil =>
    ⟨hne, World.step_db_of_committed_nil hregular.sound (hregular.tracks thread) hstep hnil⟩
  cases op with
  | commit =>
    cases reply with
    | error err =>
      exact .inl (nothing (by rintro ⟨⟩) (by cases openTx (config.history thread) <;> rfl))
    | ok value =>
      obtain ⟨calls, hwithin, result, hcalls⟩ := howes
      obtain ⟨tx, hfind, hopen, hreplays, hnow, hdb⟩ :=
        World.commit_executes hregular.sound (hregular.tracks thread) hstep
      have hran : tx.calls.map Execution.ran = transferCalls arg result := by
        rw [← hcalls]
        exact Option.some.inj (hopen.symm.trans hwithin.opened)
      refine .inr ⟨rfl, result, ?_, ?_⟩
      · obtain ⟨hlt, -⟩ := List.getElem?_eq_some_iff.mp htakes.thread_eq
        rw [htakes.threads_eq, List.getElem?_set_self hlt,
          done_of_commit hwithin hcalls (hnext _ trivial)]
      · rw [hdb]
        exact transferApplied_of_replays hreplays hran hnow
  | sql conn stmt =>
    cases conn with
    | pool => exact howes.elim
    | tx => exact .inl (nothing (by rintro ⟨⟩) (by cases openTx (config.history thread) <;> rfl))
  | begin | rollback | generateFromPassword _ | newRandom | encrypt _ | enqueue _
    | randomString _ | sendEmail _ =>
    exact .inl (nothing (by rintro ⟨⟩) (by cases openTx (config.history thread) <;> rfl))

end Step

/-- Whether a call of the trace has committed a transaction. -/
def commits : Taken Op Op.Reply World → Bool
  | ⟨_, ⟨.commit, .ok ()⟩, _, _⟩ => true
  | _ => false

theorem commits_iff {taken : Taken Op Op.Reply World} :
    commits taken = true ↔ taken.exchange = ⟨.commit, .ok ()⟩ := by
  obtain ⟨thread, ⟨op, reply⟩, before, after⟩ := taken
  constructor
  · intro h
    unfold commits at h
    split at h
    · rename_i heq
      cases heq
      rfl
    · cases h
  · rintro ⟨⟩
    rfl

/-- The threads that have committed, in the order in which they did. -/
def commitOrder (config : TransferConfig) : List Nat :=
  (config.trace.filter commits).map Taken.thread

def committedCalls (config : TransferConfig) : List TransferTxParams :=
  (commitOrder config).filterMap config.job?

def Db.Entry.content (entry : Entry) : Int × Int64 := (entry.accountID, entry.amount)

def Db.Transfer.content (transfer : Transfer) : Int × Int × Int64 :=
  (transfer.fromAccountID, transfer.toAccountID, transfer.amount)

/-- Two databases with the same books, the ids and times of entries and
transfers aside. -/
structure SameBooks (db serial : Database) : Prop where
  accounts : serial.accounts = db.accounts
  entries : serial.entries.rows.map Entry.content = db.entries.rows.map Entry.content
  transfers : serial.transfers.rows.map Transfer.content = db.transfers.rows.map Transfer.content

theorem SameBooks.refl (db : Database) : SameBooks db db := ⟨rfl, rfl, rfl⟩

theorem TransferApplied.content {db db' : Database} {arg : TransferTxParams}
    {result : TransferTxResult} (h : TransferApplied db arg result db') :
    db'.entries.rows.map Entry.content = db.entries.rows.map Entry.content ++
        [(arg.fromAccountID, -arg.amount), (arg.toAccountID, arg.amount)] ∧
      db'.transfers.rows.map Transfer.content = db.transfers.rows.map Transfer.content ++
        [(arg.fromAccountID, arg.toAccountID, arg.amount)] := by
  rw [h.database]
  dsimp only
  rw [Table.rows_put_fresh h.freshToEntry, Table.rows_put_fresh h.freshFromEntry,
    Table.rows_put_fresh h.freshTransfer]
  simp [Entry.content, Transfer.content, h.fromEntry, h.toEntry, h.transfer]

/-- The next call has the same effect on the books of the sequential run. -/
theorem SameBooks.transferTx (deps : Deps) {db db' : Database} {serial : World}
    {arg : TransferTxParams} {result : TransferTxResult} (h : SameBooks db serial.db)
    (happlied : TransferApplied db arg result db') (hidle : serial.txs = .empty) :
    ∃ result' serial', (transferTx arg).runWith (alone deps) serial =
        some (.ok result', serial') ∧ serial'.txs = .empty ∧ SameBooks db' serial'.db ∧
      result'.fromAccount = result.fromAccount ∧ result'.toAccount = result.toAccount := by
  obtain ⟨fromAccount, toAccount, hfrom, hto, -⟩ := happlied.holding ""
  rw [← h.accounts] at hfrom hto
  have hmoney := happlied.money
  rw [← h.accounts] at hmoney
  obtain ⟨result', serial', hrun, hidle', hfromAccount, htoAccount, happlied'⟩ :=
    transferTx_alone deps hidle (by rw [hfrom]; rfl) (by rw [hto]; rfl) hmoney
  refine ⟨result', serial', hrun, hidle', ⟨?_, ?_, ?_⟩, hfromAccount, htoAccount⟩
  · rw [happlied'.database, happlied.database, hfromAccount, htoAccount, h.accounts]
  · rw [happlied'.content.1, happlied.content.1, h.entries]
  · rw [happlied'.content.2, happlied.content.2, h.transfers]

/-- A thread that has returned, and what its call returns in the sequential run. -/
def Agree (config : TransferConfig) (thread : Nat) (reply : Except Err TransferTxResult) : Prop :=
  ∃ arg result result', config.threads[thread]? = some ⟨arg, .done (.ok result)⟩ ∧
    reply = .ok result' ∧ result'.fromAccount = result.fromAccount ∧
    result'.toAccount = result.toAccount

/-- The sequential run of the committed calls has come to the same books. -/
def Serializes (deps : Deps) (w : World) (config : TransferConfig) : Prop :=
  ∃ results serial, sequentially deps (committedCalls config) w = some (results, serial) ∧
    serial.txs = .empty ∧ SameBooks config.world.db serial.db ∧
    List.Forall₂ (Agree config) (commitOrder config) results

theorem Agree.of_threads {config next : TransferConfig} {thread : Nat}
    {reply : Except Err TransferTxResult} (h : Agree config thread reply)
    (hthreads : ∀ arg result, config.threads[thread]? = some ⟨arg, .done (.ok result)⟩ →
      next.threads[thread]? = some ⟨arg, .done (.ok result)⟩) : Agree next thread reply := by
  obtain ⟨arg, result, result', hthread, hreply, haccounts⟩ := h
  exact ⟨arg, result, result', hthreads arg result hthread, hreply, haccounts⟩

section Serializes

variable {deps : Deps} {ok : TransferConfig → Event TransferTxParams Choice External → Prop}
  {w : World} {config next : TransferConfig} {thread : Nat} {arg : TransferTxParams}

theorem Serializes.arrive (h : Serializes deps w config)
    (hfollows : (transfers deps).Follows config) (arg : TransferTxParams) :
    Serializes deps w { config with threads := config.threads ++ [⟨arg, transferTx arg⟩] } := by
  obtain ⟨results, serial, hrun, hidle, hbooks, hagree⟩ := h
  refine ⟨results, serial, ?_, hidle, hbooks, ?_⟩
  · have hjobs : committedCalls { config with threads := config.threads ++ [⟨arg, transferTx arg⟩] } =
        committedCalls config := by
      refine List.filterMap_congr fun thread hmem => ?_
      obtain ⟨taken, htaken, rfl⟩ := List.mem_map.mp hmem
      exact hfollows.job?_arrive arg (List.mem_filter.mp htaken).1
    rw [hjobs]
    exact hrun
  · refine hagree.imp fun thread reply hreply => hreply.of_threads fun _ _ hthread => ?_
    obtain ⟨hlt, -⟩ := List.getElem?_eq_some_iff.mp hthread
    dsimp only
    rw [List.getElem?_append_left hlt]
    exact hthread

/-- A thread that makes a call is not one that has returned. -/
theorem done_of_takes {op : Op} {reply : op.Reply}
    (htakes : (transfers deps).Takes config thread arg op reply next) {other : Nat}
    {arg' : TransferTxParams} {result : TransferTxResult}
    (h : config.threads[other]? = some ⟨arg', .done (.ok result)⟩) :
    next.threads[other]? = some ⟨arg', .done (.ok result)⟩ := by
  have hne : thread ≠ other := by
    rintro rfl
    cases htakes.thread_eq.symm.trans h
  rw [htakes.threads_eq, List.getElem?_set_ne hne]
  exact h

theorem Serializes.takes (htxs : w.txs = .empty)
    (hreach : (transfers deps).Reach ok (.initial w) config) (h : Serializes deps w config)
    {op : Op} {reply : op.Reply}
    (htakes : (transfers deps).Takes config thread arg op reply next) : Serializes deps w next := by
  obtain ⟨results, serial, hrun, hidle, hbooks, hagree⟩ := h
  have hagree' : List.Forall₂ (Agree next) (commitOrder config) results :=
    hagree.imp fun thread reply hreply => hreply.of_threads fun _ _ => done_of_takes htakes
  have hjobs : next.job? = config.job? := funext htakes.job?_eq
  rcases transfers_takes htxs hreach htakes with ⟨hne, hdb⟩ | ⟨hcommit, result, hdone, happlied⟩
  · have horder : commitOrder next = commitOrder config := by
      have hfalse : commits ⟨thread, ⟨op, reply⟩, config.world, next.world⟩ ≠ true :=
        fun h => hne (commits_iff.mp h)
      rw [commitOrder, htakes.trace_eq, List.filter_append, List.filter_singleton]
      simp [hfalse, commitOrder]
    refine ⟨results, serial, ?_, hidle, ?_, ?_⟩
    · rw [committedCalls, horder, hjobs]
      exact hrun
    · rw [hdb]
      exact hbooks
    · rw [horder]
      exact hagree'
  · have horder : commitOrder next = commitOrder config ++ [thread] := by
      have htrue : commits ⟨thread, ⟨op, reply⟩, config.world, next.world⟩ = true :=
        commits_iff.mpr hcommit
      rw [commitOrder, htakes.trace_eq, List.filter_append, List.filter_singleton]
      simp [htrue, commitOrder]
    obtain ⟨result', serial', hlast, hidle', hbooks', hrows⟩ :=
      hbooks.transferTx deps happlied hidle
    refine ⟨results ++ [.ok result'], serial', ?_, hidle', hbooks', ?_⟩
    · have hcalls : committedCalls next = committedCalls config ++ [arg] := by
        rw [committedCalls, horder, hjobs, List.filterMap_append]
        simp [htakes.job_eq, committedCalls]
      rw [hcalls, sequentially_append, hrun, Option.bind_some, hlast]
      rfl
    · rw [horder]
      exact List.rel_append hagree' (.cons ⟨arg, result, result', hdone, rfl, hrows⟩ .nil)

theorem Serializes.reach (htxs : w.txs = .empty)
    (hreach : (transfers deps).Reach ok (.initial w) config) : Serializes deps w config := by
  induction hreach with
  | start => exact ⟨[], w, rfl, htxs, .refl _, .nil⟩
  | move hreach _ hmove ih =>
    rcases System.move_cases hmove with ⟨arg, rfl, -, rfl⟩ | ⟨_, _, _, _, _, rfl, ⟨htakes⟩⟩ |
      ⟨change, world, rfl, hexternal, rfl⟩
    · exact ih.arrive hreach.follows arg
    · exact ih.takes htxs hreach htakes
    · obtain ⟨results, serial, hrun, hidle, hbooks, hagree⟩ := ih
      refine ⟨results, serial, hrun, hidle, ?_, hagree⟩
      obtain ⟨-, -, -, -, hdb | ⟨row, -, -, hdb⟩⟩ := World.external_spec hexternal
      · rw [show world.db = _ from hdb]
        exact hbooks
      · rw [show world.db = _ from hdb]
        exact ⟨hbooks.accounts, hbooks.entries, hbooks.transfers⟩

/-- In every run of concurrent transfers the books are those of the committed
calls run one after another in commit order, and each of these calls has
returned the accounts it returns there. -/
theorem transfers_serializable (htxs : w.txs = .empty)
    (hreach : (transfers deps).Reachable (.initial w) config) :
    (∃ results serial, sequentially deps (committedCalls config) w = some (results, serial) ∧
      SameBooks config.world.db serial.db ∧
      List.Forall₂ (Agree config) (commitOrder config) results) ∧
    ∀ thread arg result, config.threads[thread]? = some ⟨arg, .done (.ok result)⟩ →
      thread ∈ commitOrder config := by
  obtain ⟨results, serial, hrun, -, hbooks, hagree⟩ := Serializes.reach htxs hreach
  refine ⟨⟨results, serial, hrun, hbooks, hagree⟩, fun thread arg result hdone => ?_⟩
  obtain ⟨before, _, hhistory, -⟩ := (transfers_verified deps).at_end hreach hdone
  have hmem : (⟨.commit, .ok ()⟩ : Exchange Op Op.Reply) ∈ config.history thread := by
    rw [hhistory]
    exact List.mem_append_right _ List.mem_cons_self
  obtain ⟨taken, htrace, rfl, hexchange⟩ := Config.mem_history.mp hmem
  exact List.mem_map.mpr ⟨taken, List.mem_filter.mpr ⟨htrace, commits_iff.mpr hexchange⟩, rfl⟩

/-- Two transfers in opposite directions, up to where one waits for the other. -/
def Sample.crossingEvents : List (Event TransferTxParams Choice External) :=
  [.arrive ⟨1, 2, 5⟩, .arrive ⟨2, 1, 7⟩, .run 0 {}, .run 1 {}, .run 0 {}, .run 1 { generated := 2 },
    .run 1 { generated := 3 }, .run 0 {}, .run 0 { generated := 2 }, .run 1 { generated := 4 },
    .run 0 {}]

theorem Sample.crossing_runs :
    ((transfers Sample.deps).run (.initial Sample.funded) Sample.crossingEvents).isSome = true := by
  decide +kernel

def Sample.crossing : TransferConfig :=
  ((transfers Sample.deps).run (.initial Sample.funded) Sample.crossingEvents).get
    Sample.crossing_runs

theorem Sample.crossing_reachable :
    (transfers Sample.deps).Reachable (.initial Sample.funded) Sample.crossing :=
  .of_run (Option.some_get Sample.crossing_runs).symm

theorem Sample.crossing_ends : ((transfers Sample.deps).run Sample.crossing
    [.run 0 {}, .run 0 {}, .run 1 {}, .run 1 {}, .run 1 {}]).isSome = true := by
  decide +kernel

def Sample.crossed : TransferConfig := ((transfers Sample.deps).run Sample.crossing
  [.run 0 {}, .run 0 {}, .run 1 {}, .run 1 {}, .run 1 {}]).get Sample.crossing_ends

theorem Sample.crossed_reachable :
    (transfers Sample.deps).Reachable (.initial Sample.funded) Sample.crossed :=
  Sample.crossing_reachable.extend (Option.some_get Sample.crossing_ends).symm

theorem transfers_serializable_sample : commitOrder Sample.crossed = [0, 1] ∧
    ∃ results serial,
      sequentially Sample.deps (committedCalls Sample.crossed) Sample.funded =
        some (results, serial) ∧
      SameBooks Sample.crossed.world.db serial.db ∧
      List.Forall₂ (Agree Sample.crossed) (commitOrder Sample.crossed) results :=
  ⟨by decide +kernel, (transfers_serializable rfl Sample.crossed_reachable).1⟩

end Serializes
end SimpleBank
