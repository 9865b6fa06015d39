import Mathlib.Data.List.Induction
import SimpleBank.World

/-! What one step does to the world, and how a thread's transaction follows
from the calls the thread has made. -/
namespace SimpleBank
open Library Db

/-- A statement and its outcome, as the thread that ran it knows them. -/
structure Ran where
  stmt : Stmt
  outcome : Except Err stmt.Result

def Db.Execution.ran (execution : Execution) : Ran := ⟨execution.stmt, execution.outcome⟩

def Ran.rows (ran : Ran) : List Row := ran.stmt.effect ran.outcome

theorem Db.Execution.rows_eq (execution : Execution) : execution.rows = execution.ran.rows := rfl

def Ran.Holds (generated : Int) (now : Time) (db : Database) (ran : Ran) : Prop :=
  ran.stmt.Allows generated now db ran.outcome

/-- What a successful statement of a thread says about the rows it worked on. -/
theorem Db.Execution.yields {call : Execution} {db : Database} (h : call.Holds db) {stmt : Stmt}
    {row : stmt.Result} (hran : call.ran = ⟨stmt, .ok row⟩) :
    stmt.Yields call.generated call.now db row := by
  have hran' : call.ran.Holds call.generated call.now db := h
  rw [hran] at hran'
  exact hran'

theorem Db.Execution.rows_of_ran {call : Execution} {stmt : Stmt} {row : stmt.Result}
    (hran : call.ran = ⟨stmt, .ok row⟩) : call.rows = stmt.written row := by
  rw [call.rows_eq, hran]
  rfl

abbrev History := List (Exchange Op Op.Reply)

/-- The statements of the transaction a thread has open, call by call. -/
def track : Option (List Ran) → Exchange Op Op.Reply → Option (List Ran)
  | open_, ⟨.sql .tx stmt, outcome⟩ => open_.map (· ++ [⟨stmt, outcome⟩])
  | _, ⟨.begin, .ok ()⟩ => some []
  | _, ⟨.commit, _⟩ | _, ⟨.rollback, _⟩ => none
  | open_, _ => open_

def openTx (history : History) : Option (List Ran) := history.foldl track none

/-- What a transaction has run, its thread has called. -/
theorem mem_of_openTx {history : History} {calls : List Ran} (h : openTx history = some calls) :
    ∀ ran ∈ calls, (⟨.sql .tx ran.stmt, ran.outcome⟩ : Exchange Op Op.Reply) ∈ history := by
  induction history using List.reverseRecOn generalizing calls with
  | nil => cases h
  | append_singleton history exchange ih =>
    rw [openTx, List.foldl_append, List.foldl_cons, List.foldl_nil] at h
    change track (openTx history) exchange = some calls at h
    intro ran hran
    unfold track at h
    split at h
    · obtain ⟨before, hbefore, rfl⟩ := Option.map_eq_some_iff.mp h
      rcases List.mem_append.mp hran with hran | hran
      · exact List.mem_append_left _ (ih hbefore ran hran)
      · rw [List.mem_singleton.mp hran]
        exact List.mem_append_right _ List.mem_cons_self
    · cases h
      cases hran
    · cases h
    · cases h
    · exact List.mem_append_left _ (ih h ran hran)

/-- The statements a call makes durable. -/
def committed : Option (List Ran) → Exchange Op Op.Reply → List Ran
  | some calls, ⟨.commit, .ok ()⟩ => calls
  | _, ⟨.sql .pool stmt, .ok row⟩ => [⟨stmt, .ok row⟩]
  | _, _ => []

@[simp] theorem openTx_nil : openTx [] = none := rfl

@[simp] theorem openTx_append (history : History) (exchange : Exchange Op Op.Reply) :
    openTx (history ++ [exchange]) = track (openTx history) exchange := by
  simp [openTx]

namespace World

variable {deps : Deps} {thread : Nat} {choice : Choice} {w w' : World}

theorem poolStep_spec {stmt : Stmt} {reply : Except Err stmt.Result}
    (h : w.poolStep choice stmt = some (reply, w')) :
    (∃ err, reply = .error err ∧ w' = w) ∨
    ∃ call : Execution, call = .perform choice.generated w.now w.db stmt ∧ call.Holds w.db ∧
      w.grants none call.locks = true ∧ call.ran = ⟨stmt, reply⟩ ∧
      w' = { w with db := Store.write w.db call.rows } := by
  unfold poolStep at h
  split at h
  · cases h
    exact .inl ⟨_, rfl, rfl⟩
  · dsimp only at h
    split at h
    · rename_i hgranted
      rw [Bool.and_eq_true_iff] at hgranted
      cases h
      exact .inr ⟨_, rfl, Execution.holds_perform hgranted.2, hgranted.1, rfl, rfl⟩
    · cases h

/-- A statement that meets no failure is evaluated on the tables as they are. -/
theorem pool_eval {stmt : Stmt} {reply : Except Err stmt.Result} (hhealthy : choice.fail = none)
    (h : w.step deps thread choice (.sql .pool stmt) = some (reply, w')) :
    reply = stmt.eval choice.generated w.now w.db := by
  simp only [step, poolStep, hhealthy] at h
  split at h
  · cases h
    rfl
  · cases h

theorem grants_failed (now : Time) (stmt : Stmt) (err : Err) :
    w.grants (some thread) (Execution.failed now stmt err).locks = true := by
  simp [TxState.grants, Execution.failed, blocks]

/-- Once a transaction is open, every statement sent to it becomes part of it. -/
theorem txStep_spec {stmt : Stmt} {reply : Except Err stmt.Result}
    (h : w.txStep thread choice stmt = some (reply, w')) :
    (w.txs.find? thread = none ∧ w' = w) ∨
    ∃ tx, w.txs.find? thread = some tx ∧ ∃ call : Execution, call.Holds (w.view tx) ∧
      w.grants (some thread) call.locks = true ∧ call.ran = ⟨stmt, reply⟩ ∧
      call.now = tx.startedAt ∧ w' = w.extendTx tx call := by
  unfold txStep at h
  split at h
  · rename_i hnone
    cases h
    exact .inl ⟨hnone, rfl⟩
  · rename_i tx hfind
    refine .inr ⟨tx, hfind, ?_⟩
    split at h
    · cases h
      exact ⟨_, Execution.holds_failed _ _ _ _, grants_failed _ _ _, rfl, rfl, rfl⟩
    · split at h
      · cases h
        exact ⟨_, Execution.holds_failed _ _ _ _, grants_failed _ _ _, rfl, rfl, rfl⟩
      · dsimp only at h
        split at h
        · rename_i hgranted
          rw [Bool.and_eq_true_iff] at hgranted
          cases h
          exact ⟨_, Execution.holds_perform hgranted.2, hgranted.1, rfl, rfl, rfl⟩
        · cases h

/-- A statement goes through when it meets no failure and nobody holds its locks. -/
theorem txStep_ok {stmt : Stmt} {row : stmt.Result} {tx : Tx Execution Time}
    (hfind : w.txs.find? thread = some tx) (hopen : tx.aborted = false)
    (hhealthy : choice.fail = none)
    (heval : stmt.eval choice.generated tx.startedAt (w.view tx) = .ok row)
    (hgrants : w.grants (some thread) (stmt.locks choice.generated tx.startedAt (w.view tx)) = true)
    (hfresh : stmt.freshSerial choice.generated (w.view tx) = true) :
    w.txStep thread choice stmt = some (.ok row,
      w.extendTx tx (.perform choice.generated tx.startedAt (w.view tx) stmt)) := by
  have hlocks : w.grants (some thread)
      (Execution.perform choice.generated tx.startedAt (w.view tx) stmt).locks = true := hgrants
  unfold txStep
  simp only [hfind, hopen, hhealthy, hlocks, hfresh, Bool.and_true, if_true]
  exact congrArg (fun outcome => some (outcome, _)) heval

/-- Nothing but a lock or a sequence value in use keeps a statement from running. -/
theorem exists_txStep {stmt : Stmt} {tx : Tx Execution Time}
    (hfind : w.txs.find? thread = some tx) (hhealthy : choice.fail = none)
    (hgrants : tx.aborted = false →
      w.grants (some thread) (stmt.locks choice.generated tx.startedAt (w.view tx)) = true)
    (hfresh : stmt.freshSerial choice.generated (w.view tx) = true) :
    ∃ reply w', w.txStep thread choice stmt = some (reply, w') := by
  unfold txStep
  by_cases haborted : tx.aborted = true
  · simp [hfind, haborted]
  · have hlocks : w.grants (some thread)
        (Execution.perform choice.generated tx.startedAt (w.view tx) stmt).locks = true :=
      hgrants (by simpa using haborted)
    simp only [hfind, haborted, hhealthy, hlocks, hfresh, Bool.and_true, if_true,
      Bool.false_eq_true, if_false]
    exact ⟨_, _, rfl⟩

/-- So is a statement of a transaction, on what the transaction sees. -/
theorem tx_eval {stmt : Stmt} {reply : Except Err stmt.Result} {tx : Tx Execution Time}
    (hfind : w.txs.find? thread = some tx) (hopen : tx.aborted = false)
    (hhealthy : choice.fail = none)
    (h : w.step deps thread choice (.sql .tx stmt) = some (reply, w')) :
    reply = stmt.eval choice.generated tx.startedAt (w.view tx) := by
  simp only [step, txStep, hfind, hopen, hhealthy, Bool.false_eq_true, if_false] at h
  split at h
  · cases h
    rfl
  · cases h

/-- A statement that succeeds has met neither an aborted transaction nor a failure. -/
theorem tx_eval_ok {stmt : Stmt} {row : stmt.Result} {tx : Tx Execution Time}
    (hfind : w.txs.find? thread = some tx)
    (h : w.step deps thread choice (.sql .tx stmt) = some (.ok row, w')) :
    stmt.eval choice.generated tx.startedAt (w.view tx) = .ok row := by
  have hopen : tx.aborted = false := by
    simp only [step, txStep, hfind] at h
    split at h
    · cases h
    · rename_i hopen
      exact Bool.eq_false_iff.mpr hopen
  cases hfail : choice.fail with
  | none => exact (tx_eval hfind hopen hfail h).symm
  | some outage =>
    simp only [step, txStep, hfind, hopen, hfail, Bool.false_eq_true, if_false] at h
    cases h

theorem beginStep_spec {reply : Except Err Unit}
    (h : w.beginStep thread choice = some (reply, w')) :
    (∃ err, reply = .error err ∧ w' = w) ∨
    (reply = .ok () ∧ w.txs.find? thread = none ∧
      w' = { w with txs := w.txs.put (.fresh thread w.now) }) := by
  unfold beginStep at h
  split at h
  · cases h
    exact .inl ⟨_, rfl, rfl⟩
  · split at h
    · rename_i hnone
      cases h
      exact .inr ⟨rfl, Option.isNone_iff_eq_none.mp hnone, rfl⟩
    · cases h

theorem commitStep_spec {reply : Except Err Unit} (h : w.commitStep thread choice = (reply, w')) :
    (w.txs.find? thread = none ∧ (∃ err, reply = .error err) ∧ w' = w) ∨
    ((∃ err, reply = .error err) ∧ w' = w.closeTx thread) ∨
    ∃ tx, w.txs.find? thread = some tx ∧ tx.aborted = false ∧ reply = .ok () ∧
      w' = { w with db := w.view tx, txs := w.txs.erase thread } := by
  unfold commitStep at h
  split at h
  · rename_i hnone
    cases h
    exact .inl ⟨hnone, ⟨_, rfl⟩, rfl⟩
  · rename_i tx hfind
    split at h
    · cases h
      exact .inr (.inl ⟨⟨_, rfl⟩, rfl⟩)
    · split at h
      · cases h
        exact .inr (.inl ⟨⟨_, rfl⟩, rfl⟩)
      · rename_i hsound
        cases h
        exact .inr (.inr ⟨tx, hfind, by simpa using hsound, rfl, rfl⟩)

theorem rollbackStep_spec {reply : Except Err Unit}
    (h : w.rollbackStep thread choice = (reply, w')) :
    (w.txs.find? thread = none ∧ w' = w) ∨ w' = w.closeTx thread := by
  unfold rollbackStep at h
  split at h
  · rename_i hnone
    cases h
    exact .inl ⟨hnone, rfl⟩
  · split at h
    · cases h
      exact .inr rfl
    · cases h
      exact .inr rfl

theorem callStep_spec {α : Type} {reply : Except Err α} {result : Except Err α × World}
    (h : callStep choice w result = (reply, w')) :
    (∃ err, reply = .error err ∧ w' = w) ∨ result = (reply, w') := by
  unfold callStep at h
  split at h
  · cases h
    exact .inl ⟨_, rfl, rfl⟩
  · exact .inr h

/-- A call that leaves the tables and transactions as they are. -/
def Quiet (w : World) (thread : Nat) : (op : Op) → op.Reply → Prop
  | .sql .pool _, reply => ∃ err, reply = .error err
  | .sql .tx _, _ | .rollback, _ => w.txs.find? thread = none
  | .begin, reply => ∃ err, reply = .error err
  | .commit, reply => w.txs.find? thread = none ∧ ∃ err, reply = .error err
  | _, _ => True

/-- Everything a step does to the tables and transactions. -/
inductive Stepped (thread : Nat) (w : World) :
    (op : Op) → op.Reply → TxState Database Execution Time → Prop
  | quiet {op : Op} {reply : op.Reply} : w.Quiet thread op reply →
      Stepped thread w op reply w.toTxState
  | autocommit {stmt : Stmt} {reply : Except Err stmt.Result} (call : Execution) :
      call.Holds w.db → w.grants none call.locks = true → call.ran = ⟨stmt, reply⟩ →
      Stepped thread w (.sql .pool stmt) reply ⟨Store.write w.db call.rows, w.txs⟩
  | statement {stmt : Stmt} {reply : Except Err stmt.Result} (tx : Tx Execution Time)
      (call : Execution) : w.txs.find? thread = some tx → call.Holds (w.view tx) →
      w.grants (some thread) call.locks = true → call.ran = ⟨stmt, reply⟩ →
      call.now = tx.startedAt →
      Stepped thread w (.sql .tx stmt) reply
        ⟨w.db, w.txs.put (tx.extend call (aborts call.outcome))⟩
  | begin : w.txs.find? thread = none →
      Stepped thread w .begin (.ok ()) ⟨w.db, w.txs.put (.fresh thread w.now)⟩
  | commit (tx : Tx Execution Time) : w.txs.find? thread = some tx →
      Stepped thread w .commit (.ok ()) ⟨w.view tx, w.txs.erase thread⟩
  | abort (err : Err) : Stepped thread w .commit (.error err) ⟨w.db, w.txs.erase thread⟩
  | rollback (reply : Except Err Unit) :
      Stepped thread w .rollback reply ⟨w.db, w.txs.erase thread⟩

theorem stepped_of_callStep {α : Type} {op : Op} {reply : op.Reply} (hquiet : w.Quiet thread op reply)
    {result : Except Err α × World} {outcome : Except Err α}
    (hsame : result.2.toTxState = w.toTxState) (h : callStep choice w result = (outcome, w')) :
    Stepped thread w op reply w'.toTxState := by
  rcases callStep_spec h with ⟨_, -, rfl⟩ | rfl
  · exact .quiet hquiet
  · rw [hsame]
    exact .quiet hquiet

theorem stepped_of_step {op : Op} {reply : op.Reply}
    (h : w.step deps thread choice op = some (reply, w')) :
    Stepped thread w op reply w'.toTxState := by
  cases op with
  | sql conn stmt =>
    cases conn with
    | pool =>
      rcases poolStep_spec h with ⟨err, herr, rfl⟩ | ⟨call, -, hholds, hgrants, hran, rfl⟩
      · exact .quiet ⟨err, herr⟩
      · exact .autocommit call hholds hgrants hran
    | tx =>
      rcases txStep_spec h with ⟨hnone, rfl⟩ | ⟨tx, hfind, call, hholds, hgrants, hran, hnow, rfl⟩
      · exact .quiet hnone
      · exact .statement tx call hfind hholds hgrants hran hnow
  | begin =>
    rcases beginStep_spec h with ⟨err, herr, rfl⟩ | ⟨rfl, hnone, rfl⟩
    · exact .quiet ⟨err, herr⟩
    · exact .begin hnone
  | commit =>
    rcases commitStep_spec (Option.some.inj h) with ⟨hnone, herr, rfl⟩ | ⟨⟨err, rfl⟩, rfl⟩ |
      ⟨tx, hfind, -, rfl, rfl⟩
    · exact .quiet ⟨hnone, herr⟩
    · exact .abort err
    · exact .commit tx hfind
  | rollback =>
    rcases rollbackStep_spec (Option.some.inj h) with ⟨hnone, rfl⟩ | rfl
    · exact .quiet hnone
    · exact .rollback reply
  | randomString n =>
    simp only [step] at h
    split at h
    · cases h
      exact .quiet trivial
    · cases h
  | generateFromPassword _ | newRandom | encrypt _ | enqueue _ | sendEmail _ =>
    exact stepped_of_callStep trivial (by rfl) (Option.some.inj h)

/-- A step is a move of the transactions, whatever else it does. -/
theorem Stepped.move {op : Op} {reply : op.Reply} {state : TxState Database Execution Time}
    (h : Stepped thread w op reply state) : TxState.Move thread w.toTxState state := by
  cases h with
  | quiet _ => exact .skip
  | autocommit call hholds hgrants _ => exact .autocommit call hgrants hholds
  | statement tx call hfind hholds hgrants _ _ => exact .statement tx call _ hfind hgrants hholds
  | begin hnone => exact .begin w.now hnone
  | commit tx hfind => exact .commit tx hfind
  | abort _ | rollback _ => exact .close

/-- Only a statement adds to an open transaction. -/
theorem Stepped.mem_txs {op : Op} {reply : op.Reply} {state : TxState Database Execution Time}
    (h : Stepped thread w op reply state) (hop : ∀ stmt, op ≠ .sql .tx stmt) :
    ∀ tx ∈ state.txs.rows, tx ∈ w.txs.rows ∨ tx = .fresh thread w.now := by
  intro tx htx
  cases h with
  | quiet _ | autocommit _ _ _ _ => exact .inl htx
  | @statement stmt _ _ _ _ _ _ _ _ => exact absurd rfl (hop stmt)
  | begin _ =>
    rcases Table.mem_put htx with hfresh | hold
    · exact .inr hfresh
    · exact .inl hold
  | commit _ _ | abort _ | rollback _ => exact .inl (Table.mem_erase.mp htx).1

/-- What holds of the world in every run, whatever is being served. -/
structure Sound (w : World) : Prop where
  isolated : w.Isolated
  timed : ∀ tx ∈ w.txs.rows, ∀ call ∈ tx.calls, call.now = tx.startedAt

theorem Sound.step (hsound : w.Sound) {op : Op} {reply : op.Reply}
    (h : w.step deps thread choice op = some (reply, w')) : w'.Sound := by
  have hstepped := stepped_of_step h
  refine ⟨hsound.isolated.move hstepped.move, ?_⟩
  generalize w'.toTxState = state at hstepped
  cases hstepped with
  | quiet _ | autocommit _ _ _ _ => exact hsound.timed
  | statement tx call hfind _ _ _ hnow =>
    intro other hother
    rcases Table.mem_put hother with rfl | hother
    · intro ran hran
      rcases List.mem_append.mp hran with hran | hran
      · exact hsound.timed tx (Table.find?_mem hfind).1 ran hran
      · rw [List.mem_singleton.mp hran]
        exact hnow
    · exact hsound.timed other hother
  | begin _ =>
    intro other hother
    rcases Table.mem_put hother with rfl | hother
    · exact fun call hcall => nomatch hcall
    · exact hsound.timed other hother
  | commit _ _ | abort _ | rollback _ =>
    exact fun other hother => hsound.timed other (Table.mem_erase.mp hother).1

/-- The history of a thread tells what its open transaction holds. -/
def Tracks (w : World) (thread : Nat) (history : History) : Prop :=
  (w.txs.find? thread).map (fun tx => tx.calls.map Execution.ran) = openTx history

theorem track_of_quiet {op : Op} {reply : op.Reply} (h : w.Quiet thread op reply) :
    track ((w.txs.find? thread).map fun tx => tx.calls.map Execution.ran) ⟨op, reply⟩ =
      (w.txs.find? thread).map fun tx => tx.calls.map Execution.ran := by
  cases op with
  | sql conn stmt =>
    cases conn with
    | pool => rfl
    | tx => rw [show w.txs.find? thread = none from h]; rfl
  | begin =>
    obtain ⟨err, rfl⟩ := h
    rfl
  | commit => rw [h.1]; rfl
  | rollback => rw [show w.txs.find? thread = none from h]; rfl
  | generateFromPassword _ | newRandom | encrypt _ | enqueue _ | randomString _ | sendEmail _ => rfl

theorem committed_of_quiet {op : Op} {reply : op.Reply} (h : w.Quiet thread op reply)
    (calls : Option (List Ran)) : committed calls ⟨op, reply⟩ = [] := by
  cases op with
  | sql conn stmt =>
    cases conn with
    | pool =>
      obtain ⟨err, rfl⟩ := h
      cases calls <;> rfl
    | tx => cases calls <;> rfl
  | commit =>
    obtain ⟨-, err, rfl⟩ := h
    cases calls <;> rfl
  | begin | rollback | generateFromPassword _ | newRandom | encrypt _ | enqueue _
    | randomString _ | sendEmail _ => cases calls <;> rfl

theorem Tracks.step {history : History} (htracks : w.Tracks thread history) {op : Op}
    {reply : op.Reply} (h : w.step deps thread choice op = some (reply, w')) :
    w'.Tracks thread (history ++ [⟨op, reply⟩]) := by
  have hstepped := stepped_of_step h
  unfold Tracks at htracks ⊢
  rw [openTx_append, ← htracks]
  generalize w'.toTxState = state at hstepped
  cases hstepped with
  | quiet hquiet => exact (track_of_quiet hquiet).symm
  | autocommit _ _ _ _ => rfl
  | statement tx call hfind _ _ hran _ =>
    obtain ⟨-, howner⟩ := Table.find?_mem hfind
    have hfind' : (w.txs.put (tx.extend call (aborts call.outcome))).find? thread =
        some (tx.extend call (aborts call.outcome)) := by
      rw [← howner]
      exact Table.find?_put_self _ _
    rw [hfind', hfind]
    simp [track, Tx.extend, hran]
  | begin _ =>
    have hfind : (w.txs.put (.fresh thread w.now)).find? thread = some (.fresh thread w.now) :=
      Table.find?_put_self _ _
    rw [hfind]
    rfl
  | commit _ _ | abort _ | rollback _ => simp [Table.find?_erase, track]

/-- What a step commits is a serial execution of the statements it makes durable. -/
theorem step_executes {history : History} (hsound : w.Sound) (htracks : w.Tracks thread history)
    {op : Op} {reply : op.Reply} (h : w.step deps thread choice op = some (reply, w')) :
    ∃ calls : List Execution, calls.map Execution.ran = committed (openTx history) ⟨op, reply⟩ ∧
      Statements.Replays w.db calls ∧
      w'.db = Store.write w.db (Statements.writtenBy Database calls) := by
  have hstepped := stepped_of_step h
  generalize w'.toTxState = state at hstepped
  cases hstepped with
  | quiet hquiet => exact ⟨[], (committed_of_quiet hquiet _).symm, trivial, rfl⟩
  | @autocommit _ reply call hholds _ hran =>
    cases reply with
    | ok row => exact ⟨[call], by simp [committed, hran], ⟨hholds, trivial⟩, by simp; rfl⟩
    | error err =>
      have hrows : call.rows = [] := by
        rw [call.rows_eq, hran]
        rfl
      exact ⟨[], by cases openTx history <;> rfl, trivial, by rw [hrows]; rfl⟩
  | statement _ _ _ _ _ _ => exact ⟨[], by cases openTx history <;> rfl, trivial, rfl⟩
  | begin _ => exact ⟨[], by cases openTx history <;> rfl, trivial, rfl⟩
  | commit tx hfind =>
    have htx : openTx history = some (tx.calls.map Execution.ran) := by
      rw [← htracks, hfind]
      rfl
    exact ⟨tx.calls, by rw [htx]; rfl, hsound.isolated.replays tx (Table.find?_mem hfind).1, rfl⟩
  | abort _ | rollback _ => exact ⟨[], by cases openTx history <;> rfl, trivial, rfl⟩

/-- A commit carries out the statements of the transaction of its thread. -/
theorem commit_executes {history : History} (hsound : w.Sound) (htracks : w.Tracks thread history)
    (h : w.step deps thread choice .commit = some (.ok (), w')) :
    ∃ tx, w.txs.find? thread = some tx ∧ openTx history = some (tx.calls.map Execution.ran) ∧
      Statements.Replays w.db tx.calls ∧ (∀ call ∈ tx.calls, call.now = tx.startedAt) ∧
      w'.db = Store.write w.db (Statements.writtenBy Database tx.calls) := by
  rcases commitStep_spec (Option.some.inj h) with ⟨-, ⟨_, herr⟩, -⟩ | ⟨⟨_, herr⟩, -⟩ |
    ⟨tx, hfind, -, -, rfl⟩
  · cases herr
  · cases herr
  · obtain ⟨hmem, -⟩ := Table.find?_mem hfind
    refine ⟨tx, hfind, ?_, hsound.isolated.replays tx hmem, hsound.timed tx hmem, rfl⟩
    rw [← htracks, hfind]
    rfl

/-- A statement outside a transaction is committed at once. -/
theorem pool_executes {stmt : Stmt} {row : stmt.Result}
    (h : w.step deps thread choice (.sql .pool stmt) = some (.ok row, w')) :
    ∃ generated now, stmt.Yields generated now w.db row ∧
      w'.db = Store.write w.db (stmt.written row) := by
  rcases poolStep_spec h with ⟨err, herr, -⟩ | ⟨call, -, hholds, -, hran, rfl⟩
  · cases herr
  · refine ⟨_, _, Execution.yields hholds hran, ?_⟩
    have hrows : call.rows = stmt.written row := Execution.rows_of_ran hran
    rw [← hrows]

theorem step_db_of_committed_nil {history : History} (hsound : w.Sound)
    (htracks : w.Tracks thread history) {op : Op} {reply : op.Reply}
    (h : w.step deps thread choice op = some (reply, w'))
    (hnil : committed (openTx history) ⟨op, reply⟩ = []) : w'.db = w.db := by
  obtain ⟨calls, hran, -, hdb⟩ := step_executes hsound htracks h
  rw [hnil, List.map_eq_nil_iff] at hran
  rw [hdb, hran]
  rfl

theorem Tracks.of_find? {history : History} (htracks : w.Tracks thread history)
    {tx : Tx Execution Time} (h : w.txs.find? thread = some tx) :
    openTx history = some (tx.calls.map Execution.ran) := by
  rw [← htracks, h]
  rfl

theorem step_extends (hsound : w.Sound) {op : Op} {reply : op.Reply}
    (h : w.step deps thread choice op = some (reply, w')) : Store.Extends w.db w'.db :=
  (stepped_of_step h).move.extends hsound.isolated

/-- The rows a statement replies with are there from now on. -/
theorem step_seen {stmt : Stmt} {row : stmt.Result}
    (h : w.step deps thread choice (.sql .pool stmt) = some (.ok row, w')) :
    w'.db.Seen (stmt.returned row) := by
  obtain ⟨_, _, hyields, hdb⟩ := pool_executes h
  rw [hdb]
  exact hyields.seen

/-- Everything a step does besides the tables and transactions. -/
theorem step_outside {op : Op} {reply : op.Reply}
    (h : w.step deps thread choice op = some (reply, w')) :
    w'.clock = w.clock ∧
    (w'.issued = w.issued ∨ ∃ payload token, (⟨op, reply⟩ : Exchange Op Op.Reply) =
      ⟨.encrypt payload, .ok token⟩ ∧ w'.issued = w.issued ++ [(token, payload)]) ∧
    (w'.tasks = w.tasks ∨ ∃ task, (⟨op, reply⟩ : Exchange Op Op.Reply) =
      ⟨.enqueue task, .ok ()⟩ ∧ w'.tasks = w.tasks ++ [task]) := by
  cases op with
  | sql conn stmt =>
    cases conn with
    | pool =>
      rcases poolStep_spec h with ⟨_, -, rfl⟩ | ⟨_, -, -, -, -, rfl⟩
      · exact ⟨rfl, .inl rfl, .inl rfl⟩
      · exact ⟨rfl, .inl rfl, .inl rfl⟩
    | tx =>
      rcases txStep_spec h with ⟨-, rfl⟩ | ⟨_, -, _, -, -, -, -, rfl⟩
      · exact ⟨rfl, .inl rfl, .inl rfl⟩
      · exact ⟨rfl, .inl rfl, .inl rfl⟩
  | begin =>
    rcases beginStep_spec h with ⟨_, -, rfl⟩ | ⟨-, -, rfl⟩
    · exact ⟨rfl, .inl rfl, .inl rfl⟩
    · exact ⟨rfl, .inl rfl, .inl rfl⟩
  | commit =>
    rcases commitStep_spec (Option.some.inj h) with ⟨-, -, rfl⟩ | ⟨-, rfl⟩ | ⟨_, -, -, -, rfl⟩
    · exact ⟨rfl, .inl rfl, .inl rfl⟩
    · exact ⟨rfl, .inl rfl, .inl rfl⟩
    · exact ⟨rfl, .inl rfl, .inl rfl⟩
  | rollback =>
    rcases rollbackStep_spec (Option.some.inj h) with ⟨-, rfl⟩ | rfl
    · exact ⟨rfl, .inl rfl, .inl rfl⟩
    · exact ⟨rfl, .inl rfl, .inl rfl⟩
  | randomString n =>
    simp only [step] at h
    split at h
    · cases h
      exact ⟨rfl, .inl rfl, .inl rfl⟩
    · cases h
  | encrypt payload =>
    rcases callStep_spec (Option.some.inj h) with ⟨_, -, rfl⟩ | hresult
    · exact ⟨rfl, .inl rfl, .inl rfl⟩
    · cases hresult
      exact ⟨rfl, .inr ⟨payload, _, rfl, rfl⟩, .inl rfl⟩
  | enqueue task =>
    rcases callStep_spec (Option.some.inj h) with ⟨_, -, rfl⟩ | hresult
    · exact ⟨rfl, .inl rfl, .inl rfl⟩
    · cases hresult
      exact ⟨rfl, .inl rfl, .inr ⟨task, rfl, rfl⟩⟩
  | generateFromPassword _ | newRandom | sendEmail _ =>
    rcases callStep_spec (Option.some.inj h) with ⟨_, -, rfl⟩ | hresult
    · exact ⟨rfl, .inl rfl, .inl rfl⟩
    · cases hresult
      exact ⟨rfl, .inl rfl, .inl rfl⟩

end World

/-- A reply is one that its call can have. -/
def Valid : (op : Op) → op.Reply → Prop
  | .sql _ stmt, .ok row => ∃ generated now db, stmt.Yields generated now db row
  | .randomString n, text => ∃ letters : List (Fin 26), letters.length = n ∧
      text = Util.randomString letters
  | _, _ => True

theorem valid_of_step {deps : Deps} {thread : Nat} {choice : Choice} {w w' : World} {op : Op}
    {reply : op.Reply} (h : w.step deps thread choice op = some (reply, w')) : Valid op reply := by
  cases op with
  | sql conn stmt =>
    cases reply with
    | error err => trivial
    | ok row =>
      cases conn with
      | pool =>
        rcases World.poolStep_spec h with ⟨_, herr, -⟩ | ⟨call, -, hholds, -, hran, -⟩
        · cases herr
        · exact ⟨_, _, _, Execution.yields hholds hran⟩
      | tx =>
        rcases World.txStep_spec h with ⟨hnone, rfl⟩ | ⟨_, -, call, hholds, -, hran, -, -⟩
        · simp only [World.step, World.txStep, hnone] at h
          cases h
        · exact ⟨_, _, _, Execution.yields hholds hran⟩
  | randomString n =>
    simp only [World.step] at h
    split at h
    · rename_i hlength
      cases h
      exact ⟨choice.letters, hlength, rfl⟩
    · cases h
  | begin | commit | rollback | generateFromPassword _ | newRandom | encrypt _ | enqueue _
    | sendEmail _ => trivial

end SimpleBank
