import Mathlib.Tactic.Common
import SimpleBank.Library.Table

/-! Transactions over a store of keyed rows, at the isolation level READ
COMMITTED.  A statement sees the latest committed rows under the writes of its
own transaction, takes row locks, and keeps them until its transaction ends.
The result is that a commit is a serial execution: the statements of an open
transaction can be replayed on whatever is committed.  Nothing here is about
one schema: a store is anything with `lookup` and `put`. -/
namespace SimpleBank.Library

/-- The row-level lock modes, weakest first. -/
inductive LockMode where
  | keyShare
  | share
  | noKeyUpdate
  | update
  deriving DecidableEq, Repr

namespace LockMode

def conflicts : LockMode → LockMode → Bool
  | .keyShare, .update | .update, .keyShare => true
  | .share, .noKeyUpdate | .noKeyUpdate, .share => true
  | .share, .update | .update, .share => true
  | .noKeyUpdate, .noKeyUpdate | .noKeyUpdate, .update | .update, .noKeyUpdate => true
  | .update, .update => true
  | _, _ => false

/-- The modes a row is written under. -/
def exclusive (mode : LockMode) : Bool := mode.conflicts mode

theorem conflicts_comm (left right : LockMode) : left.conflicts right = right.conflicts left := by
  cases left <;> cases right <;> rfl

theorem conflicts_of_exclusive {left right : LockMode} (hleft : left.exclusive = true)
    (hright : right.exclusive = true) : left.conflicts right = true := by
  revert hleft hright
  cases left <;> cases right <;> decide

end LockMode

structure Lock (K : Type) where
  key : K
  mode : LockMode
  deriving DecidableEq, Repr

/-- Some lock of `wanted` cannot be granted while those of `held` are. -/
def blocks {K : Type} [DecidableEq K] (wanted held : List (Lock K)) : Bool :=
  wanted.any fun want => held.any fun lock =>
    decide (want.key = lock.key) && want.mode.conflicts lock.mode

section Blocks

variable {K : Type} [DecidableEq K]

theorem blocks_iff {wanted held : List (Lock K)} : blocks wanted held = true ↔
    ∃ want ∈ wanted, ∃ lock ∈ held, want.key = lock.key ∧
      want.mode.conflicts lock.mode = true := by
  simp [blocks]

theorem blocks_comm (wanted held : List (Lock K)) : blocks wanted held = blocks held wanted := by
  rw [Bool.eq_iff_iff, blocks_iff, blocks_iff]
  constructor
  · rintro ⟨want, hwant, lock, hlock, hkey, hmode⟩
    exact ⟨lock, hlock, want, hwant, hkey.symm, LockMode.conflicts_comm _ _ ▸ hmode⟩
  · rintro ⟨want, hwant, lock, hlock, hkey, hmode⟩
    exact ⟨lock, hlock, want, hwant, hkey.symm, LockMode.conflicts_comm _ _ ▸ hmode⟩

theorem blocks_append (left right held : List (Lock K)) :
    blocks (left ++ right) held = (blocks left held || blocks right held) := by
  simp [blocks]

end Blocks

/-- `keeps` is what an update of a row may not change. -/
class Store (DB : Type) (K V : outParam Type) where
  lookup : DB → K → Option V
  put : DB → V → DB
  key : V → K
  keeps : V → V → Prop
  lookup_put : ∀ db row k [Decidable (k = key row)],
    lookup (put db row) k = if k = key row then some row else lookup db k
  keeps_refl : ∀ row, keeps row row
  keeps_trans : ∀ {a b c}, keeps a b → keeps b c → keeps a c

namespace Store

variable {DB K V : Type} [Store DB K V]

def write (db : DB) (rows : List V) : DB := rows.foldl put db

@[simp] theorem write_nil (db : DB) : write db ([] : List V) = db := rfl

theorem write_append (db : DB) (left right : List V) :
    write db (left ++ right) = write (write db left) right :=
  List.foldl_append

/-- Every row of `db` is still there in `db'`, changed only as `keeps` allows. -/
def Extends (db db' : DB) : Prop :=
  ∀ k row, lookup db k = some row → ∃ row', lookup db' k = some row' ∧ keeps DB row row'

theorem Extends.refl (db : DB) : Extends db db := fun _ row h => ⟨row, h, keeps_refl row⟩

theorem Extends.trans {a b c : DB} (hab : Extends a b) (hbc : Extends b c) : Extends a c := by
  intro k row h
  obtain ⟨row', h', hkeeps⟩ := hab k row h
  obtain ⟨row'', h'', hkeeps'⟩ := hbc k row' h'
  exact ⟨row'', h'', keeps_trans hkeeps hkeeps'⟩

/-- Each row of `rows` is new to `db` or keeps what an update has to keep. -/
def Admits (db : DB) (rows : List V) : Prop :=
  ∀ row ∈ rows, ∀ old, lookup db (key DB row) = some old → keeps DB old row

variable [DecidableEq K]

theorem lookup_write_of_ne (rows : List V) (db : DB) {k : K} (h : ∀ row ∈ rows, key DB row ≠ k) :
    lookup (write db rows) k = lookup db k := by
  induction rows generalizing db with
  | nil => rfl
  | cons row rows ih =>
    have hne : k ≠ key DB row := (h row List.mem_cons_self).symm
    rw [show write db (row :: rows) = write (put db row) rows from rfl,
      ih (put db row) fun other hother => h other (List.mem_cons_of_mem _ hother),
      lookup_put, if_neg hne]

/-- After a write a key holds its old row or one of the rows written. -/
theorem lookup_write (rows : List V) (db : DB) (k : K) :
    lookup (write db rows) k = lookup db k ∨
      ∃ row ∈ rows, key DB row = k ∧ lookup (write db rows) k = some row := by
  induction rows generalizing db with
  | nil => exact .inl rfl
  | cons row rows ih =>
    rw [show write db (row :: rows) = write (put db row) rows from rfl]
    rcases ih (put db row) with hsame | ⟨other, hother, hkey, hlookup⟩
    · rw [hsame, lookup_put]
      split
      · rename_i heq
        exact .inr ⟨row, List.mem_cons_self, heq.symm, rfl⟩
      · exact .inl rfl
    · exact .inr ⟨other, List.mem_cons_of_mem _ hother, hkey, hlookup⟩

theorem extends_write {db : DB} {rows : List V} (h : Admits db rows) :
    Extends db (write db rows) := by
  intro k old hold
  rcases lookup_write rows db k with hsame | ⟨row, hrow, hkey, hlookup⟩
  · exact ⟨old, hsame.trans hold, keeps_refl old⟩
  · exact ⟨row, hlookup, h row hrow old (hkey ▸ hold)⟩

/-- A write makes two stores agree on a key on which they agreed before. -/
theorem lookup_write_congr {db db' : DB} (rows : List V) {k : K}
    (h : lookup db' k = lookup db k) : lookup (write db' rows) k = lookup (write db rows) k := by
  induction rows generalizing db db' with
  | nil => exact h
  | cons row rows ih =>
    have hput : lookup (put db' row) k = lookup (put db row) k := by
      rw [lookup_put, lookup_put, h]
    exact ih hput

theorem Extends.put {db db' : DB} (h : Extends db db') (row : V) :
    Extends (Store.put db row) (Store.put db' row) := by
  intro k old hold
  rw [lookup_put] at hold ⊢
  split at hold
  · rename_i heq
    exact ⟨row, by rw [if_pos heq], by cases hold; exact keeps_refl _⟩
  · rename_i hne
    rw [if_neg hne]
    exact h k old hold

theorem Extends.write {db db' : DB} (h : Extends db db') (rows : List V) :
    Extends (Store.write db rows) (Store.write db' rows) := by
  induction rows generalizing db db' with
  | nil => exact h
  | cons row rows ih => exact ih (h.put row)

end Store

/-- The statements of a store, once executed: what each has locked, the rows it
wrote, and when its result is the one it has on a given store.  It may depend on
rows it has locked for writing, and on others only as far as updates keep them. -/
class Statements (DB : Type) (K V C : outParam Type) extends Store DB K V where
  locks : C → List (Lock K)
  rows : C → List V
  holds : DB → C → Prop
  covers : ∀ call, ∀ row ∈ rows call, ∃ lock ∈ locks call,
    lock.key = key row ∧ lock.mode.exclusive = true
  admits : ∀ {db call}, holds db call → Store.Admits db (rows call)
  stable : ∀ {db db' call}, holds db call → Store.Extends db db' →
    (∀ lock ∈ locks call, lock.mode.exclusive = true → lookup db' lock.key = lookup db lock.key) →
    holds db' call

namespace Statements

open Store

variable {DB K V C : Type} [Statements DB K V C]

/-- Executing `calls` one after another on `db` gives the results they have. -/
def Replays (db : DB) : List C → Prop
  | [] => True
  | call :: calls => holds db call ∧ Replays (write db (rows DB call)) calls

def lockedBy (DB : Type) [Statements DB K V C] (calls : List C) : List (Lock K) :=
  calls.flatMap (locks DB)

def writtenBy (DB : Type) [Statements DB K V C] (calls : List C) : List V :=
  calls.flatMap (rows DB)

@[simp] theorem lockedBy_nil : lockedBy DB ([] : List C) = [] := rfl

@[simp] theorem writtenBy_nil : writtenBy DB ([] : List C) = [] := rfl

@[simp] theorem lockedBy_cons (call : C) (calls : List C) :
    lockedBy DB (call :: calls) = locks DB call ++ lockedBy DB calls := rfl

@[simp] theorem writtenBy_cons (call : C) (calls : List C) :
    writtenBy DB (call :: calls) = rows DB call ++ writtenBy DB calls := rfl

theorem lockedBy_append (left right : List C) :
    lockedBy DB (left ++ right) = lockedBy DB left ++ lockedBy DB right :=
  List.flatMap_append

theorem writtenBy_append (left right : List C) :
    writtenBy DB (left ++ right) = writtenBy DB left ++ writtenBy DB right :=
  List.flatMap_append

@[simp] theorem replays_cons {db : DB} {call : C} {calls : List C} :
    Replays db (call :: calls) ↔ holds db call ∧ Replays (write db (rows DB call)) calls := Iff.rfl

theorem replays_append {db : DB} {left right : List C} : Replays db (left ++ right) ↔
    Replays db left ∧ Replays (write db (writtenBy DB left)) right := by
  induction left generalizing db with
  | nil => simp [Replays]
  | cons call left ih =>
    rw [List.cons_append, replays_cons, replays_cons, ih, writtenBy_cons, write_append, and_assoc]

/-- Every row is written under an exclusive lock. -/
theorem covers_writtenBy {calls : List C} : ∀ row ∈ writtenBy DB calls,
    ∃ lock ∈ lockedBy DB calls, lock.key = key DB row ∧ lock.mode.exclusive = true := by
  intro row hrow
  obtain ⟨call, hcall, hrow⟩ := List.mem_flatMap.mp hrow
  obtain ⟨lock, hlock, hkey⟩ := covers call row hrow
  exact ⟨lock, List.mem_flatMap.mpr ⟨call, hcall, hlock⟩, hkey⟩

theorem Replays.extends {db : DB} {calls : List C} (h : Replays db calls) [DecidableEq K] :
    Extends db (write db (writtenBy DB calls)) := by
  induction calls generalizing db with
  | nil => exact Extends.refl db
  | cons call calls ih =>
    rw [writtenBy_cons, write_append]
    exact (extends_write (admits h.1)).trans (ih h.2)

/-- Calls can be replayed on a later store that has not moved the rows they locked. -/
theorem Replays.stable {db db' : DB} {calls : List C} (h : Replays db calls)
    (hextends : Extends db db') (hlocked : ∀ lock ∈ lockedBy DB calls,
      lock.mode.exclusive = true → lookup db' lock.key = lookup db lock.key) [DecidableEq K] :
    Replays db' calls := by
  induction calls generalizing db db' with
  | nil => trivial
  | cons call calls ih =>
    refine ⟨Statements.stable h.1 hextends ?_, ih h.2 (hextends.write _) ?_⟩
    · intro lock hlock
      exact hlocked lock (List.mem_append_left _ hlock)
    · intro lock hlock hmode
      exact lookup_write_congr _ (hlocked lock (List.mem_append_right _ hlock) hmode)

end Statements

/-- An open transaction: when it began and the statements it has executed.
After a failed statement it can only be closed. -/
structure Tx (C T : Type) where
  owner : Nat
  startedAt : T
  calls : List C
  aborted : Bool

def Tx.fresh {C T : Type} (owner : Nat) (startedAt : T) : Tx C T := ⟨owner, startedAt, [], false⟩

def Tx.extend {C T : Type} (tx : Tx C T) (call : C) (aborted : Bool) : Tx C T :=
  { tx with calls := tx.calls ++ [call], aborted }

@[simp] theorem Tx.extend_owner {C T : Type} (tx : Tx C T) (call : C) (aborted : Bool) :
    (tx.extend call aborted).owner = tx.owner := rfl

structure TxState (DB C T : Type) where
  db : DB
  txs : Table Nat (Tx C T) Tx.owner

namespace TxState

open Store Statements

variable {DB K V C T : Type} [Statements DB K V C] [DecidableEq K]

/-- No transaction but `thread` holds a lock that keeps `wanted` from being granted. -/
def grants (state : TxState DB C T) (thread : Option Nat) (wanted : List (Lock K)) : Bool :=
  state.txs.rows.all fun tx =>
    decide (thread = some tx.owner) || !blocks wanted (lockedBy DB tx.calls)

/-- What the transaction `tx` sees. -/
def view (state : TxState DB C T) (tx : Tx C T) : DB := write state.db (writtenBy DB tx.calls)

theorem not_blocks_of_grants {state : TxState DB C T} {thread : Option Nat}
    {wanted : List (Lock K)} (h : state.grants thread wanted = true) {tx : Tx C T}
    (htx : tx ∈ state.txs.rows) (hself : thread ≠ some tx.owner) :
    blocks wanted (lockedBy DB tx.calls) = false := by
  have := List.all_eq_true.mp h tx htx
  simpa [hself] using this

/-- Everything one transaction, or one statement outside any, can do. -/
inductive Move (thread : Nat) (state : TxState DB C T) : TxState DB C T → Prop
  | skip : Move thread state state
  | begin (startedAt : T) : state.txs.find? thread = none →
      Move thread state { state with txs := state.txs.put (.fresh thread startedAt) }
  | autocommit (call : C) : state.grants none (locks DB call) = true → holds state.db call →
      Move thread state { state with db := write state.db (rows DB call) }
  | statement (tx : Tx C T) (call : C) (aborted : Bool) : state.txs.find? thread = some tx →
      state.grants (some thread) (locks DB call) = true → holds (state.view tx) call →
      Move thread state { state with txs := state.txs.put (tx.extend call aborted) }
  | commit (tx : Tx C T) : state.txs.find? thread = some tx →
      Move thread state ⟨state.view tx, state.txs.erase thread⟩
  | close : Move thread state { state with txs := state.txs.erase thread }

/-- Strict two-phase locking, as an invariant: open transactions hold no
conflicting locks, and what they did still has the same results on the rows
that are committed by now. -/
structure Isolated (state : TxState DB C T) : Prop where
  compatible : ∀ tx ∈ state.txs.rows, ∀ other ∈ state.txs.rows, tx.owner ≠ other.owner →
    blocks (lockedBy DB tx.calls) (lockedBy DB other.calls) = false
  replays : ∀ tx ∈ state.txs.rows, Replays state.db tx.calls

theorem isolated_of_empty {state : TxState DB C T} (h : state.txs = .empty) : state.Isolated :=
  ⟨by simp [h, Table.empty], by simp [h, Table.empty]⟩

/-- What was written under locks compatible with `held` leaves the rows locked
for writing in `held` alone. -/
theorem lookup_of_not_blocks {wanted held : List (Lock K)} {rows : List V} (db : DB)
    (hcovers : ∀ row ∈ rows, ∃ lock ∈ wanted, lock.key = key DB row ∧ lock.mode.exclusive = true)
    (hblocks : blocks wanted held = false) {lock : Lock K} (hlock : lock ∈ held)
    (hmode : lock.mode.exclusive = true) :
    lookup (write db rows) lock.key = lookup db lock.key := by
  refine lookup_write_of_ne _ db ?_
  intro row hrow heq
  obtain ⟨own, hown, hkey, hexclusive⟩ := hcovers row hrow
  have : blocks wanted held = true :=
    blocks_iff.mpr ⟨own, hown, lock, hlock, hkey.trans heq,
      LockMode.conflicts_of_exclusive hexclusive hmode⟩
  rw [this] at hblocks
  cases hblocks

/-- A transaction survives whatever is committed under locks compatible with its own. -/
theorem replays_write {db : DB} {calls others : List C} (h : Replays db calls)
    (hothers : Replays db others)
    (hblocks : blocks (lockedBy DB others) (lockedBy DB calls) = false) :
    Replays (write db (writtenBy DB others)) calls :=
  h.stable hothers.extends fun _ hlock hmode =>
    lookup_of_not_blocks db covers_writtenBy hblocks hlock hmode

/-- The same for rows that no statement of `C` writes. -/
theorem Isolated.write {state : TxState DB C T} (h : state.Isolated) {wanted : List (Lock K)}
    {rows : List V} (hgrants : state.grants none wanted = true)
    (hcovers : ∀ row ∈ rows, ∃ lock ∈ wanted, lock.key = key DB row ∧ lock.mode.exclusive = true)
    (hadmits : Admits state.db rows) : Isolated { state with db := Store.write state.db rows } := by
  refine ⟨h.compatible, ?_⟩
  intro tx htx
  refine (h.replays tx htx).stable (extends_write hadmits) ?_
  intro lock hlock hmode
  exact lookup_of_not_blocks state.db hcovers (not_blocks_of_grants hgrants htx (by simp))
    hlock hmode

theorem Isolated.erase {db : DB} {state : TxState DB C T} (h : state.Isolated) (thread : Nat)
    (hdb : ∀ tx ∈ state.txs.rows, tx.owner ≠ thread → Replays db tx.calls) :
    Isolated (⟨db, state.txs.erase thread⟩ : TxState DB C T) := by
  refine ⟨?_, ?_⟩
  · intro left hleft right hright hne
    exact h.compatible left (Table.mem_erase.mp hleft).1 right (Table.mem_erase.mp hright).1 hne
  · intro tx htx
    exact hdb tx (Table.mem_erase.mp htx).1 (Table.mem_erase.mp htx).2

theorem Isolated.begin {state : TxState DB C T} (h : state.Isolated) (thread : Nat)
    (startedAt : T) :
    Isolated { state with txs := state.txs.put (.fresh thread startedAt) } := by
  refine ⟨?_, ?_⟩
  · intro tx htx other hother hne
    rcases Table.mem_put htx with rfl | htx
    · rfl
    · rcases Table.mem_put hother with rfl | hother
      · rw [blocks_comm]; rfl
      · exact h.compatible tx htx other hother hne
  · intro tx htx
    rcases Table.mem_put htx with rfl | htx
    · trivial
    · exact h.replays tx htx

theorem Isolated.statement {state : TxState DB C T} (h : state.Isolated) {thread : Nat}
    {tx : Tx C T} {call : C} {aborted : Bool} (hfind : state.txs.find? thread = some tx)
    (hgrants : state.grants (some thread) (locks DB call) = true)
    (hholds : holds (state.view tx) call) :
    Isolated { state with txs := state.txs.put (tx.extend call aborted) } := by
  obtain ⟨htx, howner⟩ := Table.find?_mem hfind
  have hlocked : lockedBy DB (tx.extend call aborted).calls =
      lockedBy DB tx.calls ++ locks DB call := by
    simp [Tx.extend, lockedBy_append]
  -- The new locks were granted against everyone else's.
  have hnew : ∀ other ∈ state.txs.rows, tx.owner ≠ other.owner →
      blocks (lockedBy DB (tx.extend call aborted).calls) (lockedBy DB other.calls) = false := by
    intro other hother hne
    rw [hlocked, blocks_append, h.compatible tx htx other hother hne,
      not_blocks_of_grants hgrants hother (by simpa [← howner] using hne)]
    rfl
  refine ⟨?_, ?_⟩
  · intro left hleft right hright hne
    rcases Table.mem_put hleft with rfl | hleft
    · rcases Table.mem_put hright with rfl | hright
      · exact absurd rfl hne
      · exact hnew right hright hne
    · rcases Table.mem_put hright with rfl | hright
      · rw [blocks_comm]
        exact hnew left hleft hne.symm
      · exact h.compatible left hleft right hright hne
  · intro other hother
    rcases Table.mem_put hother with rfl | hother
    · exact replays_append.mpr ⟨h.replays tx htx, hholds, trivial⟩
    · exact h.replays other hother

theorem Isolated.move {thread : Nat} {state state' : TxState DB C T} (h : state.Isolated)
    (hmove : Move thread state state') : state'.Isolated := by
  cases hmove with
  | skip => exact h
  | begin startedAt _ => exact h.begin thread startedAt
  | autocommit call hgrants hholds =>
    refine ⟨h.compatible, ?_⟩
    intro tx htx
    have hcall : Replays state.db [call] := ⟨hholds, trivial⟩
    have hreplays := replays_write (h.replays tx htx) hcall
      (by simpa using not_blocks_of_grants hgrants htx (by simp))
    simpa using hreplays
  | statement tx call aborted hfind hgrants hholds => exact h.statement hfind hgrants hholds
  | commit tx hfind =>
    obtain ⟨htx, howner⟩ := Table.find?_mem hfind
    refine h.erase thread ?_
    intro other hother hne
    exact replays_write (h.replays other hother) (h.replays tx htx)
      (h.compatible tx htx other hother (by rw [howner]; exact hne.symm))
  | close => exact h.erase thread fun tx htx _ => h.replays tx htx

/-- Whatever a move commits is a serial execution on the rows committed before. -/
theorem Move.executes {thread : Nat} {state state' : TxState DB C T} (h : state.Isolated)
    (hmove : Move thread state state') : ∃ calls, Replays state.db calls ∧
      state'.db = write state.db (writtenBy DB calls) := by
  cases hmove with
  | autocommit call _ hholds => exact ⟨[call], ⟨hholds, trivial⟩, by simp⟩
  | commit tx hfind => exact ⟨tx.calls, h.replays tx (Table.find?_mem hfind).1, rfl⟩
  | _ => exact ⟨[], trivial, rfl⟩

/-- No move loses a row or changes what an update has to keep. -/
theorem Move.extends {thread : Nat} {state state' : TxState DB C T} (h : state.Isolated)
    (hmove : Move thread state state') : Extends state.db state'.db := by
  obtain ⟨calls, hreplays, hdb⟩ := hmove.executes h
  rw [hdb]
  exact hreplays.extends

/-- A move leaves the transactions of the other threads as they are. -/
theorem Move.find?_of_ne {thread other : Nat} {state state' : TxState DB C T}
    (hmove : Move thread state state') (hne : other ≠ thread) :
    state'.txs.find? other = state.txs.find? other := by
  cases hmove with
  | begin startedAt _ => exact Table.find?_put_of_ne _ _ hne
  | statement tx call aborted hfind =>
    refine Table.find?_put_of_ne _ _ ?_
    rw [Tx.extend_owner, (Table.find?_mem hfind).2]
    exact hne
  | commit tx _ => rw [Table.find?_erase, if_neg hne]
  | close => rw [Table.find?_erase, if_neg hne]
  | _ => rfl

end TxState
end SimpleBank.Library
