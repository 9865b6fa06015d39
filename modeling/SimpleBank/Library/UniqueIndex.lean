import SimpleBank.Library.RowLocks

/-! Unique indexes over transactions.  A statement checks an index on what its
transaction sees, which need not be what is committed by the end of it; so it
also locks each entry that it makes.  Then the index stays unique whatever is
committed in between. -/
namespace SimpleBank.Library

open Store Statements

variable {DB K V C T : Type} [Statements DB K V C]

/-- No two rows have the same entry, which is named by the key it is locked under. -/
def UniqueIn (entry : V → Option K) (db : DB) : Prop :=
  ∀ ⦃k k' row row' e⦄, lookup db k = some row → lookup db k' = some row' →
    entry row = some e → entry row' = some e → k = k'

/-- The row has the entry that it had before, or one that is locked. -/
def Claims (entry : V → Option K) (db : DB) (locks : List (Lock K)) (row : V) : Prop :=
  ∀ e, entry row = some e → (∃ old, lookup db (key DB row) = some old ∧ entry old = some e) ∨
    ∃ lock ∈ locks, lock.key = e ∧ lock.mode.exclusive = true

/-- A call that checks the index before it writes. -/
structure Checks (entry : V → Option K) (db : DB) (call : C) : Prop where
  claims : ∀ row ∈ rows DB call, Claims entry db (locks DB call) row
  unique : UniqueIn entry db → UniqueIn entry (write db (rows DB call))

section Rows

variable [DecidableEq K] {entry : V → Option K} {db : DB}

theorem UniqueIn.put (h : UniqueIn entry db) {row : V}
    (hfree : ∀ e, entry row = some e → ∀ k other, lookup db k = some other →
      entry other = some e → k = key DB row) : UniqueIn entry (Store.put db row) := by
  intro k k' left right e hleft hright hentry hentry'
  rw [lookup_put] at hleft hright
  split at hleft
  · rename_i hk
    split at hright
    · rename_i hk'
      rw [hk, hk']
    · cases hleft
      rw [hk, hfree e hentry k' right hright hentry']
  · split at hright
    · rename_i hk'
      cases hright
      rw [hk', hfree e hentry' k left hleft hentry]
    · exact h hleft hright hentry hentry'

/-- An update that leaves the entry alone. -/
theorem UniqueIn.put_kept (h : UniqueIn entry db) {row old : V}
    (hold : lookup db (key DB row) = some old) (hentry : entry old = entry row) :
    UniqueIn entry (Store.put db row) :=
  h.put fun _ hrow _ _ hother hother' => h hother hold hother' (hentry.trans hrow)

/-- A key that is written holds the last row written, whatever was there before. -/
theorem exists_of_lookup_write {rows : List V} {k : K} (h : ∃ row ∈ rows, key DB row = k) :
    ∃ row ∈ rows, key DB row = k ∧ ∀ db : DB, lookup (write db rows) k = some row := by
  induction rows with
  | nil => simp at h
  | cons row rows ih =>
    by_cases hrest : ∃ other ∈ rows, key DB other = k
    · obtain ⟨last, hmem, hkey, hlast⟩ := ih hrest
      exact ⟨last, List.mem_cons_of_mem _ hmem, hkey, fun db => hlast (Store.put db row)⟩
    · obtain ⟨other, hmem, hkey⟩ := h
      rcases List.mem_cons.mp hmem with rfl | hmem
      · refine ⟨other, List.mem_cons_self, hkey, fun db => ?_⟩
        calc
          lookup (write db (other :: rows)) k = lookup (Store.put db other) k :=
            lookup_write_of_ne rows (Store.put db other) fun row hrow heq => hrest ⟨row, hrow, heq⟩
          _ = some other := by rw [lookup_put, if_pos hkey.symm]
      · exact absurd ⟨other, hmem, hkey⟩ hrest

end Rows

section Merge

variable [DecidableEq K] {entry : V → Option K} {db : DB} {calls : List C} {rows : List V}
  {wanted : List (Lock K)}

/-- A row that is locked for writing is not moved by what others commit. -/
theorem lookup_of_claimed
    (hcovers : ∀ row ∈ rows, ∃ lock ∈ wanted, lock.key = key DB row ∧ lock.mode.exclusive = true)
    (hblocks : blocks wanted (lockedBy DB calls) = false) {row : V} (hrow : row ∈ writtenBy DB calls) :
    lookup (write db rows) (key DB row) = lookup db (key DB row) := by
  obtain ⟨lock, hlock, hkey, hmode⟩ := covers_writtenBy row hrow
  rw [← hkey]
  exact TxState.lookup_of_not_blocks db hcovers hblocks hlock hmode

theorem claims_write
    (hcovers : ∀ row ∈ rows, ∃ lock ∈ wanted, lock.key = key DB row ∧ lock.mode.exclusive = true)
    (hblocks : blocks wanted (lockedBy DB calls) = false)
    (hclaims : ∀ row ∈ writtenBy DB calls, Claims entry db (lockedBy DB calls) row) :
    ∀ row ∈ writtenBy DB calls,
      Claims entry (write db rows) (lockedBy DB calls) row := by
  intro row hrow e hentry
  rw [lookup_of_claimed hcovers hblocks hrow]
  exact hclaims row hrow e hentry

/-- Of two rows with one entry, one written by the open calls and one committed
meanwhile, both are the same row. -/
theorem key_eq_of_merge
    (hcovers : ∀ row ∈ rows, ∃ lock ∈ wanted, lock.key = key DB row ∧ lock.mode.exclusive = true)
    (hdb : UniqueIn entry (write db rows))
    (hview : UniqueIn entry (write db (writtenBy DB calls)))
    (hclaims : ∀ row ∈ writtenBy DB calls, Claims entry db (lockedBy DB calls) row)
    (hothers : ∀ row ∈ rows, Claims entry db wanted row)
    (hblocks : blocks wanted (lockedBy DB calls) = false) {k k' : K} {row row' : V}
    {e : K} (hmem : row ∈ writtenBy DB calls) (hkey : key DB row = k)
    (hrow : lookup (write db (writtenBy DB calls)) k = some row)
    (hnot : ∀ other ∈ writtenBy DB calls, key DB other ≠ k')
    (hrow' : lookup (write db rows) k' = some row')
    (hentry : entry row = some e) (hentry' : entry row' = some e) : k = k' := by
  have hsame : lookup (write db (writtenBy DB calls)) k' = lookup db k' :=
    lookup_write_of_ne _ db hnot
  rcases hclaims row hmem e hentry with ⟨old, hold, hentryOld⟩ | ⟨lock, hlock, hlockKey, hmode⟩
  · -- the open calls left the entry where it was, and nobody else could take it
    have hstill : lookup (write db rows) k = some old := by
      rw [← hkey, lookup_of_claimed hcovers hblocks hmem]
      exact hold
    exact hdb hstill hrow' hentryOld hentry'
  rcases lookup_write rows db k' with hunmoved | ⟨other, hother, hkey', hfound⟩
  · rw [hunmoved] at hrow'
    exact hview hrow (hsame.trans hrow') hentry hentry'
  cases hfound.symm.trans hrow'
  rcases hothers row' hother e hentry' with ⟨old, hold, hentryOld⟩ | ⟨held, hheld, hheldKey, hmode'⟩
  · exact hview hrow (hsame.trans (hkey' ▸ hold)) hentry hentryOld
  · rw [blocks_iff.mpr ⟨held, hheld, lock, hlock, hheldKey.trans hlockKey.symm,
      LockMode.conflicts_of_exclusive hmode' hmode⟩] at hblocks
    cases hblocks

/-- What an open transaction sees stays unique when others commit under locks
that are compatible with its own. -/
theorem UniqueIn.merge
    (hcovers : ∀ row ∈ rows, ∃ lock ∈ wanted, lock.key = key DB row ∧ lock.mode.exclusive = true)
    (hdb : UniqueIn entry (write db rows))
    (hview : UniqueIn entry (write db (writtenBy DB calls)))
    (hclaims : ∀ row ∈ writtenBy DB calls, Claims entry db (lockedBy DB calls) row)
    (hothers : ∀ row ∈ rows, Claims entry db wanted row)
    (hblocks : blocks wanted (lockedBy DB calls) = false) :
    UniqueIn entry (write (write db rows) (writtenBy DB calls)) := by
  -- a key that the open calls have written holds what it holds in their view
  have split : ∀ {k row}, lookup (write (write db rows) (writtenBy DB calls)) k =
      some row → (row ∈ writtenBy DB calls ∧ key DB row = k ∧
        lookup (write db (writtenBy DB calls)) k = some row) ∨
      ((∀ other ∈ writtenBy DB calls, key DB other ≠ k) ∧
        lookup (write db rows) k = some row) := by
    intro k row hrow
    by_cases hwritten : ∃ other ∈ writtenBy DB calls, key DB other = k
    · obtain ⟨last, hmem, hkey, hlast⟩ := exists_of_lookup_write hwritten
      cases (hlast _).symm.trans hrow
      exact .inl ⟨hmem, hkey, hlast db⟩
    · have hnot : ∀ other ∈ writtenBy DB calls, key DB other ≠ k :=
        fun other hmem hkey => hwritten ⟨other, hmem, hkey⟩
      rw [lookup_write_of_ne _ _ hnot] at hrow
      exact .inr ⟨hnot, hrow⟩
  intro k k' row row' e hrow hrow' hentry hentry'
  rcases split hrow with ⟨hmem, hkey, hfound⟩ | ⟨hnot, hfound⟩
  · rcases split hrow' with ⟨-, -, hfound'⟩ | ⟨hnot', hfound'⟩
    · exact hview hfound hfound' hentry hentry'
    · exact key_eq_of_merge hcovers hdb hview hclaims hothers hblocks hmem hkey hfound hnot' hfound' hentry
        hentry'
  · rcases split hrow' with ⟨hmem', hkey', hfound'⟩ | ⟨-, hfound'⟩
    · exact (key_eq_of_merge hcovers hdb hview hclaims hothers hblocks hmem' hkey' hfound' hnot hfound
        hentry' hentry).symm
    · exact hdb hfound hfound' hentry hentry'

end Merge

/-- The index is unique in what is committed and in what each open transaction
sees, and each has locked the entries it has made. -/
structure TxState.Indexed (entry : V → Option K) (state : TxState DB C T) : Prop where
  unique : UniqueIn entry state.db
  views : ∀ tx ∈ state.txs.rows, UniqueIn entry (state.view tx)
  claims : ∀ tx ∈ state.txs.rows, ∀ row ∈ writtenBy DB tx.calls,
    Claims entry state.db (lockedBy DB tx.calls) row

namespace TxState.Indexed

variable {entry : V → Option K} {state : TxState DB C T} {thread : Nat}

theorem of_empty (htxs : state.txs = .empty) (h : UniqueIn entry state.db) : state.Indexed entry :=
  ⟨h, by simp [htxs, Table.empty], by simp [htxs, Table.empty]⟩

theorem begin (h : state.Indexed entry) (startedAt : T) :
    Indexed entry { state with txs := state.txs.put (.fresh thread startedAt) } := by
  refine ⟨h.unique, fun tx htx => ?_, fun tx htx => ?_⟩
  · rcases Table.mem_put htx with rfl | htx
    · exact h.unique
    · exact h.views tx htx
  · rcases Table.mem_put htx with rfl | htx
    · exact fun _ hrow => nomatch hrow
    · exact h.claims tx htx

theorem close (h : state.Indexed entry) : Indexed entry { state with txs := state.txs.erase thread } :=
  ⟨h.unique, fun tx htx => h.views tx (Table.mem_erase.mp htx).1,
    fun tx htx => h.claims tx (Table.mem_erase.mp htx).1⟩

variable [DecidableEq K]

/-- Rows that are committed, and the transactions that stay open. -/
theorem committed (h : state.Indexed entry) {rows : List V} {wanted : List (Lock K)}
    {txs : Table Nat (Tx C T) Tx.owner}
   
    (hcovers : ∀ row ∈ rows, ∃ lock ∈ wanted, lock.key = key DB row ∧ lock.mode.exclusive = true)
    (hunique : UniqueIn entry (write state.db rows))
    (hclaims : ∀ row ∈ rows, Claims entry state.db wanted row)
    (htxs : ∀ tx ∈ txs.rows, tx ∈ state.txs.rows ∧ blocks wanted (lockedBy DB tx.calls) = false) :
    Indexed entry (⟨write state.db rows, txs⟩ : TxState DB C T) := by
  refine ⟨hunique, fun tx htx => ?_, fun tx htx => ?_⟩
  · obtain ⟨hmem, hblocks⟩ := htxs tx htx
    exact hunique.merge hcovers (h.views tx hmem) (h.claims tx hmem) hclaims hblocks
  · obtain ⟨hmem, hblocks⟩ := htxs tx htx
    exact claims_write hcovers hblocks (h.claims tx hmem)

theorem autocommit (h : state.Indexed entry) {call : C}
    (hgrants : state.grants none (locks DB call) = true) (hchecks : Checks entry state.db call) :
    Indexed entry { state with db := write state.db (rows DB call) } :=
  h.committed (covers call) (hchecks.unique h.unique) hchecks.claims
    fun _ htx => ⟨htx, not_blocks_of_grants hgrants htx (by simp)⟩

theorem commit (h : state.Indexed entry) (hisolated : state.Isolated) {tx : Tx C T}
    (hfind : state.txs.find? thread = some tx) :
    Indexed entry (⟨state.view tx, state.txs.erase thread⟩ : TxState DB C T) := by
  obtain ⟨hmem, howner⟩ := Table.find?_mem hfind
  refine h.committed covers_writtenBy (h.views tx hmem) (h.claims tx hmem) fun other hother => ?_
  obtain ⟨hother, hne⟩ := Table.mem_erase.mp hother
  exact ⟨hother, hisolated.compatible tx hmem other hother (by rw [howner]; exact hne.symm)⟩

/-- A statement is checked on what its transaction sees. -/
theorem statement (h : state.Indexed entry) {tx : Tx C T} {call : C} {aborted : Bool}
    (hfind : state.txs.find? thread = some tx) (hchecks : Checks entry (state.view tx) call) :
    Indexed entry { state with txs := state.txs.put (tx.extend call aborted) } := by
  obtain ⟨hmem, -⟩ := Table.find?_mem hfind
  refine ⟨h.unique, fun other hother => ?_, fun other hother => ?_⟩
  · rcases Table.mem_put hother with rfl | hother
    · have hview := hchecks.unique (h.views tx hmem)
      simpa [view, Tx.extend, writtenBy_append, write_append] using hview
    · exact h.views other hother
  · rcases Table.mem_put hother with rfl | hother
    · intro row hrow e hentry
      simp only [Tx.extend, writtenBy_append, lockedBy_append, List.mem_append, writtenBy_cons,
        writtenBy_nil, List.append_nil, lockedBy_cons, lockedBy_nil] at hrow ⊢
      rcases hrow with hrow | hrow
      · rcases h.claims tx hmem row hrow e hentry with hkept | ⟨lock, hlock, hrest⟩
        · exact .inl hkept
        · exact .inr ⟨lock, .inl hlock, hrest⟩
      · rcases hchecks.claims row hrow e hentry with ⟨old, hold, hentryOld⟩ | ⟨lock, hlock, hrest⟩
        · -- the entry was there before the statement, from the tables or from the transaction
          rcases lookup_write (writtenBy DB tx.calls) state.db (key DB row) with hsame |
            ⟨earlier, hearlier, hkey, hfound⟩
          · exact .inl ⟨old, hsame.symm.trans hold, hentryOld⟩
          · cases hfound.symm.trans hold
            rcases h.claims tx hmem old hearlier e hentryOld with ⟨first, hfirst, hentryFirst⟩ |
              ⟨lock, hlock, hrest⟩
            · exact .inl ⟨first, hkey ▸ hfirst, hentryFirst⟩
            · exact .inr ⟨lock, .inl hlock, hrest⟩
        · exact .inr ⟨lock, .inr hlock, hrest⟩
    · exact h.claims other hother

end TxState.Indexed

end SimpleBank.Library
