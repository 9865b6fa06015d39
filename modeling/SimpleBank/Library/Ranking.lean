import Mathlib.Data.List.Sort
import Mathlib.Tactic.Common
import Mathlib.Order.Defs.LinearOrder

/-! The rank of an element by a key, and the pages of a collection in the order
of the key. -/
namespace SimpleBank.Library

variable {α K : Type} [LinearOrder K] (key : α → K)

/-- How many elements have a smaller key. -/
def rank (elements : List α) (a : α) : Nat := elements.countP fun b => key b < key a

/-- `page` holds the elements of ranks from `low` up to `high`, in order. -/
structure IsPage (elements : List α) (low high : Nat) (page : List α) : Prop where
  ordered : page.Pairwise fun a b => key a < key b
  mem_iff : ∀ a, a ∈ page ↔ a ∈ elements ∧ low ≤ rank key elements a ∧ rank key elements a < high

variable {key} {elements sorted page other : List α} {low high size : Nat} {a : α}

theorem rank_eq_of_perm (h : elements.Perm sorted) : rank key elements a = rank key sorted a :=
  h.countP_eq _

theorem IsPage.of_perm (h : IsPage key sorted low high page) (hperm : elements.Perm sorted) :
    IsPage key elements low high page where
  ordered := h.ordered
  mem_iff b := by rw [h.mem_iff, hperm.mem_iff, rank_eq_of_perm hperm]

theorem IsPage.unique (h : IsPage key elements low high page)
    (hother : IsPage key elements low high other) : page = other := by
  have hirrefl : Std.Irrefl fun a b : α => key a < key b := ⟨fun a => lt_irrefl (key a)⟩
  have hasymm : Std.Antisymm fun a b : α => key a < key b :=
    ⟨fun _ _ hab hba => absurd hba (lt_asymm hab)⟩
  exact h.ordered.eq_of_mem_iff hother.ordered fun b => by rw [h.mem_iff, hother.mem_iff]

theorem rank_append {before after : List α}
    (h : (before ++ a :: after).Pairwise fun a b => key a < key b) :
    rank key (before ++ a :: after) a = before.length := by
  obtain ⟨-, hordered, hbefore⟩ := List.pairwise_append.mp h
  have hsmaller : before.countP (fun b => key b < key a) = before.length :=
    List.countP_eq_length.mpr fun b hb => decide_eq_true (hbefore b hb a List.mem_cons_self)
  have hlarger : after.countP (fun b => key b < key a) = 0 := by
    refine List.countP_eq_zero.mpr fun b hb => ?_
    simpa using le_of_lt ((List.pairwise_cons.mp hordered).1 b hb)
  rw [rank, List.countP_append, List.countP_cons, hsmaller, hlarger]
  simp

/-- In a list in order, an element's rank is its place. -/
theorem rank_getElem (h : sorted.Pairwise fun a b => key a < key b) {i : Nat}
    (hi : i < sorted.length) : rank key sorted sorted[i] = i := by
  have hsplit : sorted.take i ++ sorted[i] :: sorted.drop (i + 1) = sorted := by
    rw [← List.drop_eq_getElem_cons hi, List.take_append_drop]
  have hrank : rank key (sorted.take i ++ sorted[i] :: sorted.drop (i + 1)) sorted[i] =
      (sorted.take i).length := rank_append (hsplit.symm ▸ h)
  rw [hsplit] at hrank
  rw [hrank, List.length_take, Nat.min_eq_left (Nat.le_of_lt hi)]

theorem isPage_take_drop (h : sorted.Pairwise fun a b => key a < key b) (low size : Nat) :
    IsPage key sorted low (low + size) ((sorted.drop low).take size) where
  ordered := h.sublist ((List.take_sublist _ _).trans (List.drop_sublist _ _))
  mem_iff a := by
    constructor
    · intro hmem
      obtain ⟨i, hi, rfl⟩ := List.mem_take_iff_getElem.mp hmem
      rw [List.length_drop] at hi
      have hlt : low + i < sorted.length := by omega
      rw [List.getElem_drop, rank_getElem h hlt]
      exact ⟨List.getElem_mem hlt, Nat.le_add_right _ _, by omega⟩
    · rintro ⟨hmem, hlow, hhigh⟩
      obtain ⟨i, hi, rfl⟩ := List.getElem_of_mem hmem
      rw [rank_getElem h hi] at hlow hhigh
      refine List.mem_take_iff_getElem.mpr ⟨i - low, ?_, ?_⟩
      · rw [List.length_drop]
        omega
      · rw [List.getElem_drop]
        congr 1
        omega

/-- Elements that the key tells apart, sorted. -/
theorem insertionSort_ordered (h : (elements.map key).Nodup) :
    (elements.insertionSort fun a b => key a ≤ key b).Pairwise fun a b => key a < key b := by
  have : Std.Total fun a b : α => key a ≤ key b := ⟨fun a b => le_total (key a) (key b)⟩
  have : IsTrans α fun a b => key a ≤ key b := ⟨fun a b c => le_trans⟩
  have hle := List.pairwise_insertionSort (fun a b => key a ≤ key b) elements
  have hperm := List.perm_insertionSort (fun a b => key a ≤ key b) elements
  have hne := List.pairwise_map.mp ((hperm.map key).nodup_iff.mpr h)
  exact hle.and hne |>.imp fun hab => lt_of_le_of_ne hab.1 hab.2

theorem isPage_insertionSort (h : (elements.map key).Nodup) (low size : Nat) :
    IsPage key elements low (low + size)
      (((elements.insertionSort fun a b => key a ≤ key b).drop low).take size) :=
  (isPage_take_drop (insertionSort_ordered h) low size).of_perm
    (List.perm_insertionSort _ elements).symm

/-- Two stretches of one length that start at different places are the same
only where both are empty. -/
theorem take_drop_eq_iff (hnodup : sorted.Nodup) (hsize : 0 < size) {start : Nat}
    (hlt : start < low) :
    (sorted.drop start).take size = (sorted.drop low).take size ↔ sorted.length ≤ start := by
  constructor
  · intro h
    by_contra hstart
    have hfirst := congrArg (fun page => page[0]?) h
    simp only [List.getElem?_take, hsize, if_true, List.getElem?_drop, Nat.add_zero,
      List.getElem?_eq_getElem (Nat.not_le.mp hstart)] at hfirst
    obtain ⟨hlow, heq⟩ := List.getElem?_eq_some_iff.mp hfirst.symm
    exact absurd ((hnodup.getElem_inj_iff).mp heq) (by omega)
  · intro h
    rw [List.drop_eq_nil_of_le h, List.drop_eq_nil_of_le (h.trans hlt.le)]

end SimpleBank.Library
