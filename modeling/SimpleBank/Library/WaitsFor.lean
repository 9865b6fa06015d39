import Mathlib.Data.Finset.Max
import Mathlib.Logic.Relation

/-! Deadlocks as cycles of a waits-for relation.  It is enough that a rank
grows along it from one who waits to another who waits. -/
namespace SimpleBank.Library

variable {α β : Type} [LinearOrder β] {waits : α → α → Prop} {rank : α → β}

theorem rank_lt_of_transGen (hrank : ∀ a b c, waits a b → waits b c → rank a < rank b)
    {a b : α} (hpath : Relation.TransGen waits a b) : ∀ c, waits b c → rank a < rank b := by
  induction hpath with
  | single hab => exact fun c hlast => hrank _ _ _ hab hlast
  | tail _ hbc ih => exact fun d hlast => (ih _ hbc).trans (hrank _ _ _ hbc hlast)

/-- Nobody waits for itself, however indirectly. -/
theorem acyclic_of_rank (hrank : ∀ a b c, waits a b → waits b c → rank a < rank b) (a : α) :
    ¬Relation.TransGen waits a a := by
  intro hcycle
  obtain ⟨b, hfirst, -⟩ := Relation.TransGen.head'_iff.mp hcycle
  have hlt : rank a < rank a := rank_lt_of_transGen hrank hcycle b hfirst
  exact lt_irrefl _ hlt

/-- Among finitely many who wait only for each other, one does not wait. -/
theorem exists_not_waiting (hrank : ∀ a b c, waits a b → waits b c → rank a < rank b)
    {members : Finset α} (hnonempty : members.Nonempty)
    (hclosed : ∀ a ∈ members, ∀ b, waits a b → b ∈ members) :
    ∃ a ∈ members, ∀ b, ¬waits a b := by
  obtain ⟨a, ha, hmax⟩ := members.exists_max_image rank hnonempty
  by_cases hwaits : ∃ b, waits a b
  · obtain ⟨b, hab⟩ := hwaits
    refine ⟨b, hclosed a ha b hab, fun c hbc => ?_⟩
    exact absurd (hmax b (hclosed a ha b hab)) (not_le.mpr (hrank _ _ _ hab hbc))
  · exact ⟨a, ha, fun b hab => hwaits ⟨b, hab⟩⟩

end SimpleBank.Library
