import Mathlib.Data.List.Induction
import Mathlib.Tactic.Common

/-! Records that are edited field by field: an edit carries a value for some of
the fields, and each field keeps the last value it was given. -/
namespace SimpleBank.Library

variable {S E α : Type}

/-- The last value that an edit has for a field, else the default. -/
def lastOf (put : E → Option α) (edits : List E) (default : α) : α :=
  (edits.filterMap put).getLast?.getD default

@[simp] theorem lastOf_nil (put : E → Option α) (default : α) : lastOf put [] default = default := rfl

@[simp] theorem lastOf_none (edits : List E) (default : α) :
    lastOf (fun _ => none) edits default = default := by
  rw [lastOf, List.filterMap_eq_nil_iff.mpr fun _ _ => rfl]
  rfl

theorem lastOf_concat (put : E → Option α) (edits : List E) (edit : E) (default : α) :
    lastOf put (edits ++ [edit]) default = (put edit).getD (lastOf put edits default) := by
  cases h : put edit <;> simp [lastOf, List.filterMap_append, h]

/-- A field that only one value is ever written to. -/
theorem lastOf_eq_iff {put : E → Option α} {edits : List E} {default value : α}
    (hput : ∀ edit ∈ edits, ∀ other, put edit = some other → other = value)
    (hdefault : default ≠ value) :
    lastOf put edits default = value ↔ ∃ edit ∈ edits, put edit = some value := by
  unfold lastOf
  cases hlast : (edits.filterMap put).getLast? with
  | none =>
    have hempty : ∀ edit ∈ edits, put edit = none :=
      List.filterMap_eq_nil_iff.mp (List.getLast?_eq_none_iff.mp hlast)
    refine iff_of_false hdefault ?_
    rintro ⟨edit, hmem, hvalue⟩
    cases (hempty edit hmem).symm.trans hvalue
  | some last =>
    obtain ⟨edit, hmem, hedit⟩ := List.mem_filterMap.mp (List.mem_of_getLast? hlast)
    have hlast : last = value := hput edit hmem last hedit
    exact iff_of_true hlast ⟨edit, hmem, hlast ▸ hedit⟩

/-- The field of a record that an edit overwrites where it has a value for it. -/
structure Field (apply : E → S → S) (α : Type) where
  get : S → α
  put : E → Option α
  get_apply : ∀ edit state, get (apply edit state) = (put edit).getD (get state)

variable {apply : E → S → S}

/-- Edit by edit, the last writer of a field wins. -/
theorem Field.get_foldl (field : Field apply α) (edits : List E) (state : S) :
    field.get (edits.foldl (fun current edit => apply edit current) state) =
      lastOf field.put edits (field.get state) := by
  induction edits using List.reverseRecOn with
  | nil => rfl
  | append_singleton edits edit ih =>
    rw [List.foldl_append, List.foldl_cons, List.foldl_nil, field.get_apply, lastOf_concat, ih]

/-- Two edits that do not both write a field can change places. -/
theorem Field.get_comm (field : Field apply α) {first second : E}
    (h : field.put first = none ∨ field.put second = none) (state : S) :
    field.get (apply first (apply second state)) = field.get (apply second (apply first state)) := by
  simp only [field.get_apply]
  rcases h with h | h
  · rw [h]
    rfl
  · rw [h]
    rfl

end SimpleBank.Library
