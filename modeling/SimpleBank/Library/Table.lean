import Mathlib.Algebra.BigOperators.Group.List.Basic
import Mathlib.Data.List.Nodup
import Mathlib.Tactic.Abel

/-! Tables of rows that carry their own key.  No two rows of a table share a
key, and this is part of the table itself.  `put` is both an insert and an
update: it replaces the row with the same key or appends a new one. -/
namespace SimpleBank.Library

structure Table (κ ρ : Type) (key : ρ → κ) where
  rows : List ρ
  nodup : (rows.map key).Nodup

@[ext] theorem Table.ext {key : ρ → κ} {left right : Table κ ρ key}
    (h : left.rows = right.rows) : left = right := by
  cases left
  cases right
  cases h
  rfl

variable {κ ρ : Type} [DecidableEq κ]

def upsert (key : ρ → κ) (row : ρ) : List ρ → List ρ
  | [] => [row]
  | head :: tail => if key head = key row then row :: tail else head :: upsert key row tail

theorem upsert_fresh (key : ρ → κ) (row : ρ) (rows : List ρ)
    (h : ∀ other ∈ rows, key other ≠ key row) : upsert key row rows = rows ++ [row] := by
  induction rows with
  | nil => rfl
  | cons head tail ih =>
    rw [upsert, if_neg (h head List.mem_cons_self),
      ih fun other hmem => h other (List.mem_cons_of_mem _ hmem), List.cons_append]

/-- An update in place keeps every other row where it was. -/
theorem upsert_replace (key : ρ → κ) (row : ρ) {old : ρ} (rows : List ρ)
    (h : rows.find? (fun other => key other = key row) = some old) :
    ∃ before after, rows = before ++ old :: after ∧
      upsert key row rows = before ++ row :: after := by
  induction rows with
  | nil => simp at h
  | cons head tail ih =>
    unfold upsert
    split
    · rename_i heq
      rw [List.find?_cons_of_pos (by simpa using heq)] at h
      cases h
      exact ⟨[], tail, rfl, rfl⟩
    · rename_i hne
      rw [List.find?_cons_of_neg (by simpa using hne)] at h
      obtain ⟨before, after, htail, hput⟩ := ih h
      exact ⟨head :: before, after, by rw [htail]; rfl, by rw [hput]; rfl⟩

theorem mem_upsert (key : ρ → κ) (row : ρ) (rows : List ρ) {other : ρ}
    (h : other ∈ upsert key row rows) : other = row ∨ other ∈ rows := by
  cases hfind : rows.find? (fun other => key other = key row) with
  | none =>
    rw [upsert_fresh key row rows (by simpa using hfind)] at h
    simpa [or_comm] using h
  | some old =>
    obtain ⟨before, after, hrows, hput⟩ := upsert_replace key row rows hfind
    rw [hput] at h
    rw [hrows]
    simp only [List.mem_append, List.mem_cons] at h ⊢
    tauto

theorem nodup_upsert (key : ρ → κ) (row : ρ) (rows : List ρ) (h : (rows.map key).Nodup) :
    ((upsert key row rows).map key).Nodup := by
  cases hfind : rows.find? (fun other => key other = key row) with
  | none =>
    rw [upsert_fresh key row rows (by simpa using hfind), List.map_append, List.nodup_append]
    simp only [List.find?_eq_none, decide_eq_true_eq] at hfind
    simpa [h] using hfind
  | some old =>
    have hkey : key old = key row := by simpa using List.find?_some hfind
    obtain ⟨before, after, hrows, hput⟩ := upsert_replace key row rows hfind
    rw [hrows] at h
    rw [hput]
    simpa [hkey] using h

namespace Table

variable {key : ρ → κ}

instance [DecidableEq ρ] : DecidableEq (Table κ ρ key) := fun left right =>
  decidable_of_iff (left.rows = right.rows) ⟨Table.ext, fun h => h ▸ rfl⟩

def empty : Table κ ρ key := ⟨[], List.nodup_nil⟩

def find? (table : Table κ ρ key) (k : κ) : Option ρ :=
  table.rows.find? fun row => key row = k

def put (table : Table κ ρ key) (row : ρ) : Table κ ρ key :=
  ⟨upsert key row table.rows, nodup_upsert key row table.rows table.nodup⟩

def erase (table : Table κ ρ key) (k : κ) : Table κ ρ key :=
  ⟨table.rows.filter fun row => key row ≠ k, (List.filter_sublist.map key).nodup table.nodup⟩

@[simp] theorem find?_empty (k : κ) : (empty : Table κ ρ key).find? k = none := rfl

theorem find?_mem {table : Table κ ρ key} {k : κ} {row : ρ} (h : table.find? k = some row) :
    row ∈ table.rows ∧ key row = k :=
  ⟨List.mem_of_find?_eq_some h, by simpa using List.find?_some h⟩

theorem find?_of_mem {table : Table κ ρ key} {row : ρ} (h : row ∈ table.rows) :
    table.find? (key row) = some row := by
  obtain ⟨rows, nodup⟩ := table
  unfold find?
  dsimp only at h ⊢
  induction rows with
  | nil => cases h
  | cons head tail ih =>
    rw [List.map_cons, List.nodup_cons] at nodup
    rcases List.mem_cons.mp h with rfl | h
    · simp
    · have hne : key head ≠ key row := fun heq =>
        nodup.1 (heq ▸ List.mem_map_of_mem h)
      rw [List.find?_cons_of_neg (by simpa using hne)]
      exact ih nodup.2 h

theorem mem_iff {table : Table κ ρ key} {row : ρ} :
    row ∈ table.rows ↔ table.find? (key row) = some row :=
  ⟨find?_of_mem, fun h => (find?_mem h).1⟩

theorem ne_of_find?_eq_none {table : Table κ ρ key} {k : κ} (h : table.find? k = none) :
    ∀ row ∈ table.rows, key row ≠ k := by
  simpa [find?] using h

/-- The law every other fact about `put` rests on: it decides one key. -/
theorem find?_put (table : Table κ ρ key) (row : ρ) (k : κ) :
    (table.put row).find? k = if k = key row then some row else table.find? k := by
  unfold put find?
  dsimp only
  induction table.rows with
  | nil =>
    by_cases h : k = key row
    · simp [upsert, h]
    · simp [upsert, h, Ne.symm h]
  | cons head tail ih =>
    unfold upsert
    split
    · rename_i heq
      by_cases h : k = key row
      · simp [h]
      · simp [h, heq, Ne.symm h]
    · rename_i hne
      rw [List.find?_cons, List.find?_cons, ih]
      by_cases h : k = key row
      · simp [h, hne]
      · simp [h]

@[simp] theorem find?_put_self (table : Table κ ρ key) (row : ρ) :
    (table.put row).find? (key row) = some row := by
  rw [find?_put, if_pos rfl]

theorem find?_put_of_ne (table : Table κ ρ key) (row : ρ) {k : κ} (h : k ≠ key row) :
    (table.put row).find? k = table.find? k := by
  rw [find?_put, if_neg h]

theorem find?_erase (table : Table κ ρ key) (k other : κ) :
    (table.erase k).find? other = if other = k then none else table.find? other := by
  unfold erase find?
  rw [List.find?_filter]
  split
  · rename_i heq
    subst heq
    simp
  · rename_i hne
    congr 1
    funext row
    by_cases hkey : key row = other
    · simp [hkey, hne]
    · simp [hkey]

theorem mem_erase {table : Table κ ρ key} {k : κ} {row : ρ} :
    row ∈ (table.erase k).rows ↔ row ∈ table.rows ∧ key row ≠ k := by
  simp [erase]

theorem mem_put {table : Table κ ρ key} {row other : ρ} (h : other ∈ (table.put row).rows) :
    other = row ∨ other ∈ table.rows :=
  mem_upsert key row table.rows h

theorem rows_put_fresh {table : Table κ ρ key} {row : ρ} (h : table.find? (key row) = none) :
    (table.put row).rows = table.rows ++ [row] :=
  upsert_fresh key row table.rows (ne_of_find?_eq_none h)

theorem rows_put_existing {table : Table κ ρ key} {row old : ρ}
    (h : table.find? (key row) = some old) :
    ∃ before after, table.rows = before ++ old :: after ∧
      (table.put row).rows = before ++ row :: after :=
  upsert_replace key row table.rows h

/-- Two tables hold related rows under the same keys. -/
def Related (related : ρ → ρ → Prop) (left right : Table κ ρ key) : Prop :=
  ∀ k, Option.Rel related (left.find? k) (right.find? k)

section Related

variable {related : ρ → ρ → Prop} {left right : Table κ ρ key}

theorem Related.empty : Related related (empty : Table κ ρ key) .empty := fun _ => .none

theorem Related.refl (h : ∀ row, related row row) (table : Table κ ρ key) :
    Related related table table := by
  intro k
  cases table.find? k with
  | none => exact .none
  | some row => exact .some (h row)

theorem Related.put (h : Related related left right) {row other : ρ} (hrow : related row other)
    (hkey : key row = key other) : Related related (left.put row) (right.put other) := by
  intro k
  rw [find?_put, find?_put, hkey]
  split
  · exact .some hrow
  · exact h k

theorem Related.erase (h : Related related left right) (k : κ) :
    Related related (left.erase k) (right.erase k) := by
  intro other
  rw [find?_erase, find?_erase]
  split
  · exact .none
  · exact h other

/-- Under one key the tables hold nothing, or two related rows. -/
theorem Related.find?_cases (h : Related related left right) (k : κ) :
    (left.find? k = none ∧ right.find? k = none) ∨
    ∃ row other, left.find? k = some row ∧ right.find? k = some other ∧ related row other := by
  have hk := h k
  generalize left.find? k = found at hk ⊢
  generalize right.find? k = found' at hk ⊢
  cases hk with
  | none => exact .inl ⟨rfl, rfl⟩
  | some hrow => exact .inr ⟨_, _, rfl, rfl, hrow⟩

theorem Related.isSome_eq (h : Related related left right) (k : κ) :
    (left.find? k).isSome = (right.find? k).isSome := by
  rcases h.find?_cases k with ⟨hleft, hright⟩ | ⟨_, _, hleft, hright, -⟩
  · rw [hleft, hright]
  · rw [hleft, hright]
    rfl

/-- Related rows that pass the same test are there in both tables or in neither. -/
theorem Related.any_eq (h : Related related left right) {p : ρ → Bool}
    (hp : ∀ row other, related row other → p row = p other) :
    left.rows.any p = right.rows.any p := by
  rw [Bool.eq_iff_iff, List.any_eq_true, List.any_eq_true]
  constructor
  · rintro ⟨row, hmem, hrow⟩
    rcases h.find?_cases (key row) with ⟨hleft, -⟩ | ⟨found, other, hleft, hright, hrelated⟩
    · rw [find?_of_mem hmem] at hleft
      cases hleft
    · cases (find?_of_mem hmem).symm.trans hleft
      exact ⟨other, (find?_mem hright).1, hp row other hrelated ▸ hrow⟩
  · rintro ⟨other, hmem, hother⟩
    rcases h.find?_cases (key other) with ⟨-, hright⟩ | ⟨row, found, hleft, hright, hrelated⟩
    · rw [find?_of_mem hmem] at hright
      cases hright
    · cases (find?_of_mem hmem).symm.trans hright
      exact ⟨row, (find?_mem hleft).1, (hp row other hrelated).symm ▸ hother⟩

end Related

section Sum

variable {M : Type} [AddCommGroup M]

def sum (table : Table κ ρ key) (f : ρ → M) : M := (table.rows.map f).sum

theorem sum_put_fresh (f : ρ → M) {table : Table κ ρ key} {row : ρ}
    (h : table.find? (key row) = none) : (table.put row).sum f = table.sum f + f row := by
  simp [sum, rows_put_fresh h]

/-- Replacing a row moves the total by the difference of the two rows. -/
theorem sum_put (f : ρ → M) {table : Table κ ρ key} {row old : ρ}
    (h : table.find? (key row) = some old) :
    (table.put row).sum f = table.sum f + (f row - f old) := by
  obtain ⟨before, after, hrows, hput⟩ := rows_put_existing h
  unfold sum
  rw [hput, hrows]
  simp only [List.map_append, List.map_cons, List.sum_append, List.sum_cons]
  abel

end Sum
end Table
end SimpleBank.Library
