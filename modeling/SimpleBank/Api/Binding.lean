import SimpleBank.Util
import SimpleBank.World

/-! Gin's request binding: the struct tags of the requests as checks, with the
messages of the validator.  A field reports the first of its tags that fails. -/
namespace SimpleBank.Api
open Db

structure Tag where
  name : String
  holds : Bool

namespace Tag

def required (isZero : Bool) : Tag := ⟨"required", !isZero⟩

/-- `min` on a string counts runes. -/
def minLength (n : Nat) (value : String) : Tag := ⟨"min", n ≤ value.length⟩

def alphanum (value : String) : Tag :=
  ⟨"alphanum", !value.toList.isEmpty && value.toList.all Char.isAlphanum⟩

def email (deps : Deps) (value : String) : Tag := ⟨"email", deps.isEmail value⟩

/-- `validCurrency`. -/
def currency (value : String) : Tag := ⟨"currency", Util.isSupportedCurrency value⟩

end Tag

/-- What the validator says about one field of a struct. -/
def checkField (struct field : String) (tags : List Tag) : Option String :=
  (tags.find? fun tag => !tag.holds).map fun tag =>
    "Key: '" ++ struct ++ "." ++ field ++ "' Error:Field validation for '" ++ field ++
      "' failed on the '" ++ tag.name ++ "' tag"

def validate (fields : List (Option String)) : Except Err Unit :=
  match fields.filterMap id with
  | [] => .ok ()
  | messages => .error (.text ("\n".intercalate messages))

/-- A request as it arrives: decoded, or with the decoder's complaint. -/
abbrev Body (α : Type) := Except String α

/-- `ShouldBind…`: decode, then validate. -/
def bind {α : Type} (body : Body α) (check : α → Except Err Unit) : Except Err α :=
  match body with
  | .error message => .error (.text message)
  | .ok req => (check req).map fun _ => req

theorem checkField_eq_none {struct field : String} {tags : List Tag} :
    checkField struct field tags = none ↔ ∀ tag ∈ tags, tag.holds = true := by
  simp [checkField]

theorem validate_eq_ok {fields : List (Option String)} {value : Unit} :
    validate fields = .ok value ↔ ∀ field ∈ fields, field = none := by
  have hnone : fields.filterMap id = [] ↔ ∀ field ∈ fields, field = none := by simp
  unfold validate
  rw [← hnone]
  cases fields.filterMap id <;> simp

theorem bind_eq_ok {α : Type} {body : Body α} {check : α → Except Err Unit} {req : α} :
    bind body check = .ok req ↔ body = .ok req ∧ check req = .ok () := by
  cases body with
  | error message => simp [bind]
  | ok found =>
    cases hcheck : check found with
    | error err =>
      simp only [bind, hcheck, Except.map, reduceCtorEq, Except.ok.injEq, false_iff, not_and]
      rintro rfl
      simp [hcheck]
    | ok value =>
      simp only [bind, hcheck, Except.map, Except.ok.injEq]
      constructor
      · rintro rfl
        exact ⟨rfl, hcheck⟩
      · exact fun h => h.1

end SimpleBank.Api
