import SimpleBank.World

/-! `val`: the field checks of the gRPC requests. -/
namespace SimpleBank.Val
open Db

/-- Go's `len` counts bytes. -/
def validateString (value : String) (minLength maxLength : Nat) : Except Err Unit :=
  let n := value.utf8ByteSize
  if n < minLength || n > maxLength then
    .error (.text ("must contain from " ++ toString minLength ++ "-" ++ toString maxLength ++
      " characters"))
  else .ok ()

theorem validateString_eq_ok {value : String} {minLength maxLength : Nat} {result : Unit} :
    validateString value minLength maxLength = .ok result ↔
      minLength ≤ value.utf8ByteSize ∧ value.utf8ByteSize ≤ maxLength := by
  unfold validateString
  dsimp only
  split
  · rename_i h
    simp only [reduceCtorEq, false_iff, not_and_or, Nat.not_le]
    simpa using h
  · rename_i h
    simpa using h

/-- `^[class]+$` for a character class. -/
def consistsOf (inClass : Char → Bool) (value : String) : Bool :=
  !value.toList.isEmpty && value.toList.all inClass

def isValidUsername : String → Bool :=
  consistsOf fun c => c.isLower || c.isDigit || c = '_'

/-- `\s` is `[\t\n\f\r ]`. -/
def isValidFullName : String → Bool :=
  consistsOf fun c => c.isAlpha || c = ' ' || c = '\t' || c = '\n' || c = '\r' || c.val = 0x0C

def validateUsername (value : String) : Except Err Unit := do
  validateString value 3 100
  if !isValidUsername value then
    throw (.text "must contain only lowercase letters, digits, or underscore")

theorem validateUsername_eq_ok {value : String} : validateUsername value = .ok () ↔
    (3 ≤ value.utf8ByteSize ∧ value.utf8ByteSize ≤ 100) ∧ isValidUsername value = true := by
  have hcheck : (if !isValidUsername value then throw (.text
      "must contain only lowercase letters, digits, or underscore") else pure () :
      Except Err Unit) = .ok () ↔ isValidUsername value = true := by
    cases isValidUsername value
    · simp [throw, throwThe, MonadExceptOf.throw]
    · simp [pure, Except.pure]
  simp only [validateUsername, bind_eq_ok, validateString_eq_ok, exists_const]
  rw [hcheck]

def validateFullName (value : String) : Except Err Unit := do
  validateString value 3 100
  if !isValidFullName value then
    throw (.text "must contain only letters or spaces")

def validatePassword (value : String) : Except Err Unit := validateString value 6 100

def validateEmail (deps : Deps) (value : String) : Except Err Unit := do
  validateString value 3 200
  if (deps.parseAddress value).isNone then
    throw (.text "is not a valid email address")

def validateEmailId (value : Int) : Except Err Unit :=
  if value ≤ 0 then .error (.text "must be a positive integer") else .ok ()

def validateSecretCode (value : String) : Except Err Unit := validateString value 32 128

end SimpleBank.Val
