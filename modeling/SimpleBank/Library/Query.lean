import Mathlib.Tactic.Common

/-! Reading a link back out of a text: the last text in quotes, the parameters
of a URL, and decimal numbers. -/
namespace SimpleBank.Library

variable {before after quoted path : List Char}

theorem ne_of_notMem {separator : Char} (h : separator ∉ before) :
    ∀ c ∈ before, decide (c ≠ separator) = true := by
  rintro c hc
  refine decide_eq_true ?_
  rintro rfl
  exact h hc

theorem dropWhile_ne_append {separator : Char} (h : separator ∉ before) :
    (before ++ separator :: after).dropWhile (· ≠ separator) = separator :: after := by
  rw [List.dropWhile_append_of_pos (ne_of_notMem h)]
  simp

theorem takeWhile_ne_append {separator : Char} (h : separator ∉ before) :
    (before ++ separator :: after).takeWhile (· ≠ separator) = before := by
  rw [List.takeWhile_append_of_pos (ne_of_notMem h)]
  simp

/-- The text between the last two quotes. -/
def lastQuoted (body : List Char) : List Char :=
  (((body.reverse.dropWhile (· ≠ '"')).drop 1).takeWhile (· ≠ '"')).reverse

theorem lastQuoted_append (hquoted : '"' ∉ quoted) (hafter : '"' ∉ after) :
    lastQuoted (before ++ '"' :: (quoted ++ '"' :: after)) = quoted := by
  have hreverse : (before ++ '"' :: (quoted ++ '"' :: after)).reverse =
      after.reverse ++ '"' :: (quoted.reverse ++ '"' :: before.reverse) := by
    simp
  rw [lastQuoted, hreverse, dropWhile_ne_append (by simpa using hafter), List.drop_one, List.tail_cons,
    takeWhile_ne_append (by simpa using hquoted), List.reverse_reverse]

/-- A parameter: its name and value. -/
abbrev Parameter := List Char × List Char

def Parameter.write (parameter : Parameter) : List Char := parameter.1 ++ '=' :: parameter.2

def Parameter.read (text : List Char) : Parameter :=
  (text.takeWhile (· ≠ '='), (text.dropWhile (· ≠ '=')).drop 1)

theorem Parameter.read_write {parameter : Parameter} (h : '=' ∉ parameter.1) :
    Parameter.read parameter.write = parameter := by
  rw [read, write, takeWhile_ne_append h, dropWhile_ne_append h]
  rfl

/-- The parameters of a URL. -/
def queryOf (url : List Char) : List Parameter :=
  (((url.dropWhile (· ≠ '?')).drop 1).splitOn '&').map Parameter.read

/-- The parameters that have been written are read back. -/
theorem queryOf_write (hpath : '?' ∉ path) {parameters : List Parameter} (hne : parameters ≠ [])
    (hnames : ∀ parameter ∈ parameters, '=' ∉ parameter.1)
    (htexts : ∀ parameter ∈ parameters, '&' ∉ parameter.write) :
    queryOf (path ++ '?' :: ['&'].intercalate (parameters.map Parameter.write)) = parameters := by
  have hsplit : (['&'].intercalate (parameters.map Parameter.write)).splitOn '&' =
      parameters.map Parameter.write := by
    refine List.splitOn_intercalate '&' ?_ (by simpa using hne)
    intro text hmem
    obtain ⟨parameter, hparameter, rfl⟩ := List.mem_map.mp hmem
    exact htexts parameter hparameter
  rw [queryOf, dropWhile_ne_append hpath, List.drop_one, List.tail_cons, hsplit, List.map_map]
  calc parameters.map (Parameter.read ∘ Parameter.write) = parameters.map id :=
        List.map_congr_left fun parameter hmem => Parameter.read_write (hnames parameter hmem)
    _ = parameters := List.map_id parameters

/-- A number in decimal, without a sign. -/
def readDecimal (digits : List Char) : Option Nat :=
  if digits ≠ [] ∧ digits.all Char.isDigit then some (Nat.ofDigitChars 10 digits 0) else none

theorem readDecimal_toDigits (n : Nat) : readDecimal (Nat.toDigits 10 n) = some n := by
  have hdigits : ∀ c ∈ Nat.toDigits 10 n, c.isDigit := fun c hc =>
    Nat.isDigit_of_mem_toDigits (by decide) (by decide) hc
  rw [readDecimal, if_pos ⟨Nat.toDigits_ne_nil, List.all_eq_true.mpr hdigits⟩,
    Nat.ofDigitChars_ten_toDigits]

end SimpleBank.Library
