import SimpleBank.Db.Schema

/-! `util` and the parts of Go's `strings` the handlers call. -/
namespace SimpleBank.Util

def usd : String := "USD"
def eur : String := "EUR"
def cad : String := "CAD"

def isSupportedCurrency (currency : String) : Bool :=
  currency = usd || currency = eur || currency = cad

def depositorRole : String := "depositor"
def bankerRole : String := "banker"

structure Config where
  accessTokenDuration : Db.Time
  refreshTokenDuration : Db.Time

def alphabet : List Char := "abcdefghijklmnopqrstuvwxyz".toList

/-- `RandomString`, the letters being what `rand.Intn` picked. -/
def randomString (letters : List (Fin 26)) : String :=
  String.ofList (letters.map fun letter => alphabet.getD letter.val 'a')

/-- `unicode.IsSpace`. -/
def isSpace (c : Char) : Bool :=
  c.val = 0x20 || (0x09 ≤ c.val && c.val ≤ 0x0D) || c.val = 0x85 || c.val = 0xA0 ||
    c.val = 0x1680 || (0x2000 ≤ c.val && c.val ≤ 0x200A) || c.val = 0x2028 || c.val = 0x2029 ||
    c.val = 0x202F || c.val = 0x205F || c.val = 0x3000

/-- `strings.Fields`. -/
def fields (s : String) : List String := go s.toList []
where
  flush (word : List Char) : List String := if word.isEmpty then [] else [String.ofList word]
  go : List Char → List Char → List String
    | [], word => flush word
    | c :: rest, word => if isSpace c then flush word ++ go rest [] else go rest (word ++ [c])

/-- `strings.ToLower` on ASCII.  No other letter has its lower case in ASCII
except `İ` and the Kelvin sign, and nothing here is compared with an `i` or `k`. -/
def toLower (s : String) : String := String.ofList (s.toList.map Char.toLower)

example : fields " Bearer \t v2.local.x" = ["Bearer", "v2.local.x"] := by decide

end SimpleBank.Util
