import Mathlib.Init

/-! Go's error values, as far as the code looks inside them. -/
namespace SimpleBank.Db

/-- `noRows` is `pgx.ErrNoRows`, `pg` an error PostgreSQL reported with its
SQLSTATE, `wrap` what `fmt.Errorf` makes of `%w`.  Every other error, `%v`
included, is known by its text alone. -/
inductive Err where
  | noRows
  | pg (code message : String)
  | text (message : String)
  | wrap (context : String) (err : Err)
  deriving DecidableEq, Repr

def foreignKeyViolation : String := "23503"
def uniqueViolation : String := "23505"

namespace Err

def message : Err → String
  | .noRows => "no rows in result set"
  | .pg code message => "ERROR: " ++ message ++ " (SQLSTATE " ++ code ++ ")"
  | .text message => message
  | .wrap context err => context ++ ": " ++ err.message

/-- `errors.Is(err, ErrRecordNotFound)`. -/
def isRecordNotFound : Err → Bool
  | .noRows => true
  | .wrap _ err => err.isRecordNotFound
  | _ => false

/-- What a statement can fail with for reasons outside the statement: a lost
connection, a cancelled context, a server that refuses. -/
def infrastructure : Err → Bool
  | .text _ => true
  | .pg code _ => code != foreignKeyViolation && code != uniqueViolation
  | _ => false

end Err

def errorCode : Err → String
  | .pg code _ => code
  | .wrap _ err => errorCode err
  | _ => ""

theorem bind_eq_ok {α β ε : Type} {x : Except ε α} {f : α → Except ε β} {b : β} :
    (x >>= f) = .ok b ↔ ∃ a, x = .ok a ∧ f a = .ok b := by
  cases x <;> simp [bind, Except.bind]

end SimpleBank.Db
