import SimpleBank.World

/-! Passwords and tokens: `util/password.go` and the parts of
`token/paseto_maker.go` that draw on randomness. -/
namespace SimpleBank
open Library Db Call

def Util.hashPassword (password : String) : Act (Except Err String) := do
  match ← generateFromPassword password with
  | .error err => return .error (.wrap "failed to hash password" err)
  | .ok hashedPassword => return .ok hashedPassword

def Util.checkPassword (deps : Deps) (password hashedPassword : String) : Except Err Unit :=
  deps.compareHashAndPassword hashedPassword password

namespace Token

/-- `PasetoMaker.CreateToken`. -/
def createToken (now : Time) (username role : String) (duration : Time) (tokenType : TokenType) :
    Act (Except Err (String × Payload)) := do
  match ← newRandom with
  | .error err => return .error err
  | .ok tokenID =>
    let payload := newPayload now tokenID username role duration tokenType
    match ← encrypt payload with
    | .error err => return .error err
    | .ok token => return .ok (token, payload)

end Token
end SimpleBank
