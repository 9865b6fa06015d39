import SimpleBank.Db.Schema
import SimpleBank.Db.Error

/-! The payload of a token and when it is accepted. -/
namespace SimpleBank.Token
open Db

def errInvalidToken : Err := .text "token is invalid"
def errExpiredToken : Err := .text "token has expired"

abbrev TokenType := UInt8

def tokenTypeAccessToken : TokenType := 1
def tokenTypeRefreshToken : TokenType := 2

structure Payload where
  id : UUID
  type : TokenType
  username : String
  role : String
  issuedAt : Time
  expiredAt : Time
  deriving DecidableEq, Repr

/-- What `NewPayload` makes of a fresh token id at time `now`. -/
def newPayload (now : Time) (tokenID : UUID) (username role : String) (duration : Time)
    (tokenType : TokenType) : Payload :=
  { id := tokenID, type := tokenType, username := username, role := role,
    issuedAt := now, expiredAt := now + duration }

namespace Payload

def valid (now : Time) (tokenType : TokenType) (payload : Payload) : Except Err Unit :=
  if payload.type ≠ tokenType then .error errInvalidToken
  else if now > payload.expiredAt then .error errExpiredToken
  else .ok ()

@[simp] theorem valid_eq_ok {now : Time} {tokenType : TokenType} {payload : Payload} {value : Unit} :
    payload.valid now tokenType = .ok value ↔
      payload.type = tokenType ∧ now ≤ payload.expiredAt := by
  unfold valid
  split
  · simp_all
  · split
    · rename_i hlate
      simp [Int.not_le.mpr hlate]
    · rename_i htype hlate
      simp [not_not.mp htype, Int.not_lt.mp hlate]

end Payload

/-- `PasetoMaker.VerifyToken`, `decrypt` being `paseto.Decrypt` under the
configured key. -/
def verifyToken (decrypt : String → Option Payload) (now : Time) (token : String)
    (tokenType : TokenType) : Except Err Payload :=
  match decrypt token with
  | none => .error errInvalidToken
  | some payload => do
    payload.valid now tokenType
    return payload

theorem verifyToken_eq_ok {decrypt : String → Option Payload} {now : Time} {token : String}
    {tokenType : TokenType} {payload : Payload} :
    verifyToken decrypt now token tokenType = .ok payload ↔
      decrypt token = some payload ∧ payload.type = tokenType ∧ now ≤ payload.expiredAt := by
  unfold verifyToken
  cases decrypt token with
  | none => simp
  | some found =>
    simp only [bind_eq_ok, Payload.valid_eq_ok, pure, Except.pure, Except.ok.injEq,
      Option.some.injEq]
    constructor
    · rintro ⟨-, hvalid, rfl⟩
      exact ⟨rfl, hvalid⟩
    · rintro ⟨rfl, hvalid⟩
      exact ⟨(), hvalid, rfl⟩

end SimpleBank.Token
