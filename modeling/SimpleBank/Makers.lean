import SimpleBank.Tokens

/-! The two implementations of `token.Maker`.  The servers use the PASETO one,
the JWT one checks the expiry in the library and again in `Payload.Valid`. -/
namespace SimpleBank.Token
open Db

namespace Payload

def getExpirationTime (payload : Payload) : Time := payload.expiredAt
def getNotBefore (payload : Payload) : Time := payload.issuedAt

end Payload

/-- A `jwt.SigningMethod`. -/
inductive SigningMethod where
  | hmac (alg : String)
  | other (alg : String)
  deriving DecidableEq, Repr

def signingMethodHS256 : SigningMethod := .hmac "HS256"

/-- What `ParseWithClaims` fails with, and whether `errors.Is` finds
`jwt.ErrTokenExpired` in it. -/
structure ParseError where
  isTokenExpired : Bool
  message : String
  deriving DecidableEq, Repr

/-- `golang-jwt`.  A key function picks the key by the method in the header. -/
structure Jwt where
  signedString : SigningMethod → Payload → String → Except Err String
  parseWithClaims : Time → String → (SigningMethod → Except Err String) →
    Except ParseError Payload

/-- What `ParseWithClaims` without options does with a token that was signed
under the key it is given. -/
structure Jwt.Documented (jwt : Jwt) : Prop where
  parses : ∀ {method payload key token keyFunc now},
    jwt.signedString method payload key = .ok token → keyFunc method = .ok key →
    now < payload.getExpirationTime → payload.getNotBefore ≤ now →
    jwt.parseWithClaims now token keyFunc = .ok payload
  expires : ∀ {method payload key token keyFunc now},
    jwt.signedString method payload key = .ok token → keyFunc method = .ok key →
    payload.getExpirationTime ≤ now →
    ∃ message, jwt.parseWithClaims now token keyFunc = .error ⟨true, message⟩

/-- `paseto.V2`. -/
structure Paseto where
  encrypt : String → Payload → BitVec 192 → Except Err String
  decrypt : String → String → Option Payload

def Paseto.RoundTrips (paseto : Paseto) : Prop :=
  ∀ {key payload nonce token}, paseto.encrypt key payload nonce = .ok token →
    paseto.decrypt token key = some payload

def minSecretKeySize : Nat := 32
def keySize : Nat := 32

structure JWTMaker where
  secretKey : String
  size_le : minSecretKeySize ≤ secretKey.utf8ByteSize

def newJWTMaker (secretKey : String) : Except Err JWTMaker :=
  if h : secretKey.utf8ByteSize < minSecretKeySize then
    .error (.text ("invalid key size: must be at least " ++ toString minSecretKeySize ++
      " characters"))
  else .ok ⟨secretKey, Nat.not_lt.mp h⟩

structure PasetoMaker where
  symmetricKey : String
  size_eq : symmetricKey.utf8ByteSize = keySize

def newPasetoMaker (symmetricKey : String) : Except Err PasetoMaker :=
  if h : symmetricKey.utf8ByteSize ≠ keySize then
    .error (.text ("invalid key size: must be exactly " ++ toString keySize ++ " characters"))
  else .ok ⟨symmetricKey, not_not.mp h⟩

namespace JWTMaker

/-- The id is what `uuid.NewRandom` gave. -/
def createToken (maker : JWTMaker) (jwt : Jwt) (now : Time) (newRandom : Except Err UUID)
    (username role : String) (duration : Time) (tokenType : TokenType) :
    Except Err (String × Payload) := do
  let tokenID ← newRandom
  let payload := newPayload now tokenID username role duration tokenType
  let token ← jwt.signedString signingMethodHS256 payload maker.secretKey
  return (token, payload)

def keyFunc (maker : JWTMaker) : SigningMethod → Except Err String
  | .hmac _ => .ok maker.secretKey
  | .other _ => .error errInvalidToken

def verifyToken (maker : JWTMaker) (jwt : Jwt) (now : Time) (token : String)
    (tokenType : TokenType) : Except Err Payload :=
  match jwt.parseWithClaims now token maker.keyFunc with
  | .error err => if err.isTokenExpired then .error errExpiredToken else .error errInvalidToken
  | .ok payload => do
    payload.valid now tokenType
    return payload

end JWTMaker

namespace PasetoMaker

def createToken (maker : PasetoMaker) (paseto : Paseto) (nonce : BitVec 192) (now : Time)
    (newRandom : Except Err UUID) (username role : String) (duration : Time)
    (tokenType : TokenType) : Except Err (String × Payload) := do
  let tokenID ← newRandom
  let payload := newPayload now tokenID username role duration tokenType
  let token ← paseto.encrypt maker.symmetricKey payload nonce
  return (token, payload)

def verifyToken (maker : PasetoMaker) (paseto : Paseto) (now : Time) (token : String)
    (tokenType : TokenType) : Except Err Payload :=
  Token.verifyToken (fun token => paseto.decrypt token maker.symmetricKey) now token tokenType

end PasetoMaker

theorem bind_pure_eq_map {payload : Payload} (result : Except Err Unit) :
    (do result; return payload) = result.map fun _ => payload := by
  cases result with
  | error err => rfl
  | ok value => rfl

theorem map_eq_error {payload : Payload} {result : Except Err Unit} {err : Err} :
    (result.map fun _ => payload) = .error err ↔ result = .error err := by
  cases result <;> simp [Except.map]

section Made

variable {newRandom : Except Err UUID} {username role token : String} {duration issued now : Time}
  {tokenType requested : TokenType} {payload : Payload}

theorem JWTMaker.signed_of_createToken {maker : JWTMaker} {jwt : Jwt}
    (h : maker.createToken jwt issued newRandom username role duration tokenType =
      .ok (token, payload)) :
    (∃ tokenID, payload = newPayload issued tokenID username role duration tokenType) ∧
      jwt.signedString signingMethodHS256 payload maker.secretKey = .ok token := by
  obtain ⟨tokenID, -, h⟩ := bind_eq_ok.mp h
  obtain ⟨token', htoken, h⟩ := bind_eq_ok.mp h
  cases h
  exact ⟨⟨tokenID, rfl⟩, htoken⟩

theorem PasetoMaker.encrypted_of_createToken {maker : PasetoMaker} {paseto : Paseto}
    {nonce : BitVec 192}
    (h : maker.createToken paseto nonce issued newRandom username role duration tokenType =
      .ok (token, payload)) :
    (∃ tokenID, payload = newPayload issued tokenID username role duration tokenType) ∧
      paseto.encrypt maker.symmetricKey payload nonce = .ok token := by
  obtain ⟨tokenID, -, h⟩ := bind_eq_ok.mp h
  obtain ⟨token', htoken, h⟩ := bind_eq_ok.mp h
  cases h
  exact ⟨⟨tokenID, rfl⟩, htoken⟩

theorem JWTMaker.verifyToken_of_expired {maker : JWTMaker} {jwt : Jwt} (hjwt : jwt.Documented)
    (hsigned : jwt.signedString signingMethodHS256 payload maker.secretKey = .ok token)
    (hexpired : payload.expiredAt ≤ now) :
    maker.verifyToken jwt now token requested = .error errExpiredToken := by
  have hkey : maker.keyFunc signingMethodHS256 = .ok maker.secretKey := rfl
  obtain ⟨message, hparse⟩ := hjwt.expires hsigned hkey hexpired
  rw [JWTMaker.verifyToken, hparse]
  rfl

theorem JWTMaker.verifyToken_of_lt {maker : JWTMaker} {jwt : Jwt} (hjwt : jwt.Documented)
    (hsigned : jwt.signedString signingMethodHS256 payload maker.secretKey = .ok token)
    (hissued : payload.issuedAt ≤ now) (hlt : now < payload.expiredAt) :
    maker.verifyToken jwt now token requested =
      (payload.valid now requested).map fun _ => payload := by
  have hkey : maker.keyFunc signingMethodHS256 = .ok maker.secretKey := rfl
  have hparse := hjwt.parses hsigned hkey hlt hissued
  rw [JWTMaker.verifyToken, hparse]
  exact bind_pure_eq_map _

theorem PasetoMaker.verifyToken_made {maker : PasetoMaker} {paseto : Paseto} {nonce : BitVec 192}
    (hpaseto : paseto.RoundTrips)
    (hencrypted : paseto.encrypt maker.symmetricKey payload nonce = .ok token) :
    maker.verifyToken paseto now token requested =
      (payload.valid now requested).map fun _ => payload := by
  rw [PasetoMaker.verifyToken, Token.verifyToken, hpaseto hencrypted]
  exact bind_pure_eq_map _

theorem Payload.valid_eq_expired :
    payload.valid now requested = .error errExpiredToken ↔
      payload.type = requested ∧ payload.expiredAt < now := by
  unfold Payload.valid
  split
  · rename_i htype
    simp [htype, errInvalidToken, errExpiredToken]
  · rename_i htype
    simp only [not_not.mp htype, true_and, gt_iff_lt]
    split
    · simp_all
    · simp_all

/-- The makers agree strictly before the expiry, and after it for the type that
was asked for.  At the expiry itself only PASETO accepts, and a token of the
wrong type is told expired by JWT. -/
theorem JWTMaker.verifyToken_eq_iff {jwtMaker : JWTMaker} {pasetoMaker : PasetoMaker} {jwt : Jwt}
    {paseto : Paseto} {nonce : BitVec 192} {jwtToken pasetoToken : String}
    (hjwt : jwt.Documented) (hpaseto : paseto.RoundTrips)
    (hjwtToken : jwtMaker.createToken jwt issued newRandom username role duration tokenType =
      .ok (jwtToken, payload))
    (hpasetoToken : pasetoMaker.createToken paseto nonce issued newRandom username role duration
      tokenType = .ok (pasetoToken, payload)) (hissued : issued ≤ now) :
    jwtMaker.verifyToken jwt now jwtToken requested =
        pasetoMaker.verifyToken paseto now pasetoToken requested ↔
      now < issued + duration ∨ (tokenType = requested ∧ issued + duration < now) := by
  obtain ⟨⟨tokenID, rfl⟩, hsigned⟩ := JWTMaker.signed_of_createToken hjwtToken
  obtain ⟨-, hencrypted⟩ := PasetoMaker.encrypted_of_createToken hpasetoToken
  rw [PasetoMaker.verifyToken_made hpaseto hencrypted]
  by_cases hlt : now < issued + duration
  · rw [JWTMaker.verifyToken_of_lt hjwt hsigned hissued hlt]
    exact iff_of_true rfl (.inl hlt)
  · rw [JWTMaker.verifyToken_of_expired hjwt hsigned (Int.not_lt.mp hlt)]
    rw [eq_comm, map_eq_error, Payload.valid_eq_expired]
    exact ⟨.inr, fun h => h.resolve_left hlt⟩

end Made
end SimpleBank.Token

namespace SimpleBank
open Db

/-! Both formats as the key followed by the fields. -/
namespace Sample

def sealToken (key : String) (payload : Token.Payload) : String :=
  String.ofList (writeString key ++ (writeToken payload).toList)

def openToken (token : String) : Option (String × Token.Payload) := do
  let (key, chars) ← readString token.toList
  let payload ← readToken (String.ofList chars)
  return (key, payload)

theorem openToken_sealToken (key : String) (payload : Token.Payload) :
    openToken (sealToken key payload) = some (key, payload) := by
  simp only [openToken, sealToken, String.toList_ofList, readString_writeString, Option.bind_eq_bind,
    Option.bind_some, String.ofList_toList, readToken_writeToken]
  rfl

def jwt : Token.Jwt where
  signedString method payload key :=
    if method = Token.signingMethodHS256 then .ok (sealToken key payload)
    else .error (.text "key is of invalid type")
  parseWithClaims now token keyFunc :=
    match openToken token, keyFunc Token.signingMethodHS256 with
    | some (key, payload), .ok expected =>
      if key ≠ expected then .error ⟨false, "token signature is invalid"⟩
      else if payload.getExpirationTime ≤ now then .error ⟨true, "token is expired"⟩
      else if now < payload.getNotBefore then .error ⟨false, "token is not valid yet"⟩
      else .ok payload
    | none, _ => .error ⟨false, "token is malformed"⟩
    | _, .error err => .error ⟨false, err.message⟩

theorem jwt_signed {method : Token.SigningMethod} {payload : Token.Payload} {key token : String}
    (h : jwt.signedString method payload key = .ok token) :
    method = Token.signingMethodHS256 ∧ token = sealToken key payload := by
  simp only [jwt] at h
  split at h
  · rename_i hmethod
    cases h
    exact ⟨hmethod, rfl⟩
  · cases h

theorem jwt_documented : jwt.Documented where
  parses hsigned hkey hlt hnotBefore := by
    obtain ⟨rfl, rfl⟩ := jwt_signed hsigned
    simp only [jwt, openToken_sealToken, hkey, ne_eq, not_true_eq_false, if_false,
      if_neg (Int.not_le.mpr hlt), if_neg (Int.not_lt.mpr hnotBefore)]
  expires hsigned hkey hexpired := by
    obtain ⟨rfl, rfl⟩ := jwt_signed hsigned
    simp only [jwt, openToken_sealToken, hkey, ne_eq, not_true_eq_false, if_false, if_pos hexpired]
    exact ⟨_, rfl⟩

def paseto : Token.Paseto where
  encrypt key payload _ := .ok (sealToken key payload)
  decrypt token key :=
    match openToken token with
    | some (found, payload) => if found = key then some payload else none
    | none => none

theorem paseto_roundTrips : paseto.RoundTrips := by
  intro key payload nonce token h
  cases h
  simp only [paseto, openToken_sealToken, if_true]

def symmetricKey : String := "12345678901234567890123456789012"

def jwtMaker : Token.JWTMaker := ⟨symmetricKey, by decide +kernel⟩
def pasetoMaker : Token.PasetoMaker := ⟨symmetricKey, by decide +kernel⟩

/-- An access token of two nanoseconds made at time 0. -/
def token : String := sealToken symmetricKey accessPayload

theorem jwtMaker_creates :
    jwtMaker.createToken jwt 0 (.ok 0) "alice" Util.depositorRole 2 Token.tokenTypeAccessToken =
      .ok (token, accessPayload) := rfl

theorem pasetoMaker_creates :
    pasetoMaker.createToken paseto 0 0 (.ok 0) "alice" Util.depositorRole 2
      Token.tokenTypeAccessToken = .ok (token, accessPayload) := rfl

end Sample

open Token in
/-- At the expiry itself JWT refuses an access token that PASETO accepts, and
from then on, asked for a refresh token, one says expired and the other invalid. -/
theorem makers_not_interchangeable :
    (Sample.jwtMaker.createToken Sample.jwt 0 (.ok 0) "alice" Util.depositorRole 2
        tokenTypeAccessToken = .ok (Sample.token, Sample.accessPayload) ∧
      Sample.pasetoMaker.createToken Sample.paseto 0 0 (.ok 0) "alice" Util.depositorRole 2
        tokenTypeAccessToken = .ok (Sample.token, Sample.accessPayload)) ∧
    (Sample.jwtMaker.verifyToken Sample.jwt 2 Sample.token tokenTypeAccessToken =
        .error errExpiredToken ∧
      Sample.pasetoMaker.verifyToken Sample.paseto 2 Sample.token tokenTypeAccessToken =
        .ok Sample.accessPayload) ∧
    Sample.jwtMaker.verifyToken Sample.jwt 3 Sample.token tokenTypeRefreshToken =
        .error errExpiredToken ∧
      Sample.pasetoMaker.verifyToken Sample.paseto 3 Sample.token tokenTypeRefreshToken =
        .error errInvalidToken := by
  refine ⟨⟨rfl, rfl⟩, ?_⟩
  decide +kernel

open Token in
theorem verifyToken_eq_iff_sample :
    Sample.jwtMaker.verifyToken Sample.jwt 3 Sample.token tokenTypeAccessToken =
        Sample.pasetoMaker.verifyToken Sample.paseto 3 Sample.token tokenTypeAccessToken ↔
      (3 : Time) < 0 + 2 ∨ (tokenTypeAccessToken = tokenTypeAccessToken ∧ (0 : Time) + 2 < 3) :=
  JWTMaker.verifyToken_eq_iff Sample.jwt_documented Sample.paseto_roundTrips
    Sample.jwtMaker_creates Sample.pasetoMaker_creates (by decide)

end SimpleBank
