import SimpleBank.Api.Binding
import SimpleBank.Credentials
import SimpleBank.Db.Store

/-! The Gin handlers.  `now` is the clock value the request reads. -/
namespace SimpleBank.Api
open Library Db Token Call

structure UserResponse where
  username : String
  fullName : String
  email : String
  passwordChangedAt : Time
  createdAt : Time
  deriving DecidableEq, Repr

def newUserResponse (user : User) : UserResponse :=
  { username := user.username, fullName := user.fullName, email := user.email,
    passwordChangedAt := user.passwordChangedAt, createdAt := user.createdAt }

structure LoginUserResponse where
  sessionID : UUID
  accessToken : String
  accessTokenExpiresAt : Time
  refreshToken : String
  refreshTokenExpiresAt : Time
  user : UserResponse
  deriving DecidableEq, Repr

structure RenewAccessTokenResponse where
  accessToken : String
  accessTokenExpiresAt : Time
  deriving DecidableEq, Repr

inductive Content where
  | user (response : UserResponse)
  | login (response : LoginUserResponse)
  | renewed (response : RenewAccessTokenResponse)
  | account (account : Account)
  | accounts (accounts : List Account)
  | transfer (result : TransferTxResult)
  | error (message : String)
  deriving DecidableEq, Repr

structure Reply where
  status : Nat
  content : Content
  deriving DecidableEq, Repr

def statusOK : Nat := 200
def statusBadRequest : Nat := 400
def statusUnauthorized : Nat := 401
def statusForbidden : Nat := 403
def statusNotFound : Nat := 404
def statusInternalServerError : Nat := 500

def errorResponse (err : Err) : Content := .error err.message

def fail (status : Nat) (err : Err) : Act Reply := return ⟨status, errorResponse err⟩

/-- The status of a failed read. -/
def notFoundOrInternal (err : Err) : Nat :=
  if err.isRecordNotFound then statusNotFound else statusInternalServerError

def authorizationTypeBearer : String := "bearer"

/-- The header is empty when it was not sent. -/
def authMiddleware (deps : Deps) (now : Time) (authorizationHeader : String) :
    Except Err Payload :=
  if authorizationHeader.utf8ByteSize = 0 then
    .error (.text "authorization header is not provided")
  else
    match Util.fields authorizationHeader with
    | first :: accessToken :: _ =>
      let authorizationType := Util.toLower first
      if authorizationType ≠ authorizationTypeBearer then
        .error (.text ("unsupported authorization type " ++ authorizationType))
      else verifyToken deps.decrypt now accessToken tokenTypeAccessToken
    | _ => .error (.text "invalid authorization header format")

/-- The middleware lets a request through with the payload of its bearer token. -/
theorem authMiddleware_eq_ok {deps : Deps} {now : Time} {authorizationHeader : String}
    {payload : Payload} (h : authMiddleware deps now authorizationHeader = .ok payload) :
    ∃ first accessToken rest, Util.fields authorizationHeader = first :: accessToken :: rest ∧
      verifyToken deps.decrypt now accessToken tokenTypeAccessToken = .ok payload := by
  unfold authMiddleware at h
  split at h
  · cases h
  split at h
  · rename_i first accessToken rest hfields
    dsimp only at h
    split at h
    · cases h
    · exact ⟨first, accessToken, rest, hfields, h⟩
  · cases h

/-- A route behind the middleware. -/
def authRoute (deps : Deps) (now : Time) (authorizationHeader : String)
    (handler : Payload → Act Reply) : Act Reply :=
  match authMiddleware deps now authorizationHeader with
  | .error err => fail statusUnauthorized err
  | .ok authPayload => handler authPayload

structure CreateUserRequest where
  username : String
  password : String
  fullName : String
  email : String
  deriving DecidableEq, Repr

def CreateUserRequest.check (deps : Deps) (req : CreateUserRequest) : Except Err Unit :=
  validate
    [checkField "createUserRequest" "Username" [.required req.username.isEmpty, .alphanum req.username],
     checkField "createUserRequest" "Password" [.required req.password.isEmpty, .minLength 6 req.password],
     checkField "createUserRequest" "FullName" [.required req.fullName.isEmpty],
     checkField "createUserRequest" "Email" [.required req.email.isEmpty, .email deps req.email]]

def createUser (deps : Deps) (body : Body CreateUserRequest) : Act Reply :=
  match bind body (CreateUserRequest.check deps) with
  | .error err => fail statusBadRequest err
  | .ok req => do
    match ← Util.hashPassword req.password with
    | .error err => fail statusInternalServerError err
    | .ok hashedPassword =>
      match ← query .pool (.createUser ⟨req.username, hashedPassword, req.fullName, req.email⟩) with
      | .error err =>
        fail (if errorCode err = uniqueViolation then statusForbidden else statusInternalServerError)
          err
      | .ok user => return ⟨statusOK, .user (newUserResponse user)⟩

structure LoginUserRequest where
  username : String
  password : String
  deriving DecidableEq, Repr

def LoginUserRequest.check (req : LoginUserRequest) : Except Err Unit :=
  validate
    [checkField "loginUserRequest" "Username" [.required req.username.isEmpty, .alphanum req.username],
     checkField "loginUserRequest" "Password" [.required req.password.isEmpty, .minLength 6 req.password]]

def loginUser (deps : Deps) (now : Time) (userAgent clientIP : String)
    (body : Body LoginUserRequest) : Act Reply :=
  match bind body LoginUserRequest.check with
  | .error err => fail statusBadRequest err
  | .ok req => do
    match ← query .pool (.getUser req.username) with
    | .error err => fail (notFoundOrInternal err) err
    | .ok user =>
      match Util.checkPassword deps req.password user.hashedPassword with
      | .error err => fail statusUnauthorized err
      | .ok () =>
        match ← createToken now user.username user.role deps.config.accessTokenDuration
          tokenTypeAccessToken with
        | .error err => fail statusInternalServerError err
        | .ok (accessToken, accessPayload) =>
          match ← createToken now user.username user.role deps.config.refreshTokenDuration
            tokenTypeRefreshToken with
          | .error err => fail statusInternalServerError err
          | .ok (refreshToken, refreshPayload) =>
            match ← query .pool (.createSession
              { id := refreshPayload.id, username := user.username, refreshToken := refreshToken,
                userAgent := userAgent, clientIp := clientIP, isBlocked := false,
                expiresAt := refreshPayload.expiredAt }) with
            | .error err => fail statusInternalServerError err
            | .ok session => return ⟨statusOK, .login
                { sessionID := session.id, accessToken := accessToken,
                  accessTokenExpiresAt := accessPayload.expiredAt, refreshToken := refreshToken,
                  refreshTokenExpiresAt := refreshPayload.expiredAt,
                  user := newUserResponse user }⟩

structure RenewAccessTokenRequest where
  refreshToken : String
  deriving DecidableEq, Repr

def RenewAccessTokenRequest.check (req : RenewAccessTokenRequest) : Except Err Unit :=
  validate [checkField "renewAccessTokenRequest" "RefreshToken" [.required req.refreshToken.isEmpty]]

def renewAccessToken (deps : Deps) (now : Time) (body : Body RenewAccessTokenRequest) : Act Reply :=
  match bind body RenewAccessTokenRequest.check with
  | .error err => fail statusBadRequest err
  | .ok req =>
    match verifyToken deps.decrypt now req.refreshToken tokenTypeRefreshToken with
    | .error err => fail statusUnauthorized err
    | .ok refreshPayload => do
      match ← query .pool (.getSession refreshPayload.id) with
      | .error err => fail (notFoundOrInternal err) err
      | .ok session =>
        if session.isBlocked then fail statusUnauthorized (.text "blocked session")
        else if session.username ≠ refreshPayload.username then
          fail statusUnauthorized (.text "incorrect session user")
        else if session.refreshToken ≠ req.refreshToken then
          fail statusUnauthorized (.text "mismatched session token")
        else if now > session.expiresAt then fail statusUnauthorized (.text "expired session")
        else
          match ← createToken now refreshPayload.username refreshPayload.role
            deps.config.accessTokenDuration tokenTypeAccessToken with
          | .error err => fail statusInternalServerError err
          | .ok (accessToken, accessPayload) => return ⟨statusOK, .renewed
              { accessToken := accessToken, accessTokenExpiresAt := accessPayload.expiredAt }⟩

structure CreateAccountRequest where
  currency : String
  deriving DecidableEq, Repr

def CreateAccountRequest.check (req : CreateAccountRequest) : Except Err Unit :=
  validate [checkField "createAccountRequest" "Currency"
    [.required req.currency.isEmpty, .currency req.currency]]

theorem CreateAccountRequest.check_eq_ok {req : CreateAccountRequest} {value : Unit} :
    req.check = .ok value ↔ req.currency ≠ "" ∧ Util.isSupportedCurrency req.currency = true := by
  simp [check, validate_eq_ok, checkField_eq_none, Tag.required, Tag.currency]

def createAccount (authPayload : Payload) (body : Body CreateAccountRequest) : Act Reply :=
  match bind body CreateAccountRequest.check with
  | .error err => fail statusBadRequest err
  | .ok req => do
    match ← query .pool (.createAccount ⟨authPayload.username, 0, req.currency⟩) with
    | .error err =>
      let errCode := errorCode err
      fail (if errCode = foreignKeyViolation ∨ errCode = uniqueViolation then statusForbidden
        else statusInternalServerError) err
    | .ok account => return ⟨statusOK, .account account⟩

structure GetAccountRequest where
  id : Int
  deriving DecidableEq, Repr

def GetAccountRequest.check (req : GetAccountRequest) : Except Err Unit :=
  validate [checkField "getAccountRequest" "ID" [.required (req.id = 0), ⟨"min", 1 ≤ req.id⟩]]

def getAccount (authPayload : Payload) (uri : Body GetAccountRequest) : Act Reply :=
  match bind uri GetAccountRequest.check with
  | .error err => fail statusBadRequest err
  | .ok req => do
    match ← query .pool (.getAccount req.id) with
    | .error err => fail (notFoundOrInternal err) err
    | .ok account =>
      if account.owner ≠ authPayload.username then
        fail statusUnauthorized (.text "account doesn't belong to the authenticated user")
      else return ⟨statusOK, .account account⟩

structure ListAccountRequest where
  pageID : Int32
  pageSize : Int32
  deriving DecidableEq, Repr

def ListAccountRequest.check (req : ListAccountRequest) : Except Err Unit :=
  validate
    [checkField "listAccountRequest" "PageID" [.required (req.pageID = 0), ⟨"min", 1 ≤ req.pageID⟩],
     checkField "listAccountRequest" "PageSize"
      [.required (req.pageSize = 0), ⟨"min", 5 ≤ req.pageSize⟩, ⟨"max", req.pageSize ≤ 10⟩]]

def listAccounts (authPayload : Payload) (query_ : Body ListAccountRequest) : Act Reply :=
  match bind query_ ListAccountRequest.check with
  | .error err => fail statusBadRequest err
  | .ok req => do
    match ← query .pool (.listAccounts
      { owner := authPayload.username, limit := req.pageSize,
        offset := (req.pageID - 1) * req.pageSize }) with
    | .error err => fail statusInternalServerError err
    | .ok accounts => return ⟨statusOK, .accounts accounts⟩

structure TransferRequest where
  fromAccountID : Int
  toAccountID : Int
  amount : Int64
  currency : String
  deriving DecidableEq, Repr

def TransferRequest.check (req : TransferRequest) : Except Err Unit :=
  validate
    [checkField "transferRequest" "FromAccountID"
      [.required (req.fromAccountID = 0), ⟨"min", 1 ≤ req.fromAccountID⟩],
     checkField "transferRequest" "ToAccountID"
      [.required (req.toAccountID = 0), ⟨"min", 1 ≤ req.toAccountID⟩],
     checkField "transferRequest" "Amount" [.required (req.amount = 0), ⟨"gt", 0 < req.amount⟩],
     checkField "transferRequest" "Currency"
      [.required req.currency.isEmpty, .currency req.currency]]

theorem TransferRequest.check_eq_ok {req : TransferRequest} {value : Unit} :
    req.check = .ok value ↔ 1 ≤ req.fromAccountID ∧ 1 ≤ req.toAccountID ∧ 0 < req.amount ∧
      Util.isSupportedCurrency req.currency = true := by
  have hempty : ¬Util.isSupportedCurrency "" = true := by decide
  simp only [check, validate_eq_ok, List.forall_mem_cons, checkField_eq_none, Tag.required,
    Tag.currency, Bool.not_eq_true', decide_eq_false_iff_not, decide_eq_true_eq]
  simp only [List.not_mem_nil, false_implies, implies_true, and_true, String.isEmpty_eq_false_iff]
  constructor
  · rintro ⟨⟨-, hfrom⟩, ⟨-, hto⟩, ⟨-, hamount⟩, -, hcurrency⟩
    exact ⟨hfrom, hto, hamount, hcurrency⟩
  · rintro ⟨hfrom, hto, hamount, hcurrency⟩
    refine ⟨⟨by omega, hfrom⟩, ⟨by omega, hto⟩, ⟨?_, hamount⟩, ?_, hcurrency⟩
    · rintro hzero
      rw [hzero] at hamount
      exact absurd hamount (by decide)
    · rintro hnone
      exact hempty (hnone ▸ hcurrency)

/-- The account, or the reply that was sent instead. -/
def validAccount (accountID : Int) (currency : String) : Act (Except Reply Account) := do
  match ← query .pool (.getAccount accountID) with
  | .error err => return .error ⟨notFoundOrInternal err, errorResponse err⟩
  | .ok account =>
    if account.currency ≠ currency then
      return .error ⟨statusBadRequest, errorResponse (.text ("account [" ++ toString account.id ++
        "] currency mismatch: " ++ account.currency ++ " vs " ++ currency))⟩
    else return .ok account

def createTransfer (authPayload : Payload) (body : Body TransferRequest) : Act Reply :=
  match bind body TransferRequest.check with
  | .error err => fail statusBadRequest err
  | .ok req => do
    match ← validAccount req.fromAccountID req.currency with
    | .error reply => return reply
    | .ok fromAccount =>
      if fromAccount.owner ≠ authPayload.username then
        fail statusUnauthorized (.text "from account doesn't belong to the authenticated user")
      else
        match ← validAccount req.toAccountID req.currency with
        | .error reply => return reply
        | .ok _ =>
          match ← transferTx ⟨req.fromAccountID, req.toAccountID, req.amount⟩ with
          | .error err => fail statusInternalServerError err
          | .ok result => return ⟨statusOK, .transfer result⟩

end SimpleBank.Api
