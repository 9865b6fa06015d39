import SimpleBank.Credentials
import SimpleBank.Db.Store
import SimpleBank.Val
import SimpleBank.Worker.SendVerifyEmail

/-! The gRPC methods.  `now` is the clock value the request reads. -/
namespace SimpleBank.Gapi
open Library Db Token Call

inductive Code where
  | invalidArgument
  | notFound
  | alreadyExists
  | permissionDenied
  | unauthenticated
  | internal
  deriving DecidableEq, Repr

structure FieldViolation where
  field : String
  description : String
  deriving DecidableEq, Repr

structure Status where
  code : Code
  message : String
  details : List FieldViolation
  deriving DecidableEq, Repr

def statusError (code : Code) (message : String) : Status := ⟨code, message, []⟩

def fieldViolation (field : String) (check : Except Err Unit) : List FieldViolation :=
  match check with
  | .error err => [⟨field, err.message⟩]
  | .ok () => []

def invalidArgumentError (violations : List FieldViolation) : Status :=
  ⟨.invalidArgument, "invalid parameters", violations⟩

def unauthenticatedError (err : Err) : Status :=
  statusError .unauthenticated ("unauthorized: " ++ err.message)

/-- What a call carries besides its message: the metadata, keys in lower case,
and the peer. -/
structure Context where
  metadata : Option (List (String × List String))
  peer : Option String
  deriving DecidableEq, Repr

def Context.get (ctx : Context) (key : String) : List String :=
  match ctx.metadata with
  | none => []
  | some md => (md.lookup key).getD []

structure Metadata where
  userAgent : String
  clientIP : String
  deriving DecidableEq, Repr

/-- The last source that names a value wins. -/
def extractMetadata (ctx : Context) : Metadata where
  userAgent := ((ctx.get "user-agent").head?.or (ctx.get "grpcgateway-user-agent").head?).getD ""
  clientIP := (ctx.peer.or (ctx.get "x-forwarded-for").head?).getD ""

def hasPermission (userRole : String) (accessibleRoles : List String) : Bool :=
  accessibleRoles.any fun role => userRole = role

def authorizationBearer : String := "bearer"

def authorizeUser (deps : Deps) (now : Time) (ctx : Context) (accessibleRoles : List String) :
    Except Err Payload :=
  match ctx.metadata with
  | none => .error (.text "missing metadata")
  | some _ =>
    match ctx.get "authorization" with
    | [] => .error (.text "missing authorization header")
    | authHeader :: _ =>
      match Util.fields authHeader with
      | first :: accessToken :: _ =>
        let authType := Util.toLower first
        if authType ≠ authorizationBearer then
          .error (.text ("unsupported authorization type: " ++ authType))
        else
          match verifyToken deps.decrypt now accessToken tokenTypeAccessToken with
          | .error err => .error (.text ("invalid access token: " ++ err.message))
          | .ok payload =>
            if !hasPermission payload.role accessibleRoles then
              .error (.text "permission denied")
            else .ok payload
      | _ => .error (.text "invalid authorization header format")

/-- `pb.User`. -/
structure UserMessage where
  username : String
  fullName : String
  email : String
  passwordChangedAt : Time
  createdAt : Time
  deriving DecidableEq, Repr

def convertUser (user : User) : UserMessage :=
  { username := user.username, fullName := user.fullName, email := user.email,
    passwordChangedAt := user.passwordChangedAt, createdAt := user.createdAt }

structure LoginUserResponse where
  user : UserMessage
  sessionId : UUID
  accessToken : String
  refreshToken : String
  accessTokenExpiresAt : Time
  refreshTokenExpiresAt : Time
  deriving DecidableEq, Repr

inductive Message where
  | createUser (user : UserMessage)
  | loginUser (response : LoginUserResponse)
  | updateUser (user : UserMessage)
  | verifyEmail (isVerified : Bool)
  deriving DecidableEq, Repr

abbrev Reply := Except Status Message

def fail (code : Code) (message : String) : Act Reply := return .error (statusError code message)

structure CreateUserRequest where
  username : String
  fullName : String
  email : String
  password : String
  deriving DecidableEq, Repr

def validateCreateUserRequest (deps : Deps) (req : CreateUserRequest) : List FieldViolation :=
  fieldViolation "username" (Val.validateUsername req.username) ++
  fieldViolation "password" (Val.validatePassword req.password) ++
  fieldViolation "full_name" (Val.validateFullName req.fullName) ++
  fieldViolation "email" (Val.validateEmail deps req.email)

/-- The task options of `CreateUser`. -/
def sendVerifyEmailOpts : List Worker.TaskOption :=
  [.maxRetry 10, .processIn (10 * second), .queue Worker.queueCritical]

def createUser (deps : Deps) (req : CreateUserRequest) : Act Reply :=
  match validateCreateUserRequest deps req with
  | violation :: violations => return .error (invalidArgumentError (violation :: violations))
  | [] => do
    match ← Util.hashPassword req.password with
    | .error err => fail .internal ("failed to hash password: " ++ err.message)
    | .ok hashedPassword =>
      match ← createUserTx
        { createUserParams := ⟨req.username, hashedPassword, req.fullName, req.email⟩
          afterCreate := fun user =>
            Worker.distributeTaskSendVerifyEmail ⟨user.username⟩ sendVerifyEmailOpts } with
      | .error err =>
        if errorCode err = uniqueViolation then fail .alreadyExists err.message
        else fail .internal ("failed to create user: " ++ err.message)
      | .ok user => return .ok (.createUser (convertUser user))

structure LoginUserRequest where
  username : String
  password : String
  deriving DecidableEq, Repr

def validateLoginUserRequest (req : LoginUserRequest) : List FieldViolation :=
  fieldViolation "username" (Val.validateUsername req.username) ++
  fieldViolation "password" (Val.validatePassword req.password)

def loginUser (deps : Deps) (now : Time) (ctx : Context) (req : LoginUserRequest) : Act Reply :=
  match validateLoginUserRequest req with
  | violation :: violations => return .error (invalidArgumentError (violation :: violations))
  | [] => do
    match ← query .pool (.getUser req.username) with
    | .error err =>
      if err.isRecordNotFound then fail .notFound "user not found"
      else fail .internal "failed to find user"
    | .ok user =>
      match Util.checkPassword deps req.password user.hashedPassword with
      | .error _ => fail .notFound "incorrect password"
      | .ok () =>
        match ← createToken now user.username user.role deps.config.accessTokenDuration
          tokenTypeAccessToken with
        | .error _ => fail .internal "failed to create access token"
        | .ok (accessToken, accessPayload) =>
          match ← createToken now user.username user.role deps.config.refreshTokenDuration
            tokenTypeRefreshToken with
          | .error _ => fail .internal "failed to create refresh token"
          | .ok (refreshToken, refreshPayload) =>
            let mtdt := extractMetadata ctx
            match ← query .pool (.createSession
              { id := refreshPayload.id, username := user.username, refreshToken := refreshToken,
                userAgent := mtdt.userAgent, clientIp := mtdt.clientIP, isBlocked := false,
                expiresAt := refreshPayload.expiredAt }) with
            | .error _ => fail .internal "failed to create session"
            | .ok session => return .ok (.loginUser
                { user := convertUser user, sessionId := session.id, accessToken := accessToken,
                  refreshToken := refreshToken, accessTokenExpiresAt := accessPayload.expiredAt,
                  refreshTokenExpiresAt := refreshPayload.expiredAt })

structure UpdateUserRequest where
  username : String
  fullName : Option String
  email : Option String
  password : Option String
  deriving DecidableEq, Repr

def validateOptional (field : String) (check : String → Except Err Unit) :
    Option String → List FieldViolation
  | none => []
  | some value => fieldViolation field (check value)

def validateUpdateUserRequest (deps : Deps) (req : UpdateUserRequest) : List FieldViolation :=
  fieldViolation "username" (Val.validateUsername req.username) ++
  validateOptional "password" Val.validatePassword req.password ++
  validateOptional "full_name" Val.validateFullName req.fullName ++
  validateOptional "email" (Val.validateEmail deps) req.email

/-- The end of `UpdateUser`, once `arg` is put together. -/
def updateUserWith (arg : UpdateUserParams) : Act Reply := do
  match ← query .pool (.updateUser arg) with
  | .error err =>
    if err.isRecordNotFound then fail .notFound "user not found"
    else fail .internal ("failed to update user: " ++ err.message)
  | .ok user => return .ok (.updateUser (convertUser user))

def updateUser (deps : Deps) (now : Time) (ctx : Context) (req : UpdateUserRequest) : Act Reply :=
  match authorizeUser deps now ctx [Util.bankerRole, Util.depositorRole] with
  | .error err => return .error (unauthenticatedError err)
  | .ok authPayload =>
    match validateUpdateUserRequest deps req with
    | violation :: violations => return .error (invalidArgumentError (violation :: violations))
    | [] =>
      if authPayload.role ≠ Util.bankerRole ∧ authPayload.username ≠ req.username then
        fail .permissionDenied "cannot update other user's info"
      else
        let arg : UpdateUserParams :=
          { hashedPassword := none, passwordChangedAt := none, fullName := req.fullName,
            email := req.email, isEmailVerified := none, username := req.username }
        match req.password with
        | none => updateUserWith arg
        | some password => do
          match ← Util.hashPassword password with
          | .error err => fail .internal ("failed to hash password: " ++ err.message)
          | .ok hashedPassword =>
            updateUserWith
              { arg with hashedPassword := some hashedPassword, passwordChangedAt := some now }

structure VerifyEmailRequest where
  emailId : Int
  secretCode : String
  deriving DecidableEq, Repr

def validateVerifyEmailRequest (req : VerifyEmailRequest) : List FieldViolation :=
  fieldViolation "email_id" (Val.validateEmailId req.emailId) ++
  fieldViolation "secret_code" (Val.validateSecretCode req.secretCode)

def verifyEmail (req : VerifyEmailRequest) : Act Reply :=
  match validateVerifyEmailRequest req with
  | violation :: violations => return .error (invalidArgumentError (violation :: violations))
  | [] => do
    match ← verifyEmailTx ⟨req.emailId, req.secretCode⟩ with
    | .error _ => fail .internal "failed to verify email"
    | .ok txResult => return .ok (.verifyEmail txResult.user.isEmailVerified)

end SimpleBank.Gapi
