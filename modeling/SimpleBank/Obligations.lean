import SimpleBank.Service
import SimpleBank.Transactions

/-! What each request owes at each of its calls: why it may make the call, from
its own request and the replies it has had so far. -/
namespace SimpleBank
open Library Db Program

abbrev Said (history : History) (op : Op) (reply : op.Reply) : Prop :=
  Exchange.mk op reply ∈ history

theorem Said.later {history later : History} {op : Op} {reply : op.Reply}
    (h : Said history op reply) (hcontinues : history <+: later) : Said later op reply :=
  hcontinues.subset h

theorem said_last (history : History) (op : Op) (reply : op.Reply) :
    Said (history ++ [⟨op, reply⟩]) op reply :=
  List.mem_append_right _ List.mem_cons_self

namespace Job

/-- The username and password of a login that passes its checks. -/
def credentials (job : Job) : Option (String × String) :=
  match job.request with
  | .loginUser _ _ body =>
    match Api.bind body Api.LoginUserRequest.check with
    | .ok req => some (req.username, req.password)
    | .error _ => none
  | .rpcLoginUser _ req =>
    match Gapi.validateLoginUserRequest req with
    | [] => some (req.username, req.password)
    | _ => none
  | _ => none

/-- Whose access token a request behind a bearer gate has presented. -/
def bearer (deps : Deps) (job : Job) : Option Token.Payload :=
  match job.request with
  | .createAccount authorization _ | .getAccount authorization _ | .listAccounts authorization _
  | .createTransfer authorization _ => (Api.authMiddleware deps job.now authorization).toOption
  | .rpcUpdateUser ctx _ =>
    (Gapi.authorizeUser deps job.now ctx [Util.bankerRole, Util.depositorRole]).toOption
  | _ => none

/-- The refresh token a renewal has presented. -/
def refresh (deps : Deps) (job : Job) : Option (String × Token.Payload) :=
  match job.request with
  | .renewAccessToken body =>
    match Api.bind body Api.RenewAccessTokenRequest.check with
    | .ok req => match Token.verifyToken deps.decrypt job.now req.refreshToken
        Token.tokenTypeRefreshToken with
      | .ok payload => some (req.refreshToken, payload)
      | .error _ => none
    | .error _ => none
  | _ => none

end Job

variable (deps : Deps) (job : Job)

/-- The password has been checked against the hash of this row. -/
def LoggedIn (history : History) (user : User) : Prop :=
  ∃ username password, job.credentials = some (username, password) ∧
    Said history (.sql .pool (.getUser username)) (.ok user) ∧
    Util.checkPassword deps password user.hashedPassword = .ok ()

/-- The refresh token has been found in an open session of its user. -/
def Renewing (history : History) (refreshPayload : Token.Payload) : Prop :=
  ∃ refreshToken session, job.refresh deps = some (refreshToken, refreshPayload) ∧
    Said history (.sql .pool (.getSession refreshPayload.id)) (.ok session) ∧
    session.isBlocked = false ∧ session.username = refreshPayload.username ∧
    session.refreshToken = refreshToken ∧ job.now ≤ session.expiresAt

/-- The three occasions on which a token is made. -/
inductive Issues (history : History) : Token.Payload → Prop
  | access (tokenID : UUID) (user : User) : LoggedIn deps job history user →
      Issues history (Token.newPayload job.now tokenID user.username user.role
        deps.config.accessTokenDuration Token.tokenTypeAccessToken)
  | refresh (tokenID : UUID) (user : User) : LoggedIn deps job history user →
      Issues history (Token.newPayload job.now tokenID user.username user.role
        deps.config.refreshTokenDuration Token.tokenTypeRefreshToken)
  | renewed (tokenID : UUID) (refreshPayload : Token.Payload) :
      Renewing deps job history refreshPayload →
      Issues history (Token.newPayload job.now tokenID refreshPayload.username
        refreshPayload.role deps.config.accessTokenDuration Token.tokenTypeAccessToken)

/-- The transfer a request may have carried out: it is the owner's, the amount
is positive, and both accounts have been read with the currency of the request. -/
structure MayTransfer (history : History) (arg : TransferTxParams) : Prop where
  positive : 0 < arg.amount
  accounts : ∃ payload fromAccount toAccount, job.bearer deps = some payload ∧
    Said history (.sql .pool (.getAccount arg.fromAccountID)) (.ok fromAccount) ∧
    Said history (.sql .pool (.getAccount arg.toAccountID)) (.ok toAccount) ∧
    fromAccount.owner = payload.username ∧ fromAccount.currency = toAccount.currency ∧
    Util.isSupportedCurrency fromAccount.currency = true

/-- The request is for this transfer. -/
def Job.transfer (job : Job) : Option TransferTxParams :=
  match job.request with
  | .createTransfer _ (.ok req) => some ⟨req.fromAccountID, req.toAccountID, req.amount⟩
  | _ => none

/-- The link a `VerifyEmail` call presents. -/
def Job.link (job : Job) : Option VerifyEmailTxParams :=
  match job.request with
  | .rpcVerifyEmail req => some ⟨req.emailId, req.secretCode⟩
  | _ => none

/-- The three transactions that are ever committed. -/
inductive Commits (history : History) (calls : List Ran) : Prop
  | transfer (arg : TransferTxParams) (result : TransferTxResult) :
      job.transfer = some arg → MayTransfer deps job history arg →
      calls = transferCalls arg result → Commits history calls
  | verifyEmail (arg : VerifyEmailTxParams) (result : VerifyEmailTxResult) :
      job.link = some arg → calls = verifyEmailCalls arg result → Commits history calls
  | createUser (req : Gapi.CreateUserRequest) (hashedPassword : String) (user : User) :
      job.request = .rpcCreateUser req →
      Said history (.generateFromPassword req.password) (.ok hashedPassword) →
      createUserCalls ⟨req.username, hashedPassword, req.fullName, req.email⟩
        ⟨Worker.taskSendVerifyEmail, ⟨user.username⟩, Gapi.sendVerifyEmailOpts⟩ user history
        calls → Commits history calls

/-- The password columns of an update, by whether the request has a password. -/
def PasswordUpdate (history : History) (arg : UpdateUserParams) : Option String → Prop
  | none => arg.hashedPassword = none ∧ arg.passwordChangedAt = none
  | some password => arg.passwordChangedAt = some job.now ∧ ∃ hashedPassword,
      arg.hashedPassword = some hashedPassword ∧
      Said history (.generateFromPassword password) (.ok hashedPassword)

/-- What may be written outside a transaction, and by whom. -/
def PoolOwes (history : History) : Stmt → Prop
  | .createUser arg => ∃ body req, job.request = .createUser body ∧
      Api.bind body (Api.CreateUserRequest.check deps) = .ok req ∧ ∃ hashedPassword,
      Said history (.generateFromPassword req.password) (.ok hashedPassword) ∧
      arg = ⟨req.username, hashedPassword, req.fullName, req.email⟩
  | .updateUser arg => ∃ ctx req payload, job.request = .rpcUpdateUser ctx req ∧
      job.bearer deps = some payload ∧
      (payload.role = Util.bankerRole ∨ payload.username = arg.username) ∧
      Gapi.validateUpdateUserRequest deps req = [] ∧
      arg.username = req.username ∧ arg.fullName = req.fullName ∧ arg.email = req.email ∧
      arg.isEmailVerified = none ∧ PasswordUpdate job history arg req.password
  | .createAccount arg => ∃ authorization req payload,
      job.request = .createAccount authorization (.ok req) ∧ job.bearer deps = some payload ∧
      arg = ⟨payload.username, 0, req.currency⟩ ∧ Util.isSupportedCurrency req.currency = true
  | .createSession arg => ∃ user refreshPayload, LoggedIn deps job history user ∧
      Said history (.encrypt refreshPayload) (.ok arg.refreshToken) ∧
      refreshPayload.type = Token.tokenTypeRefreshToken ∧ arg.id = refreshPayload.id ∧
      refreshPayload.username = user.username ∧ arg.username = user.username ∧
      arg.isBlocked = false ∧ arg.expiresAt = refreshPayload.expiredAt
  | .createVerifyEmail arg => ∃ task user, job.request = .task task ∧
      Said history (.sql .pool (.getUser task.payload.username)) (.ok user) ∧
      arg.username = user.username ∧ arg.email = user.email ∧
      Said history (.randomString 32) arg.secretCode
  | .getUser _ | .getAccount _ | .listAccounts _ | .getSession _ => True
  | .addAccountBalance _ | .createEntry _ | .createTransfer _ | .updateVerifyEmail _ => False

def Owes (history : History) : Op → Prop
  | .sql .pool stmt => PoolOwes deps job history stmt
  | .encrypt payload => Issues deps job history payload
  | .commit => ∃ calls, openTx history = some calls ∧ Commits deps job history calls
  | _ => True

/-- How every request ends: with all its writes committed if it reports
success, and with none of them if it does not. -/
structure Settled (history : History) (success : Bool) : Prop where
  closed : openTx history = none
  committed : success = true → durable history = writes history
  refused : success = false → durable history = []

end SimpleBank
