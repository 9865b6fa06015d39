import SimpleBank.World

/-! The task that mails a verification link. -/
namespace SimpleBank.Worker
open Library Db Call

def queueCritical : String := "critical"
def queueDefault : String := "default"

def taskSendVerifyEmail : String := "task:send_verify_email"

def distributeTaskSendVerifyEmail (payload : PayloadSendVerifyEmail) (opts : List TaskOption) :
    Act (Except Err Unit) := do
  match ← enqueue { type := taskSendVerifyEmail, payload := payload, opts := opts } with
  | .error err => return .error (.wrap "failed to enqueue task" err)
  | .ok () => return .ok ()

def verifyUrl (verifyEmail : VerifyEmail) : String :=
  "http://localhost:8080/v1/verify_email?email_id=" ++ toString verifyEmail.id ++
    "&secret_code=" ++ verifyEmail.secretCode

def verifyEmailMail (user : User) (verifyEmail : VerifyEmail) : Mail where
  subject := "Welcome to Simple Bank"
  content := "Hello " ++ user.fullName ++ ",<br/>\n\tThank you for registering with us!<br/>\n" ++
    "\tPlease <a href=\"" ++ verifyUrl verifyEmail ++
    "\">click here</a> to verify your email address.<br/>\n\t"
  recipients := [user.email]
  cc := []
  bcc := []
  attachFiles := []

def processTaskSendVerifyEmail (task : Task) : Act (Except Err Unit) := do
  match ← query .pool (.getUser task.payload.username) with
  | .error err => return .error (.wrap "failed to get user" err)
  | .ok user =>
    let secretCode ← randomString 32
    match ← query .pool (.createVerifyEmail ⟨user.username, user.email, secretCode⟩) with
    | .error err => return .error (.wrap "failed to create verify email" err)
    | .ok verifyEmail =>
      match ← sendEmail (verifyEmailMail user verifyEmail) with
      | .error err => return .error (.wrap "failed to send verify email" err)
      | .ok () => return .ok ()

end SimpleBank.Worker
