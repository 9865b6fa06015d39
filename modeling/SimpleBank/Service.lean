import SimpleBank.Api.Server
import SimpleBank.Gapi.Server
import SimpleBank.Steps

/-! The served endpoints of both APIs and the task worker, as one system. -/
namespace SimpleBank
open Library Db

inductive Request where
  | createUser (body : Api.Body Api.CreateUserRequest)
  | loginUser (userAgent clientIP : String) (body : Api.Body Api.LoginUserRequest)
  | renewAccessToken (body : Api.Body Api.RenewAccessTokenRequest)
  | createAccount (authorization : String) (body : Api.Body Api.CreateAccountRequest)
  | getAccount (authorization : String) (uri : Api.Body Api.GetAccountRequest)
  | listAccounts (authorization : String) (query : Api.Body Api.ListAccountRequest)
  | createTransfer (authorization : String) (body : Api.Body Api.TransferRequest)
  | rpcCreateUser (req : Gapi.CreateUserRequest)
  | rpcLoginUser (ctx : Gapi.Context) (req : Gapi.LoginUserRequest)
  | rpcUpdateUser (ctx : Gapi.Context) (req : Gapi.UpdateUserRequest)
  | rpcVerifyEmail (req : Gapi.VerifyEmailRequest)
  | task (task : Worker.Task)

inductive Response where
  | http (reply : Api.Reply)
  | rpc (reply : Gapi.Reply)
  | task (result : Except Err Unit)

/-- Whether the caller is told that the request was carried out. -/
def Response.success : Response → Bool
  | .http reply => reply.status = Api.statusOK
  | .rpc reply => reply.toBool
  | .task result => result.toBool

/-- A request and the clock value it reads. -/
structure Job where
  request : Request
  now : Time

def serve (deps : Deps) (job : Job) : Act Response :=
  match job.request with
  | .createUser body => Response.http <$> Api.createUser deps body
  | .loginUser userAgent clientIP body =>
    Response.http <$> Api.loginUser deps job.now userAgent clientIP body
  | .renewAccessToken body => Response.http <$> Api.renewAccessToken deps job.now body
  | .createAccount authorization body => Response.http <$>
      Api.authRoute deps job.now authorization fun authPayload => Api.createAccount authPayload body
  | .getAccount authorization uri => Response.http <$>
      Api.authRoute deps job.now authorization fun authPayload => Api.getAccount authPayload uri
  | .listAccounts authorization query => Response.http <$>
      Api.authRoute deps job.now authorization fun authPayload => Api.listAccounts authPayload query
  | .createTransfer authorization body => Response.http <$>
      Api.authRoute deps job.now authorization fun authPayload => Api.createTransfer authPayload body
  | .rpcCreateUser req => Response.rpc <$> Gapi.createUser deps req
  | .rpcLoginUser ctx req => Response.rpc <$> Gapi.loginUser deps job.now ctx req
  | .rpcUpdateUser ctx req => Response.rpc <$> Gapi.updateUser deps job.now ctx req
  | .rpcVerifyEmail req => Response.rpc <$> Gapi.verifyEmail req
  | .task task => Response.task <$> Worker.processTaskSendVerifyEmail task

/-- A request reads the clock when it arrives; the worker attempts what is in
the queue, as often as it likes. -/
def accepts (w : World) (job : Job) : Bool :=
  job.now = w.clock &&
    match job.request with
    | .task task => task ∈ w.tasks
    | _ => true

abbrev service (deps : Deps) : System Op Op.Reply World Job Choice External Response :=
  World.system deps accepts (serve deps)

end SimpleBank
