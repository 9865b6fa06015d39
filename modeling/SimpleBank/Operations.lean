import SimpleBank.Liveness
import SimpleBank.Passwords
import SimpleBank.Refinement

/-! Requests and operations: a request carries out one operation of the bank if it
is answered with success, and none if it is not. -/
namespace SimpleBank
open Library Db Program

/-- The reply that a request carries out its operation with. -/
def Request.performs : Request → Exchange Op Op.Reply → Bool
  | .createUser _, ⟨.sql .pool (.createUser _), .ok _⟩ => true
  | .createAccount _ _, ⟨.sql .pool (.createAccount _), .ok _⟩ => true
  | .rpcUpdateUser _ _, ⟨.sql .pool (.updateUser _), .ok _⟩ => true
  | .task _, ⟨.sql .pool (.createVerifyEmail _), .ok _⟩ => true
  | .createTransfer _ _, ⟨.commit, .ok _⟩ => true
  | .rpcCreateUser _, ⟨.commit, .ok _⟩ => true
  | .rpcVerifyEmail _, ⟨.commit, .ok _⟩ => true
  | _, _ => false

/-- The requests that are for an operation, and report what has become of it. -/
def Request.operates : Request → Bool
  | .createUser _ | .createAccount _ _ | .createTransfer _ _ | .rpcCreateUser _
  | .rpcUpdateUser _ _ | .rpcVerifyEmail _ => true
  | _ => false

/-- Nothing has been carried out when a call is made, but by the worker, whose last
call is none that may do so. -/
def OwesOperation (job : Job) (history : History) (op : Op) : Prop :=
  Unmarked job.request.performs history ∨
    job.request.operates = false ∧ ∀ reply, job.request.performs ⟨op, reply⟩ = false

/-- Success is reported if and only if the operation has been carried out. -/
def Answers (job : Job) (history : History) (success : Bool) : Prop :=
  job.request.operates = true → (success = true ↔ ¬Unmarked job.request.performs history)

section Operates

variable {deps : Deps} {job : Job} {history : History}

/-- What a commit carries out is carried out by nothing else. -/
theorem performs_of_ne_commit {request : Request}
    (h : request.performs ⟨.commit, .ok ()⟩ = true) {exchange : Exchange Op Op.Reply}
    (hne : exchange ≠ ⟨.commit, .ok ()⟩) : request.performs exchange = false := by
  cases request with
  | createTransfer _ _ | rpcCreateUser _ | rpcVerifyEmail _ =>
    unfold Request.performs
    split <;> first | contradiction | exact absurd rfl hne | rfl
  | _ => cases h

/-- A transaction that is committed by the call that carries out its request. -/
theorem execTx_operates {α : Type} {fn : Act (Except Err α)} {calls : Nat}
    (hfn : fn.Makes Op.InTx calls)
    (hcommits : job.request.performs ⟨.commit, .ok ()⟩ = true)
    (h : Unmarked job.request.performs history) :
    Always (OwesOperation job) Valid (fun later outcome => match outcome with
      | .ok _ => ∃ before, later = before ++ [⟨.commit, .ok ()⟩]
      | .error _ => Unmarked job.request.performs later) history (execTx fn) := by
  refine execTx_last (P := Unmarked job.request.performs) (fun h _ => .inl h)
    (fun h hne => h.append (performs_of_ne_commit hcommits hne)) h ?_
  intro later hlater
  refine hfn.always (fun _ _ h _ => .inl h) ?_ hlater
  intro history exchange h hintx
  refine h.append (performs_of_ne_commit hcommits ?_)
  rintro rfl
  exact hintx.elim

theorem createAccount_operates {authorization : String} {payload : Token.Payload}
    {body : Api.Body Api.CreateAccountRequest}
    (hjob : job.request = .createAccount authorization body) :
    Always (OwesOperation job) Valid
      (fun history reply => Answers job history (Response.http reply).success) []
      (Api.createAccount payload body) := by
  unfold Api.createAccount
  split
  · exact fun _ => unmarked_nil.failed rfl
  refine always_call (.inl unmarked_nil) fun reply _ => ?_
  cases reply with
  | error err =>
    refine fun _ => (unmarked_nil.append (by rw [hjob]; rfl)).failed ?_
    dsimp only [Response.success]
    split <;> rfl
  | ok account => exact fun _ => succeeded_last (by rw [hjob]; rfl) rfl

theorem validAccount_operates {accountID : Int} {currency : String}
    (hreads : ∀ reply, job.request.performs ⟨.sql .pool (.getAccount accountID), reply⟩ = false)
    (h : Unmarked job.request.performs history) :
    Always (OwesOperation job) Valid (fun later outcome =>
        Unmarked job.request.performs later ∧ ∀ reply, outcome = .error reply →
          (Response.http reply).success = false) history
      (Api.validAccount accountID currency) := by
  refine always_call (.inl h) fun reply _ => ?_
  have hafter := h.append (hreads reply)
  cases reply with
  | error err =>
    refine ⟨hafter, ?_⟩
    rintro _ ⟨rfl⟩
    dsimp only [Response.success]
    unfold Api.notFoundOrInternal
    split <;> rfl
  | ok account =>
    dsimp only [Program.bind]
    split
    · refine ⟨hafter, ?_⟩
      rintro _ ⟨rfl⟩
      rfl
    · exact ⟨hafter, fun _ h => nomatch h⟩

theorem createTransfer_operates {authorization : String} {payload : Token.Payload}
    {body : Api.Body Api.TransferRequest} (hjob : job.request = .createTransfer authorization body) :
    Always (OwesOperation job) Valid
      (fun history reply => Answers job history (Response.http reply).success) []
      (Api.createTransfer payload body) := by
  have hcommits : job.request.performs ⟨.commit, .ok ()⟩ = true := by rw [hjob]; rfl
  have hreads : ∀ id reply, job.request.performs ⟨.sql .pool (.getAccount id), reply⟩ = false :=
    fun _ _ => performs_of_ne_commit hcommits (by rintro ⟨⟩)
  unfold Api.createTransfer
  split
  · exact fun _ => unmarked_nil.failed rfl
  rename_i req _
  refine Always.bind ?_ (validAccount_operates (hreads _) unmarked_nil)
  rintro read (reply | fromAccount) ⟨hread, hrefused⟩
  · exact fun _ => hread.failed (hrefused reply rfl)
  dsimp only
  split
  · exact fun _ => hread.failed rfl
  refine Always.bind ?_ (validAccount_operates (hreads _) hread)
  rintro checked (reply | toAccount) ⟨hchecked, hrefused⟩
  · exact fun _ => hchecked.failed (hrefused reply rfl)
  obtain ⟨fn, htx, hfn⟩ := transferTx_body ⟨req.fromAccountID, req.toAccountID, req.amount⟩
  dsimp only
  rw [htx]
  refine Always.bind ?_ (execTx_operates hfn hcommits hchecked)
  rintro last (err | result) hlast
  · exact fun _ => Unmarked.failed hlast rfl
  · obtain ⟨before, rfl⟩ := hlast
    exact fun _ => succeeded_last hcommits rfl

theorem rpcVerifyEmail_operates {req : Gapi.VerifyEmailRequest}
    (hjob : job.request = .rpcVerifyEmail req) :
    Always (OwesOperation job) Valid
      (fun history reply => Answers job history (Response.rpc reply).success) []
      (Gapi.verifyEmail req) := by
  have hcommits : job.request.performs ⟨.commit, .ok ()⟩ = true := by rw [hjob]; rfl
  unfold Gapi.verifyEmail
  split
  · exact fun _ => unmarked_nil.failed rfl
  obtain ⟨fn, htx, hfn⟩ := verifyEmailTx_body ⟨req.emailId, req.secretCode⟩
  rw [htx]
  refine Always.bind ?_ (execTx_operates hfn hcommits unmarked_nil)
  rintro last (err | result) hlast
  · exact fun _ => Unmarked.failed hlast rfl
  · obtain ⟨before, rfl⟩ := hlast
    exact fun _ => succeeded_last hcommits rfl

theorem rpcCreateUser_operates {req : Gapi.CreateUserRequest}
    (hjob : job.request = .rpcCreateUser req) :
    Always (OwesOperation job) Valid
      (fun history reply => Answers job history (Response.rpc reply).success) []
      (Gapi.createUser deps req) := by
  have hcommits : job.request.performs ⟨.commit, .ok ()⟩ = true := by rw [hjob]; rfl
  unfold Gapi.createUser
  split
  · exact fun _ => unmarked_nil.failed rfl
  refine always_call (.inl unmarked_nil) fun reply _ => ?_
  have hhash : Unmarked job.request.performs [⟨.generateFromPassword req.password, reply⟩] :=
    unmarked_nil.append (performs_of_ne_commit hcommits (by rintro ⟨⟩))
  cases reply with
  | error err => exact fun _ => hhash.failed rfl
  | ok hashedPassword =>
  obtain ⟨fn, htx, hfn⟩ := createUserTx_body (req.params hashedPassword) Gapi.sendVerifyEmailOpts
  have hlast := execTx_operates hfn hcommits hhash
  rw [← htx] at hlast
  change Always _ Valid _ _ (createUserTx ⟨req.params hashedPassword, _⟩ >>= _)
  refine Always.bind ?_ hlast
  rintro later (err | user) hlast
  · dsimp only
    split <;> exact fun _ => Unmarked.failed hlast rfl
  · obtain ⟨before, rfl⟩ := hlast
    exact fun _ => succeeded_last hcommits rfl

theorem createUser_operates {body : Api.Body Api.CreateUserRequest}
    (hjob : job.request = .createUser body) :
    Always (OwesOperation job) Valid
      (fun history reply => Answers job history (Response.http reply).success) []
      (Api.createUser deps body) := by
  unfold Api.createUser
  split
  · exact fun _ => unmarked_nil.failed rfl
  rename_i req _
  refine always_call (.inl unmarked_nil) fun reply _ => ?_
  have hhash : Unmarked job.request.performs [⟨.generateFromPassword req.password, reply⟩] :=
    unmarked_nil.append (by rw [hjob]; rfl)
  cases reply with
  | error err => exact fun _ => hhash.failed rfl
  | ok hashedPassword =>
  refine always_call (.inl hhash) fun reply _ => ?_
  cases reply with
  | error err =>
    refine fun _ => (hhash.append (by rw [hjob]; rfl)).failed ?_
    dsimp only [Response.success]
    split <;> rfl
  | ok user => exact fun _ => succeeded_last (by rw [hjob]; rfl) rfl

theorem updateUserWith_operates {ctx : Gapi.Context} {req : Gapi.UpdateUserRequest}
    {arg : UpdateUserParams} (hjob : job.request = .rpcUpdateUser ctx req)
    (h : Unmarked job.request.performs history) :
    Always (OwesOperation job) Valid
      (fun history reply => Answers job history (Response.rpc reply).success) history
      (Gapi.updateUserWith arg) := by
  refine always_call (.inl h) fun reply _ => ?_
  cases reply with
  | error err =>
    dsimp only [Program.bind]
    split <;> exact fun _ => (h.append (by rw [hjob]; rfl)).failed rfl
  | ok user => exact fun _ => succeeded_last (by rw [hjob]; rfl) rfl

theorem rpcUpdateUser_operates {now : Time} {ctx : Gapi.Context} {req : Gapi.UpdateUserRequest}
    (hjob : job.request = .rpcUpdateUser ctx req) :
    Always (OwesOperation job) Valid
      (fun history reply => Answers job history (Response.rpc reply).success) []
      (Gapi.updateUser deps now ctx req) := by
  unfold Gapi.updateUser
  split
  · exact fun _ => unmarked_nil.failed rfl
  split
  · exact fun _ => unmarked_nil.failed rfl
  split
  · exact fun _ => unmarked_nil.failed rfl
  dsimp only
  split
  · exact updateUserWith_operates hjob unmarked_nil
  · rename_i password _
    refine always_call (.inl unmarked_nil) fun reply _ => ?_
    have hhash : Unmarked job.request.performs [⟨.generateFromPassword password, reply⟩] :=
      unmarked_nil.append (by rw [hjob]; rfl)
    cases reply with
    | error err => exact fun _ => hhash.failed rfl
    | ok hashedPassword => exact updateUserWith_operates hjob hhash

theorem processTask_operates {task : Worker.Task} (hjob : job.request = .task task) :
    Always (OwesOperation job) Valid (fun _ _ => True) []
      (Worker.processTaskSendVerifyEmail task) := by
  unfold Worker.processTaskSendVerifyEmail
  refine always_call (.inl unmarked_nil) fun reply _ => ?_
  have huser := unmarked_nil.append
    (show job.request.performs ⟨.sql .pool (.getUser task.payload.username), reply⟩ = false by
      rw [hjob]; rfl)
  cases reply with
  | error err => trivial
  | ok user =>
  refine always_call (.inl huser) fun secretCode _ => ?_
  have hcode := huser.append
    (show job.request.performs ⟨.randomString 32, secretCode⟩ = false by rw [hjob]; rfl)
  refine always_call (.inl hcode) fun reply _ => ?_
  cases reply with
  | error err => trivial
  | ok verifyEmail =>
  have hmails : ∀ mail reply, job.request.performs ⟨.sendEmail mail, reply⟩ = false :=
    fun _ _ => by rw [hjob]; rfl
  refine always_call (.inr ⟨by rw [hjob]; rfl, hmails _⟩) fun reply _ => ?_
  cases reply <;> trivial

end Operates

theorem service_operates (deps : Deps) : (service deps).Verified OwesOperation Valid
    fun job history response => Answers job history response.success := by
  refine ⟨fun job => ?_, valid_of_step⟩
  obtain ⟨request, now⟩ := job
  cases request with
  | createUser body =>
    change Always _ Valid _ [] (Api.createUser deps body >>= fun reply =>
      pure (Response.http reply))
    exact Always.bind (fun _ _ h => h) (createUser_operates rfl)
  | createAccount authorization body =>
    change Always _ Valid _ [] (Api.authRoute deps now authorization _ >>= fun reply =>
      pure (Response.http reply))
    refine Always.bind (fun _ _ h => h) ?_
    unfold Api.authRoute
    split
    · exact fun _ => unmarked_nil.failed rfl
    · exact createAccount_operates rfl
  | createTransfer authorization body =>
    change Always _ Valid _ [] (Api.authRoute deps now authorization _ >>= fun reply =>
      pure (Response.http reply))
    refine Always.bind (fun _ _ h => h) ?_
    unfold Api.authRoute
    split
    · exact fun _ => unmarked_nil.failed rfl
    · exact createTransfer_operates rfl
  | rpcCreateUser req =>
    change Always _ Valid _ [] (Gapi.createUser deps req >>= fun reply => pure (Response.rpc reply))
    exact Always.bind (fun _ _ h => h) (rpcCreateUser_operates rfl)
  | rpcUpdateUser ctx req =>
    change Always _ Valid _ [] (Gapi.updateUser deps now ctx req >>= fun reply =>
      pure (Response.rpc reply))
    exact Always.bind (fun _ _ h => h) (rpcUpdateUser_operates rfl)
  | rpcVerifyEmail req =>
    change Always _ Valid _ [] (Gapi.verifyEmail req >>= fun reply => pure (Response.rpc reply))
    exact Always.bind (fun _ _ h => h) (rpcVerifyEmail_operates rfl)
  | task task =>
    change Always _ Valid _ [] (Worker.processTaskSendVerifyEmail task >>= fun result =>
      pure (Response.task result))
    refine Always.bind (fun _ _ _ => ?_) (processTask_operates rfl)
    exact fun hoperates => absurd hoperates (by simp [Request.operates])
  | loginUser _ _ _ | renewAccessToken _ | getAccount _ _ | listAccounts _ _ | rpcLoginUser _ _ =>
    refine (Always.of_trivial _ _).mono (fun _ op _ => .inl fun _ _ => ?_) ?_
    · exact fun _ _ _ hoperates => absurd hoperates (by simp [Request.operates])
    · simp [Request.performs]

/-- What a request asks of the bank, in the name of its caller. -/
inductive Asks (deps : Deps) (job : Job) : Bank.Operation → Prop
  | createUser {req : Api.CreateUserRequest} : job.request = .createUser (.ok req) →
      Asks deps job (.register req.username req.fullName req.email)
  | rpcCreateUser {req : Gapi.CreateUserRequest} : job.request = .rpcCreateUser req →
      Asks deps job (.register req.username req.fullName req.email)
  | rpcUpdateUser {ctx : Gapi.Context} {req : Gapi.UpdateUserRequest} {payload : Token.Payload} :
      job.request = .rpcUpdateUser ctx req → job.bearer deps = some payload →
      Asks deps job (.edit payload.username payload.role req.username req.fullName req.email)
  | rpcVerifyEmail {req : Gapi.VerifyEmailRequest} : job.request = .rpcVerifyEmail req →
      Asks deps job (.verify req.emailId req.secretCode)
  | task {task : Worker.Task} {id : Int} {code : String} : job.request = .task task →
      Asks deps job (.invite id task.payload.username code)
  | createAccount {authorization : String} {req : Api.CreateAccountRequest}
      {payload : Token.Payload} {id : Int} : job.request = .createAccount authorization (.ok req) →
      job.bearer deps = some payload → Asks deps job (.openAccount id payload.username req.currency)
  | createTransfer {authorization : String} {req : Api.TransferRequest} {payload : Token.Payload} :
      job.request = .createTransfer authorization (.ok req) → job.bearer deps = some payload →
      Asks deps job (.pay payload.username ⟨req.fromAccountID, req.toAccountID, req.amount.toInt⟩)

/-- A call carries out what the request asks, or nothing. -/
def Fulfils (deps : Deps) (job : Job) (exchange : Exchange Op Op.Reply) : Prop :=
  match job.operation deps exchange with
  | some operation => job.request.performs exchange = true ∧ Asks deps job operation
  | none => job.request.performs exchange = false

section Fulfils

variable {deps : Deps} {job : Job} {history : History}

/-- A statement outside a transaction, for the request it is made for. -/
theorem fulfils_pool {stmt : Stmt} {row : stmt.Result} (howes : PoolOwes deps job history stmt)
    (hvalid : Valid (.sql .pool stmt) (.ok row))
    (hhistory : ∀ exchange ∈ history, Valid exchange.op exchange.reply) :
    Fulfils deps job ⟨.sql .pool stmt, .ok row⟩ := by
  obtain ⟨generated, now, db, hyields⟩ := hvalid
  cases stmt with
  | createUser arg =>
    obtain ⟨body, req, hjob, hbind, hashedPassword, -, rfl⟩ := howes
    obtain ⟨rfl, -⟩ := Api.bind_eq_ok.mp hbind
    exact ⟨by rw [hjob]; rfl, .createUser hjob⟩
  | updateUser arg =>
    obtain ⟨ctx, req, payload, hjob, hbearer, -, -, husername, hfullName, hemail, -, -⟩ := howes
    simp only [Fulfils, Job.operation, hbearer, Option.map_some, husername, hfullName, hemail]
    exact ⟨by rw [hjob]; rfl, .rpcUpdateUser hjob hbearer⟩
  | createAccount arg =>
    obtain ⟨authorization, req, payload, hjob, hbearer, rfl, -⟩ := howes
    obtain ⟨-, -, rfl⟩ := hyields
    simp only [Fulfils, Job.operation, hbearer, Option.map_some]
    exact ⟨by rw [hjob]; rfl, .createAccount hjob hbearer⟩
  | createVerifyEmail arg =>
    obtain ⟨task, user, hjob, hread, husername, -, -⟩ := howes
    obtain ⟨-, -, -, hname, -⟩ := hhistory _ hread
    obtain ⟨-, -, rfl⟩ := hyields
    simp only [Fulfils, Job.operation, husername, hname]
    exact ⟨by rw [hjob]; rfl, .task hjob⟩
  | createSession _ | getUser _ | getAccount _ | listAccounts _ | getSession _ =>
    change job.request.performs _ = false
    unfold Request.performs
    split <;> first | rfl | (rename_i heq; cases heq)
  | addAccountBalance _ | createEntry _ | createTransfer _ | updateVerifyEmail _ =>
    exact howes.elim

/-- The transaction of a request. -/
theorem fulfils_commit {calls : List Ran} (hcommits : Commits deps job history calls) :
    Fulfils deps job ⟨.commit, .ok ()⟩ := by
  cases hcommits with
  | transfer arg result htransfer hmay _ =>
    obtain ⟨payload, -, -, hbearer, -⟩ := hmay.accounts
    obtain ⟨authorization, req, hjob, -, -⟩ := Job.request_of_transfer htransfer hbearer
    simp only [Fulfils, Job.operation, hjob, hbearer, Option.map_some]
    exact ⟨rfl, .createTransfer hjob hbearer⟩
  | verifyEmail arg result hlink _ =>
    obtain ⟨req, hjob, -⟩ := Job.request_of_link hlink
    simp only [Fulfils, Job.operation, hjob]
    exact ⟨rfl, .rpcVerifyEmail hjob⟩
  | createUser req hashedPassword user hjob _ _ =>
    simp only [Fulfils, Job.operation, hjob]
    exact ⟨rfl, .rpcCreateUser hjob⟩

theorem fulfils_of_owes {op : Op} {reply : op.Reply} (howes : Owes deps job history op)
    (hvalid : Valid op reply) (hhistory : ∀ exchange ∈ history, Valid exchange.op exchange.reply) :
    Fulfils deps job ⟨op, reply⟩ := by
  have nothing : job.operation deps ⟨op, reply⟩ = none →
      job.request.performs ⟨op, reply⟩ = false → Fulfils deps job ⟨op, reply⟩ := by
    intro hnone hperforms
    rw [Fulfils, hnone]
    exact hperforms
  have quiet : ∀ {exchange : Exchange Op Op.Reply}, (∀ reply, exchange ≠ ⟨.commit, .ok reply⟩) →
      (∀ stmt row, exchange ≠ ⟨.sql .pool stmt, .ok row⟩) →
      job.request.performs exchange = false := by
    intro exchange hcommit hpool
    unfold Request.performs
    split <;> first | exact absurd rfl (hpool _ _) | exact absurd rfl (hcommit _) | rfl
  cases op with
  | sql conn stmt =>
    cases reply with
    | error err =>
      exact nothing (by cases conn <;> cases stmt <;> rfl) (quiet (by rintro _ ⟨⟩) (by rintro _ _ ⟨⟩))
    | ok row =>
      cases conn with
      | pool => exact fulfils_pool howes hvalid hhistory
      | tx => exact nothing rfl (quiet (by rintro _ ⟨⟩) (by rintro _ _ ⟨⟩))
  | commit =>
    cases reply with
    | error err => exact nothing rfl (quiet (by rintro _ ⟨⟩) (by rintro _ _ ⟨⟩))
    | ok value =>
      obtain ⟨calls, -, hcommits⟩ := howes
      exact fulfils_commit hcommits
  | begin | rollback | generateFromPassword _ | newRandom | encrypt _ | enqueue _
    | randomString _ | sendEmail _ => exact nothing rfl (quiet (by rintro _ ⟨⟩) (by rintro _ _ ⟨⟩))

end Fulfils

/-- What has become of a request: it carries out what it asks, at most once, nothing
before it is answered, and then one operation if it is answered with success. -/
structure CarriedOut (deps : Deps) (job : Job) (program : Act Response)
    (operations : List Bank.Operation) : Prop where
  asked : ∀ operation ∈ operations, Asks deps job operation
  once : operations.length ≤ 1
  pending : ∀ op next, program = .call op next → job.request.operates = true → operations = []
  answered : ∀ response, program = .done response → job.request.operates = true →
    operations.length = if response.success then 1 else 0

section Runs

variable {deps : Deps} {ok : ServiceConfig → Event Job Choice External → Prop} {w : World}
  {config : ServiceConfig} {thread : Nat} {job : Job} {program : Act Response}

theorem fulfils_of_mem (hreach : (service deps).Reach ok (.initial w) config)
    (hjob : config.job? thread = some job) :
    ∀ exchange ∈ config.history thread, Fulfils deps job exchange := by
  intro exchange hmem
  obtain ⟨taken, htaken, rfl, rfl⟩ := Config.mem_history.mp hmem
  obtain ⟨found, history, hfound, hbefore, howes, hvalid⟩ := hreach.of_trace
    (P := fun job history taken =>
      Owes deps job history taken.exchange.op ∧ Valid taken.exchange.op taken.exchange.reply)
    (fun hreach htakes => ⟨(service_verified deps).at_call hreach htakes,
      (service_verified deps).valid htakes.step_eq⟩) taken htaken
  cases hjob.symm.trans hfound
  exact fulfils_of_owes howes hvalid fun _ hearlier =>
    (service_verified deps).replied hreach (hbefore.mem hearlier)

theorem carriedOut_of_reach (hreach : (service deps).Reach ok (.initial w) config)
    (hthread : config.threads[thread]? = some ⟨job, program⟩) :
    CarriedOut deps job program ((config.history thread).filterMap (job.operation deps)) := by
  have hjob : config.job? thread = some job := by rw [Config.job?, hthread]; rfl
  have hfulfils := fulfils_of_mem hreach hjob
  have hlength : ((config.history thread).filterMap (job.operation deps)).length =
      (config.history thread).countP job.request.performs := by
    rw [List.length_filterMap_eq_countP]
    refine List.countP_congr fun exchange hmem => ?_
    have hexchange := hfulfils exchange hmem
    unfold Fulfils at hexchange
    split at hexchange <;> simp_all
  have hreplied : ∀ exchange ∈ config.history thread, Valid exchange.op exchange.reply :=
    fun _ hmem => (service_operates deps).replied hreach hmem
  have honce := MarksOnce.countP_le_one (((service_operates deps).always job).mono
    (fun _ _ howes => howes.imp_right And.right) fun _ _ hpost => hpost)
    (hreach.follows.reaches thread job program hthread) hreplied
  refine ⟨?_, hlength.trans_le honce, ?_, ?_⟩
  · intro operation hmem
    obtain ⟨exchange, hmem, hoperation⟩ := List.mem_filterMap.mp hmem
    have hexchange := hfulfils exchange hmem
    rw [Fulfils, hoperation] at hexchange
    exact hexchange.2
  · rintro op next rfl hoperates
    have howes := ((service_operates deps).at_thread hreach hthread).1
    rw [← List.length_eq_zero_iff, hlength, ← unmarked_iff]
    exact howes.resolve_right fun hnever => absurd (hnever.1.symm.trans hoperates) Bool.noConfusion
  · rintro response rfl hoperates
    have hreports := (service_operates deps).at_end hreach hthread hoperates
    rw [unmarked_iff] at hreports
    rw [hlength]
    split
    · rename_i hsuccess
      have hsome := hreports.mp hsuccess
      omega
    · rename_i hfailed
      exact Decidable.not_not.mp fun hsome => hfailed (hreports.mpr hsome)

/-- Every run of the served requests is a run of the bank: the operations that the
requests have carried out, in the order of their calls, are allowed one after
another and lead to the bank of the present tables. Each is what its request
asks, and each request is answered with success exactly if it has carried out
its one operation. -/
theorem service_refines_bank (hstart : w.txs = .empty) (hinit : w.db.Consistent)
    (hreach : (service deps).Reach (fun _ event => Sequenced event) (.initial w) config) :
    Bank.machine.Performs (bankOf w.db) (config.operations (Job.operation deps))
      (bankOf config.world.db) ∧
    ∀ thread job program, config.threads[thread]? = some ⟨job, program⟩ →
      CarriedOut deps job program ((config.history thread).filterMap (job.operation deps)) :=
  ⟨performs_of_reach hstart hinit hreach, fun _ _ _ hthread => carriedOut_of_reach hreach hthread⟩

end Runs

/-- Two transfers in opposite directions: one is answered, the other has yet to
commit. -/
def Sample.halfway : List (Event Job Choice External) :=
  Sample.crossingRequests ++ [.run 0 {}, .run 0 {}, .run 1 {}, .run 1 {}]

theorem Sample.halfway_runs :
    ((service Sample.deps).run (.initial Sample.funded) Sample.halfway).isSome = true := by
  decide +kernel

def Sample.answered : ServiceConfig :=
  ((service Sample.deps).run (.initial Sample.funded) Sample.halfway).get Sample.halfway_runs

theorem Sample.answered_reach : (service Sample.deps).Reach (fun _ event => Sequenced event)
    (.initial Sample.funded) Sample.answered :=
  .extend .start (by simp [Sample.halfway, Sample.crossingRequests, Sequenced])
    (Option.some_get Sample.halfway_runs).symm

theorem Sample.answered_operations :
    Sample.answered.operations (Job.operation Sample.deps) = [.pay "alice" ⟨1, 2, 10⟩] := by
  decide +kernel

theorem service_refines_bank_sample : Bank.machine.Performs (bankOf Sample.funded.db)
    [.pay "alice" ⟨1, 2, 10⟩] (bankOf Sample.answered.world.db) := by
  have h := service_refines_bank rfl Sample.funded_consistent Sample.answered_reach
  rw [Sample.answered_operations] at h
  exact h.1

/-- What a request would add to the balance of an account. -/
def Request.share (accountID : Int) : Request → Int
  | .createTransfer _ (.ok req) =>
    Remittance.share accountID ⟨req.fromAccountID, req.toAccountID, req.amount.toInt⟩
  | _ => 0

/-- What a request has added to the balance of an account, by its answer. -/
def reported (accountID : Int) (thread : Thread Op Op.Reply Job Response) : Int :=
  match thread.program with
  | .done response => if response.success then thread.job.request.share accountID else 0
  | .call _ _ => 0

section Answers

variable {deps : Deps} {ok : ServiceConfig → Event Job Choice External → Prop} {w : World}
  {config : ServiceConfig} {job : Job} {program : Act Response}

theorem share_of_asks {operation : Bank.Operation} (h : Asks deps job operation) (id : Int) :
    operation.share id = job.request.share id := by
  cases h with
  | createUser hjob | rpcCreateUser hjob | rpcVerifyEmail hjob | task hjob => rw [hjob]; rfl
  | rpcUpdateUser hjob _ | createAccount hjob _ | createTransfer hjob _ => rw [hjob]; rfl

theorem share_of_not_operates {request : Request} (h : request.operates = false) (id : Int) :
    request.share id = 0 := by
  cases request with
  | createTransfer _ _ => cases h
  | _ => rfl

theorem CarriedOut.sum_share {operations : List Bank.Operation}
    (h : CarriedOut deps job program operations) (id : Int) :
    (operations.map (Bank.Operation.share id)).sum = reported id ⟨job, program⟩ := by
  have hsum : (operations.map (Bank.Operation.share id)).sum =
      operations.length * job.request.share id := by
    rw [List.map_congr_left fun operation hmem => share_of_asks (h.asked operation hmem) id]
    simp
  cases hoperates : job.request.operates with
  | false =>
    rw [hsum, share_of_not_operates hoperates, Int.mul_zero]
    cases program with
    | call op next => rfl
    | done response => simp [reported, share_of_not_operates hoperates]
  | true =>
    cases hprogram : program with
    | call op next =>
      rw [h.pending op next hprogram hoperates]
      rfl
    | done response =>
      rw [hsum, h.answered response hprogram hoperates]
      simp only [reported]
      split <;> simp

/-- In every reachable state the balance of each account is what it was at the
start and the sum of the transfers that have been answered with success. -/
theorem balance_eq_reported (hstart : w.txs = .empty) (hinit : w.db.Consistent)
    (hreach : (service deps).Reach (fun _ event => Sequenced event) (.initial w) config) (id : Int) :
    Bank.balance id (bankOf config.world.db) =
      Bank.balance id (bankOf w.db) + (config.threads.map (reported id)).sum := by
  rw [Bank.balance_eq (performs_of_reach hstart hinit hreach), hreach.follows.sum_operations,
    ← Fin.sum_univ_fun_getElem]
  congr 1
  refine Finset.sum_congr rfl fun thread _ => ?_
  exact (carriedOut_of_reach hreach (List.getElem?_eq_getElem thread.isLt)).sum_share id

end Answers

theorem balance_eq_reported_sample :
    Bank.balance 1 (bankOf Sample.answered.world.db) = Bank.balance 1 (bankOf Sample.funded.db) +
      (Sample.answered.threads.map (reported 1)).sum :=
  balance_eq_reported rfl Sample.funded_consistent Sample.answered_reach 1

end SimpleBank
