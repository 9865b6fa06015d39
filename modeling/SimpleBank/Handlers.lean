import SimpleBank.Obligations

/-! Every request keeps what it owes: one proof for each handler, following its
calls in order. -/
namespace SimpleBank
open Library Db Program

variable {deps : Deps} {job : Job} {history : History}

theorem Settled.of_refused {success : Bool} (hsuccess : success = false)
    (hopen : openTx history = none) (hdurable : durable history = []) :
    Settled history success :=
  ⟨hopen, fun h => (by rw [hsuccess] at h; cases h), fun _ => hdurable⟩

theorem Settled.of_success (hopen : openTx history = none)
    (hdurable : durable history = writes history) : Settled history true :=
  ⟨hopen, fun _ => hdurable, fun h => nomatch h⟩

theorem success_http_eq_false {reply : Api.Reply} (h : reply.status ≠ Api.statusOK) :
    (Response.http reply).success = false :=
  decide_eq_false h

theorem notFoundOrInternal_ne_ok (err : Err) : Api.notFoundOrInternal err ≠ Api.statusOK := by
  unfold Api.notFoundOrInternal
  split <;> decide

/-- How a handler of the HTTP API ends. -/
def HttpPost (history : History) (reply : Api.Reply) : Prop :=
  Settled history (Response.http reply).success

/-- How a method of the gRPC API ends. -/
def RpcPost (history : History) (reply : Gapi.Reply) : Prop :=
  Settled history (Response.rpc reply).success

theorem httpPost_fail {status : Nat} {content : Api.Content} (hstatus : status ≠ Api.statusOK)
    (hopen : openTx history = none) (hdurable : durable history = []) :
    HttpPost history ⟨status, content⟩ :=
  .of_refused (success_http_eq_false hstatus) hopen hdurable

theorem createUser_always {body : Api.Body Api.CreateUserRequest}
    (hjob : job.request = .createUser body) :
    Always (Owes deps job) Valid HttpPost [] (Api.createUser deps body) := by
  unfold Api.createUser
  split
  · exact httpPost_fail (by decide) rfl rfl
  · rename_i req hbind
    refine always_call trivial fun reply _ => ?_
    cases reply with
    | error err => exact httpPost_fail (by decide) rfl rfl
    | ok hashedPassword =>
    refine always_call ⟨body, req, hjob, hbind, hashedPassword, said_last _ _ _, rfl⟩
      fun reply _ => ?_
    cases reply with
    | error err => exact httpPost_fail (by split <;> decide) rfl rfl
    | ok user => exact .of_success rfl rfl

/-- `later` continues `history` by calls that are not to the database. -/
structure Aside (history later : History) : Prop where
  continues : history <+: later
  open_eq : openTx later = openTx history
  durable_eq : durable later = durable history
  writes_eq : writes later = writes history

theorem Aside.trans {a b c : History} (hab : Aside a b) (hbc : Aside b c) : Aside a c :=
  ⟨hab.continues.trans hbc.continues, hbc.open_eq.trans hab.open_eq,
    hbc.durable_eq.trans hab.durable_eq, hbc.writes_eq.trans hab.writes_eq⟩

theorem aside_newRandom (history : History) (reply : Except Err UUID) :
    Aside history (history ++ [⟨.newRandom, reply⟩]) := by
  refine ⟨List.prefix_append _ _, ?_, ?_, ?_⟩
  · rw [openTx_append]
    cases openTx history <;> rfl
  · rw [durable_append]
    cases openTx history <;> simp [committed]
  · simp [writes_append, issued]

theorem aside_encrypt (history : History) (payload : Token.Payload) (reply : Except Err String) :
    Aside history (history ++ [⟨.encrypt payload, reply⟩]) := by
  refine ⟨List.prefix_append _ _, ?_, ?_, ?_⟩
  · rw [openTx_append]
    cases openTx history <;> rfl
  · rw [durable_append]
    cases openTx history <;> simp [committed]
  · simp [writes_append, issued]

/-- A token comes back with the payload it was made from. -/
def TokenPost (make : UUID → Token.Payload) (history later : History)
    (outcome : Except Err (String × Token.Payload)) : Prop :=
  Aside history later ∧ ∀ token payload, outcome = .ok (token, payload) →
    ∃ tokenID, payload = make tokenID ∧ Said later (.encrypt payload) (.ok token)

theorem createToken_always {now : Time} {username role : String} {duration : Time}
    {tokenType : Token.TokenType} (hissues : ∀ later tokenID, history <+: later →
      Issues deps job later (Token.newPayload now tokenID username role duration tokenType)) :
    Always (Owes deps job) Valid
      (TokenPost (Token.newPayload now · username role duration tokenType) history) history
      (Token.createToken now username role duration tokenType) := by
  refine always_call trivial fun reply _ => ?_
  have hrandom := aside_newRandom history reply
  cases reply with
  | error err => exact ⟨hrandom, fun _ _ h => nomatch h⟩
  | ok tokenID =>
  refine always_call (hissues _ tokenID hrandom.continues) fun reply _ => ?_
  have hencrypt := hrandom.trans (aside_encrypt _
    (Token.newPayload now tokenID username role duration tokenType) reply)
  cases reply with
  | error err => exact ⟨hencrypt, fun _ _ h => nomatch h⟩
  | ok token =>
    refine ⟨hencrypt, ?_⟩
    rintro _ _ ⟨rfl⟩
    exact ⟨tokenID, rfl, said_last _ _ _⟩

theorem openTx_pool (hopen : openTx history = none) (stmt : Stmt)
    (outcome : Except Err stmt.Result) :
    openTx (history ++ [⟨.sql .pool stmt, outcome⟩]) = none := by
  rw [openTx_append, hopen]
  rfl

theorem durable_pool (hopen : openTx history = none) (stmt : Stmt)
    (outcome : Except Err stmt.Result) :
    durable (history ++ [⟨.sql .pool stmt, outcome⟩]) = durable history ++ stmt.effect outcome := by
  rw [durable_append, hopen]
  cases outcome <;> simp [committed, Ran.rows, Stmt.effect]

theorem LoggedIn.later {user : User} (h : LoggedIn deps job history user) {later : History}
    (hcontinues : history <+: later) : LoggedIn deps job later user := by
  obtain ⟨username, password, hcredentials, hsaid, hcheck⟩ := h
  exact ⟨username, password, hcredentials, hsaid.later hcontinues, hcheck⟩

theorem Renewing.later {refreshPayload : Token.Payload}
    (h : Renewing deps job history refreshPayload) {later : History}
    (hcontinues : history <+: later) : Renewing deps job later refreshPayload := by
  obtain ⟨refreshToken, session, hrefresh, hsaid, hsession⟩ := h
  exact ⟨refreshToken, session, hrefresh, hsaid.later hcontinues, hsession⟩

/-- A session is created for the refresh token that was just made. -/
theorem LoggedIn.session {user : User} (h : LoggedIn deps job history user) {later : History}
    (hcontinues : history <+: later) {now duration : Time} {token : String}
    {payload : Token.Payload} (hpayload : ∃ tokenID,
      payload = Token.newPayload now tokenID user.username user.role duration
        Token.tokenTypeRefreshToken ∧ Said later (.encrypt payload) (.ok token))
    (userAgent clientIP : String) :
    PoolOwes deps job later (.createSession ⟨payload.id, user.username, token, userAgent, clientIP,
      false, payload.expiredAt⟩) := by
  obtain ⟨tokenID, rfl, hsaid⟩ := hpayload
  exact ⟨user, _, h.later hcontinues, hsaid, rfl, rfl, rfl, rfl, rfl, rfl⟩

theorem loginUser_always {userAgent clientIP : String} {body : Api.Body Api.LoginUserRequest}
    (hjob : job.request = .loginUser userAgent clientIP body) :
    Always (Owes deps job) Valid HttpPost []
      (Api.loginUser deps job.now userAgent clientIP body) := by
  unfold Api.loginUser
  split
  · exact httpPost_fail (by decide) rfl rfl
  rename_i req hbind
  refine always_call trivial fun reply _ => ?_
  cases reply with
  | error err => exact httpPost_fail (notFoundOrInternal_ne_ok err) rfl rfl
  | ok user =>
  dsimp only [Program.bind]
  split
  · exact httpPost_fail (by decide) rfl rfl
  rename_i hcheck
  have hlogin : LoggedIn deps job ([] ++ [⟨.sql .pool (.getUser req.username), .ok user⟩]) user :=
    ⟨req.username, req.password, by simp [Job.credentials, hjob, hbind], said_last _ _ _, hcheck⟩
  refine Always.bind ?_ (createToken_always fun _ tokenID hcontinues =>
    .access tokenID user (hlogin.later hcontinues))
  rintro later outcome ⟨haccess, -⟩
  cases outcome with
  | error err => exact httpPost_fail (by decide) haccess.open_eq haccess.durable_eq
  | ok access =>
  refine Always.bind ?_ (createToken_always fun _ tokenID hcontinues =>
    .refresh tokenID user (hlogin.later (haccess.continues.trans hcontinues)))
  rintro last outcome ⟨hrefresh, hpayload⟩
  have haside := haccess.trans hrefresh
  cases outcome with
  | error err => exact httpPost_fail (by decide) haside.open_eq haside.durable_eq
  | ok refresh =>
  refine always_call (hlogin.session haside.continues (hpayload _ _ rfl) _ _) fun reply _ => ?_
  have hopen := openTx_pool haside.open_eq _ reply
  have hdurable := durable_pool haside.open_eq _ reply
  rw [haside.durable_eq] at hdurable
  cases reply with
  | error err => exact httpPost_fail (by decide) hopen hdurable
  | ok session =>
    refine Settled.of_success hopen (hdurable.trans ?_)
    rw [writes_append, haside.writes_eq]
    rfl

theorem renewAccessToken_always {body : Api.Body Api.RenewAccessTokenRequest}
    (hjob : job.request = .renewAccessToken body) :
    Always (Owes deps job) Valid HttpPost [] (Api.renewAccessToken deps job.now body) := by
  unfold Api.renewAccessToken
  split
  · exact httpPost_fail (by decide) rfl rfl
  rename_i req hbind
  split
  · exact httpPost_fail (by decide) rfl rfl
  rename_i refreshPayload hverify
  refine always_call trivial fun reply _ => ?_
  cases reply with
  | error err => exact httpPost_fail (notFoundOrInternal_ne_ok err) rfl rfl
  | ok session =>
  dsimp only [Program.bind]
  split
  · exact httpPost_fail (by decide) rfl rfl
  rename_i hblocked
  split
  · exact httpPost_fail (by decide) rfl rfl
  rename_i husername
  split
  · exact httpPost_fail (by decide) rfl rfl
  rename_i htoken
  split
  · exact httpPost_fail (by decide) rfl rfl
  rename_i hexpires
  have hrefresh : job.refresh deps = some (req.refreshToken, refreshPayload) := by
    simp [Job.refresh, hjob, hbind, hverify]
  have hrenewing : Renewing deps job
      ([] ++ [⟨.sql .pool (.getSession refreshPayload.id), .ok session⟩]) refreshPayload :=
    ⟨req.refreshToken, session, hrefresh, said_last _ _ _, by simpa using hblocked,
      not_not.mp husername, not_not.mp htoken, Int.not_lt.mp hexpires⟩
  refine Always.bind ?_ (createToken_always fun _ tokenID hcontinues =>
    .renewed tokenID refreshPayload (hrenewing.later hcontinues))
  rintro later outcome ⟨haccess, -⟩
  cases outcome with
  | error err => exact httpPost_fail (by decide) haccess.open_eq haccess.durable_eq
  | ok access =>
    exact Settled.of_success haccess.open_eq (haccess.durable_eq.trans haccess.writes_eq.symm)

theorem authRoute_always {authorization : String} {handler : Token.Payload → Act Api.Reply}
    (hhandler : ∀ payload, Api.authMiddleware deps job.now authorization = .ok payload →
      Always (Owes deps job) Valid HttpPost [] (handler payload)) :
    Always (Owes deps job) Valid HttpPost [] (Api.authRoute deps job.now authorization handler) := by
  unfold Api.authRoute
  split
  · exact httpPost_fail (by decide) rfl rfl
  · rename_i payload hauth
    exact hhandler payload hauth

theorem createAccount_always {authorization : String} {body : Api.Body Api.CreateAccountRequest}
    (hjob : job.request = .createAccount authorization body) {payload : Token.Payload}
    (hauth : Api.authMiddleware deps job.now authorization = .ok payload) :
    Always (Owes deps job) Valid HttpPost [] (Api.createAccount payload body) := by
  unfold Api.createAccount
  split
  · exact httpPost_fail (by decide) rfl rfl
  rename_i req hbind
  obtain ⟨rfl, hcheck⟩ := Api.bind_eq_ok.mp hbind
  have hbearer : job.bearer deps = some payload := by simp [Job.bearer, hjob, hauth, Except.toOption]
  refine always_call ⟨authorization, req, payload, hjob, hbearer, rfl, ?_⟩ fun reply _ => ?_
  · exact (Api.CreateAccountRequest.check_eq_ok.mp hcheck).2
  · cases reply with
    | error err => exact httpPost_fail (by split <;> decide) rfl rfl
    | ok account => exact Settled.of_success rfl rfl

theorem getAccount_always {payload : Token.Payload} {uri : Api.Body Api.GetAccountRequest} :
    Always (Owes deps job) Valid HttpPost [] (Api.getAccount payload uri) := by
  unfold Api.getAccount
  split
  · exact httpPost_fail (by decide) rfl rfl
  refine always_call trivial fun reply _ => ?_
  cases reply with
  | error err => exact httpPost_fail (notFoundOrInternal_ne_ok err) rfl rfl
  | ok account =>
  dsimp only [Program.bind]
  split
  · exact httpPost_fail (by decide) rfl rfl
  · exact Settled.of_success rfl rfl

/-- Inside a transaction only the commit has to be justified. -/
theorem owes_of_txOwes {orders : List Ran → Stmt → Prop} {commits : History → List Ran → Prop}
    {later : History} {op : Op}
    (hcommit : ∀ calls, Within history later calls → commits later calls →
      Commits deps job later calls)
    (h : TxOwes orders commits history later op) : Owes deps job later op := by
  cases op with
  | sql conn stmt =>
    cases conn with
    | pool => exact h.elim
    | tx => trivial
  | commit =>
    obtain ⟨calls, hwithin, hcommits⟩ := h
    exact ⟨calls, hwithin.opened, hcommit calls hwithin hcommits⟩
  | encrypt payload => exact h.elim
  | _ => trivial

/-- The account check only reads, and reports the account it read. -/
def AccountPost (accountID : Int) (currency : String) (history later : History) :
    Except Api.Reply Account → Prop
  | .ok account => account.currency = currency ∧
      later = history ++ [⟨.sql .pool (.getAccount accountID), .ok account⟩]
  | .error reply => reply.status ≠ Api.statusOK ∧ ∃ outcome,
      later = history ++ [⟨.sql .pool (.getAccount accountID), outcome⟩]

theorem validAccount_always {accountID : Int} {currency : String} :
    Always (Owes deps job) Valid (AccountPost accountID currency history) history
      (Api.validAccount accountID currency) := by
  refine always_call trivial fun reply _ => ?_
  cases reply with
  | error err => exact ⟨notFoundOrInternal_ne_ok err, _, rfl⟩
  | ok account =>
  dsimp only [Program.bind]
  split
  · exact ⟨(by decide : Api.statusBadRequest ≠ Api.statusOK), _, rfl⟩
  · rename_i hcurrency
    exact ⟨not_not.mp hcurrency, rfl⟩

theorem createTransfer_always {authorization : String} {body : Api.Body Api.TransferRequest}
    (hjob : job.request = .createTransfer authorization body) {payload : Token.Payload}
    (hauth : Api.authMiddleware deps job.now authorization = .ok payload) :
    Always (Owes deps job) Valid HttpPost [] (Api.createTransfer payload body) := by
  unfold Api.createTransfer
  split
  · exact httpPost_fail (by decide) rfl rfl
  rename_i req hbind
  obtain ⟨rfl, hcheck⟩ := Api.bind_eq_ok.mp hbind
  obtain ⟨-, -, hamount, hcurrency⟩ := Api.TransferRequest.check_eq_ok.mp hcheck
  refine Always.bind ?_ validAccount_always
  intro afterFrom outcome hfrom
  cases outcome with
  | error reply =>
    obtain ⟨hstatus, outcome, rfl⟩ := hfrom
    cases outcome <;> exact Settled.of_refused (success_http_eq_false hstatus) rfl rfl
  | ok fromAccount =>
  obtain ⟨hfromCurrency, rfl⟩ := hfrom
  dsimp only
  split
  · exact httpPost_fail (by decide) rfl rfl
  rename_i howner
  refine Always.bind ?_ validAccount_always
  intro afterTo outcome hto
  cases outcome with
  | error reply =>
    obtain ⟨hstatus, outcome, rfl⟩ := hto
    cases outcome <;> exact Settled.of_refused (success_http_eq_false hstatus) rfl rfl
  | ok toAccount =>
  obtain ⟨htoCurrency, rfl⟩ := hto
  generalize hread : ([] : History) ++ [⟨.sql .pool (.getAccount req.fromAccountID), .ok fromAccount⟩] ++
    [⟨.sql .pool (.getAccount req.toAccountID), .ok toAccount⟩] = read
  have hopen : openTx read = none := by rw [← hread]; rfl
  have hdurable : durable read = [] := by rw [← hread]; rfl
  have hwrites : writes read = [] := by rw [← hread]; rfl
  have hbearer : job.bearer deps = some payload := by simp [Job.bearer, hjob, hauth, Except.toOption]
  have hmay : ∀ later, read <+: later →
      MayTransfer deps job later ⟨req.fromAccountID, req.toAccountID, req.amount⟩ := by
    intro later hcontinues
    refine ⟨hamount, payload, fromAccount, toAccount, hbearer, ?_, ?_, not_not.mp howner,
      hfromCurrency.trans htoCurrency.symm, hfromCurrency ▸ hcurrency⟩
    · refine Said.later ?_ hcontinues
      rw [← hread]
      exact List.mem_append_left _ (said_last _ _ _)
    · refine Said.later ?_ hcontinues
      rw [← hread]
      exact said_last _ _ _
  refine Always.bind ?_ (transferTx_always hopen ?_)
  · intro later outcome hpost
    cases outcome with
    | error err => exact httpPost_fail (by decide) hpost.closed (hpost.durable_eq.trans hdurable)
    | ok result =>
      obtain ⟨before, calls, -, hafter, -⟩ := hpost
      refine Settled.of_success hafter.closed ?_
      rw [hafter.durable_eq, hafter.writes_eq, hdurable, hwrites]
  · refine fun later op => owes_of_txOwes ?_
    rintro calls hwithin ⟨result, hcalls⟩
    exact .transfer _ result (by simp [Job.transfer, hjob]) (hmay later hwithin.continues) hcalls

theorem listAccounts_always {payload : Token.Payload} {query : Api.Body Api.ListAccountRequest} :
    Always (Owes deps job) Valid HttpPost [] (Api.listAccounts payload query) := by
  unfold Api.listAccounts
  split
  · exact httpPost_fail (by decide) rfl rfl
  refine always_call trivial fun reply _ => ?_
  cases reply with
  | error err => exact httpPost_fail (by decide) rfl rfl
  | ok accounts => exact Settled.of_success rfl rfl

theorem rpcPost_fail {status : Gapi.Status} (hopen : openTx history = none)
    (hdurable : durable history = []) : RpcPost history (.error status) :=
  .of_refused rfl hopen hdurable

theorem hashPassword_always {password : String} :
    Always (Owes deps job) Valid (fun later outcome => ∃ reply,
        later = history ++ [⟨.generateFromPassword password, reply⟩] ∧
        ∀ hashedPassword, outcome = .ok hashedPassword → reply = .ok hashedPassword)
      history (Util.hashPassword password) := by
  refine always_call trivial fun reply _ => ?_
  cases reply with
  | error err => exact ⟨_, rfl, fun _ h => nomatch h⟩
  | ok hashedPassword => exact ⟨_, rfl, fun _ h => by cases h; rfl⟩

theorem rpcCreateUser_always {req : Gapi.CreateUserRequest}
    (hjob : job.request = .rpcCreateUser req) :
    Always (Owes deps job) Valid RpcPost [] (Gapi.createUser deps req) := by
  unfold Gapi.createUser
  split
  · exact rpcPost_fail rfl rfl
  refine Always.bind ?_ hashPassword_always
  rintro hashed outcome ⟨reply, rfl, hreply⟩
  cases outcome with
  | error err => cases reply <;> exact rpcPost_fail rfl rfl
  | ok hashedPassword =>
  cases hreply hashedPassword rfl
  refine Always.bind ?_ (createUserTx_always rfl ?_)
  · intro later outcome hpost
    cases outcome with
    | error err =>
      dsimp only
      split
      · exact rpcPost_fail hpost.closed hpost.durable_eq
      · exact rpcPost_fail hpost.closed hpost.durable_eq
    | ok user =>
      obtain ⟨before, calls, -, hafter, -⟩ := hpost
      exact Settled.of_success hafter.closed (hafter.durable_eq.trans hafter.writes_eq.symm)
  · refine fun later op => owes_of_txOwes ?_
    rintro calls hwithin ⟨user, hcalls⟩
    exact .createUser req hashedPassword user hjob
      (Said.later (said_last _ _ _) hwithin.continues) hcalls

theorem rpcLoginUser_always {ctx : Gapi.Context} {req : Gapi.LoginUserRequest}
    (hjob : job.request = .rpcLoginUser ctx req) :
    Always (Owes deps job) Valid RpcPost [] (Gapi.loginUser deps job.now ctx req) := by
  unfold Gapi.loginUser
  split
  · exact rpcPost_fail rfl rfl
  rename_i hvalid
  refine always_call trivial fun reply _ => ?_
  cases reply with
  | error err =>
    dsimp only [Program.bind]
    split
    · exact rpcPost_fail rfl rfl
    · exact rpcPost_fail rfl rfl
  | ok user =>
  dsimp only [Program.bind]
  split
  · exact rpcPost_fail rfl rfl
  rename_i hcheck
  have hlogin : LoggedIn deps job ([] ++ [⟨.sql .pool (.getUser req.username), .ok user⟩]) user :=
    ⟨req.username, req.password, by simp [Job.credentials, hjob, hvalid], said_last _ _ _, hcheck⟩
  refine Always.bind ?_ (createToken_always fun _ tokenID hcontinues =>
    .access tokenID user (hlogin.later hcontinues))
  rintro later outcome ⟨haccess, -⟩
  cases outcome with
  | error err => exact rpcPost_fail haccess.open_eq haccess.durable_eq
  | ok access =>
  refine Always.bind ?_ (createToken_always fun _ tokenID hcontinues =>
    .refresh tokenID user (hlogin.later (haccess.continues.trans hcontinues)))
  rintro last outcome ⟨hrefresh, hpayload⟩
  have haside := haccess.trans hrefresh
  cases outcome with
  | error err => exact rpcPost_fail haside.open_eq haside.durable_eq
  | ok refresh =>
  refine always_call (hlogin.session haside.continues (hpayload _ _ rfl) _ _) fun reply _ => ?_
  have hopen := openTx_pool haside.open_eq _ reply
  have hdurable := durable_pool haside.open_eq _ reply
  rw [haside.durable_eq] at hdurable
  cases reply with
  | error err => exact rpcPost_fail hopen hdurable
  | ok session =>
    refine Settled.of_success hopen (hdurable.trans ?_)
    rw [writes_append, haside.writes_eq]
    rfl

/-- The update itself, once its parameters are put together. -/
theorem updateUserWith_always {arg : UpdateUserParams} (hopen : openTx history = none)
    (hdurable : durable history = []) (hwrites : writes history = [])
    (howes : PoolOwes deps job history (.updateUser arg)) :
    Always (Owes deps job) Valid RpcPost history (Gapi.updateUserWith arg) := by
  refine always_call howes fun reply _ => ?_
  have hclosed := openTx_pool hopen _ reply
  have hrows := durable_pool hopen _ reply
  rw [hdurable] at hrows
  cases reply with
  | error err =>
    dsimp only [Program.bind]
    split
    · exact rpcPost_fail hclosed hrows
    · exact rpcPost_fail hclosed hrows
  | ok user =>
    refine Settled.of_success hclosed (hrows.trans ?_)
    rw [writes_append, hwrites]
    rfl

theorem rpcUpdateUser_always {ctx : Gapi.Context} {req : Gapi.UpdateUserRequest}
    (hjob : job.request = .rpcUpdateUser ctx req) :
    Always (Owes deps job) Valid RpcPost [] (Gapi.updateUser deps job.now ctx req) := by
  unfold Gapi.updateUser
  split
  · exact rpcPost_fail rfl rfl
  rename_i payload hauth
  split
  · exact rpcPost_fail rfl rfl
  rename_i hvalid
  split
  · exact rpcPost_fail rfl rfl
  rename_i hallowed
  have hbearer : job.bearer deps = some payload := by simp [Job.bearer, hjob, hauth, Except.toOption]
  have hrole : payload.role = Util.bankerRole ∨ payload.username = req.username := by
    by_cases hbanker : payload.role = Util.bankerRole
    · exact .inl hbanker
    · exact .inr (not_not.mp fun hne => hallowed ⟨hbanker, hne⟩)
  dsimp only
  split
  · rename_i hpassword
    refine updateUserWith_always rfl rfl rfl ⟨ctx, req, payload, hjob, hbearer, hrole, hvalid, rfl,
      rfl, rfl, rfl, ?_⟩
    rw [hpassword]
    exact ⟨rfl, rfl⟩
  · rename_i password hpassword
    refine always_call trivial fun reply _ => ?_
    cases reply with
    | error err => exact rpcPost_fail rfl rfl
    | ok hashedPassword =>
    refine updateUserWith_always rfl rfl rfl ⟨ctx, req, payload, hjob, hbearer, hrole, hvalid, rfl,
      rfl, rfl, rfl, ?_⟩
    rw [hpassword]
    exact ⟨rfl, hashedPassword, rfl, said_last _ _ _⟩

theorem rpcVerifyEmail_always {req : Gapi.VerifyEmailRequest}
    (hjob : job.request = .rpcVerifyEmail req) :
    Always (Owes deps job) Valid RpcPost [] (Gapi.verifyEmail req) := by
  unfold Gapi.verifyEmail
  split
  · exact rpcPost_fail rfl rfl
  refine Always.bind ?_ (verifyEmailTx_always rfl ?_)
  · intro later outcome hpost
    cases outcome with
    | error err => exact rpcPost_fail hpost.closed hpost.durable_eq
    | ok result =>
      obtain ⟨before, calls, -, hafter, -⟩ := hpost
      exact Settled.of_success hafter.closed (hafter.durable_eq.trans hafter.writes_eq.symm)
  · refine fun later op => owes_of_txOwes ?_
    rintro calls hwithin ⟨result, hcalls⟩
    exact .verifyEmail _ result (by simp [Job.link, hjob]) hcalls

/-- How an attempt of the worker ends.  A link that could not be mailed stays. -/
def TaskPost (history : History) (result : Except Err Unit) : Prop :=
  openTx history = none ∧ (result.toBool = true → durable history = writes history)

theorem processTask_always {task : Worker.Task} (hjob : job.request = .task task) :
    Always (Owes deps job) Valid TaskPost [] (Worker.processTaskSendVerifyEmail task) := by
  unfold Worker.processTaskSendVerifyEmail
  refine always_call trivial fun reply _ => ?_
  cases reply with
  | error err => exact ⟨rfl, fun h => nomatch h⟩
  | ok user =>
  refine always_call trivial fun secretCode _ => ?_
  refine always_call ⟨task, user, hjob, List.mem_append_left _ (said_last _ _ _), rfl, rfl,
    said_last _ _ _⟩ fun reply _ => ?_
  cases reply with
  | error err => exact ⟨rfl, fun h => nomatch h⟩
  | ok verifyEmail =>
  refine always_call trivial fun reply _ => ?_
  cases reply with
  | error err => exact ⟨rfl, fun h => nomatch h⟩
  | ok value => exact ⟨rfl, fun _ => rfl⟩

/-- How a request ends, by the kind of its response. -/
def Ends (history : History) : Response → Prop
  | .http reply => HttpPost history reply
  | .rpc reply => RpcPost history reply
  | .task result => TaskPost history result

theorem always_map {α : Type} {f : α → Response} {post : History → α → Prop}
    {program : Act α} (h : Always (Owes deps job) Valid post [] program)
    (hpost : ∀ history value, post history value → Ends history (f value)) :
    Always (Owes deps job) Valid Ends [] (f <$> program) := by
  change Always (Owes deps job) Valid Ends [] (program >>= fun value => pure (f value))
  refine Always.bind ?_ h
  exact fun history value hvalue => always_pure.mpr (hpost history value hvalue)

theorem serve_always (deps : Deps) (job : Job) :
    Always (Owes deps job) Valid Ends [] (serve deps job) := by
  obtain ⟨request, now⟩ := job
  have http : ∀ {program : Act Api.Reply},
      Always (Owes deps ⟨request, now⟩) Valid HttpPost [] program →
      Always (Owes deps ⟨request, now⟩) Valid Ends [] (Response.http <$> program) :=
    fun h => always_map h fun _ _ hvalue => hvalue
  have rpc : ∀ {program : Act Gapi.Reply},
      Always (Owes deps ⟨request, now⟩) Valid RpcPost [] program →
      Always (Owes deps ⟨request, now⟩) Valid Ends [] (Response.rpc <$> program) :=
    fun h => always_map h fun _ _ hvalue => hvalue
  cases request with
  | createUser body => exact http (createUser_always rfl)
  | loginUser userAgent clientIP body => exact http (loginUser_always rfl)
  | renewAccessToken body => exact http (renewAccessToken_always rfl)
  | createAccount authorization body =>
    exact http (authRoute_always fun _ hauth => createAccount_always rfl hauth)
  | getAccount authorization uri => exact http (authRoute_always fun _ _ => getAccount_always)
  | listAccounts authorization query => exact http (authRoute_always fun _ _ => listAccounts_always)
  | createTransfer authorization body =>
    exact http (authRoute_always fun _ hauth => createTransfer_always rfl hauth)
  | rpcCreateUser req => exact rpc (rpcCreateUser_always rfl)
  | rpcLoginUser ctx req => exact rpc (rpcLoginUser_always rfl)
  | rpcUpdateUser ctx req => exact rpc (rpcUpdateUser_always rfl)
  | rpcVerifyEmail req => exact rpc (rpcVerifyEmail_always rfl)
  | task task => exact always_map (processTask_always rfl) fun _ _ hvalue => hvalue

theorem service_verified (deps : Deps) : (service deps).Verified (Owes deps) Valid fun _ => Ends :=
  ⟨serve_always deps, valid_of_step⟩

end SimpleBank
