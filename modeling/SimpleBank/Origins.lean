import SimpleBank.Edits

/-! Where rows come from: each row of the tables was put there by a request that
was entitled to it, and still has from it all that cannot be edited. -/
namespace SimpleBank
open Library Db Program

/-- The user agent and the address that a login comes from. -/
def Job.client (job : Job) : Option (String × String) :=
  match job.request with
  | .loginUser userAgent clientIP _ => some (userAgent, clientIP)
  | .rpcLoginUser ctx _ =>
    let mtdt := Gapi.extractMetadata ctx
    some (mtdt.userAgent, mtdt.clientIP)
  | _ => none

/-- The request that a row is from, as far as it is in the history of its calls. -/
def Origin (deps : Deps) (job : Job) (history : History) : Row → Prop
  | .user row => ∃ user, Registered job history user ∧ (Row.user user).Keeps (.user row)
  | .account row => ∃ authorization req payload,
      job.request = .createAccount authorization (.ok req) ∧ job.bearer deps = some payload ∧
      row.owner = payload.username ∧ row.currency = req.currency ∧
      Util.isSupportedCurrency row.currency = true ∧
      Said history (.sql .pool (.createAccount ⟨row.owner, 0, row.currency⟩))
        (.ok { row with balance := 0 })
  | .entry row => ∃ arg, job.transfer = some arg ∧ MayTransfer deps job history arg ∧
      Said history .commit (.ok ()) ∧
      (row.accountID = arg.fromAccountID ∧ row.amount = -arg.amount ∨
        row.accountID = arg.toAccountID ∧ row.amount = arg.amount)
  | .transfer row =>
      job.transfer = some ⟨row.fromAccountID, row.toAccountID, row.amount⟩ ∧
      MayTransfer deps job history ⟨row.fromAccountID, row.toAccountID, row.amount⟩ ∧
      Said history .commit (.ok ())
  | .session row => job.client = some (row.userAgent, row.clientIp) ∧
      row.expiresAt = timestamptz (job.now + deps.config.refreshTokenDuration) ∧
      ∃ user refreshPayload, LoggedIn deps job history user ∧ row.username = user.username ∧
      Said history (.encrypt refreshPayload) (.ok row.refreshToken) ∧
      refreshPayload.type = Token.tokenTypeRefreshToken ∧
      refreshPayload.username = row.username ∧ refreshPayload.id = row.id
  | .verifyEmail row => ∃ task user, job.request = .task task ∧
      Said history (.sql .pool (.getUser task.payload.username)) (.ok user) ∧
      row.username = user.username ∧ row.email = user.email ∧
      Said history (.randomString 32) row.secretCode ∧
      row.expiredAt = row.createdAt + verifyEmailLifetime

section Origin

variable {deps : Deps} {job : Job} {history : History} {row old : Row}

theorem Registered.later {user : User} (h : Registered job history user) {later : History}
    (hcontinues : history <+: later) : Registered job later user := by
  obtain ⟨req, hashedPassword, hreq, hsaid, hinserts⟩ := h
  exact ⟨req, hashedPassword, hreq, hsaid.later hcontinues, hinserts⟩

theorem MayTransfer.later {arg : TransferTxParams} (h : MayTransfer deps job history arg)
    {later : History} (hcontinues : history <+: later) : MayTransfer deps job later arg := by
  obtain ⟨hpositive, payload, fromAccount, toAccount, hbearer, hfrom, hto, haccounts⟩ := h
  exact ⟨hpositive, payload, fromAccount, toAccount, hbearer, hfrom.later hcontinues,
    hto.later hcontinues, haccounts⟩

theorem Origin.later (h : Origin deps job history row) {later : History}
    (hcontinues : history <+: later) : Origin deps job later row := by
  cases row with
  | user row =>
    obtain ⟨user, hregistered, hkeeps⟩ := h
    exact ⟨user, hregistered.later hcontinues, hkeeps⟩
  | account row =>
    obtain ⟨authorization, req, payload, hjob, hbearer, howner, hcurrency, hsupported, hsaid⟩ := h
    exact ⟨authorization, req, payload, hjob, hbearer, howner, hcurrency, hsupported,
      hsaid.later hcontinues⟩
  | entry row =>
    obtain ⟨arg, htransfer, hmay, hsaid, hrow⟩ := h
    exact ⟨arg, htransfer, hmay.later hcontinues, hsaid.later hcontinues, hrow⟩
  | transfer row =>
    obtain ⟨htransfer, hmay, hsaid⟩ := h
    exact ⟨htransfer, hmay.later hcontinues, hsaid.later hcontinues⟩
  | session row =>
    obtain ⟨hclient, hexpires, user, refreshPayload, hlogin, hname, hsaid, hpayload⟩ := h
    exact ⟨hclient, hexpires, user, refreshPayload, hlogin.later hcontinues, hname,
      hsaid.later hcontinues, hpayload⟩
  | verifyEmail row =>
    obtain ⟨task, user, hjob, huser, hname, hemail, hcode, hexpired⟩ := h
    exact ⟨task, user, hjob, huser.later hcontinues, hname, hemail, hcode.later hcontinues, hexpired⟩

/-- What can be edited is not from the origin. -/
theorem Origin.keeps (h : Origin deps job history old) (hkeeps : old.Keeps row) :
    Origin deps job history row := by
  cases old <;> cases row <;> simp only [Row.Keeps, reduceCtorEq] at hkeeps
  case user.user old row =>
    obtain ⟨user, hregistered, hold⟩ := h
    exact ⟨user, hregistered, Row.keeps_trans hold hkeeps⟩
  case account.account old row =>
    cases old
    cases row
    obtain ⟨rfl, rfl, rfl, rfl⟩ := hkeeps
    exact h
  case entry.entry old row =>
    cases hkeeps
    exact h
  case transfer.transfer old row =>
    cases hkeeps
    exact h
  case session.session old row =>
    rw [hkeeps]
    exact h
  case verifyEmail.verifyEmail old row =>
    rw [hkeeps.2]
    exact h

end Origin

section Sessions

variable {deps : Deps} {job : Job} {history : History}

/-- A session says where its login came from, and lasts as long as the refresh token. -/
def OwesSession (deps : Deps) (job : Job) (_ : History) : Op → Prop
  | .sql .pool (.createSession arg) => job.client = some (arg.userAgent, arg.clientIp) ∧
      arg.expiresAt = job.now + deps.config.refreshTokenDuration
  | _ => True

theorem createToken_session {now : Time} {username role : String} {duration : Time}
    {tokenType : Token.TokenType} : Always (OwesSession deps job) Valid
      (fun _ outcome => ∀ token payload, outcome = .ok (token, payload) →
        payload.expiredAt = now + duration)
      history (Token.createToken now username role duration tokenType) := by
  refine always_call trivial fun reply _ => ?_
  cases reply with
  | error err => exact fun _ _ h => nomatch h
  | ok tokenID =>
  refine always_call trivial fun reply _ => ?_
  cases reply with
  | error err => exact fun _ _ h => nomatch h
  | ok token =>
    rintro _ _ ⟨rfl⟩
    rfl

theorem loginUser_session {userAgent clientIP : String} {body : Api.Body Api.LoginUserRequest}
    (hjob : job.request = .loginUser userAgent clientIP body) :
    Always (OwesSession deps job) Valid (fun _ _ => True) history
      (Api.loginUser deps job.now userAgent clientIP body) := by
  unfold Api.loginUser
  split
  · trivial
  refine always_call trivial fun reply _ => ?_
  cases reply with
  | error err => trivial
  | ok user =>
  dsimp only [Program.bind]
  split
  · trivial
  refine Always.bind ?_ createToken_session
  rintro later (err | access) -
  · trivial
  refine Always.bind ?_ createToken_session
  rintro last (err | ⟨refreshToken, refreshPayload⟩) hexpired
  · trivial
  refine always_call ⟨by simp [Job.client, hjob], hexpired _ _ rfl⟩ fun reply _ => ?_
  cases reply <;> trivial

theorem rpcLoginUser_session {ctx : Gapi.Context} {req : Gapi.LoginUserRequest}
    (hjob : job.request = .rpcLoginUser ctx req) :
    Always (OwesSession deps job) Valid (fun _ _ => True) history
      (Gapi.loginUser deps job.now ctx req) := by
  unfold Gapi.loginUser
  split
  · trivial
  refine always_call trivial fun reply _ => ?_
  cases reply with
  | error err =>
    dsimp only [Program.bind]
    split <;> trivial
  | ok user =>
  dsimp only [Program.bind]
  split
  · trivial
  refine Always.bind ?_ createToken_session
  rintro later (err | access) -
  · trivial
  refine Always.bind ?_ createToken_session
  rintro last (err | ⟨refreshToken, refreshPayload⟩) hexpired
  · trivial
  refine always_call ⟨by simp [Job.client, hjob], hexpired _ _ rfl⟩ fun reply _ => ?_
  cases reply <;> trivial

/-- Only logins create sessions. -/
theorem owesSession_of_owes {op : Op} (hcredentials : job.credentials = none)
    (h : Owes deps job history op) : OwesSession deps job history op := by
  unfold OwesSession
  split
  · obtain ⟨_, _, ⟨_, _, hsome, -⟩, -⟩ := h
    cases hcredentials.symm.trans hsome
  · trivial

theorem service_sessions (deps : Deps) :
    (service deps).Verified (OwesSession deps) Valid fun _ _ _ => True := by
  refine ⟨fun job => ?_, valid_of_step⟩
  obtain ⟨request, now⟩ := job
  cases request with
  | loginUser userAgent clientIP body =>
    change Always _ Valid _ [] (Api.loginUser deps now userAgent clientIP body >>=
      fun reply => pure (Response.http reply))
    exact Always.bind (fun _ _ _ => always_pure.mpr trivial) (loginUser_session rfl)
  | rpcLoginUser ctx req =>
    change Always _ Valid _ [] (Gapi.loginUser deps now ctx req >>=
      fun reply => pure (Response.rpc reply))
    exact Always.bind (fun _ _ _ => always_pure.mpr trivial) (rpcLoginUser_session rfl)
  | _ =>
    exact (serve_always deps _).mono (fun _ _ h => owesSession_of_owes rfl h) fun _ _ _ => trivial

end Sessions

section Takes

variable {deps : Deps} {ok : ServiceConfig → Event Job Choice External → Prop} {w : World}
  {config next : ServiceConfig} {thread : Nat} {job : Job} {k : Key} {row : Row}

/-- A row that a statement outside a transaction has inserted. -/
theorem origin_of_pool {stmt : Stmt} {reply : stmt.Result} {history : History} {generated : Int}
    {now : Time} {db : Database} (howes : PoolOwes deps job history stmt)
    (hsession : OwesSession deps job history (.sql .pool stmt))
    (hyields : stmt.Yields generated now db reply) (hnone : db.lookup row.key = none)
    (hmem : row ∈ stmt.written reply) :
    Origin deps job (history ++ [⟨.sql .pool stmt, .ok reply⟩]) row := by
  have hcontinues : history <+: history ++ [⟨.sql .pool stmt, .ok reply⟩] := List.prefix_append _ _
  cases stmt with
  | createUser arg =>
    cases List.mem_singleton.mp hmem
    have hchange : UserChange deps job history ⟨.sql .pool (.createUser arg), .ok reply⟩ none reply :=
      .created arg reply howes ⟨now, hyields.2⟩
    exact ⟨reply, (Registered.of_change hchange).later hcontinues, Row.keeps_refl _⟩
  | createAccount arg =>
    cases List.mem_singleton.mp hmem
    obtain ⟨authorization, req, payload, hjob, hbearer, rfl, hsupported⟩ := howes
    obtain ⟨-, -, rfl⟩ := hyields
    exact ⟨authorization, req, payload, hjob, hbearer, rfl, rfl, hsupported, said_last _ _ _⟩
  | createSession arg =>
    cases List.mem_singleton.mp hmem
    obtain ⟨user, refreshPayload, hlogin, hsaid, htype, hid, hname, husername, -, -⟩ := howes
    obtain ⟨hclient, hexpires⟩ := hsession
    obtain ⟨-, -, rfl⟩ := hyields
    refine ⟨hclient, congrArg timestamptz hexpires, user, refreshPayload, hlogin.later hcontinues,
      husername, hsaid.later hcontinues, htype, hname.trans husername.symm, hid.symm⟩
  | createVerifyEmail arg =>
    cases List.mem_singleton.mp hmem
    obtain ⟨task, user, hjob, huser, hname, hemail, hcode⟩ := howes
    obtain ⟨-, -, rfl⟩ := hyields
    exact ⟨task, user, hjob, huser.later hcontinues, hname, hemail, hcode.later hcontinues, rfl⟩
  | updateUser arg =>
    cases List.mem_singleton.mp hmem
    obtain ⟨user, huser, rfl⟩ := hyields
    have hkey : (Row.user user).key = .user arg.username := Database.key_of_lookup huser
    rw [show (Row.user (arg.apply user)).key = .user arg.username from hkey, huser] at hnone
    cases hnone
  | addAccountBalance _ | createEntry _ | createTransfer _ | updateVerifyEmail _ =>
    exact howes.elim
  | getUser _ | getAccount _ | listAccounts _ | getSession _ => cases hmem

/-- A payment inserts a transfer and its two entries. -/
theorem origin_of_payment {history : History} {db db' : Database} (payment : Payment deps job db db')
    (hmay : MayTransfer deps job history payment.arg) (hsaid : Said history .commit (.ok ()))
    (hnone : db.lookup k = none) (hrow : db'.lookup k = some row) : Origin deps job history row := by
  have happlied := payment.applied
  have hkey := Database.key_of_lookup hrow
  subst hkey
  cases row with
  | account row =>
    have hgone : db'.lookup (.account row.id) = none := by
      have hfind : db.accounts.find? row.id = none := Option.map_eq_none_iff.mp hnone
      exact Option.map_eq_none_iff.mpr (happlied.find?_none hfind)
    cases hgone.symm.trans hrow
  | entry row =>
    rw [happlied.database] at hrow
    obtain ⟨found, hfound, heq⟩ := Option.map_eq_some_iff.mp hrow
    cases heq
    rw [Table.find?_put] at hfound
    split at hfound
    · cases hfound
      exact ⟨_, payment.requested, hmay, hsaid, .inr happlied.toEntry⟩
    rw [Table.find?_put] at hfound
    split at hfound
    · cases hfound
      exact ⟨_, payment.requested, hmay, hsaid, .inl happlied.fromEntry⟩
    · cases (Option.map_eq_none_iff.mp hnone).symm.trans hfound
  | transfer row =>
    rw [happlied.database] at hrow
    obtain ⟨found, hfound, heq⟩ := Option.map_eq_some_iff.mp hrow
    cases heq
    rw [Table.find?_put] at hfound
    split at hfound
    · cases hfound
      obtain ⟨hfrom, hto, hamount⟩ := happlied.transfer
      have hsame : (⟨payment.result.transfer.fromAccountID, payment.result.transfer.toAccountID,
          payment.result.transfer.amount⟩ : TransferTxParams) = payment.arg := by
        rw [hfrom, hto, hamount]
      exact ⟨payment.requested.trans (congrArg some hsame.symm), hsame ▸ hmay, hsaid⟩
    · cases (Option.map_eq_none_iff.mp hnone).symm.trans hfound
  | user row | session row | verifyEmail row =>
    rw [happlied.database] at hrow
    cases hnone.symm.trans hrow

/-- A row that a transaction has inserted. -/
theorem origin_of_commit (hstart : w.txs = .empty)
    (hreach : (service deps).Reach ok (.initial w) config)
    (htakes : (service deps).Takes config thread job .commit (.ok ()) next)
    (hnone : config.world.db.lookup k = none) (hrow : next.world.db.lookup k = some row) :
    Origin deps job (next.history thread) row := by
  have hcontinues : config.history thread <+: next.history thread :=
    htakes.continues.history_prefix thread
  have hsaid : Said (next.history thread) .commit (.ok ()) := by
    rw [htakes.history_self]
    exact said_last _ _ _
  have put : ∀ {new : Row}, (config.world.db.put new).lookup k = some row → row = new := by
    intro new hput
    rw [Database.lookup_put] at hput
    split at hput
    · exact (Option.some.inj hput).symm
    · cases hnone.symm.trans hput
  have hchange := change_of_takes hstart hreach htakes
  have hchanged := userChange_of_takes hstart hreach htakes
  obtain ⟨calls, -, hcommits⟩ := (service_verified deps).at_call hreach htakes
  generalize hexchange : (⟨.commit, .ok ()⟩ : Exchange Op Op.Reply) = exchange at hchange
  generalize hdb : next.world.db = db' at hchange
  rw [hdb] at hrow
  cases hchange with
  | nothing hne => exact absurd hexchange.symm hne
  | user user hregisters hfree hunverified =>
    cases put hrow
    have hfound : next.world.db.users.find? user.username = some user := by
      rw [hdb]
      exact Table.find?_put_self _ user
    rcases hchanged user.username with hsame | ⟨row, hrow, hchange⟩
    · cases hfree.symm.trans (hsame.symm.trans hfound)
    · cases hfound.symm.trans hrow
      rw [hfree] at hchange
      exact ⟨user, (Registered.of_change hchange).later hcontinues, Row.keeps_refl _⟩
  | payment payment =>
    cases hcommits with
    | transfer arg result hrequested hmay _ =>
      cases hrequested.symm.trans payment.requested
      exact origin_of_payment payment (hmay.later hcontinues) hsaid hnone hrow
    | verifyEmail arg result hlink _ =>
      cases (Job.transfer_eq_none_of_link hlink).symm.trans payment.requested
    | createUser req hashedPassword user hjob _ _ =>
      have hregisters : job.Registers := .inr ⟨req, hjob⟩
      cases hregisters.transfer_eq_none.symm.trans payment.requested
  | verified arg tx link user _ _ hlink _ huser =>
    rw [Database.lookup_put] at hrow
    split at hrow
    · rename_i heq
      have hkey : (Row.user user).key = .user link.username :=
        Database.key_of_lookup (Database.lookup_user.mpr huser)
      rw [heq, show (Row.user { user with isEmailVerified := true }).key = .user link.username from
        hkey, Database.lookup_user.mpr huser] at hnone
      cases hnone
    · have hkey : (Row.verifyEmail link).key = .verifyEmail arg.emailId :=
        Database.key_of_lookup (Database.lookup_verifyEmail.mpr hlink)
      rw [put hrow] at hrow
      rw [← Database.key_of_lookup hrow, show (Row.verifyEmail { link with isUsed := true }).key =
        .verifyEmail arg.emailId from hkey, Database.lookup_verifyEmail.mpr hlink] at hnone
      cases hnone
  | profile _ _ _ _ | account _ _ _ _ _ | session _ _ _ | link _ _ _ _ _ => cases hexchange

/-- A row that was not there before a call is from the request that made the call. -/
theorem origin_of_takes (hstart : w.txs = .empty)
    (hreach : (service deps).Reach ok (.initial w) config) {op : Op} {reply : op.Reply}
    (htakes : (service deps).Takes config thread job op reply next)
    (hnone : config.world.db.lookup k = none) (hrow : next.world.db.lookup k = some row) :
    Origin deps job (next.history thread) row := by
  have hregular := Regular.reach hstart hreach
  have hstep : config.world.step deps thread htakes.choice op = some (reply, next.world) :=
    htakes.step_eq
  have nothing : committed (openTx (config.history thread)) ⟨op, reply⟩ = [] →
      Origin deps job (next.history thread) row := by
    intro hnil
    rw [World.step_db_of_committed_nil hregular.sound (hregular.tracks thread) hstep hnil] at hrow
    cases hnone.symm.trans hrow
  cases op with
  | sql conn stmt =>
    cases conn with
    | pool =>
      cases reply with
      | error err => exact nothing (by cases openTx (config.history thread) <;> rfl)
      | ok reply =>
        obtain ⟨_, _, hyields, hdb⟩ := World.pool_executes hstep
        rw [hdb] at hrow
        rcases Store.lookup_write (stmt.written reply) config.world.db k with
          hsame | ⟨found, hmem, hkey, hfound⟩
        · cases hnone.symm.trans (hsame.symm.trans hrow)
        · cases hrow.symm.trans hfound
          rw [htakes.history_self]
          exact origin_of_pool ((service_verified deps).at_call hreach htakes)
            ((service_sessions deps).at_call hreach htakes) hyields
            ((congrArg config.world.db.lookup hkey).trans hnone) hmem
    | tx => exact nothing (by cases openTx (config.history thread) <;> rfl)
  | commit =>
    cases reply with
    | error err => exact nothing (by cases openTx (config.history thread) <;> rfl)
    | ok value => exact origin_of_commit hstart hreach htakes hnone hrow
  | begin | rollback | generateFromPassword _ | newRandom | encrypt _ | enqueue _
    | randomString _ | sendEmail _ =>
    exact nothing (by cases openTx (config.history thread) <;> rfl)

/-- Every row that has come into the tables in a run of the served requests is from
one of them: it is the one that its request was entitled to write, and all of it
but what can be edited is as the request made it. -/
theorem row_has_origin (hstart : w.txs = .empty) (hreach : (service deps).Reach ok (.initial w) config)
    (hrow : config.world.db.lookup k = some row) (hnew : w.db.lookup k = none) :
    ∃ thread job, config.job? thread = some job ∧ Origin deps job (config.history thread) row := by
  induction hreach generalizing row with
  | start => cases hnew.symm.trans hrow
  | @move config next event hreach hok hmove ih =>
    have hcontinues := System.continues_move hmove
    cases hfound : config.world.db.lookup k with
    | some old =>
      obtain ⟨current, hcurrent, hkeeps⟩ :=
        (Regular.reach hstart hreach).extends_move hmove k old hfound
      cases hcurrent.symm.trans hrow
      obtain ⟨thread, job, hjob, horigin⟩ := ih hfound
      exact ⟨thread, job, hcontinues.job?_eq thread job hjob,
        (horigin.later (hcontinues.history_prefix thread)).keeps hkeeps⟩
    | none =>
      rcases System.move_cases hmove with ⟨_, rfl, -, rfl⟩ | ⟨thread, _, job, _, _, rfl, ⟨htakes⟩⟩ |
        ⟨change, world, rfl, hexternal, rfl⟩
      · cases hfound.symm.trans hrow
      · exact ⟨thread, job, (htakes.job?_eq thread).trans htakes.job_eq,
          origin_of_takes hstart hreach htakes hfound hrow⟩
      · obtain ⟨-, -, -, -, hdb | ⟨session, hsession, -, hdb⟩⟩ := World.external_spec hexternal
        · rw [show world.db = _ from hdb] at hrow
          cases hfound.symm.trans hrow
        · rw [show world.db = _ from hdb, Database.lookup_put] at hrow
          split at hrow
          · rename_i heq
            have hkey : k = .session session.id := heq
            rw [hkey, Database.lookup_session.mpr hsession] at hfound
            cases hfound
          · cases hfound.symm.trans hrow

end Takes

theorem Sample.loggedIn_session : (loggedIn.world.db.lookup (.session 1)).isSome = true := by
  decide +kernel

theorem row_has_origin_sample : ∃ thread job, Sample.loggedIn.job? thread = some job ∧
    Origin Sample.signed job (Sample.loggedIn.history thread)
      ((Sample.loggedIn.world.db.lookup (.session 1)).get Sample.loggedIn_session) :=
  row_has_origin rfl (System.Reachable.of_run (Option.some_get Sample.login_runs).symm)
    (Option.some_get _).symm rfl

end SimpleBank
