import SimpleBank.Profiles

/-! Sessions: what a login leaves for its refresh token, when the token is
renewed, and what blocking the session stops. -/
namespace SimpleBank
open Library Db Program

/-- What a caller learns from a login. -/
structure LoginResult where
  username : String
  sessionID : UUID
  accessToken : String
  refreshToken : String
  refreshTokenExpiresAt : Time

def Response.login : Response → Option LoginResult
  | .http ⟨_, .login rsp⟩ => some ⟨rsp.user.username, rsp.sessionID, rsp.accessToken,
      rsp.refreshToken, rsp.refreshTokenExpiresAt⟩
  | .rpc (.ok (.loginUser rsp)) => some ⟨rsp.user.username, rsp.sessionId, rsp.accessToken,
      rsp.refreshToken, rsp.refreshTokenExpiresAt⟩
  | _ => none

/-- The calls of a login that went through, and what it replies from them. -/
structure LoginCalls (deps : Deps) (now : Time) (history : History) (result : LoginResult) where
  username : String
  user : User
  accessPayload : Token.Payload
  refreshPayload : Token.Payload
  userAgent : String
  clientIp : String
  session : Session
  access_eq : ∃ tokenID, accessPayload = Token.newPayload now tokenID user.username user.role
    deps.config.accessTokenDuration Token.tokenTypeAccessToken
  refresh_eq : ∃ tokenID, refreshPayload = Token.newPayload now tokenID user.username user.role
    deps.config.refreshTokenDuration Token.tokenTypeRefreshToken
  found : Said history (.sql .pool (.getUser username)) (.ok user)
  access : Said history (.encrypt accessPayload) (.ok result.accessToken)
  refresh : Said history (.encrypt refreshPayload) (.ok result.refreshToken)
  created : Said history (.sql .pool (.createSession ⟨refreshPayload.id, user.username,
    result.refreshToken, userAgent, clientIp, false, refreshPayload.expiredAt⟩)) (.ok session)
  username_eq : result.username = user.username
  sessionID_eq : result.sessionID = session.id
  expiresAt_eq : result.refreshTokenExpiresAt = refreshPayload.expiredAt

/-- The calls of a renewal that went through, and its reply. -/
structure RenewalCalls (deps : Deps) (job : Job) (history : History) (reply : Api.Reply) where
  refreshToken : String
  refreshPayload : Token.Payload
  session : Session
  tokenID : UUID
  accessPayload : Token.Payload
  token : String
  presented : job.refresh deps = some (refreshToken, refreshPayload)
  open_eq : session.isBlocked = false
  token_eq : session.refreshToken = refreshToken
  now_le : job.now ≤ session.expiresAt
  access_eq : accessPayload = Token.newPayload job.now tokenID refreshPayload.username
    refreshPayload.role deps.config.accessTokenDuration Token.tokenTypeAccessToken
  history_eq : history = [⟨.sql .pool (.getSession refreshPayload.id), .ok session⟩,
    ⟨.newRandom, .ok tokenID⟩, ⟨.encrypt accessPayload, .ok token⟩]
  reply_eq : reply = ⟨Api.statusOK, .renewed ⟨token, accessPayload.expiredAt⟩⟩

section Calls

variable {deps : Deps} {history : History}

theorem RenewalCalls.reads {job : Job} {reply : Api.Reply}
    (h : RenewalCalls deps job history reply) :
    Said history (.sql .pool (.getSession h.refreshPayload.id)) (.ok h.session) := by
  have hfirst : history.head? =
      some ⟨.sql .pool (.getSession h.refreshPayload.id), .ok h.session⟩ :=
    congrArg List.head? h.history_eq
  exact List.mem_of_head? hfirst

/-- It reads a session once. -/
theorem RenewalCalls.eq_of_reads {job : Job} {reply : Api.Reply}
    (h : RenewalCalls deps job history reply) {exchange : Exchange Op Op.Reply}
    (hmem : exchange ∈ history) {id : UUID} (hop : exchange.op = .sql .pool (.getSession id)) :
    exchange = ⟨.sql .pool (.getSession h.refreshPayload.id), .ok h.session⟩ := by
  rw [h.history_eq] at hmem
  simp only [List.mem_cons, List.not_mem_nil, or_false] at hmem
  rcases hmem with rfl | rfl | rfl
  · rfl
  · cases hop
  · cases hop

theorem RenewalCalls.makes {job : Job} {reply : Api.Reply}
    (h : RenewalCalls deps job history reply) :
    Said history (.encrypt h.accessPayload) (.ok h.token) := by
  have hlast : history.getLast? = some ⟨.encrypt h.accessPayload, .ok h.token⟩ :=
    congrArg List.getLast? h.history_eq
  exact List.mem_of_getLast? hlast

/-- The two calls that make a token. -/
theorem createToken_calls {now : Time} {username role : String} {duration : Time}
    {tokenType : Token.TokenType} :
    Always (fun _ _ => True) Valid (fun later outcome => ∀ token payload,
        outcome = .ok (token, payload) → ∃ tokenID,
          payload = Token.newPayload now tokenID username role duration tokenType ∧
          later = history ++ [⟨.newRandom, .ok tokenID⟩, ⟨.encrypt payload, .ok token⟩]) history
      (Token.createToken now username role duration tokenType) := by
  refine always_call trivial fun reply _ => ?_
  cases reply with
  | error err => exact fun _ _ h => nomatch h
  | ok tokenID =>
  refine always_call trivial fun reply _ => ?_
  cases reply with
  | error err => exact fun _ _ h => nomatch h
  | ok token =>
    rintro _ _ ⟨rfl⟩
    exact ⟨tokenID, rfl, by simp⟩

theorem loginUser_calls {now : Time} {userAgent clientIP : String}
    {body : Api.Body Api.LoginUserRequest} :
    Always (fun _ _ => True) Valid (fun later reply => ∀ result,
        (Response.http reply).login = some result → Nonempty (LoginCalls deps now later result)) []
      (Api.loginUser deps now userAgent clientIP body) := by
  unfold Api.loginUser
  split
  · exact fun _ h => nomatch h
  rename_i req _
  refine always_call trivial fun reply _ => ?_
  cases reply with
  | error err => exact fun _ h => nomatch h
  | ok user =>
  dsimp only [Program.bind]
  split
  · exact fun _ h => nomatch h
  refine Always.bind ?_ createToken_calls
  rintro later outcome haccess
  cases outcome with
  | error err => exact fun _ h => nomatch h
  | ok access =>
  obtain ⟨accessID, haccessEq, rfl⟩ := haccess access.1 access.2 rfl
  refine Always.bind ?_ createToken_calls
  rintro last outcome hrefresh
  cases outcome with
  | error err => exact fun _ h => nomatch h
  | ok refresh =>
  obtain ⟨refreshID, hrefreshEq, rfl⟩ := hrefresh refresh.1 refresh.2 rfl
  refine always_call trivial fun reply _ => ?_
  cases reply with
  | error err => exact fun _ h => nomatch h
  | ok session =>
    rintro result ⟨rfl⟩
    exact ⟨req.username, user, access.2, refresh.2, userAgent, clientIP, session,
      ⟨accessID, haccessEq⟩, ⟨refreshID, hrefreshEq⟩, by simp, by simp, by simp, by simp, rfl, rfl, rfl⟩

theorem rpcLoginUser_calls {now : Time} {ctx : Gapi.Context} {req : Gapi.LoginUserRequest} :
    Always (fun _ _ => True) Valid (fun later reply => ∀ result,
        (Response.rpc reply).login = some result → Nonempty (LoginCalls deps now later result)) []
      (Gapi.loginUser deps now ctx req) := by
  unfold Gapi.loginUser
  split
  · exact fun _ h => nomatch h
  refine always_call trivial fun reply _ => ?_
  cases reply with
  | error err =>
    dsimp only [Program.bind]
    split
    · exact fun _ h => nomatch h
    · exact fun _ h => nomatch h
  | ok user =>
  dsimp only [Program.bind]
  split
  · exact fun _ h => nomatch h
  refine Always.bind ?_ createToken_calls
  rintro later outcome haccess
  cases outcome with
  | error err => exact fun _ h => nomatch h
  | ok access =>
  obtain ⟨accessID, haccessEq, rfl⟩ := haccess access.1 access.2 rfl
  refine Always.bind ?_ createToken_calls
  rintro last outcome hrefresh
  cases outcome with
  | error err => exact fun _ h => nomatch h
  | ok refresh =>
  obtain ⟨refreshID, hrefreshEq, rfl⟩ := hrefresh refresh.1 refresh.2 rfl
  refine always_call trivial fun reply _ => ?_
  cases reply with
  | error err => exact fun _ h => nomatch h
  | ok session =>
    rintro result ⟨rfl⟩
    exact ⟨req.username, user, access.2, refresh.2, _, _, session, ⟨accessID, haccessEq⟩,
      ⟨refreshID, hrefreshEq⟩, by simp, by simp, by simp, said_last _ _ _, rfl, rfl, rfl⟩

theorem not_ok {status : Nat} {content : Api.Content} {P : Prop} (hstatus : status ≠ Api.statusOK) :
    (⟨status, content⟩ : Api.Reply).status = Api.statusOK → P :=
  fun hok => absurd hok hstatus

theorem renewAccessToken_calls (job : Job) {body : Api.Body Api.RenewAccessTokenRequest}
    (hjob : job.request = .renewAccessToken body) :
    Always (fun _ _ => True) Valid (fun later reply => reply.status = Api.statusOK →
        Nonempty (RenewalCalls deps job later reply)) []
      (Api.renewAccessToken deps job.now body) := by
  unfold Api.renewAccessToken
  split
  · exact not_ok (by decide)
  rename_i req hbind
  split
  · exact not_ok (by decide)
  rename_i refreshPayload hverify
  refine always_call trivial fun reply _ => ?_
  cases reply with
  | error err => exact fun h => absurd h (notFoundOrInternal_ne_ok err)
  | ok session =>
  dsimp only [Program.bind]
  split
  · exact not_ok (by decide)
  rename_i hblocked
  split
  · exact not_ok (by decide)
  split
  · exact not_ok (by decide)
  rename_i htoken
  split
  · exact not_ok (by decide)
  rename_i hexpires
  have hrefresh : job.refresh deps = some (req.refreshToken, refreshPayload) := by
    simp [Job.refresh, hjob, hbind, hverify]
  refine Always.bind ?_ createToken_calls
  rintro later outcome haccess
  cases outcome with
  | error err => exact not_ok (by decide)
  | ok access =>
    obtain ⟨tokenID, haccessEq, rfl⟩ := haccess access.1 access.2 rfl
    exact fun _ => ⟨req.refreshToken, refreshPayload, session, tokenID, access.2, access.1, hrefresh,
      by simpa using hblocked, not_not.mp htoken, Int.not_lt.mp hexpires, haccessEq, by simp, rfl⟩

/-- What a renewal needs to hear in order to go through. -/
def Grants (job : Job) (refreshToken : String) (refreshPayload : Token.Payload) :
    (op : Op) → op.Reply → Prop
  | .sql .pool (.getSession id), reply => id = refreshPayload.id → ∃ session : Session,
      reply = .ok session ∧ session.isBlocked = false ∧
      session.username = refreshPayload.username ∧ session.refreshToken = refreshToken ∧
      job.now ≤ session.expiresAt
  | .newRandom, reply => ∃ tokenID, reply = .ok tokenID
  | .encrypt _, reply => ∃ token, reply = .ok token
  | _, _ => True

theorem renewAccessToken_granted {job : Job} {refreshToken : String} {refreshPayload : Token.Payload}
    {body : Api.Body Api.RenewAccessTokenRequest} (hjob : job.request = .renewAccessToken body)
    (hrefresh : job.refresh deps = some (refreshToken, refreshPayload)) :
    Always (fun _ _ => True) (Grants job refreshToken refreshPayload)
      (fun _ reply => reply.status = Api.statusOK) [] (Api.renewAccessToken deps job.now body) := by
  simp only [Job.refresh, hjob] at hrefresh
  unfold Api.renewAccessToken
  split at hrefresh
  · rename_i req hbind
    rw [hbind]
    dsimp only
    split at hrefresh
    · rename_i payload hverify
      cases hrefresh
      rw [hverify]
      refine always_call trivial fun reply hgrants => ?_
      obtain ⟨session, rfl, hopen, husername, htoken, hnow⟩ := hgrants rfl
      dsimp only [Program.bind]
      rw [if_neg (by simp [hopen]), if_neg (not_not.mpr husername), if_neg (not_not.mpr htoken),
        if_neg (Int.not_lt.mpr hnow)]
      refine always_call trivial fun reply hgrants => ?_
      obtain ⟨tokenID, rfl⟩ := hgrants
      refine always_call trivial fun reply hgrants => ?_
      obtain ⟨token, rfl⟩ := hgrants
      rfl
    · cases hrefresh
  · cases hrefresh

end Calls

/-- The request is a login, by either API. -/
def Job.LogsIn (job : Job) : Prop :=
  (∃ userAgent clientIP body, job.request = .loginUser userAgent clientIP body) ∨
    ∃ ctx req, job.request = .rpcLoginUser ctx req

theorem service_logsIn (deps : Deps) : (service deps).Verified (fun _ _ _ => True) Valid
    fun job history response => job.LogsIn → ∀ result, response.login = some result →
      Nonempty (LoginCalls deps job.now history result) := by
  refine ⟨fun job => ?_, valid_of_step⟩
  obtain ⟨request, now⟩ := job
  cases request with
  | loginUser userAgent clientIP body =>
    change Always _ Valid _ [] (Api.loginUser deps now userAgent clientIP body >>=
      fun reply => pure (Response.http reply))
    refine Always.bind ?_ loginUser_calls
    exact fun history reply h _ => h
  | rpcLoginUser ctx req =>
    change Always _ Valid _ [] (Gapi.loginUser deps now ctx req >>=
      fun reply => pure (Response.rpc reply))
    refine Always.bind ?_ rpcLoginUser_calls
    exact fun history reply h _ => h
  | _ =>
    refine (Always.of_trivial _ _).mono (fun _ _ h => h) fun _ _ _ hlogs => ?_
    rcases hlogs with ⟨_, _, _, h⟩ | ⟨_, _, h⟩
    · cases h
    · cases h

theorem service_renews (deps : Deps) : (service deps).Verified (fun _ _ _ => True) Valid
    fun job history response => ∀ body reply, job.request = .renewAccessToken body →
      response = .http reply → reply.status = Api.statusOK →
      Nonempty (RenewalCalls deps job history reply) := by
  refine ⟨fun job => ?_, valid_of_step⟩
  obtain ⟨request, now⟩ := job
  cases request with
  | renewAccessToken body =>
    change Always _ Valid _ [] (Api.renewAccessToken deps now body >>=
      fun reply => pure (Response.http reply))
    refine Always.bind ?_ (renewAccessToken_calls ⟨_, now⟩ rfl)
    rintro history reply h _ _ _ ⟨rfl⟩
    exact h
  | _ => exact (Always.of_trivial _ _).mono (fun _ _ h => h) fun _ _ _ _ _ h => nomatch h

section Runs

variable {deps : Deps} {ok : ServiceConfig → Event Job Choice External → Prop} {w : World}
  {before config : ServiceConfig} {thread : Nat}

/-- What a thread has heard was the reply of a step. -/
theorem step_of_said (hreach : (service deps).Reach ok (.initial w) config) {op : Op}
    {reply : op.Reply} (hsaid : Said (config.history thread) op reply) :
    ∃ choice before after, ⟨thread, ⟨op, reply⟩, before, after⟩ ∈ config.trace ∧
      before.step deps thread choice op = some (reply, after) := by
  obtain ⟨⟨_, _, before, after⟩, hmem, rfl, hexchange⟩ := Config.mem_history.mp hsaid
  cases hexchange
  obtain ⟨choice, hstep⟩ := hreach.steps _ hmem
  exact ⟨choice, before, after, hmem, hstep⟩

theorem encrypted_of_said (hreach : (service deps).Reach ok (.initial w) config)
    {payload : Token.Payload} {token : String}
    (hsaid : Said (config.history thread) (.encrypt payload) (.ok token)) :
    ∃ nonce, token = deps.encrypt payload nonce := by
  obtain ⟨choice, _, _, -, hstep⟩ := step_of_said hreach hsaid
  exact ⟨choice.nonce, (World.encrypt_spec hstep).1⟩

/-- The session is there, blocked or not. -/
def HasSession (db : Database) (session : Session) : Prop :=
  ∃ isBlocked, db.sessions.find? session.id = some { session with isBlocked := isBlocked }

theorem HasSession.mono {db db' : Database} {session : Session} (h : HasSession db session)
    (hextends : Store.Extends db db') : HasSession db' session := by
  obtain ⟨isBlocked, hfind⟩ := h
  obtain ⟨row, hrow, hkeeps⟩ := hextends _ _ (Database.lookup_session.mpr hfind)
  have hkeeps : (Row.session { session with isBlocked := isBlocked }).Keeps row := hkeeps
  cases row with
  | session row =>
    have hsame : row = { session with isBlocked := row.isBlocked } := hkeeps
    exact ⟨row.isBlocked, hsame ▸ Database.lookup_session.mp hrow⟩
  | _ => simp [Row.Keeps] at hkeeps

/-- The session of a login is in the tables from then on. -/
theorem LoginCalls.hasSession (htxs : w.txs = .empty)
    (hreach : (service deps).Reach ok (.initial w) config) {now : Time} {result : LoginResult}
    (h : LoginCalls deps now (config.history thread) result) :
    HasSession config.world.db h.session := by
  obtain ⟨row, hrow, hkeeps⟩ :=
    (Regular.reach htxs hreach).seen thread _ _ h.created _ List.mem_cons_self
  cases row with
  | session row =>
    have hsame : row = { h.session with isBlocked := row.isBlocked } := hkeeps
    exact ⟨row.isBlocked, hsame ▸ Database.lookup_session.mp hrow⟩
  | _ => simp [Row.Keeps] at hkeeps

theorem LoginCalls.session_eq (hreach : (service deps).Reach ok (.initial w) config) {now : Time}
    {result : LoginResult} (h : LoginCalls deps now (config.history thread) result) :
    ∃ createdAt, h.session = ⟨h.refreshPayload.id, h.user.username, result.refreshToken,
      h.userAgent, h.clientIp, false, timestamptz h.refreshPayload.expiredAt, createdAt⟩ := by
  obtain ⟨_, createdAt, _, -, -, hsession⟩ := valid_of_said hreach h.created
  exact ⟨createdAt, hsession⟩

/-- Whoever arrives after a session was created finds it at each call. -/
theorem hasSession_at (htxs : w.txs = .empty)
    (hbefore : (service deps).Reachable (.initial w) before) {session : Session}
    (hsession : HasSession before.world.db session)
    (hreach : (service deps).Reach ok before config) {taken : Taken Op Op.Reply World}
    (hmem : taken ∈ config.trace) (hnew : before.threads.length ≤ taken.thread) :
    HasSession taken.before.db session :=
  hreach.later_of_new (P := fun state => HasSession state.db session) hbefore.follows hsession
    (fun _ _ _ hcurrent h hmove =>
      h.mono ((Regular.reach htxs (hbefore.trans hcurrent)).extends_move hmove)) hmem hnew

end Runs

theorem World.getSession_spec {deps : Deps} {thread : Nat} {choice : Choice} {w w' : World} {id : UUID}
    {reply : Except Err Session}
    (h : w.step deps thread choice (.sql .pool (.getSession id)) = some (reply, w')) :
    (∃ outage, choice.fail = some outage ∧ reply = .error outage.val) ∨
      choice.fail = none ∧ reply = orNoRows (w.db.sessions.find? id) := by
  cases hfail : choice.fail with
  | some outage =>
    simp only [World.step, World.poolStep, hfail] at h
    cases h
    exact .inl ⟨outage, rfl, rfl⟩
  | none =>
    simp only [World.step, World.poolStep, hfail] at h
    split at h
    · cases h
      exact .inr ⟨rfl, rfl⟩
    · cases h

section Headers

/-- A token is one word of a header. -/
def OneWord (token : String) : Prop := token ≠ "" ∧ ∀ c ∈ token.toList, Util.isSpace c = false

theorem fields_go_append {letters rest word : List Char} (h : ∀ c ∈ letters, Util.isSpace c = false) :
    Util.fields.go (letters ++ rest) word = Util.fields.go rest (word ++ letters) := by
  induction letters generalizing word with
  | nil => simp
  | cons c letters ih =>
    have hletter := h c List.mem_cons_self
    rw [List.cons_append, Util.fields.go, if_neg (by simp [hletter]),
      ih fun other hmem => h other (List.mem_cons_of_mem _ hmem), List.append_assoc,
      List.singleton_append]

/-- The header a client sends with its access token. -/
def bearerHeader (token : String) : String := "Bearer " ++ token

theorem bearerToken_bearerHeader {token : String} (h : OneWord token) :
    bearerToken (bearerHeader token) = some token := by
  have hnonempty : token.toList.isEmpty = false := by
    cases hletters : token.toList with
    | nil => exact absurd (String.toList_eq_nil_iff.mp hletters) h.1
    | cons _ _ => rfl
  have hfields : Util.fields (bearerHeader token) = ["Bearer", token] := by
    have hword : Util.fields.go (token.toList ++ []) [] = Util.fields.go [] ([] ++ token.toList) :=
      fields_go_append h.2
    rw [List.append_nil, List.nil_append] at hword
    unfold Util.fields bearerHeader
    rw [String.toList_append]
    change ["Bearer"] ++ Util.fields.go token.toList [] = ["Bearer", token]
    rw [hword, Util.fields.go, Util.fields.flush, hnonempty, if_neg (by decide), String.ofList_toList]
    rfl
  rw [bearerToken_of_fields hfields, if_pos (by decide)]

end Headers

section Renewal

variable {deps : Deps} {w : World} {before config : ServiceConfig} {login renewal : Nat}

/-- No call of the thread has failed for a reason outside the system. -/
def Undisturbed (deps : Deps) (config : ServiceConfig) (thread : Nat) : Prop :=
  ∀ taken ∈ config.trace, taken.thread = thread → ∃ choice : Choice, choice.fail = none ∧
    taken.before.step deps thread choice taken.exchange.op =
      some (taken.exchange.reply, taken.after)

/-- When the thread reads the session, it is not blocked. -/
def FindsOpen (config : ServiceConfig) (thread : Nat) (sessionID : UUID) : Prop :=
  ∀ taken ∈ config.trace, taken.thread = thread →
    taken.exchange.op = .sql .pool (.getSession sessionID) → ∃ session,
      taken.before.db.sessions.find? sessionID = some session ∧ session.isBlocked = false

def renewalJob (refreshToken : String) (now : Time) : Job :=
  ⟨.renewAccessToken (.ok ⟨refreshToken⟩), now⟩

theorem timestamptz_le (time : Time) : timestamptz time ≤ time :=
  Int.sub_le_self time (Int.emod_nonneg time (by decide))

theorem renewalJob_refreshToken {token : String} (hword : OneWord token) (now : Time) :
    (renewalJob token now).refreshToken = some token := by
  have hcheck : Api.bind (.ok ⟨token⟩) Api.RenewAccessTokenRequest.check = .ok ⟨token⟩ := by
    refine Api.bind_eq_ok.mpr ⟨rfl, ?_⟩
    simp [Api.RenewAccessTokenRequest.check, Api.validate_eq_ok, Api.checkField_eq_none,
      Api.Tag.required, hword.1]
  simp [renewalJob, Job.refreshToken, hcheck, Except.toOption]

/-- What the refresh token of a login decrypts to. -/
theorem LoginCalls.decrypt_refresh (hdecrypts : Decrypts deps)
    {ok : ServiceConfig → Event Job Choice External → Prop}
    (hreach : (service deps).Reach ok (.initial w) config) {now : Time} {result : LoginResult}
    (h : LoginCalls deps now (config.history login) result) :
    deps.decrypt result.refreshToken = some h.refreshPayload := by
  obtain ⟨nonce, htoken⟩ := encrypted_of_said hreach h.refresh
  rw [htoken]
  exact hdecrypts _ nonce

/-- A healthy renewal of an open session hears what it needs to hear. -/
theorem LoginCalls.grants {deps : Deps} (htxs : w.txs = .empty)
    (hbefore : (service deps).Reachable (.initial w) before) {loginTime now : Time}
    {result : LoginResult} (h : LoginCalls deps loginTime (before.history login) result)
    (hreach : (service deps).Reachable before config) (hnew : before.threads.length ≤ renewal)
    (hundisturbed : Undisturbed deps config renewal)
    (hopen : FindsOpen config renewal result.sessionID)
    (hnow : now ≤ timestamptz result.refreshTokenExpiresAt) :
    ∀ exchange ∈ config.history renewal,
      Grants (renewalJob result.refreshToken now) result.refreshToken h.refreshPayload exchange.op
        exchange.reply := by
  intro exchange hmem
  obtain ⟨taken, htaken, hthread, rfl⟩ := Config.mem_history.mp hmem
  obtain ⟨choice, hhealthy, hstep⟩ := hundisturbed taken htaken hthread
  have hsession := hasSession_at htxs hbefore (h.hasSession htxs hbefore) hreach htaken
    (hthread ▸ hnew)
  have hfound := hopen taken htaken hthread
  obtain ⟨_, ⟨op, reply⟩, state, _⟩ := taken
  cases op with
  | sql conn stmt =>
    cases conn with
    | tx => trivial
    | pool =>
      cases stmt with
      | getSession id =>
        rintro rfl
        obtain ⟨createdAt, hrow⟩ := h.session_eq hbefore
        have hid : result.sessionID = h.refreshPayload.id := by rw [h.sessionID_eq, hrow]
        obtain ⟨found, hfind, hunblocked⟩ := hfound (by rw [hid])
        obtain ⟨isBlocked, hkept⟩ := hsession
        rw [hrow] at hkept
        rcases World.getSession_spec hstep with ⟨_, hfail, -⟩ | ⟨-, hreply⟩
        · rw [hhealthy] at hfail
          cases hfail
        · rw [hid] at hfind
          cases hkept.symm.trans hfind
          obtain ⟨_, husername⟩ := h.refresh_eq
          refine ⟨_, hreply.trans (orNoRows_eq_ok.mpr hfind), hunblocked, ?_, rfl, ?_⟩
          · rw [husername]
            rfl
          · rw [← h.expiresAt_eq]
            exact hnow
      | _ => trivial
  | newRandom =>
    simp only [World.step, World.callStep, hhealthy] at hstep
    cases hstep
    exact ⟨_, rfl⟩
  | encrypt payload =>
    simp only [World.step, World.callStep, hhealthy] at hstep
    cases hstep
    exact ⟨_, rfl⟩
  | _ => trivial

/-- Both gates take the token for this payload, until it expires. -/
structure AcceptedUntil (deps : Deps) (token : String) (payload : Token.Payload)
    (expiresAt : Time) : Prop where
  presentable : bearerToken (bearerHeader token) = some token
  middleware : ∀ now header, bearerToken header = some token →
    (Api.authMiddleware deps now header = .ok payload ↔ now ≤ expiresAt)
  authorize : ∀ now ctx, (ctx.get "authorization").head?.bind bearerToken = some token →
    (Gapi.authorizeUser deps now ctx [Util.bankerRole, Util.depositorRole] = .ok payload ↔
      now ≤ expiresAt)

theorem acceptedUntil_of_decrypt {token : String} {payload : Token.Payload} (hword : OneWord token)
    (hdecrypt : deps.decrypt token = some payload)
    (htype : payload.type = Token.tokenTypeAccessToken)
    (hrole : payload.role = Util.bankerRole ∨ payload.role = Util.depositorRole) :
    AcceptedUntil deps token payload payload.expiredAt := by
  have hpermitted : Gapi.hasPermission payload.role [Util.bankerRole, Util.depositorRole] = true := by
    simpa [Gapi.hasPermission] using hrole
  refine ⟨bearerToken_bearerHeader hword, fun now header hheader => ?_, fun now ctx hheader => ?_⟩
  · rw [authMiddleware_eq_ok_iff]
    simp [hheader, Token.verifyToken_eq_ok, hdecrypt, htype]
  · rw [authorizeUser_eq_ok_iff]
    simp [hheader, Token.verifyToken_eq_ok, hdecrypt, htype, hpermitted]

/-- A renewal only makes calls that never wait. -/
def RenewalCall : Op → Prop
  | .sql .pool (.getSession _) | .newRandom | .encrypt _ => True
  | _ => False

/-- A read waits for nobody. -/
theorem exists_getSession_step (state : World) (id : UUID) :
    ∃ reply later, state.step deps renewal {} (.sql .pool (.getSession id)) = some (reply, later) := by
  have hgrants : state.grants none (Execution.perform 1 state.now state.db (.getSession id)).locks =
      true := by
    simp [TxState.grants, Execution.perform, Stmt.locks, Stmt.requests, Stmt.serialKey, blocks]
  have hfresh : Stmt.freshSerial 1 state.db (.getSession id) = true := rfl
  simp only [World.step, World.poolStep, hgrants, hfresh, Bool.and_self, if_true]
  exact ⟨_, _, rfl⟩

theorem renewalCall_step {op : Op} (state : World) (hallowed : RenewalCall op) :
    ∃ (choice : Choice) (reply : op.Reply) (later : World), choice.fail = none ∧
      state.step deps renewal choice op = some (reply, later) ∧ Valid op reply := by
  cases op with
  | sql conn stmt =>
    cases conn with
    | tx => exact hallowed.elim
    | pool =>
      cases stmt with
      | getSession id =>
        obtain ⟨reply, later, hstep⟩ := exists_getSession_step state id
        exact ⟨{}, reply, later, rfl, hstep, valid_of_step hstep⟩
      | _ => exact hallowed.elim
  | newRandom => exact ⟨{}, .ok 0, state, rfl, rfl, trivial⟩
  | encrypt payload => exact ⟨{}, _, _, rfl, rfl, trivial⟩
  | _ => exact hallowed.elim

theorem renewAccessToken_only {now : Time} {body : Api.Body Api.RenewAccessTokenRequest} :
    Always (fun _ op => RenewalCall op) Valid (fun _ _ => True) []
      (Api.renewAccessToken deps now body) := by
  unfold Api.renewAccessToken
  split
  · trivial
  split
  · trivial
  refine always_call trivial fun reply _ => ?_
  cases reply with
  | error err => trivial
  | ok session =>
  dsimp only [Program.bind]
  split
  · trivial
  split
  · trivial
  split
  · trivial
  split
  · trivial
  refine always_call trivial fun reply _ => ?_
  cases reply with
  | error err => trivial
  | ok tokenID =>
  refine always_call trivial fun reply _ => ?_
  cases reply with
  | error err => trivial
  | ok token => trivial

theorem serve_renewal {token : String} {now : Time} :
    serve deps (renewalJob token now) =
      (Api.renewAccessToken deps now (.ok ⟨token⟩) >>= fun reply => pure (Response.http reply)) :=
  rfl

/-- A renewal that has arrived gets its reply once its calls are carried out. -/
theorem renewal_finishes (hreach : (service deps).Reachable (.initial w) config) {token : String}
    {now : Time} {program : Act Response}
    (hthread : config.threads[renewal]? = some ⟨renewalJob token now, program⟩) :
    ∃ events final reply,
      (∀ event ∈ events, ∃ choice : Choice, event = .run renewal choice ∧ choice.fail = none) ∧
      (service deps).run config events = some final ∧
      final.threads[renewal]? = some ⟨renewalJob token now, .done (.http reply)⟩ := by
  have halways : Always (fun _ op => RenewalCall op) Valid
      (fun _ response => ∃ reply, response = .http reply) [] (serve deps (renewalJob token now)) := by
    rw [serve_renewal]
    exact Always.bind (fun _ reply _ => always_pure.mpr ⟨reply, rfl⟩) renewAccessToken_only
  have hstep : ∀ (history : History) op state, RenewalCall op → True → ∃ (choice : Choice)
      (reply : op.Reply) (later : World), choice.fail = none ∧
      (service deps).step renewal choice op state = some (reply, later) ∧ Valid op reply ∧ True := by
    intro history op state hallowed _
    obtain ⟨choice, reply, later, hhealthy, htaken, hvalid⟩ := renewalCall_step state hallowed
    exact ⟨choice, reply, later, hhealthy, htaken, hvalid, trivial⟩
  obtain ⟨events, final, response, hevents, hrun, hfinal, _, reply, rfl⟩ :=
    System.exists_done (fun _ _ => True) hstep
      (halways.reaches (hreach.follows.reaches renewal _ _ hthread)
        fun _ hmem => (service_verified deps).replied hreach hmem) trivial hthread
  exact ⟨events, final, reply, hevents, hrun, hfinal⟩

/-- What a login and a later renewal with its refresh token say about each
other: the renewal goes through exactly if the session is not expired and not
blocked, and its token is good for the same user. -/
structure Renews (deps : Deps) (config : ServiceConfig) (renewal : Nat) (result : LoginResult)
    (now : Time) (reply : Api.Reply) : Prop where
  sound : reply.status = Api.statusOK →
    now ≤ timestamptz result.refreshTokenExpiresAt ∧ FindsOpen config renewal result.sessionID
  complete : Undisturbed deps config renewal → now ≤ timestamptz result.refreshTokenExpiresAt →
    FindsOpen config renewal result.sessionID → reply.status = Api.statusOK
  renewed : reply.status = Api.statusOK → ∃ token payload user,
    reply.content = .renewed ⟨token, payload.expiredAt⟩ ∧
    config.world.db.users.find? result.username = some user ∧
    payload.username = user.username ∧ payload.role = user.role ∧
    AcceptedUntil deps token payload payload.expiredAt

theorem LoginCalls.renews (hdecrypts : Decrypts deps)
    (hwords : ∀ payload nonce, OneWord (deps.encrypt payload nonce)) (htxs : w.txs = .empty)
    (hbefore : (service deps).Reachable (.initial w) before) {loginTime : Time}
    {result : LoginResult} (h : LoginCalls deps loginTime (before.history login) result)
    (hrole : ∀ user, before.world.db.users.find? result.username = some user →
      user.role = Util.bankerRole ∨ user.role = Util.depositorRole)
    (hreach : (service deps).Reachable before config) (hnew : before.threads.length ≤ renewal)
    {now : Time} {reply : Api.Reply} (hrenewal : config.threads[renewal]? =
      some ⟨renewalJob result.refreshToken now, .done (.http reply)⟩) :
    Renews deps config renewal result now reply := by
  have hconfig := hbefore.trans hreach
  have hdecrypt := h.decrypt_refresh hdecrypts hbefore
  obtain ⟨nonce, htoken⟩ := encrypted_of_said hbefore h.refresh
  have hpresents := renewalJob_refreshToken (htoken ▸ hwords _ nonce) now
  obtain ⟨createdAt, hrow⟩ := h.session_eq hbefore
  have hid : result.sessionID = h.refreshPayload.id := by rw [h.sessionID_eq, hrow]
  obtain ⟨refreshID, hpayload⟩ := h.refresh_eq
  have hcalls : reply.status = Api.statusOK → ∃ calls : RenewalCalls deps
      (renewalJob result.refreshToken now) (config.history renewal) reply,
      calls.refreshPayload = h.refreshPayload := by
    intro hok
    obtain ⟨calls⟩ := (service_renews deps).at_end hconfig hrenewal _ reply rfl rfl hok
    obtain ⟨hfound, hverify⟩ := Job.refresh_eq_some_iff.mp calls.presented
    rw [← Option.some.inj (hpresents.symm.trans hfound)] at hverify
    exact ⟨calls, Option.some.inj ((Token.verifyToken_eq_ok.mp hverify).1.symm.trans hdecrypt)⟩
  refine ⟨fun hok => ?_, fun hundisturbed hnow hopen => ?_, fun hok => ?_⟩
  · obtain ⟨calls, hsame⟩ := hcalls hok
    have hread : ∀ taken ∈ config.trace, taken.thread = renewal →
        taken.exchange.op = .sql .pool (.getSession result.sessionID) →
        taken.before.db.sessions.find? result.sessionID = some calls.session := by
      intro taken hmem hthread hop
      have hsaid := Config.mem_history.mpr ⟨taken, hmem, hthread, rfl⟩
      have hheard := calls.eq_of_reads hsaid hop
      obtain ⟨choice, hstep⟩ : ∃ choice, taken.before.step deps taken.thread choice
        taken.exchange.op = some (taken.exchange.reply, taken.after) := hconfig.steps taken hmem
      rw [hheard] at hstep
      rcases World.getSession_spec hstep with ⟨_, -, herr⟩ | ⟨-, hfind⟩
      · cases herr
      · rw [hid, ← hsame]
        exact orNoRows_eq_ok.mp hfind.symm
    refine ⟨?_, fun taken hmem hthread hop => ⟨_, hread taken hmem hthread hop, calls.open_eq⟩⟩
    obtain ⟨_, _, _, hmem, -⟩ := step_of_said hconfig calls.reads
    obtain ⟨isBlocked, hkept⟩ :=
      hasSession_at htxs hbefore (h.hasSession htxs hbefore) hreach hmem hnew
    have hfound := hread _ hmem rfl (by rw [hsame, hid])
    rw [h.sessionID_eq, hkept] at hfound
    have hexpires := calls.now_le
    rw [← Option.some.inj hfound, hrow, h.expiresAt_eq.symm] at hexpires
    exact hexpires
  · have halways : Always (fun _ _ => True)
        (Grants (renewalJob result.refreshToken now) result.refreshToken h.refreshPayload)
        (fun _ response => ∀ reply, response = .http reply → reply.status = Api.statusOK) []
        (serve deps (renewalJob result.refreshToken now)) := by
      rw [serve_renewal]
      refine Always.bind ?_ (renewAccessToken_granted rfl ?_)
      · rintro history reply hok _ ⟨rfl⟩
        exact hok
      · refine Job.refresh_eq_some_iff.mpr ⟨hpresents, Token.verifyToken_eq_ok.mpr ⟨hdecrypt, ?_, ?_⟩⟩
        · rw [hpayload]
          rfl
        · rw [h.expiresAt_eq] at hnow
          exact Int.le_trans hnow (timestamptz_le _)
    exact halways.reaches (hconfig.follows.reaches renewal _ _ hrenewal)
      (h.grants htxs hbefore hreach hnew hundisturbed hopen hnow) reply rfl
  · obtain ⟨calls, hsame⟩ := hcalls hok
    obtain ⟨nonce, hmade⟩ := encrypted_of_said hconfig calls.makes
    have hfound := h.found.later (hreach.continues.history_prefix login)
    obtain ⟨hname, user, huser, hsameRole⟩ := user_of_said htxs hconfig hfound
    obtain ⟨_, earlier, hearlier, hearlierRole⟩ := user_of_said htxs hbefore h.found
    have hroles := hrole earlier (by rw [h.username_eq, hname]; exact hearlier)
    have haccess : calls.accessPayload.username = h.user.username ∧
        calls.accessPayload.role = h.user.role := by
      rw [calls.access_eq, hsame, hpayload]
      exact ⟨rfl, rfl⟩
    refine ⟨calls.token, calls.accessPayload, user, congrArg Api.Reply.content calls.reply_eq, ?_,
      ?_, haccess.2.trans hsameRole.symm, ?_⟩
    · rw [h.username_eq, hname]
      exact huser
    · rw [haccess.1, hname, (Table.find?_mem huser).2]
    · refine acceptedUntil_of_decrypt (hmade ▸ hwords _ nonce) (hmade ▸ hdecrypts _ nonce) ?_ ?_
      · rw [calls.access_eq]
        rfl
      · rw [haccess.2, ← hearlierRole]
        exact hroles

/-- A refresh token that a login has returned is renewed exactly as long as the
session lasts and is not blocked, whatever happens in between, and both gates
take the access token it brings for the same user until it expires. -/
theorem renewal_of_login (hdecrypts : Decrypts deps)
    (hwords : ∀ payload nonce, OneWord (deps.encrypt payload nonce)) (htxs : w.txs = .empty)
    (hbefore : (service deps).Reachable (.initial w) before) {loginJob : Job} {response : Response}
    {result : LoginResult} (hlogs : loginJob.LogsIn)
    (hlogin : before.threads[login]? = some ⟨loginJob, .done response⟩)
    (hresult : response.login = some result)
    (hrole : ∀ user, before.world.db.users.find? result.username = some user →
      user.role = Util.bankerRole ∨ user.role = Util.depositorRole) :
    (∀ config renewal now reply, (service deps).Reachable before config →
      before.threads.length ≤ renewal →
      config.threads[renewal]? = some ⟨renewalJob result.refreshToken now, .done (.http reply)⟩ →
      Renews deps config renewal result now reply) ∧
    ∀ config renewal now program, (service deps).Reachable before config →
      config.threads[renewal]? = some ⟨renewalJob result.refreshToken now, program⟩ →
      ∃ events final reply,
        (∀ event ∈ events, ∃ choice : Choice, event = .run renewal choice ∧ choice.fail = none) ∧
        (service deps).run config events = some final ∧
        final.threads[renewal]? =
          some ⟨renewalJob result.refreshToken now, .done (.http reply)⟩ := by
  obtain ⟨calls⟩ := (service_logsIn deps).at_end hbefore hlogin hlogs result hresult
  refine ⟨fun config renewal now reply hreach hnew hrenewal =>
    calls.renews hdecrypts hwords htxs hbefore hrole hreach hnew hrenewal, ?_⟩
  exact fun config renewal now program hreach hthread =>
    renewal_finishes (hbefore.trans hreach) hthread

end Renewal

/-! The sample tokens again, written so that each is one word. -/
namespace Sample

/-- A blank is written by its code, after a percent sign. -/
def writeLetter (c : Char) : List Char :=
  if Util.isSpace c || c = '%' then '%' :: writeNat c.toNat else [c]

def readLetters : Nat → List Char → Option (List Char)
  | 0, [] => some []
  | n + 1, c :: rest =>
    if c = '%' then
      (readNat rest).bind fun found =>
        (readLetters n found.2).map fun letters => Char.ofNat found.1 :: letters
    else (readLetters n rest).map fun letters => c :: letters
  | _, _ => none

theorem readLetters_writeLetter (letters : List Char) :
    readLetters letters.length (letters.flatMap writeLetter) = some letters := by
  induction letters with
  | nil => rfl
  | cons c letters ih =>
    rw [List.flatMap_cons, List.length_cons, writeLetter]
    split
    · simp [readLetters, readNat_writeNat, ih, Char.ofNat_toNat]
    · rename_i hplain
      have hne : c ≠ '%' := by
        rintro rfl
        exact hplain (by decide)
      simp [readLetters, hne, ih]

def writeWord (text : String) : String :=
  String.ofList (writeNat text.toList.length ++ text.toList.flatMap writeLetter)

def readWord (word : String) : Option String := do
  let (length, chars) ← readNat word.toList
  let letters ← readLetters length chars
  some (String.ofList letters)

theorem readWord_writeWord (text : String) : readWord (writeWord text) = some text := by
  simp [readWord, writeWord, readNat_writeNat, readLetters_writeLetter]

theorem isSpace_writeNat {n : Nat} {c : Char} (h : c ∈ writeNat n) : Util.isSpace c = false := by
  simp only [writeNat, List.mem_append, List.mem_replicate, List.mem_singleton] at h
  rcases h with ⟨-, rfl⟩ | rfl
  · decide
  · decide

theorem oneWord_writeWord (text : String) : OneWord (writeWord text) := by
  refine ⟨?_, fun c hmem => ?_⟩
  · simp [writeWord, writeNat, String.ofList_eq_empty_iff]
  · simp only [writeWord, String.toList_ofList, List.mem_append, List.mem_flatMap] at hmem
    rcases hmem with hmem | ⟨letter, -, hmem⟩
    · exact isSpace_writeNat hmem
    · unfold writeLetter at hmem
      split at hmem
      · rcases List.mem_cons.mp hmem with rfl | hmem
        · decide
        · exact isSpace_writeNat hmem
      · rename_i hplain
        rw [List.mem_singleton.mp hmem]
        simp only [Bool.or_eq_true, not_or] at hplain
        exact Bool.eq_false_iff.mpr hplain.1

def worded : Deps :=
  { signed with
    encrypt := fun payload _ => writeWord (writeToken payload)
    decrypt := fun token => (readWord token).bind readToken }

theorem worded_decrypts : Decrypts worded := by
  intro payload nonce
  simp only [worded, readWord_writeWord, Option.bind_some, readToken_writeToken]

theorem login_runs_worded :
    ((service worded).run (.initial world) login).isSome = true := by
  decide +kernel

def loggedInWorded : ServiceConfig :=
  ((service worded).run (.initial world) login).get login_runs_worded

def loginResult : LoginResult :=
  ⟨"alice", 1, writeWord (writeToken accessPayload), writeWord (writeToken refreshPayload), 5⟩

theorem loggedInWorded_replies : loggedInWorded.threads[0]? =
    some ⟨⟨.loginUser "" "" (.ok ⟨"alice", "secret"⟩), 0⟩, .done (.http ⟨200, .login
      { sessionID := 1, accessToken := loginResult.accessToken, accessTokenExpiresAt := 2,
        refreshToken := loginResult.refreshToken, refreshTokenExpiresAt := 5,
        user := Api.newUserResponse (user "alice") }⟩)⟩ := by
  rfl

/-- Alice renews the refresh token she got. -/
def renewal : List (Event Job Choice External) :=
  [.arrive (renewalJob loginResult.refreshToken 0), .run 1 {}, .run 1 { uuid := 2 }, .run 1 {}]

theorem renewal_runs : ((service worded).run loggedInWorded renewal).isSome = true := by
  decide +kernel

def renewed : ServiceConfig := ((service worded).run loggedInWorded renewal).get renewal_runs

def renewedPayload : Token.Payload :=
  Token.newPayload 0 2 "alice" Util.depositorRole 2 Token.tokenTypeAccessToken

theorem renewed_replies : renewed.threads[1]? = some ⟨renewalJob loginResult.refreshToken 0,
    .done (.http ⟨200, .renewed ⟨writeWord (writeToken renewedPayload), 2⟩⟩)⟩ := by
  rfl

theorem alice_isDepositor : ∀ user, loggedInWorded.world.db.users.find? "alice" = some user →
    user.role = Util.bankerRole ∨ user.role = Util.depositorRole := by
  intro found hfind
  have halice : loggedInWorded.world.db.users.find? "alice" = some (user "alice") := by
    decide +kernel
  cases halice.symm.trans hfind
  exact .inr rfl

end Sample

theorem renewal_of_login_sample : Renews Sample.worded Sample.renewed 1 Sample.loginResult 0
    ⟨200, .renewed ⟨Sample.writeWord (Sample.writeToken Sample.renewedPayload), 2⟩⟩ :=
  (renewal_of_login Sample.worded_decrypts (fun _ _ => Sample.oneWord_writeWord _) rfl
    (.of_run (Option.some_get Sample.login_runs_worded).symm) (.inl ⟨_, _, _, rfl⟩)
    Sample.loggedInWorded_replies rfl Sample.alice_isDepositor).1 Sample.renewed 1 0 _
    (.of_run (Option.some_get Sample.renewal_runs).symm) (Nat.le_refl 1) Sample.renewed_replies

end SimpleBank
