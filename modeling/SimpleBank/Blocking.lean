import SimpleBank.Sessions

/-! What blocking a session does: it ends the renewals of the login, and only
the renewals. -/
namespace SimpleBank
open Library Db Program

/-- The tokens that go back to one login: the two it has returned, and those
that were made from its refresh token. -/
inductive Descends (deps : Deps) (config : ServiceConfig) (result : LoginResult) :
    String → Token.Payload → Prop
  | access {payload : Token.Payload} : deps.decrypt result.accessToken = some payload →
      Descends deps config result result.accessToken payload
  | refresh {payload : Token.Payload} : deps.decrypt result.refreshToken = some payload →
      Descends deps config result result.refreshToken payload
  | renewed {refreshToken token : String} {refreshPayload payload : Token.Payload} {thread : Nat}
      {job : Job} : Descends deps config result refreshToken refreshPayload →
      config.job? thread = some job → job.refresh deps = some (refreshToken, refreshPayload) →
      Said (config.history thread) (.encrypt payload) (.ok token) →
      Descends deps config result token payload

/-- The session is blocked. -/
def Blocked (db : Database) (sessionID : UUID) : Prop :=
  ∃ session, db.sessions.find? sessionID = some session ∧ session.isBlocked = true

section Blocked

variable {deps : Deps} {ok : ServiceConfig → Event Job Choice External → Prop} {w : World}
  {config next : ServiceConfig} {thread : Nat} {job : Job} {sessionID : UUID}

theorem Blocked.of_sessions_eq {db db' : Database} (h : Blocked db sessionID)
    (hsame : db'.sessions = db.sessions) : Blocked db' sessionID := by
  rw [Blocked, hsame]
  exact h

/-- A new session is never one that is there. -/
theorem Blocked.change {history : History} {exchange : Exchange Op Op.Reply} {db' : Database}
    (h : Blocked w.db sessionID) (hchange : Change deps job history w thread exchange db') :
    Blocked db' sessionID := by
  cases hchange with
  | session arg row hfresh =>
    obtain ⟨session, hfind, hblocked⟩ := h
    refine ⟨session, ?_, hblocked⟩
    refine (Table.find?_put_of_ne _ _ ?_).trans hfind
    rintro rfl
    rw [hfresh] at hfind
    cases hfind
  | payment payment => exact h.of_sessions_eq (by rw [payment.applied.database])
  | nothing _ | user _ _ _ _ | profile _ _ _ _ | account _ _ _ _ _ | link _ _ _ _ _
    | verified _ _ _ _ _ _ _ _ _ => exact h.of_sessions_eq rfl

/-- Nobody unblocks a session. -/
theorem Blocked.move (htxs : w.txs = .empty) (hreach : (service deps).Reach ok (.initial w) config)
    (h : Blocked config.world.db sessionID) {event : Event Job Choice External}
    (hmove : (service deps).move config event = some next) : Blocked next.world.db sessionID := by
  rcases System.move_cases hmove with ⟨_, rfl, -, rfl⟩ | ⟨_, _, _, _, _, rfl, ⟨htakes⟩⟩ |
    ⟨change, world, rfl, hexternal, rfl⟩
  · exact h
  · exact h.change (change_of_takes htxs hreach htakes)
  · obtain ⟨-, -, -, -, hdb | ⟨row, -, -, hdb⟩⟩ := World.external_spec hexternal
    · exact h.of_sessions_eq (congrArg Database.sessions hdb)
    · obtain ⟨session, hfind, hblocked⟩ := h
      have hput : world.db.sessions.find? sessionID = _ :=
        (congrArg (fun db : Database => db.sessions.find? sessionID) hdb).trans (Table.find?_put _ _ _)
      split at hput
      · exact ⟨_, hput, rfl⟩
      · exact ⟨session, hput.trans hfind, hblocked⟩

end Blocked

section Descends

variable {deps : Deps} {ok : ServiceConfig → Event Job Choice External → Prop} {w : World}
  {before config : ServiceConfig} {result : LoginResult} {login thread : Nat} {job : Job}
  {token : String} {payload : Token.Payload}

theorem Descends.decrypt_eq (hdecrypts : Decrypts deps)
    (hreach : (service deps).Reach ok (.initial w) config)
    (h : Descends deps config result token payload) : deps.decrypt token = some payload := by
  cases h with
  | access hdecrypt | refresh hdecrypt => exact hdecrypt
  | renewed _ _ _ hsaid =>
    obtain ⟨nonce, rfl⟩ := encrypted_of_said hreach hsaid
    exact hdecrypts payload nonce

/-- Only renewals present refresh tokens. -/
theorem Job.request_of_refreshToken (h : job.refreshToken = some token) :
    ∃ body, job.request = .renewAccessToken body := by
  obtain ⟨request, now⟩ := job
  cases request with
  | renewAccessToken body => exact ⟨body, rfl⟩
  | _ => cases h

/-- A renewal makes access tokens only. -/
theorem Issues.type_eq_of_refresh {history : History} (h : Issues deps job history payload)
    {refreshToken : String} {refreshPayload : Token.Payload}
    (hrefresh : job.refresh deps = some (refreshToken, refreshPayload)) :
    payload.type = Token.tokenTypeAccessToken := by
  have hnone : job.credentials = none := by
    obtain ⟨body, hjob⟩ := Job.request_of_refreshToken (Job.refresh_eq_some_iff.mp hrefresh).1
    simp [Job.credentials, hjob]
  cases h with
  | access | renewed => rfl
  | refresh tokenID user hlogin =>
    obtain ⟨_, _, hcredentials, -⟩ := hlogin
    cases hnone.symm.trans hcredentials

/-- The only refresh token among them is the one of the session. -/
theorem Descends.id_eq (hdecrypts : Decrypts deps)
    (hbefore : (service deps).Reachable (.initial w) before) {now : Time}
    (calls : LoginCalls deps now (before.history login) result)
    (hreach : (service deps).Reach ok before config)
    (h : Descends deps config result token payload)
    (htype : payload.type = Token.tokenTypeRefreshToken) : payload.id = result.sessionID := by
  cases h with
  | access hdecrypt =>
    obtain ⟨nonce, htoken⟩ := encrypted_of_said hbefore calls.access
    obtain ⟨_, hpayload⟩ := calls.access_eq
    rw [htoken, hdecrypts] at hdecrypt
    cases hdecrypt
    rw [hpayload] at htype
    cases htype
  | refresh hdecrypt =>
    obtain ⟨createdAt, hrow⟩ := calls.session_eq hbefore
    cases (calls.decrypt_refresh hdecrypts hbefore).symm.trans hdecrypt
    rw [calls.sessionID_eq, hrow]
  | @renewed _ _ _ _ thread job _ hjob hrefresh hsaid =>
    have hconfig := hbefore.trans hreach
    obtain ⟨taken, hmem, rfl, hexchange⟩ := Config.mem_history.mp hsaid
    obtain ⟨found, history, hfound, howes⟩ := (service_verified deps).owed hconfig taken hmem
    cases hjob.symm.trans hfound
    rw [hexchange] at howes
    have haccess : Issues deps job history payload := howes
    cases htype.symm.trans (haccess.type_eq_of_refresh hrefresh)

/-- A request that presents the token gets past its gate: it goes on with the
payload of the token, or to make a new one. -/
def Accepted (deps : Deps) (config : ServiceConfig) (thread : Nat) (job : Job) : Prop :=
  (job.bearer deps).isSome = true ∨
    (job.refreshToken).isSome = true ∧ ∃ reply, Said (config.history thread) .newRandom reply

/-- The token is an access token that has not expired, and good for this request. -/
structure Usable (job : Job) (token : String) (payload : Token.Payload) : Prop where
  presented : job.accessToken = some token
  type_eq : payload.type = Token.tokenTypeAccessToken
  now_le : job.now ≤ payload.expiredAt
  permitted : job.Permits payload.role

theorem bearer_isSome_iff (hdecrypt : deps.decrypt token = some payload)
    (hpresented : job.accessToken = some token) :
    (job.bearer deps).isSome = true ↔ Usable job token payload := by
  rw [Option.isSome_iff_exists]
  constructor
  · rintro ⟨found, hfound⟩
    obtain ⟨other, hother, hverify, hpermitted⟩ := Job.bearer_eq_some_iff.mp hfound
    cases hpresented.symm.trans hother
    obtain ⟨hsame, htype, hnow⟩ := Token.verifyToken_eq_ok.mp hverify
    cases hdecrypt.symm.trans hsame
    exact ⟨hpresented, htype, hnow, hpermitted⟩
  · rintro ⟨-, htype, hnow, hpermitted⟩
    exact ⟨payload, Job.bearer_eq_some_iff.mpr ⟨token, hpresented,
      Token.verifyToken_eq_ok.mpr ⟨hdecrypt, htype, hnow⟩, hpermitted⟩⟩

/-- What a renewal hears of a blocked session. -/
def FindsBlocked (sessionID : UUID) : (op : Op) → op.Reply → Prop
  | .sql .pool (.getSession id), reply => id = sessionID → ∀ session : Session,
      reply = .ok session → session.isBlocked = true
  | _, _ => True

theorem findsBlocked_of_step {sessionID : UUID} {choice : Choice} {after : World} {op : Op}
    {reply : op.Reply} (hblocked : Blocked w.db sessionID)
    (hstep : w.step deps thread choice op = some (reply, after)) : FindsBlocked sessionID op reply := by
  cases op with
  | sql conn stmt =>
    cases conn with
    | tx => trivial
    | pool =>
      cases stmt with
      | getSession id =>
        rintro rfl session rfl
        obtain ⟨found, hfind, hflag⟩ := hblocked
        rcases World.getSession_spec hstep with ⟨_, -, herr⟩ | ⟨-, hread⟩
        · cases herr
        · cases hfind.symm.trans (orNoRows_eq_ok.mp hread.symm)
          exact hflag
      | _ => trivial
  | _ => trivial

/-- A renewal of a blocked session does not go on to make a token. -/
theorem renewAccessToken_blocked {body : Api.Body Api.RenewAccessTokenRequest}
    (hjob : job.request = .renewAccessToken body) {sessionID : UUID}
    (hsession : ∀ token payload, job.refresh deps = some (token, payload) → payload.id = sessionID) :
    Always (fun _ op => op ≠ .newRandom) (FindsBlocked sessionID) (fun _ _ => True) []
      (Api.renewAccessToken deps job.now body) := by
  unfold Api.renewAccessToken
  split
  · trivial
  rename_i req hbind
  split
  · trivial
  rename_i refreshPayload hverify
  have hrefresh : job.refresh deps = some (req.refreshToken, refreshPayload) := by
    simp [Job.refresh, hjob, hbind, hverify]
  refine always_call (by simp) fun reply hfinds => ?_
  cases reply with
  | error err => trivial
  | ok session =>
    dsimp only [Program.bind]
    rw [if_pos (hfinds (hsession _ _ hrefresh) session rfl)]
    trivial

/-- A request that arrives after `before` and presents a token of the login. -/
structure Presents (deps : Deps) (before config : ServiceConfig) (result : LoginResult)
    (thread : Nat) (job : Job) (token : String) (payload : Token.Payload) : Prop where
  new : before.threads.length ≤ thread
  job_eq : config.job? thread = some job
  descends : Descends deps config result token payload
  presented : job.accessToken = some token ∨ job.refreshToken = some token

theorem not_newRandom_of_blocked (hdecrypts : Decrypts deps) (htxs : w.txs = .empty)
    (hbefore : (service deps).Reachable (.initial w) before) {now : Time}
    (calls : LoginCalls deps now (before.history login) result)
    (hblocked : Blocked before.world.db result.sessionID)
    (hreach : (service deps).Reachable before config)
    (h : Presents deps before config result thread job token payload)
    (hrefresh : job.refreshToken = some token) :
    ¬∃ reply, Said (config.history thread) .newRandom reply := by
  have hconfig := hbefore.trans hreach
  obtain ⟨body, hjob⟩ := Job.request_of_refreshToken hrefresh
  have hsession : ∀ other found, job.refresh deps = some (other, found) →
      found.id = result.sessionID := by
    intro other found hfound
    obtain ⟨hsame, hverify⟩ := Job.refresh_eq_some_iff.mp hfound
    cases hrefresh.symm.trans hsame
    obtain ⟨hdecrypt, htype, -⟩ := Token.verifyToken_eq_ok.mp hverify
    cases (h.descends.decrypt_eq hdecrypts hconfig).symm.trans hdecrypt
    exact h.descends.id_eq hdecrypts hbefore calls hreach htype
  have halways : Always (fun _ op => op ≠ .newRandom) (FindsBlocked result.sessionID)
      (fun _ _ => True) [] (serve deps job) := by
    have hserve : serve deps job = (Api.renewAccessToken deps job.now body >>= fun reply =>
        pure (Response.http reply)) := by
      rw [serve, hjob]
      rfl
    rw [hserve]
    exact Always.bind (fun _ _ _ => always_pure.mpr trivial)
      (renewAccessToken_blocked hjob hsession)
  obtain ⟨⟨_, program⟩, hthread, rfl⟩ := Option.map_eq_some_iff.mp h.job_eq
  have howed := halways.owed (hconfig.follows.reaches thread _ program hthread) fun exchange hmem => by
    obtain ⟨taken, htaken, hat, rfl⟩ := Config.mem_history.mp hmem
    have hfound := hreach.later_of_new (P := fun state => Blocked state.db result.sessionID)
      hbefore.follows hblocked (fun _ _ _ hcurrent hblocked hmove =>
        hblocked.move htxs (hbefore.trans hcurrent) hmove) htaken (hat ▸ h.new)
    obtain ⟨choice, hstep⟩ := hconfig.steps taken htaken
    exact findsBlocked_of_step hfound hstep
  rintro ⟨reply, hsaid⟩
  obtain ⟨_, hne⟩ := howed _ hsaid
  exact hne rfl

/-- After the block, a token of the login is accepted exactly where it is a
usable access token. -/
theorem accepted_iff_usable (hdecrypts : Decrypts deps) (htxs : w.txs = .empty)
    (hbefore : (service deps).Reachable (.initial w) before) {now : Time}
    (calls : LoginCalls deps now (before.history login) result)
    (hblocked : Blocked before.world.db result.sessionID)
    (hreach : (service deps).Reachable before config)
    (h : Presents deps before config result thread job token payload) :
    Accepted deps config thread job ↔ Usable job token payload := by
  have hdecrypt := h.descends.decrypt_eq hdecrypts (hbefore.trans hreach)
  rcases h.presented with haccess | hrefresh
  · have hnone : job.refreshToken = none := by
      cases hrefresh : job.refreshToken with
      | none => rfl
      | some other =>
        obtain ⟨body, hjob⟩ := Job.request_of_refreshToken hrefresh
        simp [Job.accessToken, hjob] at haccess
    rw [Accepted, hnone, bearer_isSome_iff hdecrypt haccess]
    simp
  · obtain ⟨body, hjob⟩ := Job.request_of_refreshToken hrefresh
    refine iff_of_false ?_ fun husable => ?_
    · rintro (hbearer | ⟨-, hsaid⟩)
      · simp [Job.bearer, hjob] at hbearer
      · exact not_newRandom_of_blocked hdecrypts htxs hbefore calls hblocked hreach h hrefresh hsaid
    · have haccess := husable.presented
      simp [Job.accessToken, hjob] at haccess

/-- No request that arrives after `before` gets past a gate with a token of the
login. -/
def LockedOut (deps : Deps) (before config : ServiceConfig) (result : LoginResult) : Prop :=
  ∀ thread job token payload, Presents deps before config result thread job token payload →
    ¬Accepted deps config thread job

/-- Once its session is blocked, a login is locked out exactly if none of its
access tokens is presented before it expires. -/
theorem lockedOut_iff (hdecrypts : Decrypts deps) (htxs : w.txs = .empty)
    (hbefore : (service deps).Reachable (.initial w) before) {loginJob : Job} {response : Response}
    (hlogs : loginJob.LogsIn)
    (hlogin : before.threads[login]? = some ⟨loginJob, .done response⟩)
    (hresult : response.login = some result)
    (hblocked : Blocked before.world.db result.sessionID)
    (hreach : (service deps).Reachable before config) :
    LockedOut deps before config result ↔ ∀ thread job token payload,
      Presents deps before config result thread job token payload →
      ¬Usable job token payload := by
  obtain ⟨calls⟩ := (service_logsIn deps).at_end hbefore hlogin hlogs result hresult
  refine forall_congr' fun thread => forall_congr' fun job => forall_congr' fun token =>
    forall_congr' fun payload => forall_congr' fun h => not_congr ?_
  exact accepted_iff_usable hdecrypts htxs hbefore calls hblocked hreach h

end Descends

namespace Sample

theorem loggedIn_replies : loggedIn.threads[0]? =
    some ⟨⟨.loginUser "" "" (.ok ⟨"alice", "secret"⟩), 0⟩, .done (.http ⟨200, .login
      { sessionID := 1, accessToken := writeToken accessPayload, accessTokenExpiresAt := 2,
        refreshToken := writeToken refreshPayload, refreshTokenExpiresAt := 5,
        user := Api.newUserResponse (user "alice") }⟩)⟩ := by
  rfl

def loggedInResult : LoginResult :=
  ⟨"alice", 1, writeToken accessPayload, writeToken refreshPayload, 5⟩

/-- Somebody blocks the session of Alice. -/
theorem blocking_runs : ((service signed).move loggedIn (.external (.block 1))).isSome = true := by
  decide +kernel

def blocked : ServiceConfig :=
  ((service signed).move loggedIn (.external (.block 1))).get blocking_runs

theorem blocked_reachable : (service signed).Reachable (.initial world) blocked :=
  .move loggedIn_reach.reachable trivial (Option.some_get blocking_runs).symm

theorem blocked_session : Blocked blocked.world.db 1 :=
  ⟨⟨1, "alice", writeToken refreshPayload, "", "", true, 0, 0⟩, by decide +kernel, rfl⟩

theorem opening_arrives : ((service signed).move blocked (.arrive opening)).isSome = true := by
  decide +kernel

/-- Alice still opens an account. -/
def reopened : ServiceConfig := ((service signed).move blocked (.arrive opening)).get opening_arrives

theorem reopened_reachable : (service signed).Reachable blocked reopened :=
  .move .start trivial (Option.some_get opening_arrives).symm

theorem opening_presents : Presents signed blocked reopened loggedInResult 1 opening
    (writeToken accessPayload) accessPayload where
  new := Nat.le_refl 1
  job_eq := rfl
  descends := .access (readToken_writeToken accessPayload)
  presented := .inl (by decide +kernel)

end Sample

theorem lockedOut_iff_sample : LockedOut Sample.signed Sample.blocked Sample.reopened
      Sample.loggedInResult ↔
    ∀ thread job token payload, Presents Sample.signed Sample.blocked Sample.reopened
      Sample.loggedInResult thread job token payload → ¬Usable job token payload :=
  lockedOut_iff Sample.signed_decrypts rfl Sample.blocked_reachable (.inl ⟨_, _, _, rfl⟩)
    Sample.loggedIn_replies rfl Sample.blocked_session Sample.reopened_reachable

/-- An access token outlives the session it came with. -/
theorem not_always_lockedOut : ¬∀ (deps : Deps) (w : World) (before config : ServiceConfig)
    (login : Nat) (loginJob : Job) (response : Response) (result : LoginResult),
    Decrypts deps → w.txs = .empty → (service deps).Reachable (.initial w) before →
    loginJob.LogsIn → before.threads[login]? = some ⟨loginJob, .done response⟩ →
    response.login = some result → Blocked before.world.db result.sessionID →
    (service deps).Reachable before config → LockedOut deps before config result := by
  intro h
  refine h _ _ _ _ 0 _ _ _ Sample.signed_decrypts rfl Sample.blocked_reachable
    (.inl ⟨_, _, _, rfl⟩) Sample.loggedIn_replies rfl Sample.blocked_session
    Sample.reopened_reachable _ _ _ _ Sample.opening_presents (.inl ?_)
  decide +kernel

end SimpleBank
