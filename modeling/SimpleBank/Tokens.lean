import SimpleBank.Effects

/-! Where tokens come from: every token that is accepted goes back to a
password check, and renewals do not extend what the check has granted. -/
namespace SimpleBank
open Library Db

/-- The token of a bearer header. -/
def bearerToken (header : String) : Option String :=
  match Util.fields header with
  | first :: token :: _ => if Util.toLower first = Api.authorizationTypeBearer then some token else none
  | _ => none

/-- What `paseto` promises: decryption undoes encryption. -/
def Decrypts (deps : Deps) : Prop :=
  ∀ payload nonce, deps.decrypt (deps.encrypt payload nonce) = some payload

namespace Job

/-- The string a request presents to a bearer gate. -/
def accessToken (job : Job) : Option String :=
  match job.request with
  | .createAccount authorization _ | .getAccount authorization _ | .listAccounts authorization _
  | .createTransfer authorization _ => bearerToken authorization
  | .rpcUpdateUser ctx _ => (ctx.get "authorization").head?.bind bearerToken
  | _ => none

/-- The string a renewal presents. -/
def refreshToken (job : Job) : Option String :=
  match job.request with
  | .renewAccessToken body => (Api.bind body Api.RenewAccessTokenRequest.check).toOption.map
      Api.RenewAccessTokenRequest.refreshToken
  | _ => none

/-- The request goes through a bearer gate. -/
def Gated (job : Job) : Prop :=
  match job.request with
  | .createAccount _ _ | .getAccount _ _ | .listAccounts _ _ | .createTransfer _ _
  | .rpcUpdateUser _ _ => True
  | _ => False

end Job

section Gates

variable {deps : Deps} {now : Time} {payload : Token.Payload} {job : Job}

theorem bearerToken_of_fields {header first token : String} {rest : List String}
    (h : Util.fields header = first :: token :: rest) : bearerToken header =
      if Util.toLower first = Api.authorizationTypeBearer then some token else none := by
  rw [bearerToken, h]

theorem bearerToken_eq_none {header : String}
    (h : ∀ first token rest, Util.fields header = first :: token :: rest → False) :
    bearerToken header = none := by
  unfold bearerToken
  split
  · rename_i first token rest hfields
    exact (h first token rest hfields).elim
  · rfl

theorem authMiddleware_eq_ok_iff {header : String} :
    Api.authMiddleware deps now header = .ok payload ↔ ∃ token, bearerToken header = some token ∧
      Token.verifyToken deps.decrypt now token Token.tokenTypeAccessToken = .ok payload := by
  unfold Api.authMiddleware
  split
  · rename_i hsize
    rw [String.utf8ByteSize_eq_zero_iff.mp hsize]
    simp [show bearerToken "" = none from rfl]
  · split
    · rename_i first token rest hfields
      by_cases htype : Util.toLower first = Api.authorizationTypeBearer
      · simp [bearerToken_of_fields hfields, htype]
      · simp [bearerToken_of_fields hfields, htype]
    · rename_i hfields
      simp [bearerToken_eq_none hfields]

theorem authorizeUser_eq_ok_iff {ctx : Gapi.Context} {roles : List String} :
    Gapi.authorizeUser deps now ctx roles = .ok payload ↔
      ∃ token, (ctx.get "authorization").head?.bind bearerToken = some token ∧
        Token.verifyToken deps.decrypt now token Token.tokenTypeAccessToken = .ok payload ∧
        Gapi.hasPermission payload.role roles = true := by
  unfold Gapi.authorizeUser
  split
  · rename_i hnone
    simp [Gapi.Context.get, hnone]
  split
  · rename_i hget
    simp [hget]
  rename_i header others hget
  rw [hget, List.head?_cons, Option.bind_some]
  split
  · rename_i first token rest hfields
    rw [bearerToken_of_fields hfields]
    dsimp only
    by_cases htype : Util.toLower first = Api.authorizationTypeBearer
    · rw [if_neg (show ¬Util.toLower first ≠ Gapi.authorizationBearer from not_not.mpr htype),
        if_pos htype]
      simp only [Option.some.injEq, exists_eq_left']
      cases Token.verifyToken deps.decrypt now token Token.tokenTypeAccessToken with
      | error err => simp
      | ok found =>
        cases hrole : Gapi.hasPermission found.role roles with
        | false =>
          simp only [hrole, Bool.not_false, if_true, reduceCtorEq, Except.ok.injEq, false_iff, not_and]
          rintro rfl
          simp [hrole]
        | true =>
          simp only [hrole, Bool.not_true, Bool.false_eq_true, if_false, Except.ok.injEq]
          constructor
          · rintro rfl
            exact ⟨rfl, hrole⟩
          · exact fun h => h.1
    · rw [if_pos (show Util.toLower first ≠ Gapi.authorizationBearer from htype), if_neg htype]
      simp
  · rename_i hfields
    simp [bearerToken_eq_none hfields]

theorem toOption_eq_some {ε α : Type} {result : Except ε α} {value : α} :
    result.toOption = some value ↔ result = .ok value := by
  cases result <;> simp [Except.toOption]

/-- The roles the request is open to. -/
def Job.Permits (job : Job) (role : String) : Prop :=
  match job.request with
  | .rpcUpdateUser _ _ => Gapi.hasPermission role [Util.bankerRole, Util.depositorRole] = true
  | _ => True

theorem Job.bearer_eq_some_iff : job.bearer deps = some payload ↔
    ∃ token, job.accessToken = some token ∧
      Token.verifyToken deps.decrypt job.now token Token.tokenTypeAccessToken = .ok payload ∧
      job.Permits payload.role := by
  obtain ⟨request, now⟩ := job
  unfold Job.bearer Job.accessToken Job.Permits
  cases request with
  | createAccount _ _ | getAccount _ _ | listAccounts _ _ | createTransfer _ _ =>
    simp only [toOption_eq_some, authMiddleware_eq_ok_iff, and_true]
  | rpcUpdateUser ctx req => exact toOption_eq_some.trans authorizeUser_eq_ok_iff
  | _ => simp

/-- What a bearer gate lets through has verified as an access token. -/
theorem Job.bearer_eq_some (h : job.bearer deps = some payload) :
    ∃ token, job.accessToken = some token ∧
      Token.verifyToken deps.decrypt job.now token Token.tokenTypeAccessToken = .ok payload := by
  obtain ⟨token, htoken, hverify, -⟩ := Job.bearer_eq_some_iff.mp h
  exact ⟨token, htoken, hverify⟩

theorem Job.refresh_eq_some_iff {token : String} :
    job.refresh deps = some (token, payload) ↔ job.refreshToken = some token ∧
      Token.verifyToken deps.decrypt job.now token Token.tokenTypeRefreshToken = .ok payload := by
  obtain ⟨request, now⟩ := job
  unfold Job.refresh Job.refreshToken
  cases request with
  | renewAccessToken body =>
    dsimp only
    cases Api.bind body Api.RenewAccessTokenRequest.check with
    | error err => simp [Except.toOption]
    | ok req =>
      simp only [Except.toOption, Option.map_some, Option.some.injEq]
      cases hverify : Token.verifyToken deps.decrypt now req.refreshToken
        Token.tokenTypeRefreshToken with
      | error err =>
        simp only [reduceCtorEq, false_iff, not_and]
        rintro rfl
        simp [hverify]
      | ok found =>
        simp only [Option.some.injEq, Prod.mk.injEq]
        constructor
        · rintro ⟨rfl, rfl⟩
          exact ⟨rfl, hverify⟩
        · rintro ⟨rfl, hpayload⟩
          exact ⟨rfl, Except.ok.inj (hverify.symm.trans hpayload)⟩
  | _ => simp

end Gates

section Tokens

variable {deps : Deps}

/-- A string that decrypts under the configured key has been made by
`CreateToken` before it is presented. -/
def Unforged (deps : Deps) (config : ServiceConfig) : Event Job Choice External → Prop
  | .arrive job => ∀ token, job.accessToken = some token ∨ job.refreshToken = some token →
      (deps.decrypt token).isSome = true → ∃ payload, (token, payload) ∈ config.world.issued
  | _ => True

/-- What a password check at `loginTime` may lead to. -/
def Granted (deps : Deps) (loginTime : Time) (payload : Token.Payload) : Prop :=
  payload.type = Token.tokenTypeAccessToken ∧ payload.expiredAt ≤
      loginTime + max 0 deps.config.refreshTokenDuration + deps.config.accessTokenDuration ∨
  payload.type = Token.tokenTypeRefreshToken ∧
    payload.expiredAt ≤ loginTime + max 0 deps.config.refreshTokenDuration

/-- The login a token goes back to. -/
def FromLogin (deps : Deps) (config : ServiceConfig) (payload : Token.Payload) : Prop :=
  ∃ login job user, config.job? login = some job ∧
    LoggedIn deps job (config.history login) user ∧ payload.username = user.username ∧
    payload.role = user.role ∧ Granted deps job.now payload

theorem FromLogin.later {config next : ServiceConfig} {payload : Token.Payload}
    (h : FromLogin deps config payload) (hcontinues : System.Continues config next) :
    FromLogin deps next payload := by
  obtain ⟨login, job, user, hjob, hlogin, hpayload⟩ := h
  exact ⟨login, job, user, hcontinues.job?_eq _ _ hjob,
    hlogin.later (hcontinues.history_prefix login), hpayload⟩

/-- Every token goes back to a login, and nobody presents any other. -/
structure Traced (deps : Deps) (config : ServiceConfig) : Prop where
  made : ∀ token payload, (token, payload) ∈ config.world.issued →
    ∃ nonce, token = deps.encrypt payload nonce
  origin : ∀ token payload, (token, payload) ∈ config.world.issued → FromLogin deps config payload
  presented : ∀ thread job token payload, config.job? thread = some job →
    job.accessToken = some token ∨ job.refreshToken = some token →
    deps.decrypt token = some payload → (token, payload) ∈ config.world.issued

theorem Traced.initial {w : World} (hissued : w.issued = []) :
    Traced deps (.initial w : ServiceConfig) where
  made token payload hmem := by simp [Config.initial, hissued] at hmem
  origin token payload hmem := by simp [Config.initial, hissued] at hmem
  presented thread job token payload hjob := by simp [Config.initial, Config.job?] at hjob

/-- What a request is about to present has been issued with just that payload. -/
theorem Traced.issued_of_unforged {config : ServiceConfig} (h : Traced deps config)
    (hdecrypts : Decrypts deps) {job : Job} (hunforged : Unforged deps config (.arrive job))
    {token : String} {payload : Token.Payload}
    (htoken : job.accessToken = some token ∨ job.refreshToken = some token)
    (hdecrypt : deps.decrypt token = some payload) : (token, payload) ∈ config.world.issued := by
  obtain ⟨made, hmade⟩ := hunforged token htoken (by rw [hdecrypt]; rfl)
  obtain ⟨nonce, hencrypt⟩ := h.made token made hmade
  have hsame := hdecrypts made nonce
  rw [← hencrypt, hdecrypt] at hsame
  cases hsame
  exact hmade

theorem Traced.arrive {config : ServiceConfig} (h : Traced deps config)
    (hdecrypts : Decrypts deps) {job : Job} (hunforged : Unforged deps config (.arrive job)) :
    Traced deps { config with threads := config.threads ++ [⟨job, serve deps job⟩] } := by
  refine ⟨h.made, fun token payload hmem =>
    (h.origin token payload hmem).later (System.continues_arrive config _), ?_⟩
  intro thread other token payload hjob htoken hdecrypt
  rcases Nat.lt_trichotomy thread config.threads.length with hlt | rfl | hgt
  · rw [Config.job?, List.getElem?_append_left hlt] at hjob
    exact h.presented thread other token payload hjob htoken hdecrypt
  · rw [Config.job?, List.getElem?_concat_length] at hjob
    cases hjob
    exact h.issued_of_unforged hdecrypts hunforged htoken hdecrypt
  · rw [Config.job?, List.getElem?_eq_none (by simp; omega)] at hjob
    cases hjob

/-- The token of a successful encryption is a new one. -/
theorem World.encrypt_spec {w w' : World} {thread : Nat} {choice : Choice} {payload : Token.Payload}
    {token : String} (h : w.step deps thread choice (.encrypt payload) = some (.ok token, w')) :
    token = deps.encrypt payload choice.nonce ∧ w'.issued = w.issued ++ [(token, payload)] := by
  rcases World.callStep_spec (Option.some.inj h) with ⟨_, herr, -⟩ | hresult
  · cases herr
  · cases hresult
    exact ⟨rfl, rfl⟩

/-- Tokens are only made by the calls of requests. -/
theorem issued_of_move {config next : ServiceConfig} {event : Event Job Choice External}
    (hmove : (service deps).move config event = some next) :
    next.world.issued = config.world.issued ∨ ∃ thread job payload token nonce,
      Nonempty ((service deps).Takes config thread job (.encrypt payload) (.ok token) next) ∧
      token = deps.encrypt payload nonce ∧
      next.world.issued = config.world.issued ++ [(token, payload)] := by
  rcases System.move_cases hmove with ⟨job, rfl, -, rfl⟩ | ⟨thread, _, job, op, reply, rfl, ⟨htakes⟩⟩ |
    ⟨_, world, rfl, hexternal, rfl⟩
  · exact .inl rfl
  · obtain ⟨choice, hstep⟩ : ∃ choice,
        config.world.step deps thread choice op = some (reply, next.world) := ⟨_, htakes.step_eq⟩
    obtain ⟨-, hsame | ⟨payload, token, hexchange, -⟩, -⟩ := World.step_outside hstep
    · exact .inl hsame
    · cases hexchange
      obtain ⟨htoken, hissued⟩ := World.encrypt_spec hstep
      exact .inr ⟨thread, job, payload, token, choice.nonce, ⟨htakes⟩, htoken, hissued⟩
  · obtain ⟨-, -, hsame, -⟩ := World.external_spec hexternal
    exact .inl hsame

/-- A token that is being made goes back to a login. -/
theorem Traced.fromLogin {config : ServiceConfig} (h : Traced deps config)
    {thread : Nat} {job : Job} {payload : Token.Payload} (hjob : config.job? thread = some job)
    (hissues : Issues deps job (config.history thread) payload) : FromLogin deps config payload := by
  cases hissues with
  | access tokenID user hlogin =>
    exact ⟨thread, job, user, hjob, hlogin, rfl, rfl,
      .inl ⟨rfl, Int.add_le_add_right (Int.le_add_of_nonneg_right (Int.le_max_left _ _)) _⟩⟩
  | refresh tokenID user hlogin =>
    exact ⟨thread, job, user, hjob, hlogin, rfl, rfl,
      .inr ⟨rfl, Int.add_le_add_left (Int.le_max_right _ _) _⟩⟩
  | renewed tokenID refreshPayload hrenewing =>
    obtain ⟨refreshToken, session, hpresents, -⟩ := hrenewing
    obtain ⟨htoken, hverify⟩ := Job.refresh_eq_some_iff.mp hpresents
    obtain ⟨hdecrypt, htype, hnow⟩ := Token.verifyToken_eq_ok.mp hverify
    obtain ⟨login, loginJob, user, hloginJob, hlogin, husername, hrole, hgranted⟩ :=
      h.origin _ _ (h.presented thread job _ _ hjob (.inr htoken) hdecrypt)
    rcases hgranted with ⟨haccessType, -⟩ | ⟨-, hexpires⟩
    · exact absurd (htype.symm.trans haccessType) (by decide)
    · exact ⟨login, loginJob, user, hloginJob, hlogin, husername, hrole,
        .inl ⟨rfl, Int.add_le_add_right (Int.le_trans hnow hexpires) _⟩⟩

theorem Traced.move {config next : ServiceConfig} (h : Traced deps config)
    {event : Event Job Choice External}
    (hmove : (service deps).move config event = some next)
    (hjobs : ∀ thread, next.job? thread = config.job? thread)
    (howes : ∀ thread job payload reply,
      Nonempty ((service deps).Takes config thread job (.encrypt payload) reply next) →
      Issues deps job (config.history thread) payload) : Traced deps next := by
  have hcontinues := System.continues_move hmove
  rcases issued_of_move hmove with hsame | ⟨thread, job, payload, token, nonce, ⟨htakes⟩, htoken,
    hissued⟩
  · refine ⟨by rw [hsame]; exact h.made, ?_, ?_⟩
    · rw [hsame]
      exact fun token payload hmem => (h.origin token payload hmem).later hcontinues
    · intro thread job token payload hjob
      rw [hsame]
      exact h.presented thread job token payload ((hjobs thread).symm.trans hjob)
  · have hnew := h.fromLogin htakes.job_eq (howes _ _ _ _ ⟨htakes⟩)
    refine ⟨?_, ?_, ?_⟩
    · intro other otherPayload hmem
      rw [hissued] at hmem
      rcases List.mem_append.mp hmem with hmem | hmem
      · exact h.made other otherPayload hmem
      · cases List.mem_singleton.mp hmem
        exact ⟨nonce, htoken⟩
    · intro other otherPayload hmem
      rw [hissued] at hmem
      rcases List.mem_append.mp hmem with hmem | hmem
      · exact (h.origin other otherPayload hmem).later hcontinues
      · cases List.mem_singleton.mp hmem
        exact hnew.later hcontinues
    · intro other otherJob otherToken otherPayload hjob hpresents hdecrypt
      rw [hissued]
      exact List.mem_append_left _ (h.presented other otherJob otherToken otherPayload
        ((hjobs other).symm.trans hjob) hpresents hdecrypt)

theorem Traced.reach (hdecrypts : Decrypts deps) {w : World}
    (hissued : w.issued = []) {config : ServiceConfig}
    (hreach : (service deps).Reach (Unforged deps) (.initial w) config) : Traced deps config := by
  induction hreach with
  | start => exact .initial hissued
  | move hreach hok hmove ih =>
    rcases System.move_cases hmove with ⟨job, rfl, -, rfl⟩ | ⟨_, _, _, _, _, rfl, ⟨htakes⟩⟩ |
      ⟨change, world, rfl, hexternal, rfl⟩
    · exact ih.arrive hdecrypts hok
    · refine ih.move hmove htakes.job?_eq ?_
      exact fun _ _ _ _ ⟨htakes⟩ => (service_verified deps).at_call hreach htakes
    · refine ih.move hmove (fun _ => rfl) ?_
      exact fun _ _ _ _ ⟨htakes⟩ => (service_verified deps).at_call hreach htakes

/-- The request is turned down before it makes a call. -/
def Refused (deps : Deps) (job : Job) : Prop :=
  ∃ response, serve deps job = .done response ∧ response.success = false

theorem refused_of_bearer_eq_none {job : Job} (hgated : job.Gated)
    (h : job.bearer deps = none) : Refused deps job := by
  obtain ⟨request, now⟩ := job
  have route : ∀ authorization handler,
      (Api.authMiddleware deps now authorization).toOption = none →
      ∃ response, (Response.http <$> Api.authRoute deps now authorization handler : Act Response) =
        .done response ∧ response.success = false := by
    intro authorization handler hnone
    unfold Api.authRoute
    cases hauth : Api.authMiddleware deps now authorization with
    | ok found => simp [hauth, Except.toOption] at hnone
    | error err => exact ⟨.http ⟨Api.statusUnauthorized, Api.errorResponse err⟩, rfl, rfl⟩
  cases request with
  | createAccount authorization _ | getAccount authorization _ | listAccounts authorization _
    | createTransfer authorization _ => exact route authorization _ h
  | rpcUpdateUser ctx req =>
    cases hauth : Gapi.authorizeUser deps now ctx [Util.bankerRole, Util.depositorRole] with
    | ok found => simp [Job.bearer, hauth, Except.toOption] at h
    | error err =>
      have hrefused : Gapi.updateUser deps now ctx req =
          .done (.error (Gapi.unauthenticatedError err)) := by
        unfold Gapi.updateUser
        rw [hauth]
        rfl
      exact ⟨_, congrArg (fun program : Act Gapi.Reply => Response.rpc <$> program) hrefused, rfl⟩
  | _ => exact hgated.elim

theorem refused_of_refresh_eq_none {job : Job} {token : String}
    (hpresents : job.refreshToken = some token) (h : job.refresh deps = none) :
    Refused deps job := by
  obtain ⟨request, now⟩ := job
  cases request with
  | renewAccessToken body =>
    simp only [Job.refresh] at h
    simp only [Job.refreshToken, Option.map_eq_some_iff, toOption_eq_some] at hpresents
    obtain ⟨req, hbind, -⟩ := hpresents
    rw [hbind] at h
    dsimp only at h
    cases hverify : Token.verifyToken deps.decrypt now req.refreshToken
      Token.tokenTypeRefreshToken with
    | ok found => simp [hverify] at h
    | error err =>
      have hrefused : Api.renewAccessToken deps now body =
          .done ⟨Api.statusUnauthorized, Api.errorResponse err⟩ := by
        unfold Api.renewAccessToken
        rw [hbind]
        dsimp only
        rw [hverify]
        rfl
      exact ⟨_, congrArg (fun program : Act Api.Reply => Response.http <$> program) hrefused, rfl⟩
  | _ => cases hpresents

theorem Job.gated_of_accessToken {job : Job} {token : String} (h : job.accessToken = some token) :
    job.Gated := by
  obtain ⟨request, now⟩ := job
  cases request <;> trivial

/-- A token of the wrong type does not verify. -/
theorem verifyToken_type {now : Time} {token : String} {tokenType : Token.TokenType}
    {payload found : Token.Payload} (hdecrypt : deps.decrypt token = some payload)
    (hverify : Token.verifyToken deps.decrypt now token tokenType = .ok found) :
    payload.type = tokenType := by
  obtain ⟨hfound, htype, -⟩ := Token.verifyToken_eq_ok.mp hverify
  cases hdecrypt.symm.trans hfound
  exact htype

theorem refused_refresh_token {job : Job} {token : String} {payload : Token.Payload}
    (hdecrypt : deps.decrypt token = some payload)
    (htype : payload.type = Token.tokenTypeRefreshToken) (hpresents : job.accessToken = some token) :
    Refused deps job := by
  refine refused_of_bearer_eq_none (Job.gated_of_accessToken hpresents) ?_
  cases hbearer : job.bearer deps with
  | none => rfl
  | some found =>
    obtain ⟨other, hother, hverify⟩ := Job.bearer_eq_some hbearer
    cases hpresents.symm.trans hother
    exact absurd (htype.symm.trans (verifyToken_type hdecrypt hverify)) (by decide)

theorem refused_access_token {job : Job} {token : String} {payload : Token.Payload}
    (hdecrypt : deps.decrypt token = some payload)
    (htype : payload.type = Token.tokenTypeAccessToken) (hpresents : job.refreshToken = some token) :
    Refused deps job := by
  refine refused_of_refresh_eq_none hpresents ?_
  cases hrefresh : job.refresh deps with
  | none => rfl
  | some found =>
    obtain ⟨hother, hverify⟩ := Job.refresh_eq_some_iff.mp hrefresh
    cases hpresents.symm.trans hother
    exact absurd (htype.symm.trans (verifyToken_type hdecrypt hverify)) (by decide)

theorem Traced.decrypt_eq {config : ServiceConfig} (h : Traced deps config)
    (hdecrypts : Decrypts deps) {token : String} {payload : Token.Payload}
    (hmem : (token, payload) ∈ config.world.issued) : deps.decrypt token = some payload := by
  obtain ⟨nonce, rfl⟩ := h.made token payload hmem
  exact hdecrypts payload nonce

/-- Who gets through a bearer gate has passed a password check before, and not
longer ago than a refresh token and an access token last.  Tokens of one type
are not accepted for the other. -/
theorem authenticated_by_login (hrefresh : 0 ≤ deps.config.refreshTokenDuration)
    (hdecrypts : Decrypts deps) {w : World} (hissued : w.issued = []) {config : ServiceConfig}
    (hreach : (service deps).Reach (Unforged deps) (.initial w) config) :
    (∀ job payload, accepts config.world job = true → Unforged deps config (.arrive job) →
      job.bearer deps = some payload → ∃ login loginJob user password,
        config.job? login = some loginJob ∧
        loginJob.credentials = some (payload.username, password) ∧
        Said (config.history login) (.sql .pool (.getUser payload.username)) (.ok user) ∧
        Util.checkPassword deps password user.hashedPassword = .ok () ∧
        job.now ≤ loginJob.now + deps.config.refreshTokenDuration +
          deps.config.accessTokenDuration) ∧
    (∀ job : Job, job.Gated → job.bearer deps = none → Refused deps job) ∧
    ∀ job token payload, (token, payload) ∈ config.world.issued →
      (payload.type = Token.tokenTypeRefreshToken → job.accessToken = some token →
        Refused deps job) ∧
      (payload.type = Token.tokenTypeAccessToken → job.refreshToken = some token →
        Refused deps job) := by
  have htraced := Traced.reach hdecrypts hissued hreach
  refine ⟨?_, fun job => refused_of_bearer_eq_none, fun job token payload hmem => ?_⟩
  · intro job payload _ hunforged hbearer
    obtain ⟨token, htoken, hverify⟩ := Job.bearer_eq_some hbearer
    obtain ⟨hdecrypt, htype, hnow⟩ := Token.verifyToken_eq_ok.mp hverify
    obtain ⟨login, loginJob, user, hjob, ⟨username, password, hcredentials, hsaid, hcheck⟩,
      husername, -, hgranted⟩ := htraced.origin _ _
        (htraced.issued_of_unforged hdecrypts hunforged (.inl htoken) hdecrypt)
    obtain ⟨_, _, _, hrow, -⟩ := valid_of_said hreach hsaid
    cases hrow.symm.trans husername.symm
    refine ⟨login, loginJob, user, password, hjob, hrow ▸ hcredentials, hrow ▸ hsaid, hcheck, ?_⟩
    rcases hgranted with ⟨-, hexpires⟩ | ⟨hrefreshType, -⟩
    · rw [Int.max_eq_right hrefresh] at hexpires
      exact Int.le_trans hnow hexpires
    · exact absurd (htype.symm.trans hrefreshType) (by decide)
  · have hdecrypt := htraced.decrypt_eq hdecrypts hmem
    exact ⟨refused_refresh_token hdecrypt, refused_access_token hdecrypt⟩

end Tokens

/-! A token format to try the results on: the fields one after another. -/
namespace Sample

def writeNat (n : Nat) : List Char := List.replicate n '1' ++ ['.']

def readNat : List Char → Option (Nat × List Char)
  | '.' :: rest => some (0, rest)
  | '1' :: rest => (readNat rest).map fun found => (found.1 + 1, found.2)
  | _ => none

theorem readNat_writeNat (n : Nat) (rest : List Char) :
    readNat (writeNat n ++ rest) = some (n, rest) := by
  induction n with
  | zero => rfl
  | succ n ih => exact congrArg (Option.map fun found => (found.1 + 1, found.2)) ih

def writeInt : Int → List Char
  | .ofNat n => '+' :: writeNat n
  | .negSucc n => '-' :: writeNat n

def readInt : List Char → Option (Int × List Char)
  | '+' :: rest => (readNat rest).map fun found => (.ofNat found.1, found.2)
  | '-' :: rest => (readNat rest).map fun found => (.negSucc found.1, found.2)
  | _ => none

theorem readInt_writeInt (i : Int) (rest : List Char) :
    readInt (writeInt i ++ rest) = some (i, rest) := by
  cases i with
  | ofNat n => simp [writeInt, readInt, readNat_writeNat]
  | negSucc n => simp [writeInt, readInt, readNat_writeNat]

def writeString (s : String) : List Char := writeNat s.toList.length ++ s.toList

def readString (chars : List Char) : Option (String × List Char) :=
  (readNat chars).map fun found =>
    (String.ofList (found.2.take found.1), found.2.drop found.1)

theorem readString_writeString (s : String) (rest : List Char) :
    readString (writeString s ++ rest) = some (s, rest) := by
  simp [readString, writeString, readNat_writeNat]

def writeToken (payload : Token.Payload) : String :=
  String.ofList (writeNat payload.id.toNat ++ (writeNat payload.type.toNat ++
    (writeString payload.username ++ (writeString payload.role ++
      (writeInt payload.issuedAt ++ (writeInt payload.expiredAt ++ []))))))

def readToken (token : String) : Option Token.Payload := do
  let (id, chars) ← readNat token.toList
  let (type, chars) ← readNat chars
  let (username, chars) ← readString chars
  let (role, chars) ← readString chars
  let (issuedAt, chars) ← readInt chars
  let (expiredAt, chars) ← readInt chars
  if chars.isEmpty then
    some { id := BitVec.ofNat 128 id, type := UInt8.ofNat type, username := username,
           role := role, issuedAt := issuedAt, expiredAt := expiredAt }
  else none

theorem readToken_writeToken (payload : Token.Payload) :
    readToken (writeToken payload) = some payload := by
  simp only [readToken, writeToken, String.toList_ofList, readNat_writeNat,
    readString_writeString, readInt_writeInt, Option.bind_eq_bind, Option.bind_some,
    BitVec.ofNat_toNat, UInt8.ofNat_toNat]
  rfl

/-- Tokens that last for two and five nanoseconds. -/
def signed : Deps :=
  { deps with
    config := ⟨2, 5⟩
    encrypt := fun payload _ => writeToken payload
    decrypt := readToken }

theorem signed_decrypts : Decrypts signed := fun payload _ => readToken_writeToken payload

def accessPayload : Token.Payload :=
  Token.newPayload 0 0 "alice" Util.depositorRole 2 Token.tokenTypeAccessToken

def refreshPayload : Token.Payload :=
  Token.newPayload 0 1 "alice" Util.depositorRole 5 Token.tokenTypeRefreshToken

/-- Alice logs in. -/
def login : List (Event Job Choice External) :=
  [.arrive ⟨.loginUser "" "" (.ok ⟨"alice", "secret"⟩), 0⟩, .run 0 {}, .run 0 {}, .run 0 {},
    .run 0 { uuid := 1 }, .run 0 {}, .run 0 {}]

theorem login_runs :
    ((service signed).run (.initial world) login).isSome = true := by
  decide +kernel

def loggedIn : ServiceConfig := ((service signed).run (.initial world) login).get login_runs

theorem login_unforged : ∀ event ∈ login, ∀ config, Unforged signed config event := by
  intro event hmem config
  simp only [login, List.mem_cons, List.not_mem_nil, or_false] at hmem
  rcases hmem with rfl | rfl | rfl | rfl | rfl | rfl | rfl
  · rintro token (htoken | htoken)
    · cases htoken
    · cases htoken
  all_goals trivial

theorem loggedIn_reach : (service signed).Reach (Unforged signed) (.initial world) loggedIn :=
  System.Reach.start.extend login_unforged (Option.some_get login_runs).symm

/-- Alice opens an account with the access token she got. -/
def opening : Job :=
  ⟨.createAccount ("Bearer " ++ writeToken accessPayload) (.ok ⟨"USD"⟩), 0⟩

theorem opening_unforged : Unforged signed loggedIn (.arrive opening) := by
  have htoken : opening.accessToken = some (writeToken accessPayload) := by decide +kernel
  rintro token (hpresents | hpresents) -
  · cases htoken.symm.trans hpresents
    exact ⟨accessPayload, by decide +kernel⟩
  · cases hpresents

end Sample

theorem authenticated_by_login_sample : ∃ login loginJob user password,
    Sample.loggedIn.job? login = some loginJob ∧
    loginJob.credentials = some ("alice", password) ∧
    Said (Sample.loggedIn.history login) (.sql .pool (.getUser "alice")) (.ok user) ∧
    Util.checkPassword Sample.signed password user.hashedPassword = .ok () ∧
    0 ≤ loginJob.now + 5 + 2 :=
  (authenticated_by_login (by decide) Sample.signed_decrypts rfl Sample.loggedIn_reach).1
    Sample.opening Sample.accessPayload (by decide +kernel) Sample.opening_unforged
    (by decide +kernel)

end SimpleBank
