import SimpleBank.Passwords

/-! Who is a user for the two APIs: the checks of their fields side by side,
and the logins that follow a registration by either of them. -/
namespace SimpleBank
open Library Db Program

section Checks

variable {deps : Deps}

theorem Gapi.fieldViolation_eq_nil {field : String} {check : Except Err Unit} :
    Gapi.fieldViolation field check = [] ↔ check = .ok () := by
  cases check with
  | error err => simp [Gapi.fieldViolation]
  | ok value => simp [Gapi.fieldViolation]

theorem Gapi.validateOptional_eq_nil {field : String} {check : String → Except Err Unit}
    {value : Option String} :
    Gapi.validateOptional field check value = [] ↔ ∀ given ∈ value, check given = .ok () := by
  cases value with
  | none => simp [Gapi.validateOptional]
  | some given => simp [Gapi.validateOptional, Gapi.fieldViolation_eq_nil]

theorem Gapi.validateLoginUserRequest_eq_nil {req : Gapi.LoginUserRequest} :
    Gapi.validateLoginUserRequest req = [] ↔
      Val.validateUsername req.username = .ok () ∧ Val.validatePassword req.password = .ok () := by
  simp [Gapi.validateLoginUserRequest, Gapi.fieldViolation_eq_nil]

theorem Api.LoginUserRequest.check_eq_ok {req : Api.LoginUserRequest} {result : Unit} :
    req.check = .ok result ↔ (req.username ≠ "" ∧
      ∀ c ∈ req.username.toList, c.isAlphanum = true) ∧ 6 ≤ req.password.length := by
  have hshort : 6 ≤ req.password.length → req.password ≠ "" := by
    rintro hlength heq
    rw [heq] at hlength
    exact absurd hlength (by decide)
  simp [check, Api.validate_eq_ok, Api.checkField_eq_none, Api.Tag.required, Api.Tag.alphanum,
    Api.Tag.minLength]
  tauto

/-- The new values an update carries are valid, each by itself. -/
structure ValidValues (deps : Deps) (req : Gapi.UpdateUserRequest) : Prop where
  fullName : ∀ fullName ∈ req.fullName, Val.validateFullName fullName = .ok ()
  email : ∀ email ∈ req.email, Val.validateEmail deps email = .ok ()
  password : ∀ password ∈ req.password, Val.validatePassword password = .ok ()

theorem ValidValues.validate_eq_nil {req : Gapi.UpdateUserRequest} (h : ValidValues deps req) :
    Gapi.validateUpdateUserRequest deps req = [] ↔ Val.validateUsername req.username = .ok () := by
  have hpassword : Gapi.validateOptional "password" Val.validatePassword req.password = [] :=
    Gapi.validateOptional_eq_nil.mpr h.password
  have hfullName : Gapi.validateOptional "full_name" Val.validateFullName req.fullName = [] :=
    Gapi.validateOptional_eq_nil.mpr h.fullName
  have hemail : Gapi.validateOptional "email" (Val.validateEmail deps) req.email = [] :=
    Gapi.validateOptional_eq_nil.mpr h.email
  simp [Gapi.validateUpdateUserRequest, hpassword, hfullName, hemail, Gapi.fieldViolation_eq_nil]

end Checks

/-- A username and password that both APIs admit. -/
structure Portable (username password : String) : Prop where
  length : 3 ≤ username.utf8ByteSize ∧ username.utf8ByteSize ≤ 100
  letters : ∀ c ∈ username.toList, c.isLower = true ∨ c.isDigit = true
  runes : 6 ≤ password.length

section Portable

variable {username password : String}

theorem length_le_utf8ByteSize (text : String) : text.length ≤ text.utf8ByteSize := by
  rw [← @String.ofList_toList text]
  induction text.toList with
  | nil => simp
  | cons c letters ih =>
    have hsize := c.utf8Size_pos
    rw [String.ofList_cons, String.utf8ByteSize_append, String.utf8ByteSize_singleton]
    simp at ih ⊢
    omega

theorem isAlphanum_iff {c : Char} : c.isAlphanum = true ∧
    (c.isLower = true ∨ c.isDigit = true ∨ c = '_') ↔ c.isLower = true ∨ c.isDigit = true := by
  constructor
  · rintro ⟨halphanum, hlower | hdigit | rfl⟩
    · exact .inl hlower
    · exact .inr hdigit
    · cases halphanum
  · have halphanum : c.isAlphanum = true ↔ (c.isUpper = true ∨ c.isLower = true) ∨ c.isDigit = true := by
      change ((c.isUpper || c.isLower) || c.isDigit) = true ↔ _
      simp
    rintro (hlower | hdigit)
    · exact ⟨halphanum.mpr (.inl (.inr hlower)), .inl hlower⟩
    · exact ⟨halphanum.mpr (.inr hdigit), .inr (.inl hdigit)⟩

theorem isValidUsername_iff : Val.isValidUsername username = true ↔ username ≠ "" ∧
    ∀ c ∈ username.toList, c.isLower = true ∨ c.isDigit = true ∨ c = '_' := by
  simp [Val.isValidUsername, Val.consistsOf, or_assoc]

/-- What the two sets of checks leave. -/
theorem portable_iff : Portable username password ↔ Val.validateUsername username = .ok () ∧
    (∀ c ∈ username.toList, c.isAlphanum = true) ∧ 6 ≤ password.length := by
  rw [Val.validateUsername_eq_ok, isValidUsername_iff]
  constructor
  · rintro ⟨hlength, hletters, hrunes⟩
    have hempty : username ≠ "" := by
      rintro rfl
      exact absurd hlength.1 (by decide)
    have hboth := fun c hmem => isAlphanum_iff.mpr (hletters c hmem)
    exact ⟨⟨hlength, hempty, fun c hmem => (hboth c hmem).2⟩, fun c hmem => (hboth c hmem).1, hrunes⟩
  · rintro ⟨⟨hlength, -, hvalid⟩, halphanum, hrunes⟩
    exact ⟨hlength, fun c hmem => isAlphanum_iff.mp ⟨halphanum c hmem, hvalid c hmem⟩, hrunes⟩

end Portable

/-- The username and password of a registration, by either API. -/
def Request.registration : Request → Option (String × String)
  | .createUser (.ok req) => some (req.username, req.password)
  | .rpcCreateUser req => some (req.username, req.password)
  | _ => none

/-- The username and password of a login, by either API. -/
def Request.login : Request → Option (String × String)
  | .loginUser _ _ (.ok req) => some (req.username, req.password)
  | .rpcLoginUser _ req => some (req.username, req.password)
  | _ => none

/-- What a login needs to hear in order to be accepted. -/
def LoginGrants (deps : Deps) (username password : String) : (op : Op) → op.Reply → Prop
  | .sql .pool (.getUser name), reply => name = username → ∃ user : User,
      reply = .ok user ∧ user.username = username ∧
      Util.checkPassword deps password user.hashedPassword = .ok ()
  | .sql .pool (.createSession arg), reply => arg.username = username →
      ∃ session : Session, reply = .ok session
  | .newRandom, reply => ∃ tokenID, reply = .ok tokenID
  | .encrypt _, reply => ∃ token, reply = .ok token
  | _, _ => True

section Granted

variable {deps : Deps} {username password : String} {history : History}

theorem createToken_granted {now : Time} {name role : String} {duration : Time}
    {tokenType : Token.TokenType} :
    Always (fun _ _ => True) (LoginGrants deps username password)
      (fun _ outcome => ∃ token payload, outcome = .ok (token, payload)) history
      (Token.createToken now name role duration tokenType) := by
  refine always_call trivial fun reply hgrants => ?_
  obtain ⟨tokenID, rfl⟩ := hgrants
  refine always_call trivial fun reply hgrants => ?_
  obtain ⟨token, rfl⟩ := hgrants
  exact ⟨token, _, rfl⟩

theorem loginUser_granted {now : Time} {userAgent clientIP : String}
    {body : Api.Body Api.LoginUserRequest} {req : Api.LoginUserRequest}
    (hbind : Api.bind body Api.LoginUserRequest.check = .ok req) :
    Always (fun _ _ => True) (LoginGrants deps req.username req.password)
      (fun _ reply => (Response.http reply).success = true) []
      (Api.loginUser deps now userAgent clientIP body) := by
  unfold Api.loginUser
  rw [hbind]
  refine always_call trivial fun reply hgrants => ?_
  obtain ⟨user, rfl, hname, hcheck⟩ := hgrants rfl
  dsimp only [Program.bind]
  rw [hcheck]
  refine Always.bind ?_ createToken_granted
  rintro _ _ ⟨accessToken, accessPayload, rfl⟩
  refine Always.bind ?_ createToken_granted
  rintro _ _ ⟨refreshToken, refreshPayload, rfl⟩
  refine always_call trivial fun reply hgrants => ?_
  obtain ⟨session, rfl⟩ := hgrants hname
  rfl

theorem rpcLoginUser_granted {now : Time} {ctx : Gapi.Context} {req : Gapi.LoginUserRequest}
    (hvalid : Gapi.validateLoginUserRequest req = []) :
    Always (fun _ _ => True) (LoginGrants deps req.username req.password)
      (fun _ reply => (Response.rpc reply).success = true) [] (Gapi.loginUser deps now ctx req) := by
  unfold Gapi.loginUser
  rw [hvalid]
  refine always_call trivial fun reply hgrants => ?_
  obtain ⟨user, rfl, hname, hcheck⟩ := hgrants rfl
  dsimp only [Program.bind]
  rw [hcheck]
  refine Always.bind ?_ createToken_granted
  rintro _ _ ⟨accessToken, accessPayload, rfl⟩
  refine Always.bind ?_ createToken_granted
  rintro _ _ ⟨refreshToken, refreshPayload, rfl⟩
  refine always_call trivial fun reply hgrants => ?_
  obtain ⟨session, rfl⟩ := hgrants hname
  rfl

/-- Both APIs admit a login whose username and password are portable. -/
theorem Portable.login_granted (hportable : Portable username password)
    (hshort : password.utf8ByteSize ≤ 100) {job : Job}
    (hlogin : job.request.login = some (username, password)) :
    Always (fun _ _ => True) (LoginGrants deps username password)
      (fun _ response => response.success = true) [] (serve deps job) := by
  obtain ⟨request, now⟩ := job
  obtain ⟨husername, halphanum, hrunes⟩ := portable_iff.mp hportable
  cases request with
  | loginUser userAgent clientIP body =>
    cases body with
    | error message => cases hlogin
    | ok req =>
      cases hlogin
      have hempty : req.username ≠ "" := (isValidUsername_iff.mp
        (Val.validateUsername_eq_ok.mp husername).2).1
      have hbind : Api.bind (.ok req) Api.LoginUserRequest.check = .ok req :=
        Api.bind_eq_ok.mpr ⟨rfl, Api.LoginUserRequest.check_eq_ok.mpr ⟨⟨hempty, halphanum⟩, hrunes⟩⟩
      change Always _ _ _ [] (Api.loginUser deps now userAgent clientIP (.ok req) >>= fun reply =>
        pure (Response.http reply))
      exact Always.bind (fun _ _ h => h) (loginUser_granted hbind)
  | rpcLoginUser ctx req =>
    cases hlogin
    have hpassword : Val.validatePassword req.password = .ok () :=
      Val.validateString_eq_ok.mpr ⟨hrunes.trans (length_le_utf8ByteSize _), hshort⟩
    change Always _ _ _ [] (Gapi.loginUser deps now ctx req >>= fun reply =>
      pure (Response.rpc reply))
    exact Always.bind (fun _ _ h => h)
      (rpcLoginUser_granted (Gapi.validateLoginUserRequest_eq_nil.mpr ⟨husername, hpassword⟩))
  | _ => cases hlogin

/-- The HTTP API refuses a login whose fields it does not admit. -/
theorem loginUser_refused {req : Api.LoginUserRequest}
    (h : ¬((req.username ≠ "" ∧ ∀ c ∈ req.username.toList, c.isAlphanum = true) ∧
      6 ≤ req.password.length)) (now : Time) : ∃ response : Response, response.success = false ∧
      serve deps ⟨.loginUser "" "" (.ok req), now⟩ = .done response := by
  have hserve : serve deps ⟨.loginUser "" "" (.ok req), now⟩ =
    (Api.loginUser deps now "" "" (.ok req) >>= fun reply => pure (Response.http reply)) := rfl
  rw [hserve]
  unfold Api.loginUser
  cases hbind : Api.bind (.ok req) Api.LoginUserRequest.check with
  | ok found =>
    obtain ⟨hsame, hcheck⟩ := Api.bind_eq_ok.mp hbind
    cases hsame
    exact absurd (Api.LoginUserRequest.check_eq_ok.mp hcheck) h
  | error err => exact ⟨_, rfl, rfl⟩

end Granted

/-- Nothing outside the system gets in the way of a login: no call fails, the
password is still the registered one, and the new session has an id of its own. -/
structure HealthyLogin (deps : Deps) (registered config : ServiceConfig) (thread : Nat)
    (username : String) : Prop where
  undisturbed : Undisturbed deps config thread
  unchanged : ∀ taken ∈ config.trace, taken.thread = thread →
    taken.exchange.op = .sql .pool (.getUser username) →
    (taken.before.db.users.find? username).map User.hashedPassword =
      (registered.world.db.users.find? username).map User.hashedPassword
  fresh : ∀ taken ∈ config.trace, taken.thread = thread → ∀ arg,
    taken.exchange.op = .sql .pool (.createSession arg) →
    taken.before.db.sessions.find? arg.id = none

/-- Both APIs take the user from now on: for logins, and for updates with valid
values. -/
structure Agreed (deps : Deps) (registered : ServiceConfig) (username password : String) : Prop where
  login : ∀ config thread job response, (service deps).Reachable registered config →
    registered.threads.length ≤ thread → job.request.login = some (username, password) →
    config.threads[thread]? = some ⟨job, .done response⟩ →
    HealthyLogin deps registered config thread username → response.success = true
  update : ∀ req : Gapi.UpdateUserRequest, req.username = username → ValidValues deps req →
    Gapi.validateUpdateUserRequest deps req = []

section Agreed

variable {deps : Deps} {w : World} {before registered config : ServiceConfig} {thread : Nat}
  {username password : String}

theorem Request.password_of_registration {request : Request}
    (h : request.registration = some (username, password)) :
    request.password = some (username, password) := by
  unfold Request.registration at h
  split at h
  · exact h
  · exact h
  · cases h

/-- A registration that succeeds leaves the user with a hash of the password. -/
theorem holds_of_succeeded (htxs : w.txs = .empty)
    (hbefore : (service deps).Reachable (.initial w) before) {event : Event Job Choice External}
    (hmove : (service deps).move before event = some registered) {request : Request}
    (hsucceeded : succeeded registered event = some request)
    (hrequest : request.registration = some (username, password)) :
    ∃ row, registered.world.db.users.find? username = some row ∧ Holds deps row password := by
  rcases System.move_cases hmove with ⟨_, rfl, -, -⟩ | ⟨_, choice, job, op, reply, rfl, ⟨htakes⟩⟩ |
    ⟨_, _, rfl, -, -⟩
  · cases hsucceeded
  · have hpassword := Request.password_of_registration hrequest
    have hdecides := succeeded_of_takes hbefore (.move hbefore trivial hmove) htakes choice
    rw [hsucceeded, Option.bind_some, hpassword] at hdecides
    split at hdecides
    · rename_i hdecided
      exact holds_of_decides htxs hbefore htakes hdecided hdecides.symm
    · cases hdecides
  · cases hsucceeded

/-- A healthy login after the registration hears what it needs to hear. -/
theorem HealthyLogin.grants (h : HealthyLogin deps registered config thread username)
    (hbcrypt : Bcrypt deps) (htxs : w.txs = .empty)
    (hregistered : (service deps).Reachable (.initial w) registered) {row : User}
    (hrow : registered.world.db.users.find? username = some row) (hholds : Holds deps row password)
    (hreach : (service deps).Reachable registered config)
    (hnew : registered.threads.length ≤ thread) :
    ∀ exchange ∈ config.history thread, LoginGrants deps username password exchange.op exchange.reply := by
  intro exchange hmem
  obtain ⟨taken, htaken, hthread, rfl⟩ := Config.mem_history.mp hmem
  obtain ⟨choice, hhealthy, hstep⟩ := h.undisturbed taken htaken hthread
  have hkept := h.unchanged taken htaken hthread
  have hfresh := h.fresh taken htaken hthread
  have huser : (taken.before.db.users.find? username).isSome = true :=
    hreach.later_of_new (P := fun state => (state.db.users.find? username).isSome = true)
      hregistered.follows (by rw [hrow]; rfl)
      (fun _ _ _ hcurrent hsome hmove => isSome_user_of_extends
        ((Regular.reach htxs (hregistered.trans hcurrent)).extends_move hmove) hsome)
      htaken (hthread ▸ hnew)
  obtain ⟨_, ⟨op, reply⟩, state, _⟩ := taken
  cases op with
  | sql conn stmt =>
    cases conn with
    | tx => trivial
    | pool =>
      have hreply := World.pool_eval hhealthy hstep
      cases stmt with
      | getUser name =>
        rintro rfl
        have hsame := hkept rfl
        rw [hrow, Option.map_some] at hsame
        obtain ⟨user, hfind, hhash⟩ := Option.map_eq_some_iff.mp hsame
        obtain ⟨salt, hgenerated⟩ := hholds
        refine ⟨user, hreply.trans (orNoRows_eq_ok.mpr hfind), (Table.find?_mem hfind).2, ?_⟩
        rw [hhash]
        exact (hbcrypt.compares salt password _ password hgenerated).mpr rfl
      | createSession arg =>
        rintro rfl
        exact ⟨_, hreply.trans (evalCreateSession_eq_ok.mpr ⟨hfresh arg rfl, huser, rfl⟩)⟩
      | _ => trivial
  | newRandom =>
    simp only [World.step, World.callStep, hhealthy] at hstep
    cases hstep
    exact ⟨_, rfl⟩
  | encrypt payload =>
    simp only [World.step, World.callStep, hhealthy] at hstep
    cases hstep
    exact ⟨_, rfl⟩
  | _ => trivial

theorem Portable.agreed (hportable : Portable username password) (hbcrypt : Bcrypt deps)
    (htxs : w.txs = .empty) (hregistered : (service deps).Reachable (.initial w) registered)
    {row : User} (hrow : registered.world.db.users.find? username = some row)
    (hholds : Holds deps row password) : Agreed deps registered username password := by
  refine ⟨fun config thread job response hreach hnew hlogin hthread hhealthy => ?_,
    fun req hname hvalues => ?_⟩
  · obtain ⟨salt, hgenerated⟩ := hholds
    have hshort := (hbcrypt.generates salt password).mp ⟨_, hgenerated⟩
    have hfollows := ((hregistered.trans hreach).follows).reaches thread job _ hthread
    exact (hportable.login_granted (hshort.trans (by decide)) hlogin).reaches hfollows
      (hhealthy.grants hbcrypt htxs hregistered hrow ⟨salt, hgenerated⟩ hreach hnew)
  · rw [hvalues.validate_eq_nil, hname]
    exact (portable_iff.mp hportable).1

/-- Whatever request is no task can arrive now. -/
theorem exists_arrival (deps : Deps) (config : ServiceConfig) (request : Request)
    (haccepts : accepts config.world ⟨request, config.world.clock⟩ = true) :
    ∃ next, (service deps).move config (.arrive ⟨request, config.world.clock⟩) = some next ∧
      next.trace = config.trace ∧ next.threads[config.threads.length]? =
        some ⟨⟨request, config.world.clock⟩, serve deps ⟨request, config.world.clock⟩⟩ :=
  ⟨_, if_pos haccepts, rfl, List.getElem?_concat_length⟩

/-- A login that arrives now is answered at once if its fields are refused. -/
theorem Agreed.portable (h : Agreed deps registered username password)
    (hregistered : (service deps).Reachable (.initial w) registered) :
    Portable username password := by
  have hvalues : ValidValues deps ⟨username, none, none, none⟩ :=
    ⟨by simp, by simp, by simp⟩
  have husername := hvalues.validate_eq_nil.mp (h.update _ rfl hvalues)
  refine portable_iff.mpr ⟨husername, ?_⟩
  by_contra hrefused
  have hempty : username ≠ "" :=
    (isValidUsername_iff.mp (Val.validateUsername_eq_ok.mp husername).2).1
  obtain ⟨response, hfailed, hserve⟩ : ∃ response : Response, response.success = false ∧
      serve deps ⟨.loginUser "" "" (.ok ⟨username, password⟩), registered.world.clock⟩ =
        .done response :=
    loginUser_refused (fun hadmits => hrefused ⟨hadmits.1.2, hadmits.2⟩) _
  obtain ⟨config, hmove, htrace, hthread⟩ := exists_arrival deps registered
    (.loginUser "" "" (.ok ⟨username, password⟩)) (by simp [accepts])
  rw [hserve] at hthread
  have hnobody : ∀ taken ∈ config.trace, taken.thread ≠ registered.threads.length := by
    intro taken hmem heq
    rw [htrace] at hmem
    have hsaid := Config.mem_history.mpr ⟨taken, hmem, heq, rfl⟩
    rw [hregistered.follows.fresh _ (Nat.le_refl _)] at hsaid
    cases hsaid
  have haccepted := h.login config _ _ response (.move .start trivial hmove) (Nat.le_refl _) rfl hthread
    ⟨fun taken hmem heq => absurd heq (hnobody taken hmem),
      fun taken hmem heq => absurd heq (hnobody taken hmem),
      fun taken hmem heq => absurd heq (hnobody taken hmem)⟩
  rw [hfailed] at haccepted
  cases haccepted

end Agreed

namespace Sample

/-- Somebody registers as "Al" by the HTTP API, up to the last call. -/
def registeringAl : List (Event Job Choice External) :=
  [.arrive ⟨.createUser (.ok ⟨"Al", "secret", "Al", "al@a"⟩), 0⟩, .run 0 {}]

theorem registeringAl_runs :
    ((service hashing).run (.initial nobody) registeringAl).isSome = true := by
  decide +kernel

def beforeAl : ServiceConfig :=
  ((service hashing).run (.initial nobody) registeringAl).get registeringAl_runs

theorem beforeAl_reachable : (service hashing).Reachable (.initial nobody) beforeAl :=
  .of_run (Option.some_get registeringAl_runs).symm

theorem beforeAl_moves : ((service hashing).move beforeAl (.run 0 {})).isSome = true := by
  decide +kernel

def registeredAl : ServiceConfig := ((service hashing).move beforeAl (.run 0 {})).get beforeAl_moves

theorem registeredAl_succeeded : succeeded registeredAl (.run 0 {}) =
    some (.createUser (.ok ⟨"Al", "secret", "Al", "al@a"⟩)) := by
  rfl

end Sample

end SimpleBank
