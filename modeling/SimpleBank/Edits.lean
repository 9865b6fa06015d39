import SimpleBank.Library.LastWriter
import SimpleBank.Passwords

/-! Edits of a user: `UpdateUser` and `VerifyEmail` share one query, and each
column keeps what the last successful call supplied for it. -/
namespace SimpleBank
open Library Db Program

/-- The columns of a user that `UpdateUser` can write. -/
def hashedPasswordField : Field UpdateUserParams.apply String where
  get := User.hashedPassword
  put := UpdateUserParams.hashedPassword
  get_apply _ _ := rfl

def passwordChangedAtField : Field UpdateUserParams.apply Time where
  get := User.passwordChangedAt
  put arg := arg.passwordChangedAt.map timestamptz
  get_apply _ _ := rfl

def fullNameField : Field UpdateUserParams.apply String where
  get := User.fullName
  put := UpdateUserParams.fullName
  get_apply _ _ := rfl

def emailField : Field UpdateUserParams.apply String where
  get := User.email
  put := UpdateUserParams.email
  get_apply _ _ := rfl

def isEmailVerifiedField : Field UpdateUserParams.apply Bool where
  get := User.isEmailVerified
  put := UpdateUserParams.isEmailVerified
  get_apply _ _ := rfl

/-- What `VerifyEmailTx` passes to the query. -/
def verification (username : String) : UpdateUserParams :=
  { hashedPassword := none, passwordChangedAt := none, fullName := none, email := none,
    isEmailVerified := some true, username }

/-- The hash a request has computed. -/
def hashIn (history : History) : Option String :=
  history.findSome? fun exchange => match exchange with
    | ⟨.generateFromPassword _, .ok hashedPassword⟩ => some hashedPassword
    | _ => none

/-- The edit that a request stands for, with the hash and the time stamp it has
computed, and the owner of the link it opens. -/
def Job.edit (job : Job) (history : History) (db : Database) : Option UpdateUserParams :=
  match job.request with
  | .rpcUpdateUser _ req => some
    { hashedPassword := req.password.bind fun _ => hashIn history
      passwordChangedAt := req.password.map fun _ => job.now
      fullName := req.fullName
      email := req.email
      isEmailVerified := none
      username := req.username }
  | .rpcVerifyEmail req => (db.verifyEmails.find? req.emailId).map fun link =>
    verification link.username
  | _ => none

/-- The edit of the call that an event brings to a successful reply. -/
def carriedOut (next : ServiceConfig) : Event Job Choice External → Option UpdateUserParams
  | .run thread _ =>
    match next.threads[thread]? with
    | some ⟨job, .done response⟩ =>
      if response.success then job.edit (next.history thread) next.world.db else none
    | _ => none
  | _ => none

/-- The edits of the successful calls of a run, in their order. -/
abbrev Edits := List UpdateUserParams

def Edits.record (_ : ServiceConfig) (event : Event Job Choice External) (next : ServiceConfig)
    (edits : Edits) : Edits :=
  edits ++ (carriedOut next event).toList

/-- Those of one user. -/
def Edits.of (edits : Edits) (username : String) : Edits :=
  edits.filter fun edit => edit.username = username

def Edits.apply (edits : Edits) (user : User) : User :=
  edits.foldl (fun current edit => edit.apply current) user

/-- Every column of `row` that can be edited is from the last edit that supplied
it, else from `user`. -/
structure LastWritten (edits : Edits) (user row : User) : Prop where
  username : row.username = user.username
  hashedPassword : row.hashedPassword =
    lastOf UpdateUserParams.hashedPassword edits user.hashedPassword
  fullName : row.fullName = lastOf UpdateUserParams.fullName edits user.fullName
  email : row.email = lastOf UpdateUserParams.email edits user.email
  passwordChangedAt : row.passwordChangedAt =
    lastOf (fun edit => edit.passwordChangedAt.map timestamptz) edits user.passwordChangedAt
  isEmailVerified : row.isEmailVerified =
    lastOf UpdateUserParams.isEmailVerified edits user.isEmailVerified
  createdAt : row.createdAt = user.createdAt
  role : row.role = user.role

/-- No field is supplied by both. -/
structure Apart (first second : UpdateUserParams) : Prop where
  hashedPassword : first.hashedPassword = none ∨ second.hashedPassword = none
  passwordChangedAt : first.passwordChangedAt = none ∨ second.passwordChangedAt = none
  fullName : first.fullName = none ∨ second.fullName = none
  email : first.email = none ∨ second.email = none
  isEmailVerified : first.isEmailVerified = none ∨ second.isEmailVerified = none

section Fields

variable {user : User} {first second : UpdateUserParams}

attribute [ext] User

theorem Edits.apply_append (edits later : Edits) (user : User) :
    Edits.apply (edits ++ later) user = Edits.apply later (Edits.apply edits user) :=
  List.foldl_append

theorem Edits.of_append (edits later : Edits) (username : String) :
    Edits.of (edits ++ later) username = Edits.of edits username ++ Edits.of later username :=
  List.filter_append _ _

/-- A column that no edit writes. -/
theorem Edits.apply_get {α : Type} (get : User → α)
    (h : ∀ (edit : UpdateUserParams) user, get (edit.apply user) = get user) (edits : Edits)
    (user : User) : get (edits.apply user) = get user := by
  let field : Field UpdateUserParams.apply α := ⟨get, fun _ => none, h⟩
  exact (field.get_foldl edits user).trans (lastOf_none edits (get user))

theorem Edits.lastWritten (edits : Edits) (user : User) :
    LastWritten edits user (edits.apply user) where
  username := edits.apply_get User.username (fun _ _ => rfl) user
  hashedPassword := hashedPasswordField.get_foldl edits user
  fullName := fullNameField.get_foldl edits user
  email := emailField.get_foldl edits user
  passwordChangedAt := passwordChangedAtField.get_foldl edits user
  isEmailVerified := isEmailVerifiedField.get_foldl edits user
  createdAt := edits.apply_get User.createdAt (fun _ _ => rfl) user
  role := edits.apply_get User.role (fun _ _ => rfl) user

/-- Edits of different columns can change places. -/
theorem Apart.comm (h : Apart first second) (user : User) :
    first.apply (second.apply user) = second.apply (first.apply user) := by
  have hchanged : passwordChangedAtField.put first = none ∨
      passwordChangedAtField.put second = none := by
    simpa [passwordChangedAtField] using h.passwordChangedAt
  apply User.ext
  · rfl
  · exact hashedPasswordField.get_comm h.hashedPassword user
  · exact fullNameField.get_comm h.fullName user
  · exact emailField.get_comm h.email user
  · exact passwordChangedAtField.get_comm hchanged user
  · rfl
  · exact isEmailVerifiedField.get_comm h.isEmailVerified user
  · rfl

theorem Apart.apply_swap (h : Apart first second) (before after : Edits) (user : User) :
    Edits.apply (before ++ [first, second] ++ after) user =
      Edits.apply (before ++ [second, first] ++ after) user := by
  simp only [Edits.apply_append]
  congr 1
  exact (h.comm _).symm

end Fields

/-- The reply that an edit succeeds with. -/
def Request.carries : Request → Exchange Op Op.Reply → Bool
  | .rpcUpdateUser _ _, ⟨.sql .pool (.updateUser _), .ok _⟩ => true
  | .rpcVerifyEmail _, ⟨.commit, .ok ()⟩ => true
  | _, _ => false

/-- Nothing has carried the edit out yet. -/
def Uncarried (request : Request) (history : History) : Prop :=
  ∀ exchange ∈ history, request.carries exchange = false

/-- Before each call, the edit has not been carried out, and an update passes
on the hash that was computed. -/
def OwesEdit (job : Job) (history : History) (op : Op) : Prop :=
  Uncarried job.request history ∧ ∀ arg, op = .sql .pool (.updateUser arg) →
    (∃ ctx req, job.request = .rpcUpdateUser ctx req) → arg.hashedPassword = hashIn history

/-- An edit succeeds exactly if it has been carried out. -/
def EditPost (job : Job) (history : History) (success : Bool) : Prop :=
  success = true ↔ ¬Uncarried job.request history

section Carried

variable {deps : Deps} {job : Job} {history : History} {exchange : Exchange Op Op.Reply}

theorem uncarried_nil {request : Request} : Uncarried request [] := fun _ hmem => nomatch hmem

theorem Uncarried.append {request : Request} (h : Uncarried request history)
    (hnext : request.carries exchange = false) : Uncarried request (history ++ [exchange]) := by
  intro other hmem
  rcases List.mem_append.mp hmem with hmem | hmem
  · exact h other hmem
  · rw [List.mem_singleton.mp hmem]
    exact hnext

theorem EditPost.failed {success : Bool} (h : Uncarried job.request history)
    (hfailed : success = false) : EditPost job history success := by
  simp [EditPost, h, hfailed]

theorem EditPost.last {success : Bool} (hcarries : job.request.carries exchange = true)
    (hsucceeded : success = true) : EditPost job (history ++ [exchange]) success := by
  refine iff_of_true hsucceeded fun h => ?_
  rw [h exchange (List.mem_append_right _ List.mem_cons_self)] at hcarries
  cases hcarries

theorem OwesEdit.of_uncarried {op : Op} (h : Uncarried job.request history)
    (hop : ∀ arg, op ≠ .sql .pool (.updateUser arg)) : OwesEdit job history op :=
  ⟨h, fun arg hupdate => absurd hupdate (hop arg)⟩

theorem updateUserWith_edits {arg : UpdateUserParams} {ctx : Gapi.Context}
    {req : Gapi.UpdateUserRequest} (hjob : job.request = .rpcUpdateUser ctx req)
    (h : Uncarried job.request history) (hhash : arg.hashedPassword = hashIn history) :
    Always (OwesEdit job) Valid
      (fun history reply => EditPost job history (Response.rpc reply).success) history
      (Gapi.updateUserWith arg) := by
  refine always_call ⟨h, ?_⟩ fun reply _ => ?_
  · rintro _ ⟨⟩ -
    exact hhash
  · cases reply with
    | error err =>
      have hlast : Uncarried job.request
          (history ++ [⟨.sql .pool (.updateUser arg), .error err⟩]) :=
        h.append (by rw [hjob]; rfl)
      dsimp only [Program.bind]
      split
      · exact .failed hlast rfl
      · exact .failed hlast rfl
    | ok user => exact .last (by rw [hjob]; rfl) rfl

theorem rpcUpdateUser_edits {ctx : Gapi.Context} {req : Gapi.UpdateUserRequest}
    (hjob : job.request = .rpcUpdateUser ctx req) :
    Always (OwesEdit job) Valid
      (fun history reply => EditPost job history (Response.rpc reply).success) []
      (Gapi.updateUser deps job.now ctx req) := by
  unfold Gapi.updateUser
  split
  · exact .failed uncarried_nil rfl
  split
  · exact .failed uncarried_nil rfl
  split
  · exact .failed uncarried_nil rfl
  dsimp only
  split
  · exact updateUserWith_edits hjob uncarried_nil rfl
  · rename_i password _
    refine always_call (.of_uncarried uncarried_nil (by simp)) fun reply _ => ?_
    have hhashed : Uncarried job.request ([] ++ [⟨.generateFromPassword password, reply⟩]) :=
      uncarried_nil.append (by rw [hjob]; rfl)
    cases reply with
    | error err => exact .failed hhashed rfl
    | ok hashedPassword => exact updateUserWith_edits hjob hhashed rfl

theorem Uncarried.verify {req : Gapi.VerifyEmailRequest} (hjob : job.request = .rpcVerifyEmail req)
    (h : Uncarried job.request history) (hne : exchange ≠ ⟨.commit, .ok ()⟩) :
    Uncarried job.request (history ++ [exchange]) := by
  refine h.append ?_
  rw [hjob]
  unfold Request.carries
  split
  · contradiction
  · exact absurd rfl hne
  · rfl

/-- A verification is carried out by the last call of its transaction. -/
theorem rpcVerifyEmail_edits {req : Gapi.VerifyEmailRequest}
    (hjob : job.request = .rpcVerifyEmail req) :
    Always (OwesEdit job) Valid
      (fun history reply => EditPost job history (Response.rpc reply).success) []
      (Gapi.verifyEmail req) := by
  unfold Gapi.verifyEmail
  split
  · exact .failed uncarried_nil rfl
  refine Always.bind ?_ (execTx_last (fun h hop => .of_uncarried h fun arg => hop _)
    (fun h hne => h.verify hjob hne) uncarried_nil ?_)
  · intro later outcome hlater
    cases outcome with
    | error err => exact .failed hlater rfl
    | ok result =>
      obtain ⟨before, rfl⟩ := hlater
      exact .last (by rw [hjob]; rfl) rfl
  · intro later hlater
    refine always_call (.of_uncarried hlater (by simp)) fun reply _ => ?_
    have hlink : Uncarried job.request
        (later ++ [⟨.sql .tx (.updateVerifyEmail ⟨req.emailId, req.secretCode⟩), reply⟩]) :=
      hlater.verify hjob (by rintro ⟨⟩)
    cases reply with
    | error err => exact hlink
    | ok link =>
      refine always_call (.of_uncarried hlink (by simp)) fun reply _ => ?_
      cases reply with
      | error err => exact hlink.verify hjob (by rintro ⟨⟩)
      | ok user => exact hlink.verify hjob (by rintro ⟨⟩)

end Carried

/-- The request is an `UpdateUser` or a `VerifyEmail` call. -/
def Request.Edits : Request → Prop
  | .rpcUpdateUser _ _ | .rpcVerifyEmail _ => True
  | _ => False

theorem Job.edit_eq_none {job : Job} {history : History} {db : Database}
    (h : ¬job.request.Edits) : job.edit history db = none := by
  unfold Request.Edits at h
  unfold Job.edit
  split at h
  · exact absurd trivial h
  · exact absurd trivial h
  · rfl

theorem service_edits (deps : Deps) : (service deps).Verified OwesEdit Valid
    fun job history response => job.request.Edits → EditPost job history response.success := by
  refine ⟨fun job => ?_, valid_of_step⟩
  obtain ⟨request, now⟩ := job
  cases request with
  | rpcUpdateUser ctx req =>
    change Always _ Valid _ [] (Gapi.updateUser deps now ctx req >>= fun reply =>
      pure (Response.rpc reply))
    refine Always.bind ?_ (rpcUpdateUser_edits rfl)
    exact fun history reply hpost _ => hpost
  | rpcVerifyEmail req =>
    change Always _ Valid _ [] (Gapi.verifyEmail req >>= fun reply => pure (Response.rpc reply))
    refine Always.bind ?_ (rpcVerifyEmail_edits rfl)
    exact fun history reply hpost _ => hpost
  | _ =>
    refine (Always.of_trivial _ _).mono (fun history op _ => ?_) fun _ _ _ hedits => hedits.elim
    refine ⟨fun exchange _ => by simp [Request.carries], ?_⟩
    rintro _ _ ⟨ctx, req, hupdate⟩
    cases hupdate

section Takes

variable {deps : Deps} {w : World} {config next : ServiceConfig} {thread : Nat} {job : Job} {op : Op}
  {reply : op.Reply}

/-- What an event carries out is the edit of the call that decides it. -/
theorem carriedOut_of_takes (hreach : (service deps).Reachable (.initial w) config)
    (hnext : (service deps).Reachable (.initial w) next)
    (htakes : (service deps).Takes config thread job op reply next) (choice : Choice) :
    carriedOut next (.run thread choice) = if job.request.carries ⟨op, reply⟩ then
      job.edit (next.history thread) next.world.db else none := by
  have hthread := htakes.thread_next
  by_cases hedits : job.request.Edits
  · have hiff := (service_edits deps).success_iff hreach hnext htakes (fun howes => howes.1)
      (fun hpost => hpost hedits)
    split
    · rename_i hcarries
      obtain ⟨response, hdone, hsuccess⟩ := hiff.mpr hcarries
      simp [carriedOut, hdone, hsuccess]
    · rename_i hcarries
      simp only [carriedOut]
      split
      · rename_i found response hdone
        obtain ⟨rfl, -⟩ := Thread.mk.inj (Option.some.inj (hthread.symm.trans hdone))
        rw [if_neg fun hsuccess => hcarries (hiff.mp ⟨response, hdone, hsuccess⟩)]
      · rfl
  · have hnone : ∀ history db, job.edit history db = none := fun _ _ => Job.edit_eq_none hedits
    simp only [carriedOut, hthread, hnone, ite_self]
    split
    · rename_i found response hdone
      obtain ⟨rfl, -⟩ := Thread.mk.inj (Option.some.inj hdone)
      rw [hnone, ite_self]
    · rfl

theorem hashIn_update (history : History) (arg : UpdateUserParams) (row : User) :
    hashIn (history ++ [⟨.sql .pool (.updateUser arg), .ok row⟩]) = hashIn history := by
  simp [hashIn, List.findSome?_append]

/-- The columns of an update that goes to the database are those of the edit. -/
theorem edit_of_update (hreach : (service deps).Reachable (.initial w) config)
    {arg : UpdateUserParams} {row : User} (db : Database)
    (htakes : (service deps).Takes config thread job (.sql .pool (.updateUser arg)) (.ok row) next) :
    job.edit (next.history thread) db = some arg := by
  obtain ⟨-, hhash⟩ := (service_edits deps).at_call hreach htakes
  obtain ⟨ctx, req, _, hrequest, -, -, -, husername, hfullName, hemail, hverified, hupdate⟩ :=
    (service_verified deps).at_call hreach htakes
  have hhash := hhash arg rfl ⟨ctx, req, hrequest⟩
  rw [htakes.history_self]
  simp only [Job.edit, hrequest, hashIn_update, ← hhash]
  obtain ⟨hashedPassword, passwordChangedAt, fullName, email, isEmailVerified, username⟩ := arg
  dsimp only at husername hfullName hemail hverified
  subst husername hfullName hemail hverified
  cases hpassword : req.password with
  | none =>
    rw [hpassword] at hupdate
    obtain ⟨rfl, rfl⟩ := hupdate
    rfl
  | some password =>
    rw [hpassword] at hupdate
    obtain ⟨rfl, _, rfl, -⟩ := hupdate
    rfl

/-- A call that carries out an edit writes it to the row of its user. -/
theorem users_of_carries (htxs : w.txs = .empty)
    (hreach : (service deps).Reachable (.initial w) config)
    (htakes : (service deps).Takes config thread job op reply next)
    (hcarries : job.request.carries ⟨op, reply⟩ = true) : ∃ edit user,
      job.edit (next.history thread) next.world.db = some edit ∧
      config.world.db.users.find? edit.username = some user ∧
      next.world.db.users = config.world.db.users.put (edit.apply user) := by
  generalize hrequest : job.request = request at hcarries
  generalize hexchange : (⟨op, reply⟩ : Exchange Op Op.Reply) = exchange at hcarries
  unfold Request.carries at hcarries
  split at hcarries
  · cases hexchange
    obtain ⟨user, -, hfind, -, hdb⟩ := profile_of_takes hreach htakes
    exact ⟨_, user, edit_of_update hreach _ htakes, hfind, congrArg Database.users hdb⟩
  · rename_i req
    cases hexchange
    have hlink : job.link = some ⟨req.emailId, req.secretCode⟩ := by simp [Job.link, hrequest]
    have hchange := change_of_takes htxs hreach htakes
    generalize hcommit : (⟨.commit, .ok ()⟩ : Exchange Op Op.Reply) = exchange at hchange
    generalize hdb : next.world.db = db' at hchange
    cases hchange with
    | nothing hne => exact absurd hcommit.symm hne
    | user row hregisters _ _ => cases hregisters.link_eq_none.symm.trans hlink
    | payment payment =>
      cases (Job.transfer_eq_none_of_link hlink).symm.trans payment.requested
    | verified arg tx link user hlink' _ hrow _ huser =>
      cases hlink.symm.trans hlink'
      have hid : link.id = req.emailId := (Table.find?_mem hrow).2
      have hput : ((config.world.db.put (.verifyEmail { link with isUsed := true })).put
          (.user { user with isEmailVerified := true })).verifyEmails.find? req.emailId =
          some { link with isUsed := true } := by
        rw [← hid]
        exact Table.find?_put_self _ _
      refine ⟨verification link.username, user, ?_, huser, rfl⟩
      simp only [Job.edit, hrequest, hput, Option.map_some]
    | profile _ _ _ _ | account _ _ _ _ _ | session _ _ _ | link _ _ _ _ _ => cases hcommit
  · cases hcarries

/-- Any other call leaves the users who are there alone. -/
theorem user_kept (htxs : w.txs = .empty) (hreach : (service deps).Reachable (.initial w) config)
    (htakes : (service deps).Takes config thread job op reply next)
    (hcarries : job.request.carries ⟨op, reply⟩ = false) {username : String} {user : User}
    (hfind : config.world.db.users.find? username = some user) :
    next.world.db.users.find? username = some user := by
  have hchange := change_of_takes htxs hreach htakes
  generalize (⟨op, reply⟩ : Exchange Op Op.Reply) = exchange at hchange hcarries
  generalize next.world.db = db' at hchange ⊢
  cases hchange with
  | user row _ hfresh _ =>
    refine (Table.find?_put_of_ne _ _ ?_).trans hfind
    rintro rfl
    cases hfresh.symm.trans hfind
  | profile arg old howes _ =>
    obtain ⟨ctx, req, _, hrequest, -⟩ := howes
    rw [hrequest] at hcarries
    cases hcarries
  | payment payment => rwa [payment.applied.database]
  | verified arg tx link old hlink _ _ _ _ =>
    obtain ⟨req, hrequest, -⟩ := Job.request_of_link hlink
    rw [hrequest] at hcarries
    cases hcarries
  | nothing _ | account _ _ _ _ _ | session _ _ _ | link _ _ _ _ _ => exact hfind

/-- An event does to a user exactly the edit it carries out. -/
theorem edited_move (htxs : w.txs = .empty) (hreach : (service deps).Reachable (.initial w) config)
    {event : Event Job Choice External} (hmove : (service deps).move config event = some next)
    {username : String} {user : User} (hfind : config.world.db.users.find? username = some user) :
    next.world.db.users.find? username =
      some ((Edits.of (carriedOut next event).toList username).apply user) := by
  rcases System.move_cases hmove with ⟨_, rfl, -, rfl⟩ | ⟨thread, choice, job, op, reply, rfl,
    ⟨htakes⟩⟩ | ⟨change, world, rfl, hexternal, rfl⟩
  · exact hfind
  · rw [carriedOut_of_takes hreach (.move hreach trivial hmove) htakes choice]
    split
    · rename_i hcarries
      obtain ⟨edit, old, hedit, hold, husers⟩ := users_of_carries htxs hreach htakes hcarries
      have hname : (edit.apply old).username = edit.username := (Table.find?_mem hold).2
      rw [husers, hedit, Table.find?_put, hname]
      split
      · rename_i heq
        cases (heq ▸ hfind).symm.trans hold
        simp [Edits.of, Edits.apply, heq]
      · rename_i hne
        rw [hfind]
        simp [Edits.of, Edits.apply, Ne.symm hne]
    · rename_i hcarries
      exact user_kept htxs hreach htakes (by simpa using hcarries) hfind
  · exact (congrArg (Table.find? · username) (World.external_users hexternal)).trans hfind

/-- The row of a user is what the edits of the run have made of it. -/
theorem edited_run (htxs : w.txs = .empty) {created : ServiceConfig}
    (hcreated : (service deps).Reachable (.initial w) created) {username : String} {user : User}
    (hfind : created.world.db.users.find? username = some user) {edits : Edits}
    (hrun : (service deps).Recorded Edits.record created [] config edits) :
    config.world.db.users.find? username = some ((edits.of username).apply user) := by
  refine hrun.holds (P := fun config edits =>
    config.world.db.users.find? username = some ((Edits.of edits username).apply user)) hfind ?_
  intro config next event edits hreach ih hmove
  rw [edited_move htxs (hcreated.trans hreach) hmove ih, Edits.record, Edits.of_append,
    Edits.apply_append]

theorem carriedOut_flag {event : Event Job Choice External} {edit : UpdateUserParams}
    (h : carriedOut next event = some edit) :
    edit.isEmailVerified = none ∨ edit = verification edit.username := by
  unfold carriedOut at h
  split at h
  · split at h
    · split at h
      · unfold Job.edit at h
        split at h
        · cases h
          exact .inl rfl
        · obtain ⟨link, -, rfl⟩ := Option.map_eq_some_iff.mp h
          exact .inr rfl
        · cases h
      · cases h
    · cases h
  · cases h

/-- The flag of a user says whether a `VerifyEmail` call has succeeded. -/
theorem flag_iff {created : ServiceConfig} {edits : Edits}
    (hrun : (service deps).Recorded Edits.record created [] config edits) {username : String}
    {user row : User} (hunverified : user.isEmailVerified = false)
    (hrow : LastWritten (edits.of username) user row) :
    row.isEmailVerified = true ↔ verification username ∈ edits := by
  have hflags : ∀ edit ∈ edits, edit.isEmailVerified = none ∨ edit = verification edit.username := by
    refine hrun.holds (P := fun _ edits => ∀ edit ∈ edits,
      edit.isEmailVerified = none ∨ edit = verification edit.username) (by simp) ?_
    intro config next event edits _ ih _ edit hmem
    rcases List.mem_append.mp hmem with hmem | hmem
    · exact ih edit hmem
    · exact carriedOut_flag (Option.mem_toList.mp hmem)
  rw [hrow.isEmailVerified, hunverified, lastOf_eq_iff ?_ (by decide)]
  · constructor
    · rintro ⟨edit, hmem, hflag⟩
      obtain ⟨hmem, hname⟩ := List.mem_filter.mp hmem
      rcases hflags edit hmem with hnone | hedit
      · cases hnone.symm.trans hflag
      · rwa [hedit, of_decide_eq_true hname] at hmem
    · intro hmem
      exact ⟨_, List.mem_filter.mpr ⟨hmem, decide_eq_true rfl⟩, rfl⟩
  · intro edit hmem flag hflag
    rcases hflags edit (List.mem_filter.mp hmem).1 with hnone | hedit
    · cases hnone.symm.trans hflag
    · rw [hedit] at hflag
      exact (Option.some.inj hflag).symm

end Takes

/-- The user that a request registers. -/
def Request.newUser : Request → Option Gapi.CreateUserRequest
  | .createUser (.ok req) => some ⟨req.username, req.fullName, req.email, req.password⟩
  | .rpcCreateUser req => some req
  | _ => none

/-- The request has registered `user`, with the hash it computed. -/
def Registered (job : Job) (history : History) (user : User) : Prop :=
  ∃ req hashedPassword, job.request.newUser = some req ∧
    Said history (.generateFromPassword req.password) (.ok hashedPassword) ∧
    (req.params hashedPassword).Inserts user

theorem Registered.of_change {deps : Deps} {job : Job} {history : History}
    {exchange : Exchange Op Op.Reply} {user : User}
    (h : UserChange deps job history exchange none user) : Registered job history user := by
  cases h with
  | created arg row howes hinserts =>
    obtain ⟨_, req, hbody, hbind, hashedPassword, hsaid, rfl⟩ := howes
    obtain ⟨rfl, -⟩ := Api.bind_eq_ok.mp hbind
    exact ⟨⟨req.username, req.fullName, req.email, req.password⟩, hashedPassword,
      by rw [hbody]; rfl, hsaid, hinserts⟩
  | registered req hashedPassword row hrequest hsaid hinserts _ =>
    exact ⟨req, hashedPassword, by rw [hrequest]; rfl, hsaid, hinserts⟩

section LastWriter

variable {deps : Deps} {w : World} {before created config : ServiceConfig}
  {event : Event Job Choice External} {username : String} {user : User} {edits : Edits}

/-- A user comes about by a registration. -/
theorem registered_of_move (htxs : w.txs = .empty)
    (hreach : (service deps).Reachable (.initial w) before)
    (hmove : (service deps).move before event = some created)
    (hnone : before.world.db.users.find? username = none)
    (hcreated : created.world.db.users.find? username = some user) :
    ∃ thread choice job, event = .run thread choice ∧ before.job? thread = some job ∧
      Registered job (before.history thread) user := by
  rcases System.move_cases hmove with ⟨_, rfl, -, rfl⟩ | ⟨thread, choice, job, op, reply, rfl,
    ⟨htakes⟩⟩ | ⟨change, world, rfl, hexternal, rfl⟩
  · cases hnone.symm.trans hcreated
  · refine ⟨thread, choice, job, rfl, htakes.job_eq, ?_⟩
    rcases userChange_of_takes htxs hreach htakes username with hsame | ⟨row, hrow, hchange⟩
    · cases hnone.symm.trans (hsame.symm.trans hcreated)
    · cases hcreated.symm.trans hrow
      rw [hnone] at hchange
      exact .of_change hchange
  · have hsame : world.db.users = before.world.db.users := World.external_users hexternal
    rw [← hsame] at hnone
    cases hnone.symm.trans hcreated

/-- From the registration of a user on, each column of the row is from the last
successful call that supplied it: the time of the password is that of the last
call with a password, and the flag says whether a `VerifyEmail` call has
succeeded.  No event touches another user's row than that of its edit, and two
edits of different columns in a row give the same in either order. -/
theorem last_writer_wins (htxs : w.txs = .empty)
    (hreach : (service deps).Reachable (.initial w) before)
    (hmove : (service deps).move before event = some created)
    (hnone : before.world.db.users.find? username = none)
    (hcreated : created.world.db.users.find? username = some user)
    (hrun : (service deps).Recorded Edits.record created [] config edits) :
    (∃ thread choice job, event = .run thread choice ∧ before.job? thread = some job ∧
      Registered job (before.history thread) user) ∧
    (∃ row, config.world.db.users.find? username = some row ∧
      LastWritten (edits.of username) user row ∧
      row.passwordChangedAt = lastOf (fun edit => edit.passwordChangedAt.map timestamptz)
        (edits.of username) zeroTime ∧
      (row.isEmailVerified = true ↔ verification username ∈ edits)) ∧
    (∀ event next other row, (service deps).move config event = some next →
      config.world.db.users.find? other = some row →
      (∀ edit, carriedOut next event = some edit → edit.username ≠ other) →
      next.world.db.users.find? other = some row) ∧
    ∀ config' edits' first second earlier later,
      (service deps).Recorded Edits.record created [] config' edits' →
      edits.of username = earlier ++ [first, second] ++ later →
      edits'.of username = earlier ++ [second, first] ++ later → Apart first second →
      config'.world.db.users.find? username = config.world.db.users.find? username := by
  have hstart : (service deps).Reachable (.initial w) created := .move hreach trivial hmove
  have hregistered := registered_of_move htxs hreach hmove hnone hcreated
  have hrow := edited_run htxs hstart hcreated hrun
  refine ⟨hregistered, ⟨_, hrow, ?_⟩, ?_, ?_⟩
  · obtain ⟨_, _, _, -, -, _, _, -, -, _, hinserts⟩ := hregistered
    have hwritten := (edits.of username).lastWritten user
    have hzero : user.passwordChangedAt = zeroTime := congrArg User.passwordChangedAt hinserts
    have hunverified : user.isEmailVerified = false := congrArg User.isEmailVerified hinserts
    exact ⟨hwritten, hzero ▸ hwritten.passwordChangedAt, flag_iff hrun hunverified hwritten⟩
  · intro event next other row hmove hfind hother
    have hnext := edited_move htxs (hstart.trans hrun.reachable) hmove hfind
    have hnil : Edits.of (carriedOut next event).toList other = [] := by
      refine List.filter_eq_nil_iff.mpr fun edit hmem => ?_
      simpa using hother edit (Option.mem_toList.mp hmem)
    rwa [hnil] at hnext
  · intro config' edits' first second earlier later hrun' hedits hedits' hapart
    rw [hrow, edited_run htxs hstart hcreated hrun', hedits, hedits', hapart.apply_swap]

end LastWriter

namespace Sample

/-- Alice is about to be committed. -/
theorem entering_runs :
    ((service signed).run (.initial nobody) (verification.take 5)).isSome = true := by
  decide +kernel

def entering : ServiceConfig :=
  ((service signed).run (.initial nobody) (verification.take 5)).get entering_runs

theorem entering_moves : ((service signed).move entering (.run 0 {})).isSome = true := by
  decide +kernel

def entered : ServiceConfig := ((service signed).move entering (.run 0 {})).get entering_moves

/-- She opens her link, logs in and changes her address. -/
theorem edited_runs :
    ((service signed).run entered (verification.drop 6 ++ changing)).isSome = true := by
  decide +kernel

def edited : ServiceConfig :=
  ((service signed).run entered (verification.drop 6 ++ changing)).get edited_runs

theorem edited_reachable : (service signed).Reachable entered edited :=
  .of_run (Option.some_get edited_runs).symm

end Sample

theorem last_writer_wins_sample : ∃ edits row,
    Sample.edited.world.db.users.find? "alice" = some row ∧
      (row.isEmailVerified = true ↔ verification "alice" ∈ edits) ∧
      row.email = lastOf UpdateUserParams.email (Edits.of edits "alice") "alice@a" := by
  obtain ⟨edits, hrun⟩ := Sample.edited_reachable.recorded []
  have hnone : Sample.entering.world.db.users.find? "alice" = none := by decide +kernel
  have hcreated : Sample.entered.world.db.users.find? "alice" =
      some ⟨"alice", "secret", "Alice", "alice@a", zeroTime, 0, false, Util.depositorRole⟩ := by
    decide +kernel
  obtain ⟨-, ⟨row, hfind, hwritten, -, hflag⟩, -⟩ := last_writer_wins rfl
    (.of_run (Option.some_get Sample.entering_runs).symm)
    (Option.some_get Sample.entering_moves).symm hnone hcreated hrun
  exact ⟨edits, row, hfind, hflag, hwritten.email⟩

end SimpleBank
