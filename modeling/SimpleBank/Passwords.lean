import SimpleBank.Registration
import SimpleBank.Sessions

/-! Passwords: which password the row of a user stands for, and which ones a
login takes for it. -/
namespace SimpleBank
open Library Db Program

def bytesOf (text : String) : List UInt8 := text.toUTF8.data.toList

/-- What bcrypt sees of a password: 72 bytes of it and of a zero at its end,
over and over. -/
def bcryptKey (password : String) : List UInt8 :=
  let bytes := bytesOf password ++ [0]
  (List.range 72).map fun i => bytes.getD (i % bytes.length) 0

/-- The hashes are those of `golang.org/x/crypto/bcrypt`. -/
structure Bcrypt (deps : Deps) : Prop where
  generates : ∀ salt password, (∃ hashedPassword,
    deps.generateFromPassword salt password = .ok hashedPassword) ↔ password.utf8ByteSize ≤ 72
  compares : ∀ salt password hashedPassword other,
    deps.generateFromPassword salt password = .ok hashedPassword →
    (deps.compareHashAndPassword hashedPassword other = .ok () ↔
      bcryptKey other = bcryptKey password)

/-- A password that bcrypt takes in whole. -/
structure Plain (password : String) : Prop where
  short : (bytesOf password).length ≤ 72
  nonzero : 0 ∉ bytesOf password

section Keys

variable {password other : String}

theorem bytesOf_inj (h : bytesOf password = bytesOf other) : password = other :=
  String.toByteArray_inj.mp (ByteArray.ext (Array.toList_inj.mp h))

theorem bcryptKey_getElem? {i : Nat} (hlt : i < 72) (hle : i ≤ (bytesOf password).length) :
    (bcryptKey password)[i]? = (bytesOf password ++ [0])[i]? := by
  have hmod : i % (bytesOf password ++ [0]).length = i :=
    Nat.mod_eq_of_lt (by simpa using Nat.lt_succ_of_le hle)
  have hget : i < (bytesOf password ++ [0]).length := by simpa using Nat.lt_succ_of_le hle
  simp only [bcryptKey, List.getElem?_map, List.getElem?_range hlt, Option.map_some, hmod]
  rw [List.getD_eq_getElem?_getD, List.getElem?_eq_getElem hget]
  rfl

/-- The key of a plain password shows where the password ends. -/
theorem Plain.length_le (hother : Plain other) (h : bcryptKey password = bcryptKey other) :
    (bytesOf other).length ≤ (bytesOf password).length := by
  by_contra hlonger
  have hlt : (bytesOf password).length < (bytesOf other).length := Nat.not_le.mp hlonger
  have hshort := Nat.lt_of_lt_of_le hlt hother.short
  have hzero := bcryptKey_getElem? hshort (Nat.le_refl (bytesOf password).length)
  rw [h, bcryptKey_getElem? hshort hlt.le, List.getElem?_append_left hlt,
    List.getElem?_concat_length] at hzero
  exact hother.nonzero (List.mem_of_getElem? hzero)

theorem Plain.eq_of_bcryptKey_eq (hplain : Plain password) (hother : Plain other)
    (h : bcryptKey password = bcryptKey other) : password = other := by
  have hlength := Nat.le_antisymm (hplain.length_le h.symm) (hother.length_le h)
  refine bytesOf_inj (List.ext_getElem? fun i => ?_)
  rcases Nat.lt_or_ge i (bytesOf password).length with hlt | hge
  · have hshort := Nat.lt_of_lt_of_le hlt hplain.short
    have hsame := bcryptKey_getElem? hshort hlt.le
    rw [h, bcryptKey_getElem? hshort (hlength ▸ hlt.le), List.getElem?_append_left hlt,
      List.getElem?_append_left (hlength ▸ hlt)] at hsame
    exact hsame.symm
  · rw [List.getElem?_eq_none hge, List.getElem?_eq_none (hlength ▸ hge)]

end Keys

/-- The current password of each user. -/
abbrev Passwords := String → Option String

def noPasswords : Passwords := fun _ => none

/-- The user and password of a registration, or of an update with a password. -/
def Request.password : Request → Option (String × String)
  | .createUser (.ok req) => some (req.username, req.password)
  | .rpcCreateUser req => some (req.username, req.password)
  | .rpcUpdateUser _ req => req.password.map fun password => (req.username, password)
  | _ => none

def Passwords.set (passwords : Passwords) : Option (String × String) → Passwords
  | some (username, password) => fun other =>
    if other = username then some password else passwords other
  | none => passwords

/-- The request that an event brings to a successful reply. -/
def succeeded (next : ServiceConfig) : Event Job Choice External → Option Request
  | .run thread _ =>
    match next.threads[thread]? with
    | some ⟨job, .done response⟩ => if response.success then some job.request else none
    | _ => none
  | _ => none

/-- A password is in force as soon as the request that sets it has succeeded. -/
def Passwords.record (_ : ServiceConfig) (event : Event Job Choice External) (next : ServiceConfig)
    (passwords : Passwords) : Passwords :=
  passwords.set ((succeeded next event).bind Request.password)

/-- The reply that a registration or an update succeeds with. -/
def Request.decides : Request → Exchange Op Op.Reply → Bool
  | .createUser _, ⟨.sql .pool (.createUser _), .ok _⟩ => true
  | .rpcCreateUser _, ⟨.commit, .ok ()⟩ => true
  | .rpcUpdateUser _ _, ⟨.sql .pool (.updateUser _), .ok _⟩ => true
  | _, _ => false

/-- Nothing has decided the request yet. -/
def Undecided (request : Request) (history : History) : Prop :=
  ∀ exchange ∈ history, request.decides exchange = false

/-- A request that sets a password succeeds exactly if something has decided it. -/
def DecidesSuccess (request : Request) (history : History) (success : Bool) : Prop :=
  request.password ≠ none → (success = true ↔ ¬Undecided request history)

section Decides

variable {deps : Deps} {request : Request} {history : History} {exchange : Exchange Op Op.Reply}

theorem undecided_nil : Undecided request [] := fun _ hmem => nomatch hmem

theorem Undecided.append (h : Undecided request history) (hnext : request.decides exchange = false) :
    Undecided request (history ++ [exchange]) := by
  intro other hmem
  rcases List.mem_append.mp hmem with hmem | hmem
  · exact h other hmem
  · rw [List.mem_singleton.mp hmem]
    exact hnext

theorem Undecided.failed {success : Bool} (h : Undecided request history)
    (hfailed : success = false) : DecidesSuccess request history success := by
  intro _
  simp [h, hfailed]

theorem DecidesSuccess.last {success : Bool} (hdecides : request.decides exchange = true)
    (hsucceeded : success = true) : DecidesSuccess request (history ++ [exchange]) success := by
  intro _
  refine iff_of_true hsucceeded fun h => ?_
  rw [h exchange (List.mem_append_right _ List.mem_cons_self)] at hdecides
  cases hdecides

theorem createUser_decides {body : Api.Body Api.CreateUserRequest} :
    Always (fun history _ => Undecided (.createUser body) history) Valid
      (fun history reply => DecidesSuccess (.createUser body) history (Response.http reply).success)
      [] (Api.createUser deps body) := by
  unfold Api.createUser
  split
  · exact undecided_nil.failed rfl
  refine always_call undecided_nil fun reply _ => ?_
  cases reply with
  | error err => exact (undecided_nil.append rfl).failed rfl
  | ok hashedPassword =>
  refine always_call (undecided_nil.append rfl) fun reply _ => ?_
  cases reply with
  | error err =>
    refine ((undecided_nil.append rfl).append rfl).failed ?_
    dsimp only [Response.success]
    split
    · rfl
    · rfl
  | ok user => exact DecidesSuccess.last rfl rfl

theorem createUserTx_decides {req : Gapi.CreateUserRequest} (arg : CreateUserParams)
    (history : History) (h : Undecided (.rpcCreateUser req) history) :
    Always (fun history _ => Undecided (.rpcCreateUser req) history) Valid
      (fun later outcome => match outcome with
        | .ok _ => ∃ before, later = before ++ [⟨.commit, .ok ()⟩]
        | .error _ => Undecided (.rpcCreateUser req) later) history
      (createUserTx ⟨arg, fun user =>
        Worker.distributeTaskSendVerifyEmail ⟨user.username⟩ Gapi.sendVerifyEmailOpts⟩) := by
  refine always_call h fun reply _ => ?_
  have hbegin : Undecided (.rpcCreateUser req) (history ++ [⟨.begin, reply⟩]) := h.append rfl
  cases reply with
  | error err => exact hbegin
  | ok value =>
  refine always_call hbegin fun reply _ => ?_
  have hcreate : Undecided (.rpcCreateUser req) (history ++ [⟨.begin, .ok value⟩] ++
      [⟨.sql .tx (.createUser arg), reply⟩]) := hbegin.append rfl
  cases reply with
  | error err =>
    refine always_call hcreate fun reply _ => ?_
    cases reply with
    | error err => exact hcreate.append rfl
    | ok value => exact hcreate.append rfl
  | ok user =>
  refine always_call hcreate fun reply _ => ?_
  have henqueue : Undecided (.rpcCreateUser req) (history ++ [⟨.begin, .ok value⟩] ++
      [⟨.sql .tx (.createUser arg), .ok user⟩] ++
      [⟨.enqueue (sendVerifyEmailTask user.username), reply⟩]) := hcreate.append rfl
  cases reply with
  | error err =>
    refine always_call henqueue fun reply _ => ?_
    cases reply with
    | error err => exact henqueue.append rfl
    | ok value => exact henqueue.append rfl
  | ok value =>
    refine always_call henqueue fun reply _ => ?_
    cases reply with
    | error err => exact henqueue.append rfl
    | ok value => exact ⟨_, rfl⟩

theorem rpcCreateUser_decides {req : Gapi.CreateUserRequest} :
    Always (fun history _ => Undecided (.rpcCreateUser req) history) Valid
      (fun history reply => DecidesSuccess (.rpcCreateUser req) history (Response.rpc reply).success)
      [] (Gapi.createUser deps req) := by
  unfold Gapi.createUser
  split
  · exact undecided_nil.failed rfl
  refine always_call undecided_nil fun reply _ => ?_
  cases reply with
  | error err => exact (undecided_nil.append rfl).failed rfl
  | ok hashedPassword =>
  change Always _ Valid _ _ (createUserTx ⟨req.params hashedPassword, _⟩ >>= _)
  refine Always.bind ?_ (createUserTx_decides (req.params hashedPassword) _
    (undecided_nil.append rfl))
  intro later outcome hdecides
  cases outcome with
  | error err =>
    dsimp only
    split
    · exact Undecided.failed hdecides rfl
    · exact Undecided.failed hdecides rfl
  | ok user =>
    obtain ⟨before, rfl⟩ := hdecides
    exact DecidesSuccess.last rfl rfl

theorem updateUserWith_decides {ctx : Gapi.Context} {req : Gapi.UpdateUserRequest}
    {arg : UpdateUserParams} {history : History} (h : Undecided (.rpcUpdateUser ctx req) history) :
    Always (fun history _ => Undecided (.rpcUpdateUser ctx req) history) Valid
      (fun history reply => DecidesSuccess (.rpcUpdateUser ctx req) history
        (Response.rpc reply).success) history (Gapi.updateUserWith arg) := by
  refine always_call h fun reply _ => ?_
  cases reply with
  | error err =>
    dsimp only [Program.bind]
    split
    · exact (h.append rfl).failed rfl
    · exact (h.append rfl).failed rfl
  | ok user => exact DecidesSuccess.last rfl rfl

theorem rpcUpdateUser_decides {now : Time} {ctx : Gapi.Context} {req : Gapi.UpdateUserRequest} :
    Always (fun history _ => Undecided (.rpcUpdateUser ctx req) history) Valid
      (fun history reply => DecidesSuccess (.rpcUpdateUser ctx req) history
        (Response.rpc reply).success) [] (Gapi.updateUser deps now ctx req) := by
  unfold Gapi.updateUser
  split
  · exact undecided_nil.failed rfl
  split
  · exact undecided_nil.failed rfl
  split
  · exact undecided_nil.failed rfl
  dsimp only
  split
  · exact updateUserWith_decides undecided_nil
  · refine always_call undecided_nil fun reply _ => ?_
    cases reply with
    | error err => exact (undecided_nil.append rfl).failed rfl
    | ok hashedPassword => exact updateUserWith_decides (undecided_nil.append rfl)

end Decides

theorem service_decides (deps : Deps) : (service deps).Verified
    (fun job history _ => Undecided job.request history) Valid
    fun job history response => DecidesSuccess job.request history response.success := by
  refine ⟨fun job => ?_, valid_of_step⟩
  obtain ⟨request, now⟩ := job
  cases request with
  | createUser body =>
    change Always _ Valid _ [] (Api.createUser deps body >>= fun reply =>
      pure (Response.http reply))
    exact Always.bind (fun _ _ h => h) createUser_decides
  | rpcCreateUser req =>
    change Always _ Valid _ [] (Gapi.createUser deps req >>= fun reply => pure (Response.rpc reply))
    exact Always.bind (fun _ _ h => h) rpcCreateUser_decides
  | rpcUpdateUser ctx req =>
    change Always _ Valid _ [] (Gapi.updateUser deps now ctx req >>= fun reply =>
      pure (Response.rpc reply))
    exact Always.bind (fun _ _ h => h) rpcUpdateUser_decides
  | _ =>
    refine (Always.of_trivial _ _).mono (fun history _ _ exchange _ => ?_)
      fun _ _ _ hpassword => absurd rfl hpassword
    simp [Request.decides]

section Runs

variable {deps : Deps} {w : World} {config next : ServiceConfig} {thread : Nat} {job : Job} {op : Op}
  {reply : op.Reply}

theorem succeeded_eq_some {request : Request} {choice : Choice} :
    succeeded next (.run thread choice) = some request ↔ ∃ job response,
      next.threads[thread]? = some ⟨job, .done response⟩ ∧ response.success = true ∧
      job.request = request := by
  simp only [succeeded]
  split
  · rename_i job response hthread
    simp [hthread]
  · rename_i hother
    refine iff_of_false (by simp) ?_
    rintro ⟨job, response, hthread, -⟩
    exact hother job response hthread

/-- A request succeeds at the very call that decides it. -/
theorem succeeded_of_takes (hreach : (service deps).Reachable (.initial w) config)
    (hnext : (service deps).Reachable (.initial w) next)
    (htakes : (service deps).Takes config thread job op reply next) (choice : Choice) :
    (succeeded next (.run thread choice)).bind Request.password =
      if job.request.decides ⟨op, reply⟩ then job.request.password else none := by
  have hsuccess : job.request.password ≠ none → (succeeded next (.run thread choice) =
      some job.request ↔ job.request.decides ⟨op, reply⟩ = true) := by
    intro hpassword
    rw [← (service_decides deps).success_iff hreach hnext htakes (fun howes => howes)
      (fun hpost => hpost hpassword), succeeded_eq_some]
    constructor
    · rintro ⟨found, response, hthread, hsucceeds, -⟩
      obtain ⟨rfl, -⟩ := Thread.mk.inj (Option.some.inj (htakes.thread_next.symm.trans hthread))
      exact ⟨response, hthread, hsucceeds⟩
    · rintro ⟨response, hthread, hsucceeds⟩
      exact ⟨job, response, hthread, hsucceeds, rfl⟩
  have hown : ∀ request, succeeded next (.run thread choice) = some request →
      request = job.request := by
    intro request hrequest
    obtain ⟨found, response, hthread, -, rfl⟩ := succeeded_eq_some.mp hrequest
    obtain ⟨rfl, -⟩ := Thread.mk.inj (Option.some.inj (htakes.thread_next.symm.trans hthread))
    rfl
  cases hpassword : job.request.password with
  | none =>
    rw [ite_self]
    refine Option.bind_eq_none_iff.mpr fun request hrequest => ?_
    rw [hown request hrequest, hpassword]
  | some change =>
    have hsuccess := hsuccess (by simp [hpassword])
    split
    · rename_i hdecides
      rw [hsuccess.mpr hdecides]
      exact hpassword
    · rename_i hdecides
      refine Option.bind_eq_none_iff.mpr fun request hrequest => ?_
      cases hown request hrequest
      exact absurd (hsuccess.mp hrequest) hdecides

/-- The row of a user holds a hash of the password. -/
def Holds (deps : Deps) (row : User) (password : String) : Prop :=
  ∃ salt, deps.generateFromPassword salt password = .ok row.hashedPassword

theorem holds_of_said (hreach : (service deps).Reachable (.initial w) config) {password : String}
    {row : User} (hsaid : Said (config.history thread) (.generateFromPassword password)
      (.ok row.hashedPassword)) : Holds deps row password := by
  obtain ⟨choice, _, _, -, hstep⟩ := step_of_said hreach hsaid
  rcases World.callStep_spec (Option.some.inj hstep) with ⟨_, herr, -⟩ | hresult
  · cases herr
  · exact ⟨choice.salt, congrArg Prod.fst hresult⟩

/-- The user whom a registration or an update is for. -/
def Request.username : Request → Option String
  | .createUser (.ok req) => some req.username
  | .rpcCreateUser req => some req.username
  | .rpcUpdateUser _ req => some req.username
  | _ => none

theorem Request.username_of_password {request : Request} {username password : String}
    (h : request.password = some (username, password)) : request.username = some username := by
  unfold Request.password at h
  split at h
  · cases h
    rfl
  · cases h
    rfl
  · obtain ⟨_, -, heq⟩ := Option.map_eq_some_iff.mp h
    cases heq
    rfl
  · cases h

/-- The call that decides a request changes the row of its user. -/
theorem userChange_of_decides {ok : ServiceConfig → Event Job Choice External → Prop}
    (htxs : w.txs = .empty) (hreach : (service deps).Reach ok (.initial w) config)
    (htakes : (service deps).Takes config thread job op reply next) {username : String}
    (hdecides : job.request.decides ⟨op, reply⟩ = true)
    (husername : job.request.username = some username) :
    ∃ row, next.world.db.users.find? username = some row ∧
      UserChange deps job (config.history thread) ⟨op, reply⟩
        (config.world.db.users.find? username) row := by
  have howes := (service_verified deps).at_call hreach htakes
  have hstep : config.world.step deps thread htakes.choice op = some (reply, next.world) :=
    htakes.step_eq
  generalize hrequest : job.request = request at hdecides husername
  generalize hexchange : (⟨op, reply⟩ : Exchange Op Op.Reply) = exchange at hdecides
  unfold Request.decides at hdecides
  split at hdecides
  · rename_i body arg row
    cases hexchange
    have hcreates := howes
    obtain ⟨_, req, hbody, hbind, _, -, rfl⟩ := hcreates
    cases hrequest.symm.trans hbody
    obtain ⟨rfl, -⟩ := Api.bind_eq_ok.mp hbind
    cases husername
    obtain ⟨_, now, ⟨hnone, rfl⟩, hdb⟩ := World.pool_executes hstep
    rw [hdb, Option.map_eq_none_iff.mp hnone]
    exact ⟨_, Table.find?_put_self _ _, .created _ _ howes ⟨now, rfl⟩⟩
  · rename_i req
    cases hexchange
    cases husername
    obtain ⟨hnone, hsome⟩ := created_of_commit htxs hreach hrequest htakes
    rcases userChange_of_takes htxs hreach htakes req.username with hsame | hchanged
    · rw [hsame, hnone] at hsome
      cases hsome
    · exact hchanged
  · rename_i ctx req arg row
    cases hexchange
    cases husername
    obtain ⟨user, hupdates, hfind, -, hdb⟩ := profile_of_takes hreach htakes
    obtain ⟨_, other, _, hother, -, -, -, hname, -⟩ := hupdates
    cases hrequest.symm.trans hother
    have husername : user.username = arg.username := (Table.find?_mem hfind).2
    have hput : (config.world.db.put (.user (arg.apply user))).users.find?
        (arg.apply user).username = some (arg.apply user) := Table.find?_put_self _ _
    obtain ⟨_, _, ⟨found, hfound, rfl⟩, -⟩ := World.pool_executes hstep
    cases hfind.symm.trans (Database.lookup_user.mp hfound)
    rw [hdb, ← hname, hfind, ← husername]
    exact ⟨_, hput, .updated arg user howes husername⟩
  · cases hdecides

/-- The call that decides a request leaves the new hash with the user. -/
theorem holds_of_decides (htxs : w.txs = .empty)
    (hreach : (service deps).Reachable (.initial w) config)
    (htakes : (service deps).Takes config thread job op reply next) {username password : String}
    (hdecides : job.request.decides ⟨op, reply⟩ = true)
    (hpassword : job.request.password = some (username, password)) :
    ∃ row, next.world.db.users.find? username = some row ∧ Holds deps row password := by
  obtain ⟨row, hrow, hchange⟩ := userChange_of_decides htxs hreach htakes hdecides
    (Request.username_of_password hpassword)
  refine ⟨row, hrow, ?_⟩
  generalize (⟨op, reply⟩ : Exchange Op Op.Reply) = exchange at hchange
  generalize config.world.db.users.find? username = old at hchange
  cases hchange with
  | created arg row howes hinserts =>
    obtain ⟨_, req, hbody, hbind, hashedPassword, hsaid, rfl⟩ := howes
    obtain ⟨_, rfl⟩ := hinserts
    obtain ⟨rfl, -⟩ := Api.bind_eq_ok.mp hbind
    rw [hbody] at hpassword
    cases hpassword
    exact holds_of_said hreach hsaid
  | registered req hashedPassword row hrequest hsaid hinserts _ =>
    obtain ⟨_, rfl⟩ := hinserts
    rw [hrequest] at hpassword
    cases hpassword
    exact holds_of_said hreach hsaid
  | updated arg user howes _ =>
    obtain ⟨_, req, _, hrequest, -, -, -, -, -, -, -, hupdate⟩ := howes
    rw [hrequest] at hpassword
    obtain ⟨_, hreq, heq⟩ := Option.map_eq_some_iff.mp hpassword
    cases heq
    rw [hreq] at hupdate
    obtain ⟨-, hashedPassword, hset, hsaid⟩ := hupdate
    have hhash : (arg.apply user).hashedPassword = hashedPassword := by
      simp [UpdateUserParams.apply, hset]
    exact holds_of_said hreach (hhash ▸ hsaid)
  | verified arg user hlink =>
    obtain ⟨req, hrequest, -⟩ := Job.request_of_link hlink
    rw [hrequest] at hpassword
    cases hpassword

/-- Any other call leaves the hash of a user as it is. -/
theorem hash_kept (htxs : w.txs = .empty)
    (hreach : (service deps).Reachable (.initial w) config)
    (htakes : (service deps).Takes config thread job op reply next) {username : String}
    (h : ∀ password, job.request.decides ⟨op, reply⟩ = true →
      job.request.password ≠ some (username, password)) :
    (next.world.db.users.find? username).map User.hashedPassword =
      (config.world.db.users.find? username).map User.hashedPassword := by
  rcases userChange_of_takes htxs hreach htakes username with hsame | ⟨row, hrow, hchange⟩
  · rw [hsame]
  have hname := (Table.find?_mem hrow).2
  rw [hrow]
  generalize (⟨op, reply⟩ : Exchange Op Op.Reply) = exchange at h hchange
  generalize config.world.db.users.find? username = old at hchange
  cases hchange with
  | created arg row howes hinserts =>
    obtain ⟨_, req, hbody, hbind, hashedPassword, -, rfl⟩ := howes
    obtain ⟨_, rfl⟩ := hinserts
    obtain ⟨rfl, -⟩ := Api.bind_eq_ok.mp hbind
    refine absurd ?_ (h req.password (by rw [hbody]; rfl))
    rw [hbody, ← hname]
    rfl
  | registered req hashedPassword row hrequest _ hinserts _ =>
    obtain ⟨_, rfl⟩ := hinserts
    refine absurd ?_ (h req.password (by rw [hrequest]; rfl))
    rw [hrequest, ← hname]
    rfl
  | updated arg user howes husername =>
    obtain ⟨ctx, req, _, hrequest, -, -, -, hreq, -, -, -, hupdate⟩ := howes
    cases hpassword : req.password with
    | none =>
      rw [hpassword] at hupdate
      simp [UpdateUserParams.apply, hupdate.1]
    | some password =>
      refine absurd ?_ (h password (by rw [hrequest]; rfl))
      have hsame : req.username = username := hreq.symm.trans (husername.symm.trans hname)
      simp [hrequest, Request.password, hpassword, hsame]
  | verified arg user _ => rfl

/-- A user is there exactly if there is a password for the user, and the hash
in the row is one of that password. -/
def Stores (deps : Deps) (config : ServiceConfig) (passwords : Passwords) : Prop :=
  ∀ username, config.world.db.users.find? username = none ∧ passwords username = none ∨
    ∃ row password, config.world.db.users.find? username = some row ∧
      passwords username = some password ∧ Holds deps row password

theorem Stores.of_same {passwords : Passwords} (h : Stores deps config passwords) {username : String}
    (hsame : (next.world.db.users.find? username).map User.hashedPassword =
      (config.world.db.users.find? username).map User.hashedPassword) :
    next.world.db.users.find? username = none ∧ passwords username = none ∨
      ∃ row password, next.world.db.users.find? username = some row ∧
        passwords username = some password ∧ Holds deps row password := by
  rcases h username with ⟨hnone, hpassword⟩ | ⟨row, password, hrow, hpassword, salt, hholds⟩
  · rw [hnone] at hsame
    exact .inl ⟨Option.map_eq_none_iff.mp hsame, hpassword⟩
  · rw [hrow] at hsame
    obtain ⟨found, hfound, hhash⟩ := Option.map_eq_some_iff.mp hsame
    exact .inr ⟨found, password, hfound, hpassword, salt, hhash ▸ hholds⟩

/-- Every call keeps the hashes in step with the passwords. -/
theorem Stores.takes {passwords : Passwords} (h : Stores deps config passwords)
    (htxs : w.txs = .empty) (hreach : (service deps).Reachable (.initial w) config)
    (htakes : (service deps).Takes config thread job op reply next) :
    Stores deps next (passwords.set
      (if job.request.decides ⟨op, reply⟩ then job.request.password else none)) := by
  intro username
  by_cases hset : job.request.decides ⟨op, reply⟩ = true ∧
      ∃ password, job.request.password = some (username, password)
  · obtain ⟨hdecides, password, hpassword⟩ := hset
    obtain ⟨row, hrow, hholds⟩ := holds_of_decides htxs hreach htakes hdecides hpassword
    exact .inr ⟨row, password, hrow, by simp [hdecides, hpassword, Passwords.set], hholds⟩
  · have hother : passwords.set (if job.request.decides ⟨op, reply⟩ then job.request.password
        else none) username = passwords username := by
      split
      · rename_i hdecides
        cases hpassword : job.request.password with
        | none => rfl
        | some change =>
          refine if_neg ?_
          rintro rfl
          exact hset ⟨hdecides, change.2, hpassword⟩
      · rfl
    rw [hother]
    exact h.of_same (hash_kept htxs hreach htakes fun password hdecides hpassword =>
      hset ⟨hdecides, password, hpassword⟩)

/-- The tables refine the passwords, all along a run from no users. -/
theorem Stores.recorded (htxs : w.txs = .empty) (husers : w.db.users = .empty)
    {passwords : Passwords} (h : (service deps).Recorded Passwords.record (.initial w) noPasswords
      config passwords) : Stores deps config passwords := by
  refine System.Recorded.holds ?_ ?_ h
  · intro username
    rw [Config.initial, husers]
    exact .inl ⟨rfl, rfl⟩
  · intro config next event passwords hreach hstores hmove
    unfold Passwords.record
    rcases System.move_cases hmove with ⟨_, rfl, -, rfl⟩ | ⟨thread, choice, job, op, reply, rfl,
      ⟨htakes⟩⟩ | ⟨change, world, rfl, hexternal, rfl⟩
    · exact hstores
    · rw [succeeded_of_takes hreach (.move hreach trivial hmove) htakes choice]
      exact hstores.takes htxs hreach htakes
    · have hsame : world.db.users = config.world.db.users := World.external_users hexternal
      intro username
      refine hstores.of_same ?_
      rw [show Database.users _ = _ from hsame]

/-- The thread has got past the check of a password: it goes on to make a token. -/
def pastCheck (config : ServiceConfig) (thread : Nat) : Bool :=
  match config.threads[thread]? with
  | some ⟨_, .call .newRandom _⟩ => true
  | _ => false

/-- What a login does with the reply to its first call. -/
structure ChecksPassword (deps : Deps) (username password : String) (program : Act Response) where
  rest : Except Err User → Act Response
  program_eq : program = .call (.sql .pool (.getUser username)) rest
  refuses : ∀ err, ∃ response, rest (.error err) = .done response
  rejects : ∀ user err, Util.checkPassword deps password user.hashedPassword = .error err →
    ∃ response, rest (.ok user) = .done response
  passes : ∀ user, Util.checkPassword deps password user.hashedPassword = .ok () →
    ∃ more, rest (.ok user) = .call .newRandom more

theorem loginUser_checks {now : Time} {userAgent clientIP : String}
    {body : Api.Body Api.LoginUserRequest} {req : Api.LoginUserRequest}
    (hbind : Api.bind body Api.LoginUserRequest.check = .ok req) :
    Nonempty (ChecksPassword deps req.username req.password
      (serve deps ⟨.loginUser userAgent clientIP body, now⟩)) := by
  have hserve : serve deps ⟨.loginUser userAgent clientIP body, now⟩ =
    (Api.loginUser deps now userAgent clientIP body >>= fun reply => pure (Response.http reply)) := rfl
  rw [hserve]
  unfold Api.loginUser
  rw [hbind]
  refine ⟨_, rfl, fun err => ⟨_, rfl⟩, fun user err hcheck => ?_, fun user hcheck => ?_⟩
  · dsimp only [Program.bind]
    rw [hcheck]
    exact ⟨_, rfl⟩
  · dsimp only [Program.bind]
    rw [hcheck]
    exact ⟨_, rfl⟩

theorem rpcLoginUser_checks {now : Time} {ctx : Gapi.Context} {req : Gapi.LoginUserRequest}
    (hvalid : Gapi.validateLoginUserRequest req = []) :
    Nonempty (ChecksPassword deps req.username req.password
      (serve deps ⟨.rpcLoginUser ctx req, now⟩)) := by
  have hserve : serve deps ⟨.rpcLoginUser ctx req, now⟩ =
    (Gapi.loginUser deps now ctx req >>= fun reply => pure (Response.rpc reply)) := rfl
  rw [hserve]
  unfold Gapi.loginUser
  rw [hvalid]
  refine ⟨_, rfl, fun err => ?_, fun user err hcheck => ?_, fun user hcheck => ?_⟩
  · dsimp only [Program.bind]
    split
    · exact ⟨_, rfl⟩
    · exact ⟨_, rfl⟩
  · dsimp only [Program.bind]
    rw [hcheck]
    exact ⟨_, rfl⟩
  · dsimp only [Program.bind]
    rw [hcheck]
    exact ⟨_, rfl⟩

theorem Job.checksPassword {username password : String}
    (h : job.credentials = some (username, password)) :
    Nonempty (ChecksPassword deps username password (serve deps job)) := by
  obtain ⟨request, now⟩ := job
  unfold Job.credentials at h
  split at h
  · rename_i hrequest
    cases hrequest
    split at h
    · rename_i req hbind
      cases h
      exact loginUser_checks hbind
    · cases h
  · rename_i hrequest
    cases hrequest
    split at h
    · rename_i hvalid
      cases h
      exact rpcLoginUser_checks hvalid
    · cases h
  · cases h

/-- Whether a login gets past the check depends on the row of its user. -/
theorem pastCheck_iff (hreach : (service deps).Reachable (.initial w) config)
    {username password : String} (hcredentials : job.credentials = some (username, password))
    (hjob : config.job? thread = some job) (hfirst : config.history thread = []) {choice : Choice}
    (hhealthy : choice.fail = none)
    (hmove : (service deps).move config (.run thread choice) = some next) :
    pastCheck next thread = true ↔ ∃ user, config.world.db.users.find? username = some user ∧
      Util.checkPassword deps password user.hashedPassword = .ok () := by
  obtain ⟨rest, hserve, hrefuses, hrejects, hpasses⟩ : Nonempty (ChecksPassword deps username
    password (serve deps job)) := job.checksPassword hcredentials
  obtain ⟨⟨_, program⟩, hthread, rfl⟩ := Option.map_eq_some_iff.mp hjob
  have hreaches := hreach.follows.reaches thread _ program hthread
  rw [hfirst] at hreaches
  rw [hreaches.eq_of_nil, show (service deps).serve _ = _ from hserve] at hthread
  obtain ⟨hlt, -⟩ := List.getElem?_eq_some_iff.mp hthread
  simp only [System.move, hthread, Option.map_eq_some_iff] at hmove
  obtain ⟨⟨reply, world⟩, hstep, rfl⟩ := hmove
  have hstep : config.world.step deps thread choice (.sql .pool (.getUser username)) =
      some (reply, world) := hstep
  have hreply : reply = orNoRows (config.world.db.users.find? username) :=
    World.pool_eval hhealthy hstep
  simp only [pastCheck, List.getElem?_set_self hlt]
  cases hfind : config.world.db.users.find? username with
  | none =>
    obtain ⟨response, hdone⟩ := hrefuses .noRows
    simp [hreply, hfind, orNoRows, hdone]
  | some user =>
    cases hcheck : Util.checkPassword deps password user.hashedPassword with
    | error err =>
      obtain ⟨response, hdone⟩ := hrejects user err hcheck
      simp [hreply, hfind, orNoRows, hdone, hcheck]
    | ok value =>
      obtain ⟨more, hmore⟩ := hpasses user hcheck
      simp [hreply, hfind, orNoRows, hmore, hcheck]

/-- A login gets past the check with any password that looks to bcrypt like the
current one. -/
theorem pastCheck_iff_key (hbcrypt : Bcrypt deps) (htxs : w.txs = .empty)
    (husers : w.db.users = .empty) {passwords : Passwords}
    (hrun : (service deps).Recorded Passwords.record (.initial w) noPasswords config passwords)
    {username password : String} (hcredentials : job.credentials = some (username, password))
    (hjob : config.job? thread = some job) (hfirst : config.history thread = []) {choice : Choice}
    (hhealthy : choice.fail = none)
    (hmove : (service deps).move config (.run thread choice) = some next) :
    pastCheck next thread = true ↔
      ∃ current, passwords username = some current ∧ bcryptKey password = bcryptKey current := by
  rw [pastCheck_iff hrun.reachable hcredentials hjob hfirst hhealthy hmove]
  rcases Stores.recorded htxs husers hrun username with ⟨hnone, hpassword⟩ |
    ⟨row, current, hrow, hpassword, salt, hholds⟩
  · simp [hnone, hpassword]
  · have hcheck : Util.checkPassword deps password row.hashedPassword = .ok () ↔
        bcryptKey password = bcryptKey current := hbcrypt.compares salt current _ password hholds
    simp [hrow, hpassword, hcheck]

/-- The login takes the current password and no other, exactly if no other
password looks to bcrypt like the current one. -/
theorem pastCheck_iff_current (hbcrypt : Bcrypt deps) (htxs : w.txs = .empty)
    (husers : w.db.users = .empty) {passwords : Passwords}
    (hrun : (service deps).Recorded Passwords.record (.initial w) noPasswords config passwords)
    {username password : String} (hcredentials : job.credentials = some (username, password))
    (hjob : config.job? thread = some job) (hfirst : config.history thread = []) {choice : Choice}
    (hhealthy : choice.fail = none)
    (hmove : (service deps).move config (.run thread choice) = some next) :
    (pastCheck next thread = true ↔ passwords username = some password) ↔
      ∀ current, passwords username = some current → bcryptKey password = bcryptKey current →
        password = current := by
  rw [pastCheck_iff_key hbcrypt htxs husers hrun hcredentials hjob hfirst hhealthy hmove]
  constructor
  · intro hiff current hcurrent hkeys
    have hsame := hiff.mp ⟨current, hcurrent, hkeys⟩
    exact Option.some.inj (hsame.symm.trans hcurrent)
  · intro hsame
    constructor
    · rintro ⟨current, hcurrent, hkeys⟩
      rw [hsame current hcurrent hkeys]
      exact hcurrent
    · exact fun hcurrent => ⟨password, hcurrent, rfl⟩

/-- The login takes the current password and no other, as long as both are
plain. -/
theorem pastCheck_iff_of_plain (hbcrypt : Bcrypt deps) (htxs : w.txs = .empty)
    (husers : w.db.users = .empty) {passwords : Passwords}
    (hrun : (service deps).Recorded Passwords.record (.initial w) noPasswords config passwords)
    {username password : String} (hcredentials : job.credentials = some (username, password))
    (hjob : config.job? thread = some job) (hfirst : config.history thread = []) {choice : Choice}
    (hhealthy : choice.fail = none)
    (hmove : (service deps).move config (.run thread choice) = some next)
    (hplain : Plain password) (hcurrent : ∀ current, passwords username = some current →
      Plain current) :
    pastCheck next thread = true ↔ passwords username = some password := by
  rw [pastCheck_iff_key hbcrypt htxs husers hrun hcredentials hjob hfirst hhealthy hmove]
  constructor
  · rintro ⟨current, hfound, hkeys⟩
    rw [hplain.eq_of_bcryptKey_eq (hcurrent current hfound) hkeys]
    exact hfound
  · exact fun hfound => ⟨password, hfound, rfl⟩

end Runs

namespace Sample

/-- A hash that keeps the whole key, one character for each byte. -/
def writeKey (key : List UInt8) : String := String.ofList (key.map Char.ofUInt8)

theorem writeKey_inj {key other : List UInt8} (h : writeKey key = writeKey other) : key = other := by
  refine List.map_injective_iff.mpr (fun left right hchar => ?_) (String.ofList_injective h)
  have hval := congrArg Char.val hchar
  exact UInt8.toUInt32_inj.mp hval

def hashing : Deps :=
  { signed with
    generateFromPassword := fun _ password =>
      if password.utf8ByteSize ≤ 72 then .ok (writeKey (bcryptKey password))
      else .error (.text "bcrypt: password length exceeds 72 bytes")
    compareHashAndPassword := fun hashedPassword password =>
      if hashedPassword = writeKey (bcryptKey password) then .ok ()
      else .error (.text "hashedPassword is not the hash of the given password") }

theorem hashing_bcrypt : Bcrypt hashing where
  generates salt password := by
    simp only [hashing]
    split
    · simp_all
    · simp_all
  compares salt password hashedPassword other hgenerated := by
    simp only [hashing] at hgenerated ⊢
    split at hgenerated
    · cases hgenerated
      split
      · rename_i hsame
        simp [writeKey_inj hsame]
      · rename_i hne
        simp only [reduceCtorEq, false_iff]
        exact fun hsame => hne (by rw [hsame])
    · cases hgenerated

/-- A password of `n` bytes. -/
def longPassword (n : Nat) : String := String.ofList (List.replicate n 'p')

/-- The login that Alice makes with 73 bytes. -/
def longLogin : Job := ⟨.rpcLoginUser ⟨none, none⟩ ⟨"alice", longPassword 73⟩, 0⟩

/-- Alice registers with 72 bytes and comes back with 73. -/
def mistyped : List (Event Job Choice External) :=
  [.arrive ⟨.rpcCreateUser ⟨"alice", "Alice", "alice@a", longPassword 72⟩, 0⟩,
    .run 0 {}, .run 0 {}, .run 0 {}, .run 0 {}, .run 0 {},
    .arrive longLogin]

theorem mistyped_runs : ((service hashing).run (.initial nobody) mistyped).isSome = true := by
  decide +kernel

def atLogin : ServiceConfig := ((service hashing).run (.initial nobody) mistyped).get mistyped_runs

theorem atLogin_reachable : (service hashing).Reachable (.initial nobody) atLogin :=
  .of_run (Option.some_get mistyped_runs).symm

theorem atLogin_moves : ((service hashing).move atLogin (.run 1 {})).isSome = true := by
  decide +kernel

def letIn : ServiceConfig := ((service hashing).move atLogin (.run 1 {})).get atLogin_moves

theorem longLogin_credentials : longLogin.credentials = some ("alice", longPassword 73) := by
  decide +kernel

theorem atLogin_arrived : atLogin.job? 1 = some longLogin ∧ atLogin.history 1 = [] :=
  ⟨by rfl, by rfl⟩

theorem letIn_pastCheck : pastCheck letIn 1 = true := by decide +kernel

theorem longPassword_long : ¬(longPassword 73).utf8ByteSize ≤ 72 := by decide +kernel

end Sample

/-- A login can get past the check with another password than the current one. -/
theorem not_always_pastCheck_iff_current : ¬∀ (deps : Deps) (w : World) (config next : ServiceConfig)
    (passwords : Passwords) (thread : Nat) (job : Job) (username password : String)
    (choice : Choice), Bcrypt deps → w.txs = .empty → w.db = .empty →
    (service deps).Recorded Passwords.record (.initial w) noPasswords config passwords →
    job.credentials = some (username, password) → config.job? thread = some job →
    config.history thread = [] → choice.fail = none →
    (service deps).move config (.run thread choice) = some next →
    (pastCheck next thread = true ↔ passwords username = some password) := by
  intro h
  obtain ⟨passwords, hrun⟩ := Sample.atLogin_reachable.recorded noPasswords
  have hiff := h _ _ _ Sample.letIn passwords 1 Sample.longLogin _ _ {} Sample.hashing_bcrypt rfl rfl
    hrun Sample.longLogin_credentials Sample.atLogin_arrived.1 Sample.atLogin_arrived.2 rfl
    (Option.some_get Sample.atLogin_moves).symm
  have hpassword := hiff.mp Sample.letIn_pastCheck
  rcases Stores.recorded rfl rfl hrun "alice" with ⟨-, hnone⟩ | ⟨row, password, -, hfound, salt, hholds⟩
  · cases hnone.symm.trans hpassword
  · cases hfound.symm.trans hpassword
    exact Sample.longPassword_long ((Sample.hashing_bcrypt.generates salt _).mp ⟨_, hholds⟩)

theorem pastCheck_iff_current_sample : ∃ passwords : Passwords,
    (pastCheck Sample.letIn 1 = true ↔ passwords "alice" = some (Sample.longPassword 73)) ↔
      ∀ current, passwords "alice" = some current →
        bcryptKey (Sample.longPassword 73) = bcryptKey current →
        Sample.longPassword 73 = current := by
  obtain ⟨passwords, hrun⟩ := Sample.atLogin_reachable.recorded noPasswords
  exact ⟨passwords, pastCheck_iff_current Sample.hashing_bcrypt rfl rfl hrun
    Sample.longLogin_credentials Sample.atLogin_arrived.1 Sample.atLogin_arrived.2 rfl
    (Option.some_get Sample.atLogin_moves).symm⟩

end SimpleBank
