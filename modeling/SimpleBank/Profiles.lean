import SimpleBank.Tokens

/-! Who changes the row of a user: roles stay as they are, and the profile only
changes for the user and for bankers. -/
namespace SimpleBank
open Library Db

section Profiles

variable {deps : Deps} {ok : ServiceConfig → Event Job Choice External → Prop} {w : World}
  {config next : ServiceConfig} {thread : Nat} {job : Job}

/-- A user who has been read is there, and still has the same role. -/
theorem user_of_said (hstart : w.txs = .empty)
    (hreach : (service deps).Reach ok (.initial w) config) {username : String} {user : User}
    (hsaid : Said (config.history thread) (.sql .pool (.getUser username)) (.ok user)) :
    user.username = username ∧ ∃ current, config.world.db.users.find? username = some current ∧
      current.role = user.role := by
  obtain ⟨_, _, _, husername, -⟩ := valid_of_said hreach hsaid
  obtain ⟨current, hcurrent, hkeeps⟩ :=
    (Regular.reach hstart hreach).seen thread _ _ hsaid _ List.mem_cons_self
  cases current with
  | user current =>
    exact ⟨husername, current, husername ▸ Database.lookup_user.mp hcurrent, hkeeps.2.1⟩
  | _ => simp [Row.Keeps] at hkeeps

/-- The role a token carries is the one stored for its user. -/
theorem stored_of_fromLogin (hstart : w.txs = .empty)
    (hreach : (service deps).Reach ok (.initial w) config) {payload : Token.Payload}
    (h : FromLogin deps config payload) : ∃ user,
      config.world.db.users.find? payload.username = some user ∧ user.role = payload.role := by
  obtain ⟨login, loginJob, user, -, ⟨_, _, -, hsaid, -⟩, husername, hrole, -⟩ := h
  obtain ⟨hname, current, hcurrent, hcurrentRole⟩ := user_of_said hstart hreach hsaid
  exact ⟨current, by rw [husername, hname]; exact hcurrent, hcurrentRole.trans hrole.symm⟩

/-- The event carries out the update of an `UpdateUser` call for `username`,
and its token is for that user or for a banker. -/
def UpdatesUser (deps : Deps) (config : ServiceConfig) (event : Event Job Choice External)
    (next : ServiceConfig) (username : String) : Prop :=
  ∃ thread choice job ctx req payload arg row, event = .run thread choice ∧
    Nonempty ((service deps).Takes config thread job (.sql .pool (.updateUser arg)) (.ok row) next) ∧
    job.request = .rpcUpdateUser ctx req ∧ req.username = username ∧
    Gapi.authorizeUser deps job.now ctx [Util.bankerRole, Util.depositorRole] = .ok payload ∧
    (payload.username = username ∨ ∃ banker,
      config.world.db.users.find? payload.username = some banker ∧ banker.role = Util.bankerRole)

/-- The event commits a `VerifyEmail` call that presents an unused and
unexpired link of `username`. -/
def VerifiesUser (deps : Deps) (config : ServiceConfig) (event : Event Job Choice External)
    (next : ServiceConfig) (username : String) : Prop :=
  ∃ thread choice job req tx link, event = .run thread choice ∧
    Nonempty ((service deps).Takes config thread job .commit (.ok ()) next) ∧
    job.request = .rpcVerifyEmail req ∧ config.world.txs.find? thread = some tx ∧
    config.world.db.verifyEmails.find? req.emailId = some link ∧ link.username = username ∧
    link.secretCode = req.secretCode ∧ link.isUsed = false ∧ tx.startedAt < link.expiredAt

/-- What a step may do to the row of a user. -/
structure UserStep (deps : Deps) (config : ServiceConfig) (event : Event Job Choice External)
    (next : ServiceConfig) (user user' : User) : Prop where
  username_eq : user'.username = user.username
  role_eq : user'.role = user.role
  createdAt_eq : user'.createdAt = user.createdAt
  profile : user'.hashedPassword ≠ user.hashedPassword ∨
    user'.passwordChangedAt ≠ user.passwordChangedAt ∨ user'.fullName ≠ user.fullName ∨
    user'.email ≠ user.email → UpdatesUser deps config event next user.username
  verified : user'.isEmailVerified ≠ user.isEmailVerified → user.isEmailVerified = false ∧
    user'.isEmailVerified = true ∧ VerifiesUser deps config event next user.username

theorem UserStep.refl (event : Event Job Choice External) (user : User) :
    UserStep deps config event next user user :=
  ⟨rfl, rfl, rfl, by simp, by simp⟩

theorem Job.request_of_link {arg : VerifyEmailTxParams} (h : job.link = some arg) :
    ∃ req, job.request = .rpcVerifyEmail req ∧ arg = ⟨req.emailId, req.secretCode⟩ := by
  unfold Job.link at h
  split at h
  · rename_i req hjob
    cases h
    exact ⟨req, hjob, rfl⟩
  · cases h

theorem selects_iff {arg : UpdateVerifyEmailParams} {now : Time} {row : VerifyEmail} :
    arg.selects now row = true ↔ row.id = arg.id ∧ row.secretCode = arg.secretCode ∧
      row.isUsed = false ∧ now < row.expiredAt := by
  simp [UpdateVerifyEmailParams.selects, and_assoc]

theorem find?_put_user {users : Table String User User.username} {user user' row : User}
    (hfind : users.find? user.username = some user)
    (hfind' : (users.put row).find? user.username = some user') :
    user' = user ∨ row.username = user.username ∧ user' = row := by
  rw [Table.find?_put] at hfind'
  split at hfind'
  · rename_i heq
    exact .inr ⟨heq.symm, (Option.some.inj hfind').symm⟩
  · exact .inl (Option.some.inj (hfind'.symm.trans hfind))

/-- An `UpdateUser` call is for the user of its token, or its token is a banker's. -/
theorem UserStep.of_profile (hstart : w.txs = .empty)
    (hreach : (service deps).Reach ok (.initial w) config) (htraced : Traced deps config)
    {choice : Choice} {arg : UpdateUserParams} {row user : User}
    (howes : PoolOwes deps job (config.history thread) (.updateUser arg))
    (htakes : (service deps).Takes config thread job (.sql .pool (.updateUser arg)) (.ok row) next)
    (husername : user.username = arg.username) :
    UserStep deps config (.run thread choice) next user (arg.apply user) := by
  obtain ⟨ctx, req, payload, hjob, hbearer, hallowed, -, hname, -, -, hverified, -⟩ := howes
  refine ⟨rfl, rfl, rfl, fun _ => ?_, ?_⟩
  · obtain ⟨token, htoken, hverify⟩ := Job.bearer_eq_some hbearer
    obtain ⟨hdecrypt, -, -⟩ := Token.verifyToken_eq_ok.mp hverify
    have hissued := htraced.presented thread job token payload htakes.job_eq (.inl htoken) hdecrypt
    obtain ⟨stored, hstored, hrole⟩ :=
      stored_of_fromLogin hstart hreach (htraced.origin token payload hissued)
    simp only [Job.bearer, hjob] at hbearer
    refine ⟨thread, choice, job, ctx, req, payload, arg, row, rfl, ⟨htakes⟩, hjob,
      hname.symm.trans husername.symm, toOption_eq_some.mp hbearer, ?_⟩
    rcases hallowed with hbanker | hself
    · exact .inr ⟨stored, hstored, hrole.trans hbanker⟩
    · exact .inl (hself.trans husername.symm)
  · simp [UpdateUserParams.apply, hverified]

/-- A call of a request does to a user what the two kinds of update allow. -/
theorem UserStep.of_takes (hstart : w.txs = .empty)
    (hreach : (service deps).Reach ok (.initial w) config) (htraced : Traced deps config)
    {op : Op} {reply : op.Reply} (choice : Choice)
    (htakes : (service deps).Takes config thread job op reply next) {user user' : User}
    (hfind : config.world.db.users.find? user.username = some user)
    (hfind' : next.world.db.users.find? user.username = some user') :
    UserStep deps config (.run thread choice) next user user' := by
  have hchange := change_of_takes hstart hreach htakes
  have same : next.world.db.users = config.world.db.users →
      UserStep deps config (.run thread choice) next user user' := by
    intro husers
    rw [husers, hfind] at hfind'
    cases hfind'
    exact .refl _ user
  generalize hexchange : (⟨op, reply⟩ : Exchange Op Op.Reply) = exchange at hchange
  generalize hdb : next.world.db = db' at hchange
  rw [hdb] at hfind'
  cases hchange with
  | user row _ hfresh _ =>
    rcases find?_put_user hfind hfind' with rfl | ⟨heq, -⟩
    · exact .refl _ _
    · rw [heq, hfind] at hfresh
      cases hfresh
  | profile arg old howes hold =>
    cases hexchange
    have hname : old.username = arg.username := (Table.find?_mem hold).2
    rcases find?_put_user hfind hfind' with rfl | ⟨heq, rfl⟩
    · exact .refl _ _
    · have hsame : arg.username = user.username := hname.symm.trans heq
      rw [hsame, hfind] at hold
      cases hold
      exact .of_profile hstart hreach htraced howes htakes hsame.symm
  | verified arg tx link old hlink htx hrow hselects hold =>
    cases hexchange
    rcases find?_put_user hfind hfind' with rfl | ⟨heq, rfl⟩
    · exact .refl _ _
    · have hname : old.username = link.username := (Table.find?_mem hold).2
      rw [← hname, heq, hfind] at hold
      cases hold
      obtain ⟨req, hjob, rfl⟩ := Job.request_of_link hlink
      obtain ⟨-, hsecret, hunused, hexpires⟩ := selects_iff.mp hselects
      refine ⟨rfl, rfl, rfl, by simp, fun hchanged => ⟨?_, rfl, ?_⟩⟩
      · simpa using hchanged
      · exact ⟨thread, choice, job, req, tx, link, rfl, ⟨htakes⟩, hjob, htx, hrow, hname.symm,
          hsecret, hunused, hexpires⟩
  | payment payment => exact same (by rw [hdb, payment.applied.database])
  | nothing _ | account _ _ _ _ _ | session _ _ _ | link _ _ _ _ _ =>
    exact same ((congrArg Database.users hdb).trans rfl)

theorem user_of_extends {db db' : Database} (hextends : Store.Extends db db') {username : String}
    {user : User} (hfind : db.users.find? username = some user) :
    ∃ user', db'.users.find? username = some user' := by
  obtain ⟨row, hrow, hkeeps⟩ := hextends _ _ (Database.lookup_user.mpr hfind)
  have hkeeps : (Row.user user).Keeps row := hkeeps
  cases row with
  | user row => exact ⟨row, Database.lookup_user.mp hrow⟩
  | _ => simp [Row.Keeps] at hkeeps

/-- Tokens carry the stored role of their user.  Usernames, roles and creation
times never change, a profile only by an `UpdateUser` call of the user or of a
banker, and an address only becomes verified by a `VerifyEmail` call with a
link of the user. -/
theorem no_escalation (hdecrypts : Decrypts deps) (htxs : w.txs = .empty) (hissued : w.issued = [])
    (hreach : (service deps).Reach (Unforged deps) (.initial w) config) :
    (∀ token payload, (token, payload) ∈ config.world.issued → ∃ user,
      config.world.db.users.find? payload.username = some user ∧ user.role = payload.role) ∧
    ∀ event next user, (service deps).move config event = some next →
      config.world.db.users.find? user.username = some user →
      ∃ user', next.world.db.users.find? user.username = some user' ∧
        UserStep deps config event next user user' := by
  have htraced := Traced.reach hdecrypts hissued hreach
  refine ⟨fun token payload hmem =>
    stored_of_fromLogin htxs hreach (htraced.origin token payload hmem), ?_⟩
  intro event next user hmove hfind
  obtain ⟨user', hfind'⟩ :=
    user_of_extends ((Regular.reach htxs hreach).extends_move hmove) hfind
  refine ⟨user', hfind', ?_⟩
  rcases System.move_cases hmove with ⟨_, rfl, -, rfl⟩ | ⟨_, choice, _, _, _, rfl, ⟨htakes⟩⟩ |
    ⟨change, world, rfl, hexternal, rfl⟩
  · cases hfind.symm.trans hfind'
    exact .refl _ user
  · exact .of_takes htxs hreach htraced choice htakes hfind hfind'
  · have hsame : world.db.users = config.world.db.users := World.external_users hexternal
    have hfind' : world.db.users.find? user.username = some user' := hfind'
    rw [hsame, hfind] at hfind'
    cases hfind'
    exact .refl _ user

end Profiles

namespace Sample

/-- Alice changes her name with the access token she got. -/
def update : Job :=
  ⟨.rpcUpdateUser ⟨some [("authorization", ["bearer " ++ writeToken accessPayload])], none⟩
    ⟨"alice", some "Alice Cooper", none, none⟩, 0⟩

theorem update_unforged : Unforged signed loggedIn (.arrive update) := by
  have htoken : update.accessToken = some (writeToken accessPayload) := by decide +kernel
  rintro token (hpresents | hpresents) -
  · cases htoken.symm.trans hpresents
    exact ⟨accessPayload, by decide +kernel⟩
  · cases hpresents

theorem update_arrives : ((service signed).move loggedIn (.arrive update)).isSome = true := by
  decide +kernel

def atUpdate : ServiceConfig := ((service signed).move loggedIn (.arrive update)).get
  update_arrives

theorem atUpdate_reach :
    (service signed).Reach (Unforged signed) (.initial world) atUpdate :=
  .move loggedIn_reach update_unforged (Option.some_get update_arrives).symm

theorem update_moves : ((service signed).move atUpdate (.run 1 {})).isSome = true := by
  decide +kernel

def updated : ServiceConfig := ((service signed).move atUpdate (.run 1 {})).get update_moves

end Sample

theorem no_escalation_sample :
    ∃ user', Sample.updated.world.db.users.find? "alice" = some user' ∧
      UserStep Sample.signed Sample.atUpdate (.run 1 {}) Sample.updated (Sample.user "alice")
        user' :=
  (no_escalation Sample.signed_decrypts rfl rfl Sample.atUpdate_reach).2 _ _
    (Sample.user "alice") (Option.some_get Sample.update_moves).symm (by decide +kernel)

end SimpleBank
