import SimpleBank.Profiles

/-! Verification links: an address is verified by opening a link, and every
link opens once. -/
namespace SimpleBank
open Library Db Program

/-- A link that was sent to this address of the user has been opened. -/
def OpenedFor (db : Database) (username email : String) : Prop :=
  ∃ link ∈ db.verifyEmails.rows, link.username = username ∧ link.isUsed = true ∧ link.email = email

/-- A link of the user has been opened. -/
def OpenedLink (db : Database) (username : String) : Prop := ∃ email, OpenedFor db username email

/-- Links belong to users, and the flag of a user says whether one was opened. -/
structure Flagged (db : Database) : Prop where
  owned : ∀ {id : Int} {link : VerifyEmail}, db.verifyEmails.find? id = some link →
    (db.users.find? link.username).isSome = true
  verified_iff : ∀ {username : String} {user : User}, db.users.find? username = some user →
    (user.isEmailVerified = true ↔ OpenedLink db username)

section Links

variable {db : Database} {username email : String} {link : VerifyEmail}

theorem openedLink_iff : OpenedLink db username ↔
    ∃ link ∈ db.verifyEmails.rows, link.username = username ∧ link.isUsed = true := by
  constructor
  · rintro ⟨_, link, hmem, hname, hused, -⟩
    exact ⟨link, hmem, hname, hused⟩
  · rintro ⟨link, hmem, hname, hused⟩
    exact ⟨_, link, hmem, hname, hused, rfl⟩

/-- A new link has not been opened. -/
theorem openedFor_put_fresh (hfresh : db.verifyEmails.find? link.id = none)
    (hunused : link.isUsed = false) :
    OpenedFor (db.put (.verifyEmail link)) username email ↔ OpenedFor db username email := by
  have hrows : (db.put (.verifyEmail link)).verifyEmails.rows = db.verifyEmails.rows ++ [link] :=
    Table.rows_put_fresh hfresh
  simp [OpenedFor, hrows, or_and_right, exists_or, hunused]

/-- Opening a link opens it for its user and address, and for no other. -/
theorem openedFor_put_used (hfind : db.verifyEmails.find? link.id = some link) :
    OpenedFor (db.put (.verifyEmail { link with isUsed := true })) username email ↔
      OpenedFor db username email ∨ link.username = username ∧ link.email = email := by
  have hput : ∀ id, (db.put (.verifyEmail { link with isUsed := true })).verifyEmails.find? id =
      if id = link.id then some { link with isUsed := true } else db.verifyEmails.find? id :=
    fun id => Table.find?_put _ _ id
  constructor
  · rintro ⟨other, hmem, hname, hused, hemail⟩
    rcases Table.mem_put hmem with rfl | hmem
    · exact .inr ⟨hname, hemail⟩
    · exact .inl ⟨other, hmem, hname, hused, hemail⟩
  · rintro (⟨other, hmem, hname, hused, hemail⟩ | ⟨hname, hemail⟩)
    · by_cases heq : other.id = link.id
      · have hother := Table.find?_of_mem hmem
        rw [heq, hfind] at hother
        cases hother
        exact ⟨_, (Table.find?_mem ((hput link.id).trans (if_pos rfl))).1, hname, rfl, hemail⟩
      · have hother := (hput other.id).trans (if_neg heq)
        rw [Table.find?_of_mem hmem] at hother
        exact ⟨other, (Table.find?_mem hother).1, hname, hused, hemail⟩
    · exact ⟨_, (Table.find?_mem ((hput link.id).trans (if_pos rfl))).1, hname, rfl, hemail⟩

theorem openedLink_put_fresh (hfresh : db.verifyEmails.find? link.id = none)
    (hunused : link.isUsed = false) :
    OpenedLink (db.put (.verifyEmail link)) username ↔ OpenedLink db username :=
  exists_congr fun _ => openedFor_put_fresh hfresh hunused

theorem openedLink_put_used (hfind : db.verifyEmails.find? link.id = some link) :
    OpenedLink (db.put (.verifyEmail { link with isUsed := true })) username ↔
      OpenedLink db username ∨ link.username = username := by
  simp [OpenedLink, openedFor_put_used hfind, exists_or]

end Links

namespace Flagged

variable {db : Database}

theorem of_empty (husers : db.users = .empty) (hlinks : db.verifyEmails = .empty) :
    Flagged db := by
  refine ⟨?_, ?_⟩
  · rw [hlinks]
    exact fun hfind => nomatch hfind
  · rw [husers]
    exact fun hfind => nomatch hfind

theorem isSome_put {users : Table String User User.username} {username : String}
    (h : (users.find? username).isSome = true) (row : User) :
    ((users.put row).find? username).isSome = true := by
  rw [Table.find?_put]
  split
  · rfl
  · exact h

/-- A user who is not there has no links. -/
theorem not_openedLink (h : Flagged db) {username : String}
    (hnone : db.users.find? username = none) : ¬OpenedLink db username := by
  rintro ⟨_, link, hmem, rfl, -⟩
  have howned := h.owned (Table.find?_of_mem hmem)
  rw [hnone] at howned
  cases howned

theorem user (h : Flagged db) {row : User}
    (hrow : row.isEmailVerified = true ↔ OpenedLink db row.username) :
    Flagged (db.put (.user row)) := by
  refine ⟨fun hfind => isSome_put (h.owned hfind) row, ?_⟩
  intro username user hfind
  have hput : (db.put (.user row)).users.find? username = _ := Table.find?_put _ _ _
  rw [hput] at hfind
  split at hfind
  · rename_i heq
    cases hfind
    rw [heq]
    exact hrow
  · exact h.verified_iff hfind

theorem link (h : Flagged db) {row : VerifyEmail} (hfresh : db.verifyEmails.find? row.id = none)
    (howner : (db.users.find? row.username).isSome = true) (hunused : row.isUsed = false) :
    Flagged (db.put (.verifyEmail row)) := by
  refine ⟨?_, fun hfind => (h.verified_iff hfind).trans (openedLink_put_fresh hfresh hunused).symm⟩
  intro id link hfind
  have hput : (db.put (.verifyEmail row)).verifyEmails.find? id = _ := Table.find?_put _ _ _
  rw [hput] at hfind
  split at hfind
  · cases hfind
    exact howner
  · exact h.owned hfind

/-- A user and a link of the user are marked together. -/
theorem verified (h : Flagged db) {link : VerifyEmail} {user : User}
    (hlink : db.verifyEmails.find? link.id = some link)
    (huser : db.users.find? link.username = some user) :
    Flagged ((db.put (.verifyEmail { link with isUsed := true })).put
      (.user { user with isEmailVerified := true })) := by
  have hname : user.username = link.username := (Table.find?_mem huser).2
  refine ⟨?_, ?_⟩
  · intro id other hfind
    refine isSome_put ?_ _
    have hput : (db.put (.verifyEmail { link with isUsed := true })).verifyEmails.find? id = _ :=
      Table.find?_put _ _ _
    have hfind := hput.symm.trans hfind
    split at hfind
    · have howned := h.owned hlink
      cases hfind
      exact howned
    · exact h.owned hfind
  · intro username other hfind
    have hput : ((db.put (.verifyEmail { link with isUsed := true })).put
        (.user { user with isEmailVerified := true })).users.find? username = _ :=
      Table.find?_put _ _ _
    rw [hput] at hfind
    refine Iff.trans ?_ (openedLink_put_used hlink).symm
    split at hfind
    · rename_i heq
      cases hfind
      simp [heq, hname]
    · rename_i hne
      rw [or_iff_left (fun heq => hne (heq.symm.trans hname.symm))]
      exact h.verified_iff hfind

end Flagged

section Verification

variable {deps : Deps} {ok : ServiceConfig → Event Job Choice External → Prop} {w : World}
  {config next : ServiceConfig} {thread : Nat} {job : Job}

theorem Flagged.change (h : Flagged w.db) {history : History} {exchange : Exchange Op Op.Reply}
    {db' : Database} (hchange : Change deps job history w thread exchange db') : Flagged db' := by
  cases hchange with
  | nothing _ | account _ _ _ _ _ | session _ _ _ => exact ⟨h.owned, h.verified_iff⟩
  | user row _ hfresh hunverified =>
    refine h.user ?_
    simp [hunverified, h.not_openedLink hfresh]
  | profile arg user howes hfind =>
    obtain ⟨_, _, _, _, _, _, _, _, _, _, hverified, _⟩ := howes
    have hname : user.username = arg.username := (Table.find?_mem hfind).2
    have hflag : (arg.apply user).isEmailVerified = user.isEmailVerified := by
      simp [UpdateUserParams.apply, hverified]
    refine h.user ?_
    rw [hflag]
    exact h.verified_iff (hname ▸ hfind)
  | link _ row hfresh howner hunused => exact h.link hfresh howner hunused
  | payment payment =>
    rw [payment.applied.database]
    exact ⟨h.owned, h.verified_iff⟩
  | verified arg tx link user _ _ hlink _ huser =>
    have hid : link.id = arg.emailId := (Table.find?_mem hlink).2
    exact h.verified (hid ▸ hlink) huser

theorem Flagged.reach (htxs : w.txs = .empty) (hinit : Flagged w.db)
    (hreach : (service deps).Reach ok (.initial w) config) : Flagged config.world.db :=
  database_invariant htxs hinit (fun _ _ h => ⟨h.owned, h.verified_iff⟩)
    (fun _ h hchange => h.change hchange) hreach

/-- A `VerifyEmail` call reports success after its commit only. -/
theorem rpcVerifyEmail_commits {req : Gapi.VerifyEmailRequest} :
    Always (fun _ _ => True) Valid
      (fun history reply => reply.toBool = true → Said history .commit (.ok ())) []
      (Gapi.verifyEmail req) := by
  unfold Gapi.verifyEmail
  split
  · exact fun h => nomatch h
  refine Always.bind ?_ (verifyEmailTx_always rfl fun _ _ _ => trivial)
  intro later outcome hpost
  cases outcome with
  | error err => exact fun h => nomatch h
  | ok result =>
    obtain ⟨before, calls, rfl, -⟩ := hpost
    exact fun _ => said_last _ _ _

theorem service_verifies (deps : Deps) : (service deps).Verified (fun _ _ _ => True) Valid
    fun job history response => ∀ req, job.request = .rpcVerifyEmail req →
      response.success = true → Said history .commit (.ok ()) := by
  refine ⟨fun job => ?_, valid_of_step⟩
  obtain ⟨request, now⟩ := job
  cases request with
  | rpcVerifyEmail req =>
    change Always _ Valid _ [] (Gapi.verifyEmail req >>= fun reply => pure (Response.rpc reply))
    refine Always.bind ?_ rpcVerifyEmail_commits
    exact fun history reply h _ _ hsuccess => h hsuccess
  | _ => exact (Always.of_trivial _ _).mono (fun _ _ h => h) fun _ _ _ _ h => nomatch h

/-- The call opens the link with this id. -/
def Opens (emailId : Int) (taken : Taken Op Op.Reply World) : Prop :=
  taken.exchange = ⟨.commit, .ok ()⟩ ∧ ∃ tx link,
    taken.before.txs.find? taken.thread = some tx ∧
    taken.before.db.verifyEmails.find? emailId = some link ∧ link.isUsed = false ∧
    tx.startedAt < link.expiredAt ∧
    taken.after.db.verifyEmails.find? emailId = some { link with isUsed := true }

theorem Change.opens {arg : VerifyEmailTxParams} (hlink : job.link = some arg)
    {history : History} {db' : Database}
    (h : Change deps job history w thread ⟨.commit, .ok ()⟩ db') : ∃ tx link,
      w.txs.find? thread = some tx ∧ w.db.verifyEmails.find? arg.emailId = some link ∧
      link.isUsed = false ∧ tx.startedAt < link.expiredAt ∧
      db'.verifyEmails.find? arg.emailId = some { link with isUsed := true } := by
  cases h with
  | nothing hne => exact absurd rfl hne
  | user row hregisters _ _ => cases hregisters.link_eq_none.symm.trans hlink
  | payment payment =>
    cases (Job.transfer_eq_none_of_link hlink).symm.trans payment.requested
  | verified found tx link user hfound htx hrow hselects _ =>
    cases hlink.symm.trans hfound
    obtain ⟨hid, -, hunused, hexpires⟩ := selects_iff.mp hselects
    have hput : (w.db.put (.verifyEmail { link with isUsed := true })).verifyEmails.find? link.id =
        some { link with isUsed := true } := Table.find?_put_self _ _
    exact ⟨tx, link, htx, hrow, hunused, hexpires, hid ▸ hput⟩

/-- The link a thread has opened stays opened, and no other thread opens it. -/
structure OnceOpened (config : ServiceConfig) : Prop where
  used : ∀ thread job arg, config.job? thread = some job → job.link = some arg →
    Said (config.history thread) .commit (.ok ()) → ∃ link,
      config.world.db.verifyEmails.find? arg.emailId = some link ∧ link.isUsed = true
  unique : ∀ first second job other arg otherArg, config.job? first = some job →
    config.job? second = some other → job.link = some arg → other.link = some otherArg →
    arg.emailId = otherArg.emailId → Said (config.history first) .commit (.ok ()) →
    Said (config.history second) .commit (.ok ()) → first = second

theorem OnceOpened.initial : OnceOpened (.initial w) where
  used thread job arg hjob := by simp [Config.initial, Config.job?] at hjob
  unique first second job other arg otherArg hjob := by simp [Config.initial, Config.job?] at hjob

theorem used_of_extends {db db' : Database} (hextends : Store.Extends db db') {id : Int}
    (h : ∃ link, db.verifyEmails.find? id = some link ∧ link.isUsed = true) :
    ∃ link, db'.verifyEmails.find? id = some link ∧ link.isUsed = true := by
  obtain ⟨link, hlink, hused⟩ := h
  obtain ⟨row, hrow, hkeeps⟩ := hextends _ _ (Database.lookup_verifyEmail.mpr hlink)
  have hkeeps : (Row.verifyEmail link).Keeps row := hkeeps
  cases row with
  | verifyEmail row => exact ⟨row, Database.lookup_verifyEmail.mp hrow, hkeeps.1 hused⟩
  | _ => simp [Row.Keeps] at hkeeps

/-- A move in which nobody commits. -/
theorem OnceOpened.of_same (h : OnceOpened config)
    (hextends : Store.Extends config.world.db next.world.db)
    (hsaid : ∀ thread, Said (next.history thread) .commit (.ok ()) →
      Said (config.history thread) .commit (.ok ()) ∧ next.job? thread = config.job? thread) :
    OnceOpened next := by
  refine ⟨?_, ?_⟩
  · intro thread job arg hjob hlink hcommit
    obtain ⟨hcommit, hsame⟩ := hsaid thread hcommit
    exact used_of_extends hextends (h.used thread job arg (hsame.symm.trans hjob) hlink hcommit)
  · intro first second job other arg otherArg hjob hother hlink hotherLink hid hfirst hsecond
    obtain ⟨hfirst, hsame⟩ := hsaid first hfirst
    obtain ⟨hsecond, hsame'⟩ := hsaid second hsecond
    exact h.unique first second job other arg otherArg (hsame.symm.trans hjob)
      (hsame'.symm.trans hother) hlink hotherLink hid hfirst hsecond

/-- Whoever commits has found the link unused, so nobody has opened it before. -/
theorem OnceOpened.commit (htxs : w.txs = .empty)
    (hreach : (service deps).Reach ok (.initial w) config) (h : OnceOpened config)
    (htakes : (service deps).Takes config thread job .commit (.ok ()) next) :
    OnceOpened next := by
  have hextends := (Regular.reach htxs hreach).extends_takes htakes
  have hopens := fun arg (hlink : job.link = some arg) =>
    (change_of_takes htxs hreach htakes).opens hlink
  have hsaid : ∀ other, other ≠ thread → Said (next.history other) .commit (.ok ()) →
      Said (config.history other) .commit (.ok ()) := by
    intro other hne hcommit
    rwa [htakes.history_of_ne hne] at hcommit
  have hfresh : ∀ other otherJob arg otherArg, job.link = some arg → otherJob.link = some otherArg →
      config.job? other = some otherJob → arg.emailId = otherArg.emailId →
      ¬Said (config.history other) .commit (.ok ()) := by
    intro other otherJob arg otherArg hlink hotherLink hother hid hcommit
    obtain ⟨_, link, -, hfind, hunused, -⟩ := hopens arg hlink
    obtain ⟨found, hfound, hused⟩ := h.used other otherJob otherArg hother hotherLink hcommit
    rw [← hid, hfind] at hfound
    cases hfound
    rw [hunused] at hused
    cases hused
  refine ⟨?_, ?_⟩
  · intro other otherJob arg hother hlink hcommit
    rw [htakes.job?_eq] at hother
    by_cases heq : other = thread
    · subst heq
      cases htakes.job_eq.symm.trans hother
      obtain ⟨_, link, -, -, -, -, hfind⟩ := hopens arg hlink
      exact ⟨_, hfind, rfl⟩
    · exact used_of_extends hextends (h.used other otherJob arg hother hlink (hsaid other heq hcommit))
  · intro first second firstJob secondJob arg otherArg hfirst hsecond hlink hotherLink hid
      hcommit hcommit'
    rw [htakes.job?_eq] at hfirst hsecond
    by_cases heq : first = thread
    · by_cases heq' : second = thread
      · rw [heq, heq']
      · cases (heq ▸ htakes.job_eq).symm.trans hfirst
        exact absurd (hsaid second heq' hcommit')
          (hfresh second secondJob arg otherArg hlink hotherLink hsecond hid)
    · by_cases heq' : second = thread
      · cases (heq' ▸ htakes.job_eq).symm.trans hsecond
        exact absurd (hsaid first heq hcommit)
          (hfresh first firstJob otherArg arg hotherLink hlink hfirst hid.symm)
      · exact h.unique first second firstJob secondJob arg otherArg hfirst hsecond hlink hotherLink
          hid (hsaid first heq hcommit) (hsaid second heq' hcommit')

theorem OnceOpened.reach (htxs : w.txs = .empty)
    (hreach : (service deps).Reach ok (.initial w) config) : OnceOpened config := by
  induction hreach with
  | start => exact .initial
  | @move config next _ hreach _ hmove ih =>
    have hextends := (Regular.reach htxs hreach).extends_move hmove
    rcases System.move_cases hmove with ⟨job, rfl, -, rfl⟩ |
      ⟨thread, _, job, op, reply, rfl, ⟨htakes⟩⟩ | ⟨change, world, rfl, -, rfl⟩
    · refine ih.of_same hextends fun other hcommit => ⟨hcommit, ?_⟩
      obtain ⟨taken, hmem, rfl, -⟩ := Config.mem_history.mp hcommit
      exact hreach.follows.job?_arrive job hmem
    · by_cases hcommit : (⟨op, reply⟩ : Exchange Op Op.Reply) = ⟨.commit, .ok ()⟩
      · cases hcommit
        exact ih.commit htxs hreach htakes
      · refine ih.of_same hextends fun other hsaid => ⟨?_, htakes.job?_eq other⟩
        by_cases heq : other = thread
        · subst heq
          have hsaid : _ ∈ next.history other := hsaid
          rw [htakes.history_self, List.mem_append, List.mem_singleton] at hsaid
          exact hsaid.resolve_right (Ne.symm hcommit)
        · rwa [htakes.history_of_ne heq] at hsaid
    · exact ih.of_same hextends fun other hcommit => ⟨hcommit, rfl⟩

/-- In every run from no users and no links, a user is verified exactly if a
link of the user has been opened.  A `VerifyEmail` call that reports success
has opened its link, in a transaction that began before the link expired, and
no two such calls have opened the same link. -/
theorem links_single_use (htxs : w.txs = .empty) (husers : w.db.users = .empty)
    (hlinks : w.db.verifyEmails = .empty)
    (hreach : (service deps).Reachable (.initial w) config) :
    (∀ user ∈ config.world.db.users.rows, user.isEmailVerified = true ↔
      ∃ link ∈ config.world.db.verifyEmails.rows,
        link.username = user.username ∧ link.isUsed = true) ∧
    (∀ thread job req message, config.threads[thread]? = some ⟨job, .done (.rpc (.ok message))⟩ →
      job.request = .rpcVerifyEmail req →
      ∃ taken ∈ config.trace, taken.thread = thread ∧ Opens req.emailId taken) ∧
    ∀ (first second : Nat) (job other : Job) (req otherReq : Gapi.VerifyEmailRequest)
      (message otherMessage : Gapi.Message),
      config.threads[first]? = some ⟨job, .done (.rpc (.ok message))⟩ →
      config.threads[second]? = some ⟨other, .done (.rpc (.ok otherMessage))⟩ →
      job.request = .rpcVerifyEmail req → other.request = .rpcVerifyEmail otherReq →
      req.emailId = otherReq.emailId → first = second := by
  have hflagged := Flagged.reach htxs (.of_empty husers hlinks) hreach
  have hcommitted : ∀ thread job req message,
      config.threads[thread]? = some ⟨job, .done (.rpc (.ok message))⟩ →
      job.request = .rpcVerifyEmail req → config.job? thread = some job ∧
        job.link = some ⟨req.emailId, req.secretCode⟩ ∧
        Said (config.history thread) .commit (.ok ()) := by
    intro thread job req message hthread hjob
    refine ⟨by simp [Config.job?, hthread], by simp [Job.link, hjob], ?_⟩
    exact (service_verifies deps).at_end hreach hthread req hjob rfl
  refine ⟨fun user hmem =>
    (hflagged.verified_iff (Table.find?_of_mem hmem)).trans openedLink_iff, ?_, ?_⟩
  · intro thread job req message hthread hjob
    obtain ⟨hat, hlink, hcommit⟩ := hcommitted thread job req message hthread hjob
    obtain ⟨taken, hmem, rfl, hexchange⟩ := Config.mem_history.mp hcommit
    obtain ⟨found, history, hfound, hchange⟩ := changes_of_trace htxs hreach taken hmem
    cases hat.symm.trans hfound
    rw [hexchange] at hchange
    obtain ⟨tx, link, htx, hfind, hunused, hexpires, hused⟩ := hchange.opens hlink
    exact ⟨taken, hmem, rfl, hexchange, tx, link, htx, hfind, hunused, hexpires, hused⟩
  · intro first second job other req otherReq message otherMessage hfirst hsecond hjob hother hid
    obtain ⟨hat, hlink, hcommit⟩ := hcommitted first job req message hfirst hjob
    obtain ⟨hat', hlink', hcommit'⟩ := hcommitted second other otherReq otherMessage hsecond hother
    exact (OnceOpened.reach htxs hreach).unique first second job other _ _ hat hat' hlink hlink'
      hid hcommit hcommit'

/-- Who is verified has opened a link that was sent to the present address. -/
def CurrentAddress (db : Database) : Prop :=
  ∀ user ∈ db.users.rows, user.isEmailVerified = true →
    ∃ link ∈ db.verifyEmails.rows,
      link.username = user.username ∧ link.isUsed = true ∧ link.email = user.email

theorem currentAddress_iff {db : Database} : CurrentAddress db ↔ ∀ username user,
    db.users.find? username = some user → user.isEmailVerified = true →
    OpenedFor db username user.email := by
  constructor
  · intro h username user hfind
    obtain ⟨hmem, rfl⟩ := Table.find?_mem hfind
    exact h user hmem
  · exact fun h user hmem => h user.username user (Table.find?_of_mem hmem)

/-- An update changes the address of a verified user only to one that a link
of the user has been opened for, and a user who is not verified opens a link
that was sent to the present address. -/
structure KeepsAddress (job : Job) (exchange : Exchange Op Op.Reply) (before : World) : Prop where
  update : ∀ arg row user email, exchange = ⟨.sql .pool (.updateUser arg), .ok row⟩ →
    before.db.users.find? arg.username = some user → user.isEmailVerified = true →
    arg.email = some email → email ≠ user.email → OpenedFor before.db arg.username email
  opening : ∀ arg link user, job.link = some arg → exchange = ⟨.commit, .ok ()⟩ →
    before.db.verifyEmails.find? arg.emailId = some link →
    before.db.users.find? link.username = some user → user.isEmailVerified = false →
    link.email = user.email

theorem KeepsAddress.of_no_link {exchange : Exchange Op Op.Reply}
    (hupdate : ¬∃ arg row, exchange = ⟨.sql .pool (.updateUser arg), .ok row⟩)
    (hlink : job.link = none) : KeepsAddress job exchange w :=
  ⟨fun arg row _ _ hexchange => absurd ⟨arg, row, hexchange⟩ hupdate,
    fun _ _ _ hsome => nomatch hlink.symm.trans hsome⟩

/-- The new row of a user is the only one that can lose its link. -/
theorem currentAddress_put_user {db : Database} (h : CurrentAddress db) {row : User} :
    CurrentAddress (db.put (.user row)) ↔
      (row.isEmailVerified = true → OpenedFor db row.username row.email) := by
  have hput : ∀ username, (db.put (.user row)).users.find? username =
      if username = row.username then some row else db.users.find? username :=
    fun username => Table.find?_put _ _ username
  rw [currentAddress_iff] at h ⊢
  constructor
  · exact fun h' => h' row.username row ((hput _).trans (if_pos rfl))
  · intro hrow username user hfind
    rw [hput] at hfind
    split at hfind
    · rename_i heq
      cases hfind
      rw [heq]
      exact hrow
    · exact h username user hfind

theorem currentAddress_profile {db : Database} (h : CurrentAddress db) {arg : UpdateUserParams}
    {user : User} (hfind : db.users.find? arg.username = some user)
    (hverified : arg.isEmailVerified = none) : CurrentAddress (db.put (.user (arg.apply user))) ↔
      ∀ email, user.isEmailVerified = true → arg.email = some email → email ≠ user.email →
        OpenedFor db arg.username email := by
  have hname : user.username = arg.username := (Table.find?_mem hfind).2
  rw [currentAddress_put_user h]
  simp only [UpdateUserParams.apply, hverified, Option.getD_none, hname]
  cases hemail : arg.email with
  | none => simpa using currentAddress_iff.mp h _ _ hfind
  | some email =>
    simp only [Option.getD_some, Option.some.injEq]
    constructor
    · rintro hopened _ hflag rfl _
      exact hopened hflag
    · intro hopened hflag
      by_cases hsame : email = user.email
      · rw [hsame]
        exact currentAddress_iff.mp h _ _ hfind hflag
      · exact hopened email hflag rfl hsame

/-- A link that is opened leaves its user with the address it was sent to, or
with the one that was verified before. -/
theorem currentAddress_verified {db : Database} (hflagged : Flagged db) (h : CurrentAddress db)
    {link : VerifyEmail} {user : User} (hlink : db.verifyEmails.find? link.id = some link)
    (huser : db.users.find? link.username = some user) :
    CurrentAddress ((db.put (.verifyEmail { link with isUsed := true })).put
        (.user { user with isEmailVerified := true })) ↔
      (user.isEmailVerified = false → link.email = user.email) := by
  have hname : user.username = link.username := (Table.find?_mem huser).2
  have hopened : CurrentAddress (db.put (.verifyEmail { link with isUsed := true })) := by
    refine currentAddress_iff.mpr fun username other hfind hflag => ?_
    exact (openedFor_put_used hlink).mpr (.inl (currentAddress_iff.mp h username other hfind hflag))
  rw [currentAddress_put_user hopened, openedFor_put_used hlink]
  simp only [hname, true_implies, true_and]
  constructor
  · rintro (hold | hemail) hunverified
    · rw [(hflagged.verified_iff huser).mpr ⟨_, hold⟩] at hunverified
      cases hunverified
    · exact hemail
  · intro hemail
    cases hflag : user.isEmailVerified with
    | false => exact .inr (hemail hflag)
    | true => exact .inl (currentAddress_iff.mp h _ _ huser hflag)

theorem currentAddress_takes (htxs : w.txs = .empty)
    (hreach : (service deps).Reach ok (.initial w) config) (hflagged : Flagged config.world.db)
    (h : CurrentAddress config.world.db) {op : Op} {reply : op.Reply}
    (htakes : (service deps).Takes config thread job op reply next) :
    CurrentAddress next.world.db ↔ KeepsAddress job ⟨op, reply⟩ config.world := by
  by_cases hupdate : ∃ arg row, (⟨op, reply⟩ : Exchange Op Op.Reply) =
      ⟨.sql .pool (.updateUser arg), .ok row⟩
  · obtain ⟨arg, row, hexchange⟩ := hupdate
    cases hexchange
    obtain ⟨user, howes, hfind, -, hdb⟩ := profile_of_takes hreach htakes
    obtain ⟨_, _, _, _, _, _, _, _, _, _, hverified, _⟩ := howes
    rw [hdb, currentAddress_profile h hfind hverified]
    constructor
    · intro hemail
      refine ⟨fun arg' row' user' email hexchange hfind' hflag => ?_, fun _ _ _ _ hne => nomatch hne⟩
      cases hexchange
      cases hfind.symm.trans hfind'
      exact hemail email hflag
    · exact fun hkeeps email hflag => hkeeps.update arg row user email rfl hfind hflag
  · have hchange := change_of_takes htxs hreach htakes
    generalize (⟨op, reply⟩ : Exchange Op Op.Reply) = exchange at hchange hupdate ⊢
    generalize next.world.db = db' at hchange ⊢
    cases hchange with
    | nothing hne =>
      exact iff_of_true h ⟨fun arg row _ _ hexchange => absurd ⟨arg, row, hexchange⟩ hupdate,
        fun _ _ _ _ hcommit => absurd hcommit hne⟩
    | user row hregisters _ hunverified =>
      refine iff_of_true ((currentAddress_put_user h).mpr ?_)
        (.of_no_link hupdate hregisters.link_eq_none)
      simp [hunverified]
    | profile arg user _ _ => exact absurd ⟨arg, _, rfl⟩ hupdate
    | account _ _ _ _ _ | session _ _ _ =>
      exact iff_of_true h ⟨fun _ _ _ _ hexchange => (nomatch hexchange),
        fun _ _ _ _ hcommit => nomatch hcommit⟩
    | link _ row hfresh _ hunused =>
      refine iff_of_true (currentAddress_iff.mpr fun username user hfind hflag => ?_)
        ⟨fun _ _ _ _ hexchange => (nomatch hexchange), fun _ _ _ _ hcommit => nomatch hcommit⟩
      exact (openedFor_put_fresh hfresh hunused).mpr (currentAddress_iff.mp h _ _ hfind hflag)
    | payment payment =>
      refine iff_of_true ?_ (.of_no_link hupdate ?_)
      · rw [payment.applied.database]
        exact h
      · cases hlink : job.link with
        | none => rfl
        | some arg =>
          cases (Job.transfer_eq_none_of_link hlink).symm.trans payment.requested
    | verified arg tx link user hlink htx hrow _ huser =>
      have hid : link.id = arg.emailId := (Table.find?_mem hrow).2
      rw [currentAddress_verified hflagged h (hid ▸ hrow) huser]
      constructor
      · intro hemail
        refine ⟨fun _ _ _ _ hexchange => (nomatch hexchange), fun arg' link' user' hlink' _ hrow'
          huser' => ?_⟩
        cases hlink.symm.trans hlink'
        cases hrow.symm.trans hrow'
        cases huser.symm.trans huser'
        exact hemail
      · exact fun hkeeps => hkeeps.opening arg link user hlink rfl hrow huser

/-- In a run from no users and no links, who is verified has a link opened for
the present address exactly if every update and every opened link keeps it so. -/
theorem currentAddress_iff_keeps (htxs : w.txs = .empty) (husers : w.db.users = .empty)
    (hlinks : w.db.verifyEmails = .empty)
    (hreach : (service deps).Reachable (.initial w) config) :
    (∀ world ∈ config.visited, CurrentAddress world.db) ↔
      ∀ taken ∈ config.trace, ∀ job, config.job? taken.thread = some job →
        KeepsAddress job taken.exchange taken.before := by
  have hinit : CurrentAddress w.db := by
    rw [CurrentAddress, husers]
    exact fun user hmem => nomatch hmem
  refine visited_iff hinit (fun _ _ => Iff.rfl) ?_ hreach
  intro config next thread job op reply hreach h htakes
  exact currentAddress_takes htxs hreach (Flagged.reach htxs (.of_empty husers hlinks) hreach) h
    htakes

end Verification

namespace Sample

/-- Nobody is registered yet. -/
def nobody : World := { world with db := .empty }

def code : String := "aaaaaaaaaaaaaaaaaaaaaaaaaaaaaaaa"

/-- Alice registers, gets a link and opens it. -/
def verification : List (Event Job Choice External) :=
  [.arrive ⟨.rpcCreateUser ⟨"alice", "Alice", "alice@a", "secret"⟩, 0⟩,
    .run 0 {}, .run 0 {}, .run 0 {}, .run 0 {}, .run 0 {},
    .arrive ⟨.task ⟨Worker.taskSendVerifyEmail, ⟨"alice"⟩, Gapi.sendVerifyEmailOpts⟩, 0⟩,
    .run 1 {}, .run 1 { letters := List.replicate 32 0 }, .run 1 {}, .run 1 {},
    .arrive ⟨.rpcVerifyEmail ⟨1, code⟩, 0⟩, .run 2 {}, .run 2 {}, .run 2 {}, .run 2 {}]

theorem verification_runs :
    ((service signed).run (.initial nobody) verification).isSome = true := by
  decide +kernel

def verified : ServiceConfig :=
  ((service signed).run (.initial nobody) verification).get verification_runs

theorem verified_reachable : (service signed).Reachable (.initial nobody) verified :=
  .of_run (Option.some_get verification_runs).symm

theorem verified_replies : verified.threads[2]? =
    some ⟨⟨.rpcVerifyEmail ⟨1, code⟩, 0⟩, .done (.rpc (.ok (.verifyEmail true)))⟩ := by
  rfl

/-- Then she logs in and changes her address. -/
def changing : List (Event Job Choice External) :=
  [.arrive ⟨.rpcLoginUser ⟨some [], none⟩ ⟨"alice", "secret"⟩, 0⟩, .run 3 {}, .run 3 {}, .run 3 {},
    .run 3 { uuid := 1 }, .run 3 {}, .run 3 {},
    .arrive ⟨.rpcUpdateUser
      ⟨some [("authorization", ["bearer " ++ writeToken accessPayload])], none⟩
      ⟨"alice", none, some "alice@b", none⟩, 0⟩, .run 4 {}]

theorem changing_runs : ((service signed).run verified changing).isSome = true := by
  decide +kernel

def changed : ServiceConfig := ((service signed).run verified changing).get changing_runs

theorem changed_reachable : (service signed).Reachable (.initial nobody) changed :=
  verified_reachable.extend (Option.some_get changing_runs).symm

end Sample

theorem links_single_use_sample :
    ∃ taken ∈ Sample.verified.trace, taken.thread = 2 ∧ Opens 1 taken :=
  (links_single_use rfl rfl rfl Sample.verified_reachable).2.1 2 _ ⟨1, Sample.code⟩ _
    Sample.verified_replies rfl

/-- A verified address can be replaced by any other. -/
theorem not_always_currentAddress : ¬∀ (deps : Deps) (w : World) (config : ServiceConfig),
    w.txs = .empty → w.db = .empty → (service deps).Reachable (.initial w) config →
    CurrentAddress config.world.db := by
  intro h
  obtain ⟨link, hmem, -, -, hemail⟩ := h _ _ _ rfl rfl Sample.changed_reachable
    ⟨"alice", "secret", "Alice", "alice@b", zeroTime, 0, true, Util.depositorRole⟩
    (by decide +kernel) rfl
  have hsent : ∀ link ∈ Sample.changed.world.db.verifyEmails.rows, link.email = "alice@a" := by
    decide +kernel
  rw [hsent link hmem] at hemail
  exact absurd hemail (by decide)

theorem currentAddress_iff_keeps_sample :
    (∀ world ∈ Sample.changed.visited, CurrentAddress world.db) ↔
      ∀ taken ∈ Sample.changed.trace, ∀ job, Sample.changed.job? taken.thread = some job →
        KeepsAddress job taken.exchange taken.before :=
  currentAddress_iff_keeps rfl rfl rfl Sample.changed_reachable

end SimpleBank
