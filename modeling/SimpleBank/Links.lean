import SimpleBank.Bookings
import SimpleBank.Failures
import SimpleBank.Library.Query

/-! Mailed links: what the link of a mail asks for, and what becomes of it. -/
namespace SimpleBank
open Library Db Program

/-- The request behind the link of a mail.  The link is the last quoted text:
the body begins with the name of the user. -/
def readLink (mail : Mail) : Option Gapi.VerifyEmailRequest := do
  let query := queryOf (lastQuoted mail.content.toList)
  let emailId ← readDecimal (← query.lookup "email_id".toList)
  let secretCode ← query.lookup "secret_code".toList
  return ⟨emailId, String.ofList secretCode⟩

section Reading

variable {letters : List (Fin 26)}

theorem mem_alphabet_of_mem_randomString {c : Char} (h : c ∈ (Util.randomString letters).toList) :
    c ∈ Util.alphabet := by
  simp only [Util.randomString, String.toList_ofList, List.mem_map] at h
  obtain ⟨letter, -, rfl⟩ := h
  revert letter
  decide

theorem notMem_randomString {c : Char} (h : c ∉ Util.alphabet) :
    c ∉ (Util.randomString letters).toList :=
  fun hmem => h (mem_alphabet_of_mem_randomString hmem)

theorem utf8ByteSize_randomString (letters : List (Fin 26)) :
    (Util.randomString letters).utf8ByteSize = letters.length := by
  have hletter : ∀ letter : Fin 26, (Util.alphabet.getD letter.val 'a').utf8Size = 1 := by decide
  induction letters with
  | nil => rfl
  | cons letter letters ih =>
    have hcons : Util.randomString (letter :: letters) =
        String.singleton (Util.alphabet.getD letter.val 'a') ++ Util.randomString letters :=
      String.ofList_cons
    rw [hcons, String.utf8ByteSize_append, String.utf8ByteSize_singleton, hletter, ih,
      List.length_cons, Nat.add_comm]

theorem toString_natCast (n : Nat) : (toString (n : Int)).toList = Nat.toDigits 10 n := by
  have hrepr : toString (n : Int) = Nat.repr n := rfl
  rw [hrepr]
  exact Nat.toList_repr

/-- A text that is put together like a URL with two parameters. -/
theorem url_toList {path firstName secondName : List Char} {start middle first second : String}
    (hstart : start.toList = path ++ '?' :: firstName ++ ['='])
    (hmiddle : middle.toList = '&' :: secondName ++ ['=']) :
    (start ++ first ++ middle ++ second).toList = path ++ '?' :: ['&'].intercalate
      (([(firstName, first.toList), (secondName, second.toList)] : List Parameter).map
        Parameter.write) := by
  simp only [String.toList_append, hstart, hmiddle]
  simp [List.intercalate, Parameter.write]

theorem verifyUrl_toList (link : VerifyEmail) :
    (Worker.verifyUrl link).toList = "http://localhost:8080/v1/verify_email".toList ++ '?' ::
      ['&'].intercalate (([("email_id".toList, (toString link.id).toList),
        ("secret_code".toList, link.secretCode.toList)] : List Parameter).map Parameter.write) :=
  url_toList (by decide +kernel) (by decide +kernel)

theorem notMem_toDigits {c : Char} (h : c.isDigit = false) (n : Nat) : c ∉ Nat.toDigits 10 n := by
  intro hmem
  have hdigit := Nat.isDigit_of_mem_toDigits (by decide) (by decide) hmem
  rw [h] at hdigit
  cases hdigit

theorem notMem_verifyUrl (link : VerifyEmail) (hid : '"' ∉ (toString link.id).toList)
    (hcode : '"' ∉ link.secretCode.toList) : '"' ∉ (Worker.verifyUrl link).toList := by
  have hpath : '"' ∉ "http://localhost:8080/v1/verify_email".toList := by decide +kernel
  have hemailId : '"' ∉ "email_id".toList := by decide +kernel
  have hsecretCode : '"' ∉ "secret_code".toList := by decide +kernel
  rw [verifyUrl_toList]
  generalize "http://localhost:8080/v1/verify_email".toList = path at hpath ⊢
  generalize "email_id".toList = emailId at hemailId ⊢
  generalize "secret_code".toList = secretCode at hsecretCode ⊢
  generalize (toString link.id).toList = digits at hid ⊢
  simp [List.intercalate, Parameter.write, hpath, hemailId, hsecretCode, hid, hcode]

/-- A text with a part in quotes, and no quotes after it. -/
theorem lastQuoted_toList {before start quoted finish : String}
    (hstart : start.toList = start.toList.dropLast ++ ['"'])
    (hfinish : finish.toList = '"' :: finish.toList.tail) (hafter : '"' ∉ finish.toList.tail)
    (hquoted : '"' ∉ quoted.toList) :
    lastQuoted (before ++ start ++ quoted ++ finish).toList = quoted.toList := by
  have hjoined : (before ++ start ++ quoted ++ finish).toList =
      (before.toList ++ start.toList.dropLast) ++
        '"' :: (quoted.toList ++ '"' :: finish.toList.tail) := by
    calc (before ++ start ++ quoted ++ finish).toList =
          before.toList ++ start.toList ++ quoted.toList ++ finish.toList := by
            simp only [String.toList_append]
      _ = before.toList ++ (start.toList.dropLast ++ ['"']) ++ quoted.toList ++
          '"' :: finish.toList.tail := by rw [← hstart, ← hfinish]
      _ = _ := by simp
  rw [hjoined, lastQuoted_append hquoted hafter]

/-- The link of a mail is read back as it was written. -/
theorem readLink_verifyEmailMail (user : User) {link : VerifyEmail} (hid : 0 < link.id)
    (hcode : link.secretCode = Util.randomString letters) :
    readLink (Worker.verifyEmailMail user link) = some ⟨link.id, link.secretCode⟩ := by
  obtain ⟨n, hn⟩ := Int.eq_ofNat_of_zero_le (Int.le_of_lt hid)
  have hdigits : (toString link.id).toList = Nat.toDigits 10 n := by
    rw [hn]
    exact toString_natCast n
  have hcodeFree : ∀ {c : Char}, c ∉ Util.alphabet → c ∉ link.secretCode.toList := by
    rw [hcode]
    exact notMem_randomString
  have hquoted : lastQuoted (Worker.verifyEmailMail user link).content.toList =
      (Worker.verifyUrl link).toList := by
    refine lastQuoted_toList (by decide +kernel) (by decide +kernel) (by decide +kernel) ?_
    refine notMem_verifyUrl link ?_ (hcodeFree (by decide))
    rw [hdigits]
    exact notMem_toDigits (by decide) n
  have hquery : queryOf (Worker.verifyUrl link).toList = [("email_id".toList, Nat.toDigits 10 n),
      ("secret_code".toList, link.secretCode.toList)] := by
    rw [verifyUrl_toList, hdigits]
    refine queryOf_write (by decide +kernel) (by simp) ?_ ?_
    · intro parameter hmem
      simp only [List.mem_cons, List.not_mem_nil, or_false] at hmem
      rcases hmem with rfl | rfl
      · simp
      · simp
    · have hnumber : '&' ∉ Nat.toDigits 10 n := notMem_toDigits (by decide) n
      have hletters : '&' ∉ link.secretCode.toList := hcodeFree (by decide)
      intro parameter hmem
      simp only [List.mem_cons, List.not_mem_nil, or_false] at hmem
      rcases hmem with rfl | rfl
      · simp [Parameter.write, hnumber]
      · simp [Parameter.write, hletters]
  have hfirst : (queryOf (Worker.verifyUrl link).toList).lookup "email_id".toList =
      some (Nat.toDigits 10 n) := by
    rw [hquery, List.lookup_cons_self]
  have hsecond : (queryOf (Worker.verifyUrl link).toList).lookup "secret_code".toList =
      some link.secretCode.toList := by
    have hne : ("secret_code".toList == "email_id".toList) = false := by decide +kernel
    rw [hquery, List.lookup_cons, hne, List.lookup_cons_self]
  simp only [readLink, hquoted, hfirst, hsecond, readDecimal_toDigits, hn, Option.bind_eq_bind,
    Option.bind_some, String.ofList_toList]
  rfl

/-- The checks of a `VerifyEmail` call pass a link as it is stored. -/
theorem validateVerifyEmailRequest_eq_nil {emailId : Int} (hid : 0 < emailId)
    (hlength : letters.length = 32) :
    Gapi.validateVerifyEmailRequest ⟨emailId, Util.randomString letters⟩ = [] := by
  have hemailId : Val.validateEmailId emailId = .ok () := if_neg (Int.not_le.mpr hid)
  have hsecretCode : Val.validateSecretCode (Util.randomString letters) = .ok () := by
    rw [Val.validateSecretCode, Val.validateString_eq_ok, utf8ByteSize_randomString, hlength]
    decide
  rw [Gapi.validateVerifyEmailRequest, hemailId, hsecretCode]
  rfl

end Reading

/-- What a worker has done when it hands over a mail. -/
def Mailed (task : Worker.Task) (history : History) (mail : Mail) : Prop :=
  ∃ user code link, Said history (.sql .pool (.getUser task.payload.username)) (.ok user) ∧
    Said history (.randomString 32) code ∧
    Said history (.sql .pool (.createVerifyEmail ⟨user.username, user.email, code⟩)) (.ok link) ∧
    mail = Worker.verifyEmailMail user link

def OwesMail (job : Job) (history : History) : Op → Prop
  | .sendEmail mail => ∀ task, job.request = .task task → Mailed task history mail
  | _ => True

theorem processTaskSendVerifyEmail_mails {job : Job} {task : Worker.Task}
    (hjob : job.request = .task task) : Always (OwesMail job) Valid (fun _ _ => True) []
      (Worker.processTaskSendVerifyEmail task) := by
  refine always_call trivial fun reply _ => ?_
  cases reply with
  | error err => trivial
  | ok user =>
  refine always_call trivial fun code _ => ?_
  refine always_call trivial fun reply _ => ?_
  cases reply with
  | error err => trivial
  | ok link =>
  refine always_call ?_ fun reply _ => ?_
  · intro found hfound
    cases hjob.symm.trans hfound
    exact ⟨user, code, link, by simp [Said], by simp [Said], by simp [Said], rfl⟩
  · cases reply <;> trivial

theorem service_mails (deps : Deps) :
    (service deps).Verified OwesMail Valid fun _ _ _ => True := by
  refine ⟨fun job => ?_, valid_of_step⟩
  obtain ⟨request, now⟩ := job
  cases request with
  | task task =>
    change Always _ Valid _ [] (Worker.processTaskSendVerifyEmail task >>= fun result =>
      pure (Response.task result))
    exact Always.bind (fun _ _ _ => always_pure.mpr trivial) (processTaskSendVerifyEmail_mails rfl)
  | _ =>
    refine (Always.of_trivial _ _).mono (fun history op _ => ?_) fun _ _ h => h
    cases op <;> first | trivial | exact fun _ hne => nomatch hne

section Opened

variable {deps : Deps} {ok : ServiceConfig → Event Job Choice External → Prop} {w : World}
  {config : ServiceConfig} {job : Job} {thread : Nat}

/-- A link is used from the commit of a call that presents it. -/
theorem Change.used {history : History} {exchange : Exchange Op Op.Reply} {db' : Database}
    (h : Change deps job history w thread exchange db') {id : Int} {link : VerifyEmail}
    (hfind : db'.verifyEmails.find? id = some link) (hused : link.isUsed = true) :
    w.db.verifyEmails.find? id = some link ∨
      exchange = ⟨.commit, .ok ()⟩ ∧ job.link = some ⟨id, link.secretCode⟩ := by
  cases h with
  | nothing _ | user _ _ _ _ | profile _ _ _ _ | account _ _ _ _ _ | session _ _ _ =>
    exact .inl hfind
  | link arg row _ _ hunused =>
    have hput : (w.db.put (.verifyEmail row)).verifyEmails.find? id = _ := Table.find?_put _ _ _
    rw [hput] at hfind
    split at hfind
    · cases hfind
      rw [hunused] at hused
      cases hused
    · exact .inl hfind
  | payment payment =>
    rw [payment.applied.database] at hfind
    exact .inl hfind
  | verified arg tx row user hlink _ _ hselects _ =>
    obtain ⟨hid, hcode, -⟩ := selects_iff.mp hselects
    have hput : ((w.db.put (.verifyEmail { row with isUsed := true })).put
        (.user { user with isEmailVerified := true })).verifyEmails.find? id = _ :=
      Table.find?_put _ _ _
    rw [hput] at hfind
    split at hfind
    · rename_i heq
      cases hfind
      subst heq
      refine .inr ⟨rfl, ?_⟩
      rw [hlink]
      change some arg = some ⟨row.id, row.secretCode⟩
      rw [hid, hcode]
    · exact .inl hfind

/-- Some call has opened the link. -/
def Presented (config : ServiceConfig) (id : Int) (link : VerifyEmail) : Prop :=
  ∃ thread job, config.job? thread = some job ∧ job.link = some ⟨id, link.secretCode⟩ ∧
    Said (config.history thread) .commit (.ok ())

theorem presented_of_used (htxs : w.txs = .empty) (hlinks : w.db.verifyEmails = .empty)
    (hreach : (service deps).Reach ok (.initial w) config) {id : Int} {link : VerifyEmail}
    (hfind : config.world.db.verifyEmails.find? id = some link) (hused : link.isUsed = true) :
    Presented config id link := by
  induction hreach with
  | start =>
    have hempty : (Config.initial w : ServiceConfig).world.db.verifyEmails = .empty := hlinks
    rw [hempty] at hfind
    cases hfind
  | @move config next event hreach _ hmove ih =>
    have hold : config.world.db.verifyEmails.find? id = some link → Presented next id link := by
      intro hfind
      obtain ⟨thread, job, hjob, hlink, hcommit⟩ := ih hfind
      have hcontinues := System.continues_move hmove
      exact ⟨thread, job, hcontinues.job?_eq thread job hjob, hlink,
        hcommit.later (hcontinues.history_prefix thread)⟩
    rcases System.move_cases hmove with ⟨job, rfl, -, rfl⟩ |
      ⟨thread, _, job, op, reply, rfl, ⟨htakes⟩⟩ | ⟨change, world, rfl, hexternal, rfl⟩
    · exact hold hfind
    · rcases (change_of_takes htxs hreach htakes).used hfind hused with hfind | ⟨hexchange, hlink⟩
      · exact hold hfind
      · refine ⟨thread, job, (htakes.job?_eq thread).trans htakes.job_eq, hlink, ?_⟩
        rw [htakes.history_self, hexchange]
        exact said_last _ _ _
    · refine hold ?_
      obtain ⟨-, -, -, -, hdb | ⟨row, -, -, hdb⟩⟩ := World.external_spec hexternal
      · exact (congrArg (·.verifyEmails.find? id) hdb).symm.trans hfind
      · exact (congrArg (·.verifyEmails.find? id) hdb).symm.trans hfind

/-- The link of a mail is stored, for the user named in the task. -/
theorem stored_of_mailed (htxs : w.txs = .empty)
    (hreach : (service deps).Reach ok (.initial w) config) {task : Worker.Task} {mail : Mail}
    (h : Mailed task (config.history thread) mail) : ∃ user link letters stored,
      mail = Worker.verifyEmailMail user link ∧ 0 < link.id ∧ letters.length = 32 ∧
      link.secretCode = Util.randomString letters ∧
      config.world.db.verifyEmails.find? link.id = some stored ∧
      stored.secretCode = link.secretCode ∧ stored.username = task.payload.username := by
  obtain ⟨user, code, link, huser, hcode, hlink, rfl⟩ := h
  obtain ⟨hname, -⟩ := user_of_said htxs hreach huser
  obtain ⟨letters, hlength, hletters⟩ := valid_of_said hreach hcode
  obtain ⟨_, _, _, ⟨hid, -⟩, -, hrow⟩ := valid_of_said hreach hlink
  obtain ⟨stored, hstored, hkeeps⟩ :=
    (Regular.reach htxs hreach).seen thread _ _ hlink _ List.mem_cons_self
  cases stored with
  | verifyEmail stored =>
    obtain ⟨-, hkept⟩ := hkeeps
    refine ⟨user, link, letters, stored, rfl, ?_, hlength, ?_, Database.lookup_verifyEmail.mp hstored,
      ?_, ?_⟩
    · rw [hrow]
      exact hid
    · rw [hrow]
      exact hletters
    · rw [hkept]
    · rw [hkept, hrow]
      exact hname
  | _ => simp [Row.Keeps] at hkeeps

end Opened

/-- The call that marks the link as used. -/
abbrev selectLink (req : Gapi.VerifyEmailRequest) (reply : Except Err VerifyEmail) :
    Exchange Op Op.Reply :=
  ⟨.sql .tx (.updateVerifyEmail ⟨req.emailId, req.secretCode⟩), reply⟩

/-- The calls of a `VerifyEmail` call that meets no failure, before each of them. -/
inductive Verifying (req : Gapi.VerifyEmailRequest) : History → Op → Prop
  | begin : Verifying req [] .begin
  | link : Verifying req [⟨.begin, .ok ()⟩] (.sql .tx (.updateVerifyEmail ⟨req.emailId, req.secretCode⟩))
  | user (link : VerifyEmail) : Verifying req [⟨.begin, .ok ()⟩, selectLink req (.ok link)]
      (.sql .tx (.updateUser (verifiedUser link.username)))
  | commit (link : VerifyEmail) (user : User) : Verifying req [⟨.begin, .ok ()⟩,
      selectLink req (.ok link), ⟨.sql .tx (.updateUser (verifiedUser link.username)), .ok user⟩] .commit
  | rollback (err : Err) : Verifying req [⟨.begin, .ok ()⟩, selectLink req (.error err)] .rollback

/-- How it ends. -/
inductive VerifyEnd (req : Gapi.VerifyEmailRequest) : History → Response → Prop
  | opened (link : VerifyEmail) (user : User) : VerifyEnd req [⟨.begin, .ok ()⟩,
      selectLink req (.ok link), ⟨.sql .tx (.updateUser (verifiedUser link.username)), .ok user⟩,
      ⟨.commit, .ok ()⟩] (.rpc (.ok (.verifyEmail true)))
  | refused (err : Err) (status : Gapi.Status) : VerifyEnd req [⟨.begin, .ok ()⟩,
      selectLink req (.error err), ⟨.rollback, .ok ()⟩] (.rpc (.error status))

section Verifying

variable {deps : Deps} {job : Job} {req : Gapi.VerifyEmailRequest} {history : History}

theorem rpcVerifyEmail_verifying (hjob : job.request = .rpcVerifyEmail req)
    (hvalid : Gapi.validateVerifyEmailRequest req = []) :
    Always (Verifying req) (fun op reply => Healthy job op reply ∧ Valid op reply)
      (fun history reply => VerifyEnd req history (.rpc reply)) [] (Gapi.verifyEmail req) := by
  have htransacts : job.Transacts := by simp [Job.Transacts, hjob]
  rw [Gapi.verifyEmail, hvalid]
  refine always_call .begin fun reply hreply => ?_
  obtain ⟨rfl, -⟩ := hreply
  refine always_call .link fun reply _ => ?_
  cases reply with
  | error err =>
    refine always_call (.rollback err) fun reply hreply => ?_
    cases hreply.1 htransacts
    exact .refused err _
  | ok link =>
  refine always_call (.user link) fun reply hreply => ?_
  obtain ⟨hhealthy, hyields⟩ := hreply
  obtain ⟨user, rfl⟩ := hhealthy htransacts
  obtain ⟨_, _, _, _, -, rfl⟩ := hyields
  refine always_call (.commit link _) fun reply hreply => ?_
  cases hreply.1 htransacts
  exact .opened link _

theorem Verifying.not_committed {op : Op} (h : Verifying req history op) :
    ¬Said history .commit (.ok ()) := by
  intro hmem
  have hop : Op.commit ∈ history.map Exchange.op := List.mem_map_of_mem hmem
  cases h <;> simp at hop

/-- A call that has marked the link has its transaction open. -/
theorem Verifying.openTx_of_selected {op : Op} (h : Verifying req history op) {link : VerifyEmail}
    (hmem : selectLink req (.ok link) ∈ history) : ∃ calls,
      openTx history = some (⟨.updateVerifyEmail ⟨req.emailId, req.secretCode⟩, .ok link⟩ :: calls) := by
  cases h with
  | begin => cases hmem
  | link => cases List.mem_singleton.mp hmem
  | user found =>
    rcases List.mem_cons.mp hmem with ⟨⟨⟩⟩ | hmem
    cases List.mem_singleton.mp hmem
    exact ⟨_, rfl⟩
  | commit found user =>
    rcases List.mem_cons.mp hmem with ⟨⟨⟩⟩ | hmem
    rcases List.mem_cons.mp hmem with ⟨⟨⟩⟩ | hmem
    · exact ⟨_, rfl⟩
    · cases List.mem_singleton.mp hmem
  | rollback err =>
    rcases List.mem_cons.mp hmem with ⟨⟨⟩⟩ | hmem
    cases List.mem_singleton.mp hmem

theorem VerifyEnd.of_selected {response : Response} (h : VerifyEnd req history response)
    {link : VerifyEmail} (hmem : selectLink req (.ok link) ∈ history) :
    response = .rpc (.ok (.verifyEmail true)) ∧ Said history .commit (.ok ()) := by
  cases h with
  | opened found user => exact ⟨rfl, by simp [Said]⟩
  | refused err status =>
    rcases List.mem_cons.mp hmem with ⟨⟨⟩⟩ | hmem
    rcases List.mem_cons.mp hmem with ⟨⟨⟩⟩ | hmem
    cases List.mem_singleton.mp hmem

/-- It is refused, or has committed. -/
theorem VerifyEnd.refused_or_committed {response : Response} (h : VerifyEnd req history response) :
    (∃ status, response = .rpc (.error status)) ∨ Said history .commit (.ok ()) := by
  cases h with
  | opened link user => exact .inr (by simp [Said])
  | refused err status => exact .inl ⟨status, rfl⟩

/-- It is refused, or has marked the link. -/
theorem VerifyEnd.refused_or_selected {response : Response} (h : VerifyEnd req history response)
    {exchange : Exchange Op Op.Reply} (hmem : exchange ∈ history)
    (hop : exchange.op = .sql .tx (.updateVerifyEmail ⟨req.emailId, req.secretCode⟩)) :
    (∃ status, response = .rpc (.error status)) ∨ ∃ link, exchange = selectLink req (.ok link) := by
  cases h with
  | opened link user =>
    simp only [List.mem_cons, List.not_mem_nil, or_false] at hmem
    rcases hmem with rfl | rfl | rfl | rfl
    · cases hop
    · exact .inr ⟨link, rfl⟩
    · cases hop
    · cases hop
  | refused err status => exact .inl ⟨status, rfl⟩

theorem VerifyEnd.selected_of_committed {response : Response} (h : VerifyEnd req history response)
    (hcommit : Said history .commit (.ok ())) : ∃ link, selectLink req (.ok link) ∈ history := by
  cases h with
  | opened link user => exact ⟨link, List.mem_cons_of_mem _ List.mem_cons_self⟩
  | refused err status =>
    have hop : Op.commit ∈ List.map Exchange.op _ := List.mem_map_of_mem hcommit
    simp at hop

end Verifying

/-- A `VerifyEmail` call reaches for the link when it is there, in a transaction
that began before the link expired. -/
def inTime (config : ServiceConfig) (req : Gapi.VerifyEmailRequest)
    (taken : Taken Op Op.Reply World) : Bool :=
  (config.job? taken.thread).bind Job.link = some ⟨req.emailId, req.secretCode⟩ &&
    taken.exchange.op = .sql .tx (.updateVerifyEmail ⟨req.emailId, req.secretCode⟩) &&
    (taken.before.txs.find? taken.thread).any fun tx =>
      (taken.before.db.verifyEmails.find? req.emailId).any fun link => tx.startedAt < link.expiredAt

/-- The first call of a run that does. -/
def firstInTime (config : ServiceConfig) (req : Gapi.VerifyEmailRequest) : Option Nat :=
  (config.trace.find? (inTime config req)).map Taken.thread

theorem inTime_iff {config : ServiceConfig} {req : Gapi.VerifyEmailRequest}
    {taken : Taken Op Op.Reply World} : inTime config req taken = true ↔
      (∃ job, config.job? taken.thread = some job ∧ job.link = some ⟨req.emailId, req.secretCode⟩) ∧
      taken.exchange.op = .sql .tx (.updateVerifyEmail ⟨req.emailId, req.secretCode⟩) ∧
      ∃ tx link, taken.before.txs.find? taken.thread = some tx ∧
        taken.before.db.verifyEmails.find? req.emailId = some link ∧ tx.startedAt < link.expiredAt := by
  simp [inTime, Option.any_eq_true, Option.bind_eq_some_iff, and_assoc]

section Runs

variable {deps : Deps} {w : World} {config : ServiceConfig} {thread : Nat} {job : Job}
  {req : Gapi.VerifyEmailRequest}

theorem serve_rpcVerifyEmail (hjob : job.request = .rpcVerifyEmail req) :
    serve deps job = (Gapi.verifyEmail req >>= fun reply => pure (Response.rpc reply)) := by
  rw [serve, hjob]
  rfl

/-- A `VerifyEmail` call that runs on its own comes to an end. -/
theorem verifyEmail_finishes (htxs : w.txs = .empty)
    (hreach : (service deps).Reachable (.initial w) config) {program : Act Response}
    (hthread : config.threads[thread]? = some ⟨job, program⟩) (hjob : job.request = .rpcVerifyEmail req)
    (halone : ∀ other, other ≠ thread → config.world.txs.find? other = none) :
    ∃ events final response,
      (∀ event ∈ events, ∃ choice : Choice, event = .run thread choice ∧ choice.fail = none) ∧
      (service deps).run config events = some final ∧
      final.threads[thread]? = some ⟨job, .done response⟩ := by
  let owes : History → Op → Prop := TxOwes (VerifyEmailOrder ⟨req.emailId, req.secretCode⟩)
    (fun _ calls => ∃ result, calls = verifyEmailCalls ⟨req.emailId, req.secretCode⟩ result) []
  have hcall : (Gapi.verifyEmail req).Always owes Valid (fun _ _ => True) [] := by
    unfold Gapi.verifyEmail
    split
    · trivial
    · refine Always.bind ?_ (verifyEmailTx_always rfl fun _ _ howes => howes)
      rintro later (err | result) - <;> trivial
  have halways : (serve deps job).Always owes Valid (fun _ _ => True) [] := by
    rw [serve_rpcVerifyEmail hjob]
    exact Always.bind (fun _ _ _ => always_pure.mpr trivial) hcall
  have hstep : ∀ history op state, owes history op → RunsSolo thread history state →
      ∃ (choice : Choice) (reply : op.Reply) (later : World), choice.fail = none ∧
        (service deps).step thread choice op state = some (reply, later) ∧ Valid op reply ∧
        RunsSolo thread (history ++ [⟨op, reply⟩]) later := by
    intro history op state howes hsolo
    obtain ⟨choice, reply, later, hhealthy, hstep⟩ : ∃ (choice : Choice) (reply : op.Reply)
        (later : World), choice.fail = none ∧ state.step deps thread choice op =
          some (reply, later) := hsolo.exists_step howes
    exact ⟨choice, reply, later, hhealthy, hstep, valid_of_step hstep, hsolo.step hstep⟩
  have hsolo : RunsSolo thread (config.history thread) config.world :=
    ⟨(Regular.reach htxs hreach).tracks thread, halone⟩
  obtain ⟨events, final, response, hevents, hrun, hfinal, -⟩ :=
    System.exists_done (RunsSolo thread) hstep
      (halways.reaches (hreach.follows.reaches thread job program hthread)
        fun _ hmem => (service_verified deps).replied hreach hmem) hsolo hthread
  exact ⟨events, final, response, hevents, hrun, hfinal⟩

/-- What becomes of the calls that present a stored link: the first in time
verifies its user, and all others are refused. -/
structure OpensOnce (config : ServiceConfig) (req : Gapi.VerifyEmailRequest) (link : VerifyEmail) :
    Prop where
  first : ∀ call job response, config.threads[call]? = some ⟨job, .done response⟩ →
    job.request = .rpcVerifyEmail req → firstInTime config req = some call →
    response = .rpc (.ok (.verifyEmail true)) ∧ ∃ user,
      config.world.db.users.find? link.username = some user ∧ user.isEmailVerified = true
  other : ∀ call job response, config.threads[call]? = some ⟨job, .done response⟩ →
    job.request = .rpcVerifyEmail req → firstInTime config req ≠ some call →
    ∃ status, response = .rpc (.error status)
  late : ∀ call job response, config.threads[call]? = some ⟨job, .done response⟩ →
    job.request = .rpcVerifyEmail req → ∀ taken ∈ config.trace, taken.thread = call →
    taken.exchange.op = .sql .tx (.updateVerifyEmail ⟨req.emailId, req.secretCode⟩) →
    ∀ tx, taken.before.txs.find? call = some tx → link.expiredAt ≤ tx.startedAt →
    ∃ status, response = .rpc (.error status)

/-- A `VerifyEmail` call in a run from no users and no links, and no failure
that it has met. -/
structure VerifyCall (deps : Deps) (w : World) (config : ServiceConfig) (req : Gapi.VerifyEmailRequest)
    (thread : Nat) (job : Job) : Prop where
  txs : w.txs = .empty
  users : w.db.users = .empty
  links : w.db.verifyEmails = .empty
  reach : (service deps).Reachable (.initial w) config
  job_eq : config.job? thread = some job
  request : job.request = .rpcVerifyEmail req
  valid : Gapi.validateVerifyEmailRequest req = []
  undisturbed : Undisturbed deps config thread

namespace VerifyCall

theorem isRpc (h : VerifyCall deps w config req thread job) : job.IsRpc := by
  rw [Job.IsRpc, h.request]
  trivial

theorem link (h : VerifyCall deps w config req thread job) :
    job.link = some ⟨req.emailId, req.secretCode⟩ := by
  simp [Job.link, h.request]

/-- How far it has come. -/
theorem always (h : VerifyCall deps w config req thread job) {program : Act Response}
    (hthread : config.threads[thread]? = some ⟨job, program⟩) :
    program.Always (Verifying req) (fun op reply => Healthy job op reply ∧ Valid op reply)
      (VerifyEnd req) (config.history thread) := by
  have halways : Always (Verifying req) (fun op reply => Healthy job op reply ∧ Valid op reply)
      (VerifyEnd req) [] (serve deps job) := by
    rw [serve_rpcVerifyEmail h.request]
    exact Always.bind (fun _ _ hverified => hverified) (rpcVerifyEmail_verifying h.request h.valid)
  refine halways.reaches (h.reach.follows.reaches thread job program hthread) fun exchange hmem => ?_
  exact ⟨healthy_of_undisturbed h.txs h.users h.links h.reach h.job_eq h.isRpc h.undisturbed exchange hmem,
    (service_verified deps).replied h.reach hmem⟩

theorem exists_program (h : VerifyCall deps w config req thread job) : ∃ program : Act Response,
    config.threads[thread]? = some ⟨job, program⟩ := by
  obtain ⟨⟨found, program⟩, hthread, rfl⟩ := Option.map_eq_some_iff.mp h.job_eq
  exact ⟨program, hthread⟩

/-- It marks the link exactly if the link can be opened at the time. -/
theorem selected_iff (h : VerifyCall deps w config req thread job) {taken : Taken Op Op.Reply World}
    (hmem : taken ∈ config.trace) (hthread : taken.thread = thread)
    (hop : taken.exchange.op = .sql .tx (.updateVerifyEmail ⟨req.emailId, req.secretCode⟩)) :
    ∃ tx, taken.before.txs.find? thread = some tx ∧
      ((∃ link, taken.exchange = selectLink req (.ok link)) ↔ ∃ link,
        taken.before.db.verifyEmails.find? req.emailId = some link ∧
        UpdateVerifyEmailParams.selects ⟨req.emailId, req.secretCode⟩ tx.startedAt link = true) := by
  obtain ⟨history, hmoment⟩ := moment_of_trace h.txs h.users h.links h.reach h.job_eq h.isRpc hmem
    hthread
  obtain ⟨choice, hhealthy, hstep⟩ := h.undisturbed taken hmem hthread
  obtain ⟨caller, ⟨op, reply⟩, before, after⟩ := taken
  dsimp only at hthread hop hmoment hstep ⊢
  subst hthread hop
  have hfirst : ∀ calls, TxOrder job calls
      (.updateVerifyEmail ⟨req.emailId, req.secretCode⟩) → calls = [] := by
    intro calls horder
    rw [TxOrder, h.request] at horder
    rcases horder with ⟨hcalls, -⟩ | ⟨_, -, ⟨⟩⟩
    exact hcalls
  obtain ⟨tx, hfind, -⟩ := hmoment.first_statement hfirst
  have hselected : (∃ link, (⟨_, reply⟩ : Exchange Op Op.Reply) = selectLink req (.ok link)) ↔
      ¬doomed ⟨.sql .tx (.updateVerifyEmail ⟨req.emailId, req.secretCode⟩), reply⟩ = true := by
    cases reply with
    | error err =>
      refine iff_of_false ?_ (not_not_intro rfl)
      rintro ⟨_, ⟨⟩⟩
    | ok link => exact iff_of_true ⟨link, rfl⟩ Bool.false_ne_true
  have htroubled : Troubled job.request caller before
      (.sql .tx (.updateVerifyEmail ⟨req.emailId, req.secretCode⟩)) ↔
      (before.db.verifyEmails.find? req.emailId).filter
        (UpdateVerifyEmailParams.selects ⟨req.emailId, req.secretCode⟩ tx.startedAt) = none := by
    constructor
    · rintro ⟨_, _, hfound, hfind', hnone⟩
      cases h.request.symm.trans hfound
      cases hfind.symm.trans hfind'
      exact hnone
    · exact fun hnone => ⟨req, tx, h.request, hfind, hnone⟩
  refine ⟨tx, hfind, ?_⟩
  rw [hselected, hmoment.updateVerifyEmail_doomed hhealthy hstep, htroubled,
    Option.filter_eq_none_iff]
  simp

/-- Whoever marks the link has come in time. -/
theorem inTime_of_selected (h : VerifyCall deps w config req thread job)
    {taken : Taken Op Op.Reply World} (hmem : taken ∈ config.trace) (hthread : taken.thread = thread)
    {link : VerifyEmail} (hexchange : taken.exchange = selectLink req (.ok link)) :
    inTime config req taken = true := by
  have hop : taken.exchange.op = .sql .tx (.updateVerifyEmail ⟨req.emailId, req.secretCode⟩) := by
    rw [hexchange]
  obtain ⟨tx, hfind, hselected⟩ := h.selected_iff hmem hthread hop
  obtain ⟨found, hfound, hselects⟩ := hselected.mp ⟨link, hexchange⟩
  obtain ⟨-, -, -, hexpires⟩ := selects_iff.mp hselects
  exact inTime_iff.mpr ⟨⟨job, hthread ▸ h.job_eq, h.link⟩, hop, tx, found, hthread ▸ hfind, hfound,
    hexpires⟩

/-- Whoever commits has marked the link. -/
theorem selected_of_committed (h : VerifyCall deps w config req thread job)
    (hcommit : Said (config.history thread) .commit (.ok ())) :
    ∃ link, selectLink req (.ok link) ∈ config.history thread := by
  obtain ⟨program, hthread⟩ := h.exists_program
  have halways := h.always hthread
  cases program with
  | call op rest => exact absurd hcommit halways.1.not_committed
  | done response => exact halways.selected_of_committed hcommit

/-- Whoever has marked the link commits, or is about to. -/
theorem committed_or_open (h : VerifyCall deps w config req thread job) {link : VerifyEmail}
    (hmem : selectLink req (.ok link) ∈ config.history thread) :
    Said (config.history thread) .commit (.ok ()) ∨ ∃ calls, openTx (config.history thread) =
      some (⟨.updateVerifyEmail ⟨req.emailId, req.secretCode⟩, .ok link⟩ :: calls) := by
  obtain ⟨program, hthread⟩ := h.exists_program
  have halways := h.always hthread
  cases program with
  | call op rest => exact .inr (halways.1.openTx_of_selected hmem)
  | done response => exact .inl (halways.of_selected hmem).2

/-- While a call has the link marked, it is not used in the tables. -/
theorem unused_of_open (h : VerifyCall deps w config req thread job) {link row : VerifyEmail}
    (hlink : config.world.db.verifyEmails.find? req.emailId = some link) {calls : List Ran}
    (hopen : openTx (config.history thread) =
      some (⟨.updateVerifyEmail ⟨req.emailId, req.secretCode⟩, .ok row⟩ :: calls)) :
    link.isUsed = false := by
  have hregular := Regular.reach h.txs h.reach
  have htracks := hregular.tracks thread
  rw [World.Tracks, hopen] at htracks
  obtain ⟨tx, hfind, hran⟩ := Option.map_eq_some_iff.mp htracks
  obtain ⟨htx, -⟩ := Table.find?_mem hfind
  obtain ⟨_, _, ⟨old, hold, hselects, -⟩, -⟩ :=
    replays_cons_ran (hregular.sound.isolated.replays tx htx) hran (hregular.sound.timed tx htx)
  cases (Database.lookup_verifyEmail.mpr hlink).symm.trans hold
  exact (selects_iff.mp hselects).2.2.1

/-- It has met no failure at any time before. -/
theorem earlier (h : VerifyCall deps w config req thread job) {prior : ServiceConfig}
    (hreach : (service deps).Reachable (.initial w) prior) (hjob : prior.job? thread = some job)
    (hsub : ∀ taken ∈ prior.trace, taken ∈ config.trace) : VerifyCall deps w prior req thread job :=
  { h with
    reach := hreach
    job_eq := hjob
    undisturbed := fun taken hmem hthread => h.undisturbed taken (hsub taken hmem) hthread }

end VerifyCall

theorem Job.request_of_req (hlink : job.link = some ⟨req.emailId, req.secretCode⟩) :
    job.request = .rpcVerifyEmail req := by
  obtain ⟨found, hrequest, hfound⟩ := Job.request_of_link hlink
  obtain ⟨emailId, secretCode⟩ := found
  cases hfound
  exact hrequest

/-- A link that a call has found is the one that is stored in the end. -/
theorem kept_of_found (htxs : w.txs = .empty) (hreach : (service deps).Reachable (.initial w) config)
    {taken : Taken Op Op.Reply World} (hmem : taken ∈ config.trace) {id : Int}
    {found link : VerifyEmail} (hfound : taken.before.db.verifyEmails.find? id = some found)
    (hlink : config.world.db.verifyEmails.find? id = some link) :
    (Row.verifyEmail found).Keeps (.verifyEmail link) := by
  obtain ⟨before, after, htrace⟩ := List.append_of_mem hmem
  obtain ⟨prior, hprior, -, hworld, hlater⟩ := hreach.split htrace
  rw [← hworld] at hfound
  obtain ⟨row, hrow, hkeeps⟩ := Regular.extends_reach htxs hprior hlater _ _
    (Database.lookup_verifyEmail.mpr hfound)
  cases (Database.lookup_verifyEmail.mpr hlink).symm.trans hrow
  exact hkeeps

section Stored

variable {link : VerifyEmail} (htxs : w.txs = .empty) (hlinks : w.db.verifyEmails = .empty)
  (hreach : (service deps).Reachable (.initial w) config)
  (hcalls : ∀ thread job, config.job? thread = some job → job.request = .rpcVerifyEmail req →
    VerifyCall deps w config req thread job)
  (hlink : config.world.db.verifyEmails.find? req.emailId = some link)
  (hcode : link.secretCode = req.secretCode)

include htxs hlinks hreach hcalls hlink hcode

/-- The first call in time finds the link unused, and marks it. -/
theorem selected_of_first {taken : Taken Op Op.Reply World}
    (hfirst : config.trace.find? (inTime config req) = some taken) :
    ∃ job row, VerifyCall deps w config req taken.thread job ∧
      selectLink req (.ok row) ∈ config.history taken.thread := by
  obtain ⟨htime, before, after, htrace, hearlier⟩ := List.find?_eq_some_iff_append.mp hfirst
  obtain ⟨⟨job, hjob, hpresented⟩, hop, tx, found, hfind, hfound, hexpires⟩ := inTime_iff.mp htime
  obtain ⟨prior, hprior, hbefore, hworld, hlater⟩ := hreach.split htrace
  have hmem : taken ∈ config.trace := List.mem_of_find?_eq_some hfirst
  have hcall := hcalls _ _ hjob (Job.request_of_req hpresented)
  have hkeeps : (Row.verifyEmail found).Keeps (.verifyEmail link) :=
    kept_of_found htxs hreach hmem hfound hlink
  have hfoundCode : found.secretCode = req.secretCode := by
    rw [← hcode, hkeeps.2]
  have hunused : found.isUsed = false := by
    refine Bool.eq_false_iff.mpr fun hused => ?_
    obtain ⟨other, otherJob, hother, hotherLink, hcommit⟩ :=
      presented_of_used htxs hlinks hprior (hworld ▸ hfound) hused
    rw [hfoundCode] at hotherLink
    have hopener := hcalls other otherJob (hlater.continues.job?_eq _ _ hother)
      (Job.request_of_req hotherLink)
    have hsub : ∀ call ∈ prior.trace, call ∈ config.trace := by
      intro call hcall
      rw [htrace, ← hbefore]
      exact List.mem_append_left _ hcall
    obtain ⟨row, hselected⟩ := (hopener.earlier hprior hother hsub).selected_of_committed hcommit
    obtain ⟨call, hcall, hcaller, hexchange⟩ := Config.mem_history.mp hselected
    have hlate := hearlier call (hbefore ▸ hcall)
    rw [hopener.inTime_of_selected (hsub call hcall) hcaller hexchange] at hlate
    cases hlate
  obtain ⟨tx', hfind', hselected⟩ := hcall.selected_iff hmem rfl hop
  cases hfind.symm.trans hfind'
  obtain ⟨row, hexchange⟩ := hselected.mpr ⟨found, hfound,
    selects_iff.mpr ⟨(Table.find?_mem hfound).2, hfoundCode, hunused, hexpires⟩⟩
  exact ⟨job, row, hcall, Config.mem_history.mpr ⟨taken, hmem, rfl, hexchange⟩⟩

/-- Nobody commits but the first call in time. -/
theorem VerifyCall.first_of_committed (h : VerifyCall deps w config req thread job)
    (hcommit : Said (config.history thread) .commit (.ok ())) :
    firstInTime config req = some thread := by
  have hopened := OnceOpened.reach htxs hreach
  obtain ⟨row, hselected⟩ := h.selected_of_committed hcommit
  obtain ⟨taken, hmem, hcaller, hexchange⟩ := Config.mem_history.mp hselected
  have hexists : (config.trace.find? (inTime config req)).isSome = true :=
    List.find?_isSome.mpr ⟨taken, hmem, h.inTime_of_selected hmem hcaller hexchange⟩
  obtain ⟨first, hfirst⟩ := Option.isSome_iff_exists.mp hexists
  obtain ⟨firstJob, _, hfirstCall, hmarked⟩ :=
    selected_of_first htxs hlinks hreach hcalls hlink hcode hfirst
  rw [firstInTime, hfirst]
  refine congrArg some ?_
  rcases hfirstCall.committed_or_open hmarked with hdone | ⟨calls, hopen⟩
  · exact hopened.unique _ _ _ _ _ _ hfirstCall.job_eq h.job_eq hfirstCall.link h.link rfl hdone
      hcommit
  · obtain ⟨used, hused, hflag⟩ := hopened.used thread job _ h.job_eq h.link hcommit
    cases hlink.symm.trans hused
    rw [hfirstCall.unused_of_open hlink hopen] at hflag
    cases hflag

theorem opensOnce (husers : w.db.users = .empty) : OpensOnce config req link := by
  have hend : ∀ call job response, config.threads[call]? = some ⟨job, .done response⟩ →
      job.request = .rpcVerifyEmail req → ∃ _ : VerifyCall deps w config req call job,
        VerifyEnd req (config.history call) response := by
    intro call job response hthread hjob
    have hcall := hcalls call job (by simp [Config.job?, hthread]) hjob
    exact ⟨hcall, hcall.always hthread⟩
  refine ⟨?_, ?_, ?_⟩
  · intro call job response hthread hjob hfirst
    obtain ⟨hcall, hverified⟩ := hend call job response hthread hjob
    obtain ⟨taken, htaken, rfl⟩ := Option.map_eq_some_iff.mp hfirst
    obtain ⟨_, _, _, hselected⟩ :=
      selected_of_first htxs hlinks hreach hcalls hlink hcode htaken
    obtain ⟨hresponse, hcommit⟩ := hverified.of_selected hselected
    refine ⟨hresponse, ?_⟩
    obtain ⟨used, hused, hflag⟩ :=
      (OnceOpened.reach htxs hreach).used _ _ _ hcall.job_eq hcall.link hcommit
    cases hlink.symm.trans hused
    have hflagged := Flagged.reach htxs (.of_empty husers hlinks) hreach
    obtain ⟨user, huser⟩ := Option.isSome_iff_exists.mp (hflagged.owned hlink)
    exact ⟨user, huser, (hflagged.verified_iff huser).mpr
      (openedLink_iff.mpr ⟨link, (Table.find?_mem hlink).1, rfl, hflag⟩)⟩
  · intro call job response hthread hjob hne
    obtain ⟨hcall, hverified⟩ := hend call job response hthread hjob
    rcases hverified.refused_or_committed with hrefused | hcommit
    · exact hrefused
    · exact absurd (hcall.first_of_committed htxs hlinks hreach hcalls hlink hcode hcommit) hne
  · intro call job response hthread hjob taken hmem hcaller hop tx hfind hlate
    obtain ⟨hcall, hverified⟩ := hend call job response hthread hjob
    obtain ⟨tx', hfind', hselected⟩ := hcall.selected_iff hmem hcaller hop
    cases hfind.symm.trans hfind'
    have hsaid : taken.exchange ∈ config.history call :=
      Config.mem_history.mpr ⟨taken, hmem, hcaller, rfl⟩
    refine (hverified.refused_or_selected hsaid hop).resolve_right fun hmarked => ?_
    obtain ⟨found, hfound, hselects⟩ := hselected.mp hmarked
    obtain ⟨-, -, -, hexpires⟩ := selects_iff.mp hselects
    have hkeeps := kept_of_found htxs hreach hmem hfound hlink
    have hsame : link.expiredAt = found.expiredAt := by
      rw [hkeeps.2]
    exact absurd hexpires (Int.not_lt.mpr (hsame ▸ hlate))

end Stored

end Runs

namespace Sample

theorem verified_reach : (service signed).Reach (fun _ event => ∀ thread choice,
    event = .run thread choice → choice.fail = none) (.initial nobody) verified := by
  have hhealthy : ∀ event ∈ verification, ∀ thread choice, event = .run thread choice →
      choice.fail = none := by
    simp [verification]
  exact System.Reach.extend .start (fun event hmem _ => hhealthy event hmem)
    (Option.some_get verification_runs).symm

def verificationTask : Worker.Task :=
  ⟨Worker.taskSendVerifyEmail, ⟨"alice"⟩, Gapi.sendVerifyEmailOpts⟩

/-- The mail that Alice gets. -/
def verificationMail : Mail := Worker.verifyEmailMail
  ⟨"alice", "secret", "Alice", "alice@a", zeroTime, 0, false, Util.depositorRole⟩
  ⟨1, "alice", "alice@a", code, false, 0, verifyEmailLifetime⟩

theorem verification_worker : verified.job? 1 = some ⟨.task verificationTask, 0⟩ := by
  rfl

theorem verificationMail_sent :
    Said (verified.history 1) (.sendEmail verificationMail) (.ok ()) :=
  List.mem_of_getElem? (i := 3) rfl

end Sample

example : readLink Sample.verificationMail = some ⟨1, Sample.code⟩ := by decide +kernel

example : firstInTime Sample.verified ⟨1, Sample.code⟩ = some 2 := by decide +kernel

end SimpleBank
