import SimpleBank.Emails
import SimpleBank.Passwords

/-! Mailboxes: the tables keep the texts of the emails apart, and one address
has many texts. -/
namespace SimpleBank
open Library Db

/-- Both texts are accepted, and mail to them goes to one address. -/
def SameMailbox (deps : Deps) (email other : String) : Prop :=
  ∃ parsed parsedOther, deps.parseAddress email = some parsed ∧
    deps.parseAddress other = some parsedOther ∧ parsed.address = parsedOther.address

/-- No two users have the same mailbox. -/
def OneMailbox (deps : Deps) (db : Database) : Prop :=
  ∀ user ∈ db.users.rows, ∀ other ∈ db.users.rows, SameMailbox deps user.email other.email →
    user.username = other.username

/-- The user and email that a request supplies. -/
def Request.email : Request → Option (String × String)
  | .createUser (.ok req) => some (req.username, req.email)
  | .rpcCreateUser req => some (req.username, req.email)
  | .rpcUpdateUser _ req => req.email.map fun email => (req.username, email)
  | _ => none

/-- A call that stores an email finds no other user with another text for its
address. -/
def KeepsMailboxes (deps : Deps) (job : Job) (exchange : Exchange Op Op.Reply) (before : World) :
    Prop :=
  job.request.decides exchange = true → ∀ username email,
    job.request.email = some (username, email) → ∀ other ∈ before.db.users.rows,
      other.username ≠ username → other.email ≠ email → ¬SameMailbox deps other.email email

section Mailboxes

variable {deps : Deps} {ok : ServiceConfig → Event Job Choice External → Prop} {w : World}
  {config next : ServiceConfig} {thread : Nat} {job : Job} {op : Op} {reply : op.Reply}

theorem SameMailbox.symm {email other : String} (h : SameMailbox deps email other) :
    SameMailbox deps other email := by
  obtain ⟨parsed, parsedOther, hparsed, hother, heq⟩ := h
  exact ⟨parsedOther, parsed, hother, hparsed, heq.symm⟩

theorem Request.username_of_email {request : Request} {username email : String}
    (h : request.email = some (username, email)) : request.username = some username := by
  unfold Request.email at h
  split at h
  · cases h
    rfl
  · cases h
    rfl
  · obtain ⟨_, -, heq⟩ := Option.map_eq_some_iff.mp h
    cases heq
    rfl
  · cases h

/-- A call that changes the row of a user stores the email of its request, if
there is one, and leaves the email alone if there is none. -/
theorem UserChange.email {history : History} {exchange : Exchange Op Op.Reply} {old : Option User}
    {row : User} (h : UserChange deps job history exchange old row) :
    (job.request.email = none ∧ ∃ user, old = some user ∧ user.username = row.username ∧
      user.email = row.email) ∨
    job.request.decides exchange = true ∧ job.request.email = some (row.username, row.email) := by
  cases h with
  | created arg row howes hinserts =>
    obtain ⟨_, req, hbody, hbind, _, -, rfl⟩ := howes
    obtain ⟨_, rfl⟩ := hinserts
    obtain ⟨rfl, -⟩ := Api.bind_eq_ok.mp hbind
    rw [hbody]
    exact .inr ⟨rfl, rfl⟩
  | registered req hashedPassword row hrequest _ hinserts _ =>
    obtain ⟨_, rfl⟩ := hinserts
    rw [hrequest]
    exact .inr ⟨rfl, rfl⟩
  | updated arg user howes husername =>
    obtain ⟨_, req, _, hrequest, -, -, -, hname, -, hemail, -⟩ := howes
    have hname : (arg.apply user).username = req.username := husername.trans hname
    rw [hrequest, hname]
    cases hreq : req.email with
    | none =>
      refine .inl ⟨by simp [Request.email, hreq], user, rfl, hname, ?_⟩
      simp [UpdateUserParams.apply, hemail, hreq]
    | some email =>
      refine .inr ⟨rfl, ?_⟩
      simp [Request.email, UpdateUserParams.apply, hemail, hreq]
  | verified arg user hlink =>
    obtain ⟨req, hrequest, -⟩ := Job.request_of_link hlink
    rw [hrequest]
    exact .inl ⟨rfl, user, rfl, rfl, rfl⟩

/-- Where the email of a row comes from: it was there, or the call stores it. -/
theorem email_origin (htxs : w.txs = .empty) (hreach : (service deps).Reach ok (.initial w) config)
    (htakes : (service deps).Takes config thread job op reply next) {row : User}
    (hrow : row ∈ next.world.db.users.rows) :
    (∃ old ∈ config.world.db.users.rows, old.username = row.username ∧ old.email = row.email) ∨
    job.request.decides ⟨op, reply⟩ = true ∧ job.request.email = some (row.username, row.email) := by
  have hfind := Table.find?_of_mem hrow
  rcases userChange_of_takes htxs hreach htakes row.username with hsame | ⟨found, hfound, hchange⟩
  · rw [hsame] at hfind
    exact .inl ⟨row, (Table.find?_mem hfind).1, rfl, rfl⟩
  · cases hfind.symm.trans hfound
    rcases hchange.email with ⟨-, user, huser, hname, hemail⟩ | hstores
    · exact .inl ⟨user, (Table.find?_mem huser).1, hname, hemail⟩
    · exact .inr hstores

/-- A user for whom nothing is stored keeps the email. -/
theorem email_kept (htxs : w.txs = .empty) (hreach : (service deps).Reach ok (.initial w) config)
    (htakes : (service deps).Takes config thread job op reply next) {username email : String}
    (hemail : job.request.email = some (username, email)) {other : User}
    (hother : other ∈ config.world.db.users.rows) (hne : other.username ≠ username) :
    ∃ row ∈ next.world.db.users.rows, row.username = other.username ∧ row.email = other.email := by
  have hfind := Table.find?_of_mem hother
  rcases userChange_of_takes htxs hreach htakes other.username with hsame | ⟨row, hrow, hchange⟩
  · exact ⟨other, (Table.find?_mem (hsame.trans hfind)).1, rfl, rfl⟩
  · obtain ⟨hmem, hname⟩ := Table.find?_mem hrow
    rcases hchange.email with ⟨hnone, -⟩ | ⟨-, hstores⟩
    · cases hnone.symm.trans hemail
    · cases hstores.symm.trans hemail
      exact absurd hname.symm hne

/-- One call keeps the mailboxes apart exactly if it stores no second text for
the address of another user. -/
theorem oneMailbox_takes (htxs : w.txs = .empty)
    (hreach : (service deps).Reach ok (.initial w) config)
    (hunique : EmailsUnique next.world.db.users) (h : OneMailbox deps config.world.db)
    (htakes : (service deps).Takes config thread job op reply next) :
    OneMailbox deps next.world.db ↔ KeepsMailboxes deps job ⟨op, reply⟩ config.world := by
  constructor
  · intro hnext hdecides username email hemail other hother hne htext hsame
    obtain ⟨row, hrow, hchange⟩ := userChange_of_decides htxs hreach htakes hdecides
      (Request.username_of_email hemail)
    obtain ⟨hmem, hname⟩ := Table.find?_mem hrow
    have hstored : row.email = email := by
      rcases hchange.email with ⟨hnone, -⟩ | ⟨-, hstores⟩
      · cases hnone.symm.trans hemail
      · cases hstores.symm.trans hemail
        rfl
    obtain ⟨kept, hkept, hkeptName, hkeptEmail⟩ := email_kept htxs hreach htakes hemail hother hne
    refine hne (hkeptName.symm.trans ((hnext kept hkept row hmem ?_).trans hname))
    rw [hkeptEmail, hstored]
    exact hsame
  · intro hkeeps
    -- a text that is stored now, against one that was there before
    have apart : ∀ user ∈ next.world.db.users.rows, ∀ other ∈ next.world.db.users.rows,
        (∃ old ∈ config.world.db.users.rows, old.username = user.username ∧
          old.email = user.email) → job.request.decides ⟨op, reply⟩ = true →
        job.request.email = some (other.username, other.email) →
        SameMailbox deps user.email other.email → user.username = other.username := by
      rintro user huser other hother ⟨old, hold, hname, hemail⟩ hdecides hstores hsame
      by_contra hne
      refine hkeeps hdecides _ _ hstores old hold (hname ▸ hne) ?_ (hemail ▸ hsame)
      exact fun htext => hne (hunique user huser other hother (hemail.symm.trans htext))
    intro user huser other hother hsame
    rcases email_origin htxs hreach htakes huser with hold | ⟨hdecides, hstores⟩
    · rcases email_origin htxs hreach htakes hother with ⟨old', hold', hname', hemail'⟩ |
        ⟨hdecides, hstores⟩
      · obtain ⟨old, hold, hname, hemail⟩ := hold
        rw [← hname, ← hname']
        exact h old hold old' hold' (by rwa [hemail, hemail'])
      · exact apart user huser other hother hold hdecides hstores hsame
    · rcases email_origin htxs hreach htakes hother with hold | ⟨-, hstores'⟩
      · exact (apart other hother user huser hold hdecides hstores hsame.symm).symm
      · exact (Prod.mk.inj (Option.some.inj (hstores.symm.trans hstores'))).1

/-- No two users have the same mailbox, all along a run, exactly if every call
that stores an email finds no other user with another text for its address. -/
theorem oneMailbox_iff_keeps (htxs : w.txs = .empty) (hunique : EmailsUnique w.db.users)
    (hinit : OneMailbox deps w.db) (hreach : (service deps).Reachable (.initial w) config) :
    (∀ world ∈ config.visited, OneMailbox deps world.db) ↔
      ∀ taken ∈ config.trace, ∀ job, config.job? taken.thread = some job →
        KeepsMailboxes deps job taken.exchange taken.before := by
  refine visited_iff hinit (fun _ _ => Iff.rfl) (fun hreach h htakes => ?_) hreach
  exact oneMailbox_takes htxs hreach
    ((UniqueEmails.reach htxs hunique hreach).takes htxs hreach htakes).users h htakes

end Mailboxes

namespace Sample

/-- An address by itself, or between angle brackets. -/
def parseAngled (text : String) : Option MailAddress :=
  match text.toList with
  | '<' :: rest =>
    if rest.getLast? = some '>' ∧ '@' ∈ rest then some ⟨"", String.ofList rest.dropLast⟩ else none
  | letters => if '@' ∈ letters then some ⟨"", text⟩ else none

def angled : Deps := { deps with parseAddress := parseAngled }

theorem mem_of_parseAngled {text : String} {parsed : MailAddress}
    (h : parseAngled text = some parsed) : '@' ∈ text.toList := by
  unfold parseAngled at h
  split at h
  · rename_i rest hletters
    split at h
    · rename_i haccepted
      rw [hletters]
      exact List.mem_cons_of_mem _ haccepted.2
    · cases h
  · split at h
    · assumption
    · cases h

theorem parseAngled_angled (address : String)
    (h : angled.parseAddress address = some ⟨"", address⟩) :
    angled.parseAddress ("<" ++ address ++ ">") = some ⟨"", address⟩ := by
  have hletters : ("<" ++ address ++ ">").toList = '<' :: (address.toList ++ ['>']) := by
    simp [String.toList_append]
  have hmem : '@' ∈ address.toList := mem_of_parseAngled h
  simp [angled, parseAngled, hletters, hmem]

def plain : Gapi.CreateUserRequest := ⟨"alice", "Alice", "alice@email.com", "secret"⟩

def bracketed : Gapi.CreateUserRequest := ⟨"bob", "Bob", "<alice@email.com>", "secret"⟩

/-- Two users register with one address. -/
def doubling : List (Event Job Choice External) :=
  [.arrive ⟨.rpcCreateUser plain, 0⟩, .run 0 {}, .run 0 {}, .run 0 {}, .run 0 {}, .run 0 {},
    .arrive ⟨.rpcCreateUser bracketed, 0⟩, .run 1 {}, .run 1 {}, .run 1 {}, .run 1 {}, .run 1 {}]

theorem doubling_runs : ((service angled).run (.initial nobody) doubling).isSome = true := by
  decide +kernel

def doubled : ServiceConfig := ((service angled).run (.initial nobody) doubling).get doubling_runs

theorem doubled_reachable : (service angled).Reachable (.initial nobody) doubled :=
  .of_run (Option.some_get doubling_runs).symm

theorem doubled_jobs :
    doubled.threads.map Thread.job = [⟨.rpcCreateUser plain, 0⟩, ⟨.rpcCreateUser bracketed, 0⟩] := by
  rfl

theorem doubled_users : doubled.world.db.users.rows =
    [⟨"alice", "secret", "Alice", "alice@email.com", zeroTime, 0, false, Util.depositorRole⟩,
      ⟨"bob", "secret", "Bob", "<alice@email.com>", zeroTime, 0, false, Util.depositorRole⟩] := by
  decide +kernel

end Sample

/-- Registrations alone give one address to two users, when parsing takes the
brackets away. -/
theorem not_always_oneMailbox : ¬∀ (deps : Deps) (w : World) (config : ServiceConfig),
    (∀ address, deps.parseAddress address = some ⟨"", address⟩ →
      deps.parseAddress ("<" ++ address ++ ">") = some ⟨"", address⟩) →
    w.txs = .empty → w.db = .empty → (service deps).Reachable (.initial w) config →
    (∀ thread ∈ config.threads, (∃ req, thread.job.request = .rpcCreateUser req) ∨
      ∃ ctx req, thread.job.request = .rpcUpdateUser ctx req) →
    OneMailbox deps config.world.db := by
  intro h
  have hjobs : ∀ job ∈ Sample.doubled.threads.map Thread.job,
      ∃ req, job.request = .rpcCreateUser req := by
    rw [Sample.doubled_jobs]
    simp
  have hone := h _ _ _ Sample.parseAngled_angled rfl rfl Sample.doubled_reachable fun thread hmem =>
    .inl (hjobs _ (List.mem_map_of_mem hmem))
  rw [OneMailbox, Sample.doubled_users] at hone
  have hsame := hone _ List.mem_cons_self _ (List.mem_cons_of_mem _ List.mem_cons_self)
    ⟨⟨"", "alice@email.com"⟩, ⟨"", "alice@email.com"⟩, by decide +kernel, by decide +kernel, rfl⟩
  exact absurd hsame (by decide)

theorem oneMailbox_iff_keeps_sample :
    (∀ world ∈ Sample.doubled.visited, OneMailbox Sample.angled world.db) ↔
      ∀ taken ∈ Sample.doubled.trace, ∀ job, Sample.doubled.job? taken.thread = some job →
        KeepsMailboxes Sample.angled job taken.exchange taken.before :=
  oneMailbox_iff_keeps rfl (by rintro _ ⟨⟩) (by rintro _ ⟨⟩) Sample.doubled_reachable

end SimpleBank
