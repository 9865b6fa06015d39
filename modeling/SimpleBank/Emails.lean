import SimpleBank.Users

/-! No two users ever have the same email: a registration that is still open
keeps its address locked. -/
namespace SimpleBank
open Library Db

def EmailsUnique (users : Table String User User.username) : Prop :=
  ∀ user ∈ users.rows, ∀ other ∈ users.rows, user.email = other.email →
    user.username = other.username

theorem Db.Database.emailTaken_eq_false {db : Database} {email : String} :
    db.emailTaken email = false ↔ ∀ user ∈ db.users.rows, user.email ≠ email := by
  simp [Database.emailTaken]

theorem Db.Database.emailTakenBy_eq_false {db : Database} {username email : String} :
    db.emailTakenBy username email = false ↔
      ∀ user ∈ db.users.rows, user.email = email → user.username = username := by
  simp [Database.emailTakenBy]

theorem EmailsUnique.put {users : Table String User User.username} (h : EmailsUnique users) {row : User}
    (hrow : ∀ other ∈ users.rows, other.email = row.email → other.username = row.username) :
    EmailsUnique (users.put row) := by
  intro user huser other hother hemail
  rcases Table.mem_put huser with hnew | hold
  · rcases Table.mem_put hother with hnew' | hold'
    · rw [hnew, hnew']
    · rw [hnew] at hemail ⊢
      exact (hrow other hold' hemail.symm).symm
  · rcases Table.mem_put hother with hnew' | hold'
    · rw [hnew'] at hemail ⊢
      exact hrow user hold hemail
    · exact h user hold other hold' hemail

/-- The transaction has inserted a user with this email, and nothing else. -/
def Registering (tx : Tx Execution Time) (email : String) : Prop :=
  ∃ arg row, tx.calls.map Execution.ran = [⟨.createUser arg, .ok row⟩] ∧ arg.email = email

/-- Emails are unique, and those about to be registered are free. -/
structure UniqueEmails (w : World) : Prop where
  users : EmailsUnique w.db.users
  free : ∀ tx ∈ w.txs.rows, ∀ email, Registering tx email → w.db.emailTaken email = false

section Locks

theorem email_locked {call : Execution} {arg : CreateUserParams} {row : User}
    (hran : call.ran = ⟨.createUser arg, .ok row⟩) :
    ⟨.email arg.email, .update⟩ ∈ call.locks := by
  obtain ⟨stmt, generated, now, outcome, locks, covers, acquired⟩ := call
  cases hran
  obtain ⟨lock, hlock, -⟩ := covers (.user row) List.mem_cons_self
  rcases acquired with rfl | ⟨db, rfl⟩
  · cases hlock
  · simp [Stmt.locks, Stmt.requests]

theorem Registering.locked {tx : Tx Execution Time} {email : String} (h : Registering tx email) :
    ⟨.email email, .update⟩ ∈ Statements.lockedBy Database tx.calls := by
  obtain ⟨arg, row, hcalls, rfl⟩ := h
  obtain ⟨call, hsingle, hran⟩ := List.map_eq_singleton_iff.mp hcalls
  rw [hsingle]
  exact List.mem_append_left _ (email_locked hran)

/-- Two holders of the lock on an email are in each other's way. -/
theorem email_ne_of_not_blocks {wanted held : List (Lock Key)} {email other : String}
    (hblocks : blocks wanted held = false) (hwanted : ⟨.email email, .update⟩ ∈ wanted)
    (hheld : ⟨.email other, .update⟩ ∈ held) : email ≠ other := by
  rintro rfl
  rw [blocks_iff.mpr ⟨_, hwanted, _, hheld, rfl, rfl⟩] at hblocks
  cases hblocks

end Locks

namespace UniqueEmails

variable {w w' : World}

/-- A write of one user whose email nobody else has or is about to have. -/
theorem put (h : UniqueEmails w) {row : User} (husers : w'.db.users = w.db.users.put row)
    (hown : ∀ other ∈ w.db.users.rows, other.email = row.email → other.username = row.username)
    (htxs : ∀ tx ∈ w'.txs.rows, tx ∈ w.txs.rows ∧ ∀ email, Registering tx email →
      row.email ≠ email) : UniqueEmails w' := by
  refine ⟨husers ▸ h.users.put hown, fun tx htx email hregistering => ?_⟩
  obtain ⟨hold, hne⟩ := htxs tx htx
  have hfree := Database.emailTaken_eq_false.mp (h.free tx hold email hregistering)
  refine Database.emailTaken_eq_false.mpr fun user huser => ?_
  rw [husers] at huser
  rcases Table.mem_put huser with rfl | huser
  · exact hne email hregistering
  · exact hfree user huser

/-- A step that leaves the users alone. -/
theorem same (h : UniqueEmails w) (husers : w'.db.users = w.db.users)
    (htxs : ∀ tx ∈ w'.txs.rows, tx ∈ w.txs.rows ∨ ∀ email, Registering tx email →
      w.db.emailTaken email = false) : UniqueEmails w' := by
  refine ⟨husers ▸ h.users, fun tx htx email hregistering => ?_⟩
  have hsame : w'.db.emailTaken email = w.db.emailTaken email := by
    rw [Database.emailTaken, husers, Database.emailTaken]
  rw [hsame]
  rcases htxs tx htx with hold | hfree
  · exact h.free tx hold email hregistering
  · exact hfree email hregistering

/-- An update that leaves the email alone takes nobody's. -/
theorem put_kept (h : UniqueEmails w) {user row : User} (huser : user ∈ w.db.users.rows)
    (husername : row.username = user.username) (hemail : row.email = user.email)
    (husers : w'.db.users = w.db.users.put row) (htxs : ∀ tx ∈ w'.txs.rows, tx ∈ w.txs.rows) :
    UniqueEmails w' := by
  refine h.put husers (fun other hother heq => ?_) fun tx htx => ⟨htxs tx htx, ?_⟩
  · rw [husername]
    exact h.users other hother user huser (heq.trans hemail)
  · intro email hregistering
    rw [hemail]
    exact Database.emailTaken_eq_false.mp (h.free tx (htxs tx htx) email hregistering) user huser

end UniqueEmails

section Takes

variable {deps : Deps} {ok : ServiceConfig → Event Job Choice External → Prop} {w : World}
  {config next : ServiceConfig} {thread : Nat} {job : Job}

/-- A statement outside a transaction waits for the lock of the email it enters. -/
theorem UniqueEmails.pool (h : UniqueEmails config.world) {stmt : Stmt} {row : stmt.Result}
    (howes : PoolOwes deps job (config.history thread) stmt)
    (htakes : (service deps).Takes config thread job (.sql .pool stmt) (.ok row) next) :
    UniqueEmails next.world := by
  have hstep : config.world.step deps thread htakes.choice (.sql .pool stmt) =
      some (.ok row, next.world) := htakes.step_eq
  rcases World.poolStep_spec hstep with ⟨_, herr, -⟩ | ⟨call, hcall, -, hgrants, hran, hworld⟩
  · cases herr
  have hdb : next.world.db = Store.write config.world.db (stmt.written row) := by
    rw [hworld, Execution.rows_of_ran hran]
  have htxs : next.world.txs = config.world.txs := by rw [hworld]
  have heval : stmt.eval htakes.choice.generated config.world.now config.world.db = .ok row := by
    rw [hcall] at hran
    exact eq_of_heq (Ran.mk.inj hran).2
  have hlocks : call.locks = stmt.locks htakes.choice.generated config.world.now config.world.db := by
    rw [hcall]
    rfl
  have hfree : ∀ {new : String}, ⟨.email new, .update⟩ ∈ call.locks → ∀ tx ∈ next.world.txs.rows,
      tx ∈ config.world.txs.rows ∧ ∀ email, Registering tx email → new ≠ email := by
    intro new hlock tx htx
    rw [htxs] at htx
    refine ⟨htx, fun email hregistering => ?_⟩
    exact email_ne_of_not_blocks (TxState.not_blocks_of_grants hgrants htx (by simp)) hlock
      hregistering.locked
  have same : next.world.db.users = config.world.db.users → UniqueEmails next.world :=
    fun husers => h.same husers fun tx htx => .inl (htxs ▸ htx)
  cases stmt with
  | createUser arg =>
    obtain ⟨-, hnone, hrow⟩ := evalCreateUser_eq_ok.mp heval
    have hemail : User.email row = arg.email := congrArg User.email hrow
    refine h.put (congrArg Database.users hdb) (fun other hother heq => ?_)
      (hfree (hemail ▸ email_locked hran))
    exact absurd (heq.trans hemail) (Database.emailTaken_eq_false.mp hnone other hother)
  | updateUser arg =>
    obtain ⟨user, huser, hnone, rfl⟩ := evalUpdateUser_eq_ok.mp heval
    obtain ⟨hmem, hname⟩ := Table.find?_mem huser
    by_cases hemail : (arg.apply user).email = user.email
    · have husername : (arg.apply user).username = user.username := rfl
      exact h.put_kept hmem husername hemail (congrArg Database.users hdb) fun tx htx => htxs ▸ htx
    · refine h.put (congrArg Database.users hdb) (fun other hother heq => ?_) (hfree ?_)
      · exact (Database.emailTakenBy_eq_false.mp hnone other hother heq).trans hname.symm
      · simp [hlocks, Stmt.locks, Stmt.requests, huser, hemail]
  | addAccountBalance _ | createEntry _ | createTransfer _ | updateVerifyEmail _ => exact howes.elim
  | getUser _ | createAccount _ | getAccount _ | listAccounts _ | createSession _ | getSession _
    | createVerifyEmail _ => exact same ((congrArg Database.users hdb).trans rfl)

/-- A registration is open from its insert on, when the address was free. -/
theorem UniqueEmails.statement (h : UniqueEmails config.world) {stmt : Stmt}
    {reply : Except Err stmt.Result} {choice : Choice} {w' : World}
    (hstep : config.world.step deps thread choice (.sql .tx stmt) = some (reply, w')) :
    UniqueEmails w' := by
  rcases World.txStep_spec hstep with ⟨-, hsame⟩ | ⟨tx, hfind, call, -, -, hran, -, hworld⟩
  · rw [hsame]
    exact h
  rw [hworld]
  refine h.same rfl fun other hother => ?_
  rcases Table.mem_put hother with rfl | hother
  · refine .inr ?_
    rintro _ ⟨arg, row, hcalls, rfl⟩
    have hfirst : tx.calls = [] ∧ call.ran = ⟨.createUser arg, .ok row⟩ := by
      simpa [Tx.extend, List.append_eq_singleton_iff] using hcalls
    cases hran.symm.trans hfirst.2
    obtain ⟨-, hnone, -⟩ := evalCreateUser_eq_ok.mp (World.tx_eval_ok hfind hstep)
    have hview : config.world.view tx = config.world.db := by
      simp [TxState.view, hfirst.1]
    rw [hview] at hnone
    exact hnone
  · exact .inl hother

/-- What a request commits keeps the emails unique. -/
theorem UniqueEmails.commit (htxs : w.txs = .empty)
    (hreach : (service deps).Reach ok (.initial w) config) (h : UniqueEmails config.world)
    (htakes : (service deps).Takes config thread job .commit (.ok ()) next) :
    UniqueEmails next.world := by
  have hregular := Regular.reach htxs hreach
  have hstep : config.world.step deps thread htakes.choice .commit = some (.ok (), next.world) :=
    htakes.step_eq
  obtain ⟨tx, hfind, hopen, hreplays, hnow, hdb⟩ :=
    World.commit_executes hregular.sound (hregular.tracks thread) hstep
  obtain ⟨hmem, howner⟩ := Table.find?_mem hfind
  have hclosed : next.world.txs = config.world.txs.erase thread := by
    rcases World.commitStep_spec (Option.some.inj hstep) with ⟨-, ⟨_, herr⟩, -⟩ | ⟨⟨_, herr⟩, -⟩ |
      ⟨_, -, -, -, hworld⟩
    · cases herr
    · cases herr
    · rw [hworld]
  have hothers : ∀ other ∈ next.world.txs.rows, other ∈ config.world.txs.rows ∧
      other.owner ≠ thread := by
    intro other hother
    rw [hclosed] at hother
    exact Table.mem_erase.mp hother
  obtain ⟨calls, hcalls, hcommits⟩ := (service_verified deps).at_call hreach htakes
  cases hopen.symm.trans hcalls
  cases hcommits with
  | transfer arg result _ _ hran =>
    have happlied := transferApplied_of_replays hreplays hran hnow
    refine h.same ?_ fun other hother => .inl (hothers other hother).1
    rw [hdb, happlied.database]
  | verifyEmail arg result _ hran =>
    obtain ⟨link, user, -, -, huser, hwritten⟩ := verified_of_replays hreplays hran hnow
    rw [hwritten] at hdb
    have husername : ({ user with isEmailVerified := true } : User).username = user.username := rfl
    exact h.put_kept (Table.find?_mem huser).1 husername rfl (congrArg Database.users hdb)
      fun other hother => (hothers other hother).1
  | createUser req hashedPassword user _ _ hran =>
    obtain ⟨hran, -⟩ := hran
    have hregistering : Registering tx req.email := ⟨_, user, hran, rfl⟩
    have hfree := Database.emailTaken_eq_false.mp (h.free tx hmem _ hregistering)
    obtain ⟨_, later, ⟨-, huser⟩, hrest, -, -, hwritten⟩ := replays_cons_ran hreplays hran hnow
    rw [hwritten, replays_nil_ran hrest] at hdb
    have hemail : user.email = req.email := congrArg User.email huser
    refine h.put (congrArg Database.users hdb) (fun other hother heq => ?_) fun other hother => ?_
    · exact absurd (heq.trans hemail) (hfree other hother)
    · obtain ⟨hold, hne⟩ := hothers other hother
      refine ⟨hold, fun email hother => ?_⟩
      rw [hemail]
      exact email_ne_of_not_blocks (hregular.sound.isolated.compatible tx hmem other hold
        (by rw [howner]; exact hne.symm)) hregistering.locked hother.locked

/-- Every call keeps the emails unique. -/
theorem UniqueEmails.takes (htxs : w.txs = .empty)
    (hreach : (service deps).Reach ok (.initial w) config) (h : UniqueEmails config.world) {op : Op}
    {reply : op.Reply} (htakes : (service deps).Takes config thread job op reply next) :
    UniqueEmails next.world := by
  have hregular := Regular.reach htxs hreach
  have hstep : config.world.step deps thread htakes.choice op = some (reply, next.world) :=
    htakes.step_eq
  have quiet : (∀ stmt, op ≠ .sql .tx stmt) →
      committed (openTx (config.history thread)) ⟨op, reply⟩ = [] → UniqueEmails next.world := by
    intro hop hnil
    have hdb := World.step_db_of_committed_nil hregular.sound (hregular.tracks thread) hstep hnil
    refine h.same (congrArg Database.users hdb) fun tx htx => ?_
    rcases (World.stepped_of_step hstep).mem_txs hop tx htx with hold | rfl
    · exact .inl hold
    · refine .inr ?_
      rintro _ ⟨_, _, hcalls, -⟩
      cases hcalls
  cases op with
  | sql conn stmt =>
    cases conn with
    | tx => exact h.statement hstep
    | pool =>
      cases reply with
      | ok row => exact h.pool ((service_verified deps).at_call hreach htakes) htakes
      | error err => exact quiet (by simp) (by cases openTx (config.history thread) <;> rfl)
  | commit =>
    cases reply with
    | ok value => exact h.commit htxs hreach htakes
    | error err => exact quiet (by simp) (by cases openTx (config.history thread) <;> rfl)
  | begin | rollback | generateFromPassword _ | newRandom | encrypt _ | enqueue _
    | randomString _ | sendEmail _ =>
    exact quiet (by simp) (by cases openTx (config.history thread) <;> rfl)

/-- Emails are unique in every run, if they are at its start. -/
theorem UniqueEmails.reach (htxs : w.txs = .empty) (hinit : EmailsUnique w.db.users)
    (hreach : (service deps).Reach ok (.initial w) config) : UniqueEmails config.world := by
  induction hreach with
  | start => exact ⟨hinit, by simp [Config.initial, htxs, Table.empty]⟩
  | move hreach _ hmove ih =>
    rcases System.move_cases hmove with ⟨_, rfl, -, rfl⟩ | ⟨_, _, _, _, _, rfl, ⟨htakes⟩⟩ |
      ⟨change, world, rfl, hexternal, rfl⟩
    · exact ih
    · exact ih.takes htxs hreach htakes
    · obtain ⟨hsame, -⟩ := World.external_spec hexternal
      exact ih.same (World.external_users hexternal) fun tx htx => .inl (hsame ▸ htx)

end Takes

end SimpleBank
