import SimpleBank.Runs
import SimpleBank.Db.Store

/-! How control leaves `execTx`.  The body may panic, the rollback and the
commit may fail, and other threads run in between. -/
namespace SimpleBank
open Library Db Program Call

/-- How control leaves a Go function. -/
inductive Exit (α : Type) where
  | returned (value : α)
  | panicked (cause : String)
  deriving DecidableEq, Repr

/-- The calls that open or close a transaction. -/
def Op.IsStatement : Op → Prop
  | .begin | .commit | .rollback => False
  | _ => True

/-- What `execTx` is given.  A `*Queries` has no method that closes its
transaction. -/
structure TxBody (α : Type) where
  program : Act (Exit (Except Err α))
  statements : ∀ history, program.Always (fun _ op => op.IsStatement) (fun _ _ => True)
    (fun _ _ => True) history

/-- `execTx` for a body that may panic.  Nothing is deferred, so a panic passes
through. -/
def Exit.execTx {α : Type} (fn : Act (Exit (Except Err α))) : Act (Exit (Except Err α)) := do
  match ← Call.begin with
  | .error err => return .returned (.error err)
  | .ok () =>
    match ← fn with
    | .panicked cause => return .panicked cause
    | .returned (.error err) =>
      match ← rollback with
      | .error rbErr =>
        return .returned
          (.error (.text ("tx err: " ++ err.message ++ ", rb err: " ++ rbErr.message)))
      | .ok () => return .returned (.error err)
    | .returned (.ok result) =>
      match ← commit with
      | .error err => return .returned (.error err)
      | .ok () => return .returned (.ok result)

/-- For a body that always returns it is the `execTx` the transactions use. -/
theorem Exit.execTx_returned {α : Type} (fn : Act (Except Err α)) :
    Exit.execTx (fn >>= fun result => pure (.returned result)) =
      Db.execTx fn >>= fun result => pure (.returned result) := by
  unfold Exit.execTx Db.execTx
  refine congrArg (Program.call Op.begin) (funext fun (reply : Except Err Unit) => ?_)
  cases reply with
  | error err => rfl
  | ok value =>
    change (fn >>= _) >>= _ = (fn >>= _) >>= _
    rw [bind_assoc, bind_assoc]
    refine congrArg (fn >>= ·) (funext fun result => ?_)
    cases result with
    | error err =>
      refine congrArg (Program.call Op.rollback) (funext fun (reply : Except Err Unit) => ?_)
      cases reply <;> rfl
    | ok value =>
      refine congrArg (Program.call Op.commit) (funext fun (reply : Except Err Unit) => ?_)
      cases reply <;> rfl

section Exits

variable {α : Type} {body : TxBody α} {history : History} {exit : Exit (Except Err α)}

/-- What the body ended with, in the history of a thread that runs `execTx`. -/
def TxBody.outcome (body : TxBody α) (history : History) : Option (Exit (Except Err α)) :=
  match history with
  | ⟨.begin, .ok ()⟩ :: rest => (body.program.replay rest).map Prod.fst
  | _ => none

/-- The error of the body has kept its meaning. -/
def Db.Err.SameMeaning (err other : Err) : Prop :=
  errorCode other = errorCode err ∧ other.isRecordNotFound = err.isRecordNotFound

/-- Whenever the body returned an error, `execTx` returns one of the same meaning. -/
def TxBody.Keeps (body : TxBody α) (history : History) (exit : Exit (Except Err α)) : Prop :=
  ∀ err, body.outcome history = some (.returned (.error err)) →
    ∃ other, exit = .returned (.error other) ∧ err.SameMeaning other

/-- The body does not panic, and if the rollback fails after an error, the
error had no code and was not `ErrRecordNotFound`. -/
def TxBody.Calm (body : TxBody α) (history : History) : Prop :=
  match body.outcome history with
  | some (.panicked _) => False
  | some (.returned (.error err)) => (∃ rbErr, ⟨.rollback, .error rbErr⟩ ∈ history) →
      errorCode err = "" ∧ err.isRecordNotFound = false
  | _ => True

theorem foldl_track_of_statements {during : History} (calls : List Ran)
    (h : ∀ exchange ∈ during, exchange.op.IsStatement) :
    ∃ later, during.foldl track (some calls) = some later := by
  induction during generalizing calls with
  | nil => exact ⟨calls, rfl⟩
  | cons exchange during ih =>
    obtain ⟨later, hlater⟩ : ∃ later, track (some calls) exchange = some later := by
      obtain ⟨op, reply⟩ := exchange
      have hop := h ⟨op, reply⟩ List.mem_cons_self
      cases op with
      | sql conn stmt => cases conn <;> exact ⟨_, rfl⟩
      | begin | commit | rollback => exact hop.elim
      | _ => exact ⟨_, rfl⟩
    rw [List.foldl_cons, hlater]
    exact ih _ fun other hmem => h other (List.mem_cons_of_mem _ hmem)

/-- The five ways `execTx` is left. -/
inductive Leaves (body : TxBody α) : History → Exit (Except Err α) → Prop
  | unbegun (err : Err) : Leaves body [⟨.begin, .error err⟩] (.returned (.error err))
  | panicked {during : History} (cause : String) :
      (∀ exchange ∈ during, exchange.op.IsStatement) →
      body.outcome (⟨.begin, .ok ()⟩ :: during) = some (.panicked cause) →
      Leaves body (⟨.begin, .ok ()⟩ :: during) (.panicked cause)
  | rolledBack {during : History} (err : Err) :
      (∀ exchange ∈ during, exchange.op.IsStatement) →
      body.outcome (⟨.begin, .ok ()⟩ :: during ++ [⟨.rollback, .ok ()⟩]) =
        some (.returned (.error err)) →
      Leaves body (⟨.begin, .ok ()⟩ :: during ++ [⟨.rollback, .ok ()⟩]) (.returned (.error err))
  | notRolledBack {during : History} (err rbErr : Err) :
      body.outcome (⟨.begin, .ok ()⟩ :: during ++ [⟨.rollback, .error rbErr⟩]) =
        some (.returned (.error err)) →
      Leaves body (⟨.begin, .ok ()⟩ :: during ++ [⟨.rollback, .error rbErr⟩]) (.returned
        (.error (.text ("tx err: " ++ err.message ++ ", rb err: " ++ rbErr.message))))
  | committed {during : History} (value : α) (reply : Except Err Unit) :
      body.outcome (⟨.begin, .ok ()⟩ :: during ++ [⟨.commit, reply⟩]) =
        some (.returned (.ok value)) →
      Leaves body (⟨.begin, .ok ()⟩ :: during ++ [⟨.commit, reply⟩])
        (.returned (reply.map fun _ => value))

theorem leaves_of_replay
    (h : (Exit.execTx body.program).replay history = some (exit, [])) :
    Leaves body history exit := by
  obtain ⟨reply, rest, rfl, h⟩ := replay_call_eq_some.mp h
  cases reply with
  | error err =>
    cases h
    exact .unbegun err
  | ok value =>
    change (body.program >>= _).replay rest = _ at h
    rw [replay_bind] at h
    obtain ⟨⟨result, after⟩, hbody, h⟩ := Option.bind_eq_some_iff.mp h
    have houtcome : body.outcome (⟨.begin, .ok ()⟩ :: rest) = some result := by
      simp only [TxBody.outcome, hbody, Option.map_some]
    obtain ⟨during, rfl, hstatements⟩ := (body.statements []).of_replay hbody
    cases result with
    | panicked cause =>
      cases h
      rw [List.append_nil] at houtcome ⊢
      exact .panicked cause hstatements houtcome
    | returned result =>
      cases result with
      | error err =>
        obtain ⟨reply, rest, rfl, h⟩ := replay_call_eq_some.mp h
        cases reply with
        | error rbErr =>
          cases h
          exact .notRolledBack err rbErr houtcome
        | ok value =>
          cases h
          exact .rolledBack err hstatements houtcome
      | ok value =>
        obtain ⟨reply, rest, rfl, h⟩ := replay_call_eq_some.mp h
        cases reply with
        | error err =>
          cases h
          exact .committed value _ houtcome
        | ok done =>
          cases h
          exact .committed value _ houtcome

/-- Only a panic leaves the transaction open. -/
theorem Leaves.openTx_eq_none (h : Leaves body history exit) :
    openTx history = none ↔ ∀ cause, body.outcome history ≠ some (.panicked cause) := by
  cases h with
  | unbegun err => simp [openTx, track, TxBody.outcome]
  | panicked cause hstatements houtcome =>
    obtain ⟨later, hlater⟩ := foldl_track_of_statements [] hstatements
    have hopen : openTx (⟨.begin, .ok ()⟩ :: _) = some later := hlater
    simp [hopen, houtcome]
  | rolledBack err _ houtcome =>
    rw [openTx_append, houtcome]
    simp [track]
  | notRolledBack err rbErr houtcome =>
    rw [openTx_append, houtcome]
    simp [track]
  | committed value reply houtcome =>
    rw [openTx_append, houtcome]
    simp [track]

theorem not_mem_of_statements {during : History} {reply rbErr : Except Err Unit}
    (h : ∀ exchange ∈ during, exchange.op.IsStatement) (hne : rbErr ≠ reply) :
    (⟨.rollback, rbErr⟩ : Exchange Op Op.Reply) ∉
      ⟨.begin, .ok ()⟩ :: during ++ [⟨.rollback, reply⟩] := by
  intro hmem
  rcases List.mem_append.mp hmem with hmem | hmem
  · rcases List.mem_cons.mp hmem with heq | hmem
    · cases heq
    · exact h _ hmem
  · cases List.mem_singleton.mp hmem
    exact hne rfl

theorem Leaves.keeps_iff (h : Leaves body history exit) :
    openTx history = none ∧ body.Keeps history exit ↔ body.Calm history := by
  rw [h.openTx_eq_none]
  cases h with
  | unbegun err => simp [TxBody.outcome, TxBody.Keeps, TxBody.Calm]
  | panicked cause _ houtcome => simp [TxBody.Calm, houtcome]
  | rolledBack err hstatements houtcome =>
    simp only [TxBody.Calm, TxBody.Keeps, houtcome]
    refine iff_of_true ⟨by simp, ?_⟩ ?_
    · intro other hother
      cases hother
      exact ⟨err, rfl, rfl, rfl⟩
    · rintro ⟨rbErr, hmem⟩
      exact absurd hmem (not_mem_of_statements hstatements (by simp))
  | notRolledBack err rbErr houtcome =>
    simp only [TxBody.Calm, TxBody.Keeps, houtcome]
    constructor
    · rintro ⟨-, hkeeps⟩ -
      obtain ⟨other, hother, hcode, hnotFound⟩ := hkeeps err rfl
      cases hother
      exact ⟨hcode.symm, hnotFound.symm⟩
    · intro hcalm
      obtain ⟨hcode, hnotFound⟩ := hcalm ⟨rbErr, List.mem_append_right _ List.mem_cons_self⟩
      refine ⟨by simp, ?_⟩
      intro other hother
      cases hother
      exact ⟨_, rfl, hcode.symm, hnotFound.symm⟩
  | committed value reply houtcome =>
    simp only [TxBody.Calm, TxBody.Keeps, houtcome]
    refine iff_of_true ⟨by simp, ?_⟩ trivial
    intro other hother
    cases hother

end Exits

/-- Whatever else runs, `execTx` leaves its transaction closed and the error of
its body as it was, exactly if the body was `Calm`. -/
theorem execTx_closes_iff {deps : Deps} {J α : Type} {accepts : World → J → Bool}
    {serve : J → Act (Exit (Except Err α))} {w : World} (htxs : w.txs = .empty)
    {config : Config Op Op.Reply World J (Exit (Except Err α))}
    (hreach : (World.system deps accepts serve).Reachable (.initial w) config)
    {body : TxBody α} {thread : Nat} {job : J} (hserve : serve job = Exit.execTx body.program)
    {exit : Exit (Except Err α)} (hdone : config.threads[thread]? = some ⟨job, .done exit⟩) :
    config.world.txs.find? thread = none ∧ body.Keeps (config.history thread) exit ↔
      body.Calm (config.history thread) := by
  have hreaches := hreach.follows.reaches thread job _ hdone
  have hleaves : Leaves body (config.history thread) exit := by
    have hreplay := hreaches.replay_done
    exact leaves_of_replay (hserve ▸ hreplay)
  have htracks := (Regular.reach htxs hreach).tracks thread
  rw [← hleaves.keeps_iff, ← htracks, Option.map_eq_none_iff]

namespace Sample

/-- Somebody registers as alice, who is there already. -/
def again : CreateUserParams := ⟨"alice", "secret", "Alice", "a@b.c"⟩

def registeringBody : TxBody User where
  program := do
    let outcome ← query .tx (.createUser again)
    return .returned outcome
  statements _ := ⟨trivial, fun _ _ => trivial⟩

def crashingBody : TxBody User where
  program := do
    let _ ← query .tx (.createUser again)
    return .panicked "runtime error: invalid memory address or nil pointer dereference"
  statements _ := ⟨trivial, fun _ _ => trivial⟩

abbrev BodyConfig := Config Op Op.Reply World (TxBody User) (Exit (Except Err User))

def bodies : System Op Op.Reply World (TxBody User) Choice External (Exit (Except Err User)) :=
  World.system deps (fun _ _ => true) fun body => Exit.execTx body.program

def connectionLost : Outage := ⟨.text "conn closed", rfl⟩

/-- The registration fails, and so does the rollback. -/
def lostCode : List (Event (TxBody User) Choice External) :=
  [.arrive registeringBody, .run 0 {}, .run 0 {}, .run 0 { fail := some connectionLost }]

def leftOpen : List (Event (TxBody User) Choice External) :=
  [.arrive crashingBody, .run 0 {}, .run 0 {}]

theorem lostCode_runs : (bodies.run (.initial world) lostCode).isSome = true := by
  decide +kernel

theorem leftOpen_runs : (bodies.run (.initial world) leftOpen).isSome = true := by
  decide +kernel

def lost : BodyConfig := (bodies.run (.initial world) lostCode).get lostCode_runs
def stuck : BodyConfig := (bodies.run (.initial world) leftOpen).get leftOpen_runs

theorem lost_reachable : bodies.Reachable (.initial world) lost :=
  .of_run (Option.some_get lostCode_runs).symm

theorem stuck_reachable : bodies.Reachable (.initial world) stuck :=
  .of_run (Option.some_get leftOpen_runs).symm

def lostError : Err :=
  .text ("tx err: ERROR: duplicate key value violates unique constraint \"users_pkey\" " ++
    "(SQLSTATE 23505), rb err: conn closed")

theorem lost_done : lost.threads[0]? =
    some ⟨registeringBody, .done (.returned (.error lostError))⟩ := by rfl

theorem stuck_done : stuck.threads[0]? = some ⟨crashingBody, .done (.panicked
    "runtime error: invalid memory address or nil pointer dereference")⟩ := by rfl

end Sample

/-- A panic leaves the transaction open, and a unique violation is not
recognised once the rollback has failed. -/
theorem not_always_closed :
    Sample.bodies.Reachable (.initial Sample.world) Sample.stuck ∧
    Sample.bodies.Reachable (.initial Sample.world) Sample.lost ∧
    (∃ cause, Sample.stuck.threads[0]? = some ⟨Sample.crashingBody, .done (.panicked cause)⟩ ∧
      (Sample.stuck.world.txs.find? 0).isSome = true) ∧
    ∃ err other, Sample.registeringBody.outcome (Sample.lost.history 0) =
        some (.returned (.error err)) ∧ errorCode err = uniqueViolation ∧
      Sample.lost.threads[0]? = some ⟨Sample.registeringBody, .done (.returned (.error other))⟩ ∧
      errorCode other = "" := by
  refine ⟨Sample.stuck_reachable, Sample.lost_reachable, ?_⟩
  refine ⟨⟨_, Sample.stuck_done, by decide +kernel⟩, ?_⟩
  exact ⟨_, _, by rfl, by rfl, Sample.lost_done, by rfl⟩

theorem execTx_closes_iff_sample :
    Sample.lost.world.txs.find? 0 = none ∧
        Sample.registeringBody.Keeps (Sample.lost.history 0) (.returned (.error Sample.lostError)) ↔
      Sample.registeringBody.Calm (Sample.lost.history 0) :=
  execTx_closes_iff (by rfl) Sample.lost_reachable (by rfl) Sample.lost_done

end SimpleBank
