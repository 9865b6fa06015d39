import SimpleBank.Library.WaitsFor
import SimpleBank.Transfers

/-! Why concurrent transfers cannot wait for each other in a circle: only the
balance updates wait, and they go up the account ids. -/
namespace SimpleBank
open Library Db

/-- `thread` is about to run a statement that has to wait for a lock of `other`. -/
structure Waits {J α : Type} (config : Config Op Op.Reply World J α) (thread other : Nat) :
    Prop where
  distinct : thread ≠ other
  blocked : ∃ job stmt next tx otherTx,
    config.threads[thread]? = some ⟨job, .call (.sql .tx stmt) next⟩ ∧
    config.world.txs.find? thread = some tx ∧ tx.aborted = false ∧
    config.world.txs.find? other = some otherTx ∧
    blocks (stmt.requests tx.startedAt (config.world.view tx))
      (Statements.lockedBy Database otherTx.calls) = true

/-- The kinds of statements a transfer is made of. -/
def OfTransfer : Stmt → Prop
  | .createTransfer _ | .createEntry _ | .addAccountBalance _ => True
  | _ => False

theorem Ascending.ofTransfer {calls : List Ran} {stmt : Stmt} (h : Ascending calls stmt) :
    OfTransfer stmt := by
  cases stmt with
  | createTransfer _ | createEntry _ | addAccountBalance _ => trivial
  | _ => exact h.elim

theorem mem_keyShare {db : Database} {k : Key} {lock : Lock Key} (h : lock ∈ Stmt.keyShare db k) :
    lock = ⟨k, .keyShare⟩ := by
  unfold Stmt.keyShare at h
  split at h
  · exact List.mem_singleton.mp h
  · cases h

/-- The inserts ask for the weakest lock on an account, the update for more. -/
theorem OfTransfer.requests {stmt : Stmt} (h : OfTransfer stmt) {now : Time} {db : Database}
    {lock : Lock Key} (hlock : lock ∈ stmt.requests now db) :
    (∃ id, lock = ⟨.account id, .keyShare⟩) ∨
      ∃ arg, stmt = .addAccountBalance arg ∧ lock = ⟨.account arg.id, .noKeyUpdate⟩ := by
  cases stmt with
  | createTransfer arg =>
    rcases List.mem_append.mp hlock with hlock | hlock
    · exact .inl ⟨_, mem_keyShare hlock⟩
    · exact .inl ⟨_, mem_keyShare hlock⟩
  | createEntry arg => exact .inl ⟨_, mem_keyShare hlock⟩
  | addAccountBalance arg =>
    simp only [Stmt.requests] at hlock
    split at hlock
    · exact .inr ⟨arg, rfl, List.mem_singleton.mp hlock⟩
    · cases hlock
  | _ => exact h.elim

/-- Besides, they lock the rows they insert, which are no accounts. -/
theorem OfTransfer.locks {stmt : Stmt} (h : OfTransfer stmt) {generated : Int} {now : Time}
    {db : Database} {lock : Lock Key} {id : Int} (hlock : lock ∈ stmt.locks generated now db)
    (hkey : lock.key = .account id) :
    lock = ⟨.account id, .keyShare⟩ ∨
      ∃ arg, stmt = .addAccountBalance arg ∧ arg.id = id ∧ lock = ⟨.account id, .noKeyUpdate⟩ := by
  rcases List.mem_append.mp hlock with hlock | hlock
  · rcases h.requests hlock with ⟨other, rfl⟩ | ⟨arg, rfl, rfl⟩
    · cases hkey
      exact .inl rfl
    · cases hkey
      exact .inr ⟨arg, rfl, rfl, rfl⟩
  · obtain ⟨k, hk, rfl⟩ := List.mem_map.mp hlock
    cases stmt with
    | createTransfer _ | createEntry _ =>
      cases List.mem_singleton.mp hk
      cases hkey
    | addAccountBalance _ => cases hk
    | _ => exact h.elim

section Transfers

variable {deps : Deps} {ok : TransferConfig → Event TransferTxParams Choice External → Prop}
  {w : World} {config : TransferConfig} {thread other third : Nat}

/-- An open transaction has only run statements of a transfer. -/
theorem ofTransfer_of_call (htxs : w.txs = .empty)
    (hreach : (transfers deps).Reach ok (.initial w) config) {tx : Tx Execution Time}
    (hfind : config.world.txs.find? thread = some tx) {call : Execution} (hcall : call ∈ tx.calls) :
    OfTransfer call.stmt := by
  have htracks := (Regular.reach htxs hreach).tracks thread
  have hmem := mem_of_openTx (htracks.of_find? hfind) call.ran (List.mem_map_of_mem hcall)
  obtain ⟨taken, htaken, hexchange⟩ := List.mem_map.mp hmem
  obtain ⟨_, _, -, howes⟩ :=
    (transfers_verified deps).owed hreach taken (List.mem_filter.mp htaken).1
  rw [hexchange] at howes
  obtain ⟨_, -, hascending⟩ := howes
  exact hascending.ofTransfer

/-- Who waits is about to update an account that the other one has updated. -/
theorem Waits.spec (htxs : w.txs = .empty) (hreach : (transfers deps).Reach ok (.initial w) config)
    (h : Waits config thread other) :
    ∃ job arg next, config.threads[thread]? = some ⟨job, .call (.sql .tx (.addAccountBalance arg)) next⟩ ∧
      ∃ otherTx, config.world.txs.find? other = some otherTx ∧
        ⟨.account arg.id, .noKeyUpdate⟩ ∈ Statements.lockedBy Database otherTx.calls ∧
        ∃ call ∈ otherTx.calls, ∃ earlier, call.stmt = .addAccountBalance earlier ∧
          earlier.id = arg.id := by
  obtain ⟨job, stmt, next, tx, otherTx, hthread, -, -, hother, hblocks⟩ := h.blocked
  obtain ⟨_, -, hascending⟩ := ((transfers_verified deps).at_thread hreach hthread).1
  obtain ⟨want, hwant, lock, hlock, hkey, hmode⟩ := blocks_iff.mp hblocks
  obtain ⟨call, hcall, hheld⟩ := List.mem_flatMap.mp hlock
  have hofTransfer := ofTransfer_of_call htxs hreach hother hcall
  have hheld : lock ∈ call.locks := hheld
  obtain ⟨db, hlocks⟩ : ∃ db, lock ∈ call.stmt.locks call.generated call.now db := by
    rcases call.acquired with hnil | ⟨db, hlocks⟩
    · rw [hnil] at hheld
      cases hheld
    · rw [hlocks] at hheld
      exact ⟨db, hheld⟩
  rcases hascending.ofTransfer.requests hwant with ⟨id, rfl⟩ | ⟨arg, rfl, rfl⟩
  · rcases hofTransfer.locks hlocks hkey.symm with rfl | ⟨_, -, -, rfl⟩
    · cases hmode
    · cases hmode
  · rcases hofTransfer.locks hlocks hkey.symm with rfl | ⟨earlier, hstmt, hid, rfl⟩
    · cases hmode
    · exact ⟨job, arg, next, hthread, otherTx, hother, hlock, call, hcall, earlier, hstmt, hid⟩

/-- The account a thread is about to update. -/
def rank (config : TransferConfig) (thread : Nat) : Int :=
  match config.threads[thread]? with
  | some ⟨_, .call (.sql .tx (.addAccountBalance arg)) _⟩ => arg.id
  | _ => 0

/-- Along a chain of waiting transfers the account ids go up: what `other` has
updated comes before what it waits for, and is not the same account, as only
one of them holds the lock on that. -/
theorem Waits.rank_lt (htxs : w.txs = .empty) (hreach : (transfers deps).Reach ok (.initial w) config)
    (hfirst : Waits config thread other) (hsecond : Waits config other third) :
    rank config thread < rank config other := by
  obtain ⟨_, arg, _, hthread, tx, hfind, hlock, call, hcall, earlier, hstmt, hearlier⟩ :=
    hfirst.spec htxs hreach
  obtain ⟨_, otherArg, _, hother, thirdTx, hthird, hotherLock, -⟩ := hsecond.spec htxs hreach
  have hregular := Regular.reach htxs hreach
  obtain ⟨calls, hwithin, hascending⟩ := ((transfers_verified deps).at_thread hreach hother).1
  have hcalls : tx.calls.map Execution.ran = calls :=
    Option.some.inj (((hregular.tracks other).of_find? hfind).symm.trans hwithin.opened)
  have hle : earlier.id ≤ otherArg.id :=
    hascending call.ran (hcalls ▸ List.mem_map_of_mem hcall) earlier hstmt
  have hne : arg.id ≠ otherArg.id := by
    intro heq
    obtain ⟨hmem, howner⟩ := Table.find?_mem hfind
    obtain ⟨hthirdMem, hthirdOwner⟩ := Table.find?_mem hthird
    have hcompatible := hregular.sound.isolated.compatible tx hmem thirdTx hthirdMem
      (by rw [howner, hthirdOwner]; exact hsecond.distinct)
    have hblocks : blocks (Statements.lockedBy Database tx.calls)
        (Statements.lockedBy Database thirdTx.calls) = true :=
      blocks_iff.mpr ⟨_, hlock, _, hotherLock, by rw [heq], rfl⟩
    rw [hcompatible] at hblocks
    cases hblocks
  simp only [rank, hthread, hother]
  omega

end Transfers

/-- The value a key has from a sequence. -/
def keyId : Key → Int
  | .account id | .entry id | .transfer id | .verifyEmail id => id
  | _ => 0

theorem keyId_of_mem_serialKey {stmt : Stmt} {generated : Int} {k : Key}
    (h : k ∈ stmt.serialKey generated) : keyId k = generated := by
  cases stmt with
  | createAccount _ | createEntry _ | createTransfer _ | createVerifyEmail _ =>
    rw [List.mem_singleton.mp h]
    rfl
  | _ => cases h

/-- A sequence has a next value, which nobody has seen or locked. -/
theorem exists_generated (stmt : Stmt) (db : Database) (held : List (Lock Key)) :
    ∃ generated, stmt.freshSerial generated db = true ∧
      ∀ k ∈ stmt.serialKey generated, ∀ lock ∈ held, k ≠ lock.key := by
  refine ⟨max (nextId db) ((held.map fun lock => keyId lock.key).foldr max 0 + 1),
    freshSerial_of_nextId_le (Int.le_max_left _ _) stmt, ?_⟩
  rintro k hk lock hlock rfl
  have hid := keyId_of_mem_serialKey hk
  have hle := le_foldr_max (List.mem_map_of_mem (f := fun lock : Lock Key => keyId lock.key) hlock)
  omega

section Transfers

variable {deps : Deps} {ok : TransferConfig → Event TransferTxParams Choice External → Prop}
  {w : World} {config : TransferConfig} {thread : Nat}

/-- A thread whose transaction is open has a call to make. -/
theorem exists_call (htxs : w.txs = .empty) (hreach : (transfers deps).Reach ok (.initial w) config)
    {tx : Tx Execution Time} (hfind : config.world.txs.find? thread = some tx) :
    ∃ job op next, config.threads[thread]? = some ⟨job, .call op next⟩ := by
  have hopen := ((Regular.reach htxs hreach).tracks thread).of_find? hfind
  cases hthread : config.threads[thread]? with
  | none =>
    rw [hreach.follows.fresh thread (List.getElem?_eq_none_iff.mp hthread)] at hopen
    cases hopen
  | some state =>
    obtain ⟨job, program⟩ := state
    cases program with
    | call op next => exact ⟨job, op, next, rfl⟩
    | done value =>
      have hends := (transfers_verified deps).at_end hreach hthread
      cases value with
      | ok result =>
        obtain ⟨_, _, -, hafter, -⟩ := hends
        cases hopen.symm.trans hafter.closed
      | error err => cases hopen.symm.trans (show Unchanged _ _ from hends).closed

/-- The locks of a statement are free if it does not wait, and its new row is
one that nobody has locked. -/
theorem grants_of_not_waits {job : TransferTxParams} {stmt : Stmt}
    {next : (Op.sql .tx stmt).Reply → Act (Except Err TransferTxResult)} {generated : Int}
    (hthread : config.threads[thread]? = some ⟨job, .call (.sql .tx stmt) next⟩)
    {tx : Tx Execution Time} (hfind : config.world.txs.find? thread = some tx)
    (hopen : tx.aborted = false) (hfree : ∀ other, ¬Waits config thread other)
    (hunlocked : ∀ k ∈ stmt.serialKey generated,
      ∀ lock ∈ config.world.txs.rows.flatMap fun other => Statements.lockedBy Database other.calls,
        k ≠ lock.key) :
    config.world.grants (some thread) (stmt.locks generated tx.startedAt (config.world.view tx)) =
      true := by
  refine List.all_eq_true.mpr fun other hmem => ?_
  by_cases howner : thread = other.owner
  · simp [howner]
  · have hrequests : blocks (stmt.requests tx.startedAt (config.world.view tx))
        (Statements.lockedBy Database other.calls) = false := by
      by_contra hblocks
      exact hfree other.owner ⟨howner, job, stmt, next, tx, other, hthread, hfind, hopen,
        Table.find?_of_mem hmem, by simpa using hblocks⟩
    have hserial : blocks ((stmt.serialKey generated).map fun k => ⟨k, .update⟩)
        (Statements.lockedBy Database other.calls) = false := by
      by_contra hblocks
      obtain ⟨want, hwant, lock, hlock, hkey, -⟩ := blocks_iff.mp (by simpa using hblocks)
      obtain ⟨k, hk, rfl⟩ := List.mem_map.mp hwant
      exact hunlocked k hk lock (List.mem_flatMap.mpr ⟨other, hmem, hlock⟩) hkey
    simp [Stmt.locks, blocks_append, hrequests, hserial]

/-- A thread that does not wait can make its next call, with no failure. -/
theorem exists_healthy_move (htxs : w.txs = .empty)
    (hreach : (transfers deps).Reach ok (.initial w) config) {tx : Tx Execution Time}
    (hfind : config.world.txs.find? thread = some tx) (hfree : ∀ other, ¬Waits config thread other) :
    ∃ choice next, choice.fail = none ∧
      (transfers deps).move config (.run thread choice) = some next := by
  obtain ⟨job, op, next, hthread⟩ := exists_call htxs hreach hfind
  suffices hstep : ∃ choice reply world, choice.fail = none ∧
      config.world.step deps thread choice op = some (reply, world) by
    obtain ⟨choice, reply, world, hhealthy, hstep⟩ := hstep
    obtain ⟨next, hmove⟩ : ∃ next, (transfers deps).move config (.run thread choice) = some next :=
      System.exists_move hthread hstep
    exact ⟨choice, next, hhealthy, hmove⟩
  have howes := ((transfers_verified deps).at_thread hreach hthread).1
  cases op with
  | sql conn stmt =>
    cases conn with
    | pool => exact howes.elim
    | tx =>
      obtain ⟨generated, hfresh, hunlocked⟩ := exists_generated stmt (config.world.view tx)
        (config.world.txs.rows.flatMap fun other => Statements.lockedBy Database other.calls)
      have hgrants : tx.aborted = false → config.world.grants (some thread)
          (stmt.locks generated tx.startedAt (config.world.view tx)) = true :=
        fun hopen => grants_of_not_waits hthread hfind hopen hfree hunlocked
      obtain ⟨reply, world, hstep⟩ : ∃ reply world,
          config.world.txStep thread { generated } stmt = some (reply, world) :=
        World.exists_txStep hfind rfl hgrants hfresh
      exact ⟨{ generated }, reply, world, rfl, hstep⟩
  | commit => exact ⟨{}, _, _, rfl, rfl⟩
  | rollback => exact ⟨{}, _, _, rfl, rfl⟩
  | enqueue task => exact ⟨{}, _, _, rfl, rfl⟩
  | begin =>
    have hopen := ((Regular.reach htxs hreach).tracks thread).of_find? hfind
    rw [show config.history thread = [] from howes] at hopen
    cases hopen
  | generateFromPassword _ | newRandom | encrypt _ | randomString _ | sendEmail _ =>
    exact howes.elim

/-- Concurrent transfers never wait for each other in a circle: as long as one
is open, there is one that does not wait and can go on. -/
theorem transfers_deadlock_free (htxs : w.txs = .empty)
    (hreach : (transfers deps).Reachable (.initial w) config) :
    (∀ thread, ¬Relation.TransGen (Waits config) thread thread) ∧
    (∀ tx ∈ config.world.txs.rows, ∃ other ∈ config.world.txs.rows,
      (∀ third, ¬Waits config other.owner third) ∧ ∃ choice next, choice.fail = none ∧
        (transfers deps).move config (.run other.owner choice) = some next) := by
  have hrank : ∀ a b c, Waits config a b → Waits config b c → rank config a < rank config b :=
    fun _ _ _ hfirst hsecond => hfirst.rank_lt htxs hreach hsecond
  refine ⟨acyclic_of_rank hrank, fun tx htx => ?_⟩
  have hmembers : ∀ thread, thread ∈ (config.world.txs.rows.map Tx.owner).toFinset ↔
      ∃ other ∈ config.world.txs.rows, other.owner = thread := by
    simp
  have hnonempty : (config.world.txs.rows.map Tx.owner).toFinset.Nonempty :=
    ⟨tx.owner, (hmembers _).mpr ⟨tx, htx, rfl⟩⟩
  have hclosed : ∀ a ∈ (config.world.txs.rows.map Tx.owner).toFinset, ∀ b, Waits config a b →
      b ∈ (config.world.txs.rows.map Tx.owner).toFinset := by
    rintro a - b ⟨-, _, _, _, _, other, -, -, -, hother, -⟩
    exact (hmembers b).mpr ⟨other, Table.find?_mem hother⟩
  obtain ⟨thread, hthread, hfree⟩ := exists_not_waiting hrank hnonempty hclosed
  obtain ⟨other, hother, rfl⟩ := (hmembers thread).mp hthread
  exact ⟨other, hother, hfree,
    exists_healthy_move htxs hreach (Table.find?_of_mem hother) hfree⟩

theorem transfers_deadlock_free_sample :
    (∀ thread, ¬Relation.TransGen (Waits Sample.crossing) thread thread) ∧
    (∀ tx ∈ Sample.crossing.world.txs.rows, ∃ other ∈ Sample.crossing.world.txs.rows,
      (∀ third, ¬Waits Sample.crossing other.owner third) ∧ ∃ choice next, choice.fail = none ∧
        (transfers Sample.deps).move Sample.crossing (.run other.owner choice) = some next) :=
  transfers_deadlock_free rfl Sample.crossing_reachable

end Transfers
end SimpleBank
