import SimpleBank.Steps

/-! What holds in every run, whatever programs are served. -/
namespace SimpleBank
open Library Db

variable {J α : Type} {deps : Deps} {accepts : World → J → Bool} {serve : J → Act α}

namespace World

variable {w w' : World} {change : External}

/-- From outside, only the clock moves and a session is blocked. -/
theorem external_spec (h : World.external change w = some w') :
    w'.txs = w.txs ∧ w'.tasks = w.tasks ∧ w'.issued = w.issued ∧ w.clock ≤ w'.clock ∧
    (w'.db = w.db ∨ ∃ row, w.db.sessions.find? row.id = some row ∧
      w.grants none [⟨.session row.id, .noKeyUpdate⟩] = true ∧
      w'.db = w.db.put (.session { row with isBlocked := true })) := by
  cases change with
  | tick elapsed =>
    cases h
    exact ⟨rfl, rfl, rfl, Int.le_add_of_nonneg_right (Int.natCast_nonneg _), .inl rfl⟩
  | block session =>
    simp only [World.external] at h
    split at h
    · cases h
      exact ⟨rfl, rfl, rfl, Int.le_refl _, .inl rfl⟩
    · rename_i row hfind
      obtain ⟨-, hid⟩ := Table.find?_mem hfind
      split at h
      · rename_i hgrants
        cases h
        exact ⟨rfl, rfl, rfl, Int.le_refl _, .inr ⟨row, hid ▸ hfind, hid ▸ hgrants, rfl⟩⟩
      · cases h

theorem external_users (h : World.external change w = some w') : w'.db.users = w.db.users := by
  obtain ⟨-, -, -, -, hdb | ⟨row, -, -, hdb⟩⟩ := external_spec h
  · rw [hdb]
  · rw [hdb]
    rfl

theorem admits_block {row : Session} (hfind : w.db.sessions.find? row.id = some row) :
    Store.Admits w.db [Row.session { row with isBlocked := true }] := by
  intro new hnew old hold
  rw [List.mem_singleton.mp hnew] at hold ⊢
  cases (Database.lookup_session.mpr hfind).symm.trans hold
  rfl

theorem external_extends (h : World.external change w = some w') :
    Store.Extends w.db w'.db := by
  obtain ⟨-, -, -, -, hdb | ⟨row, hfind, -, hdb⟩⟩ := external_spec h
  · rw [hdb]
    exact Store.Extends.refl _
  · rw [hdb]
    exact Store.extends_write (admits_block hfind)

theorem Sound.external (hsound : w.Sound) (h : World.external change w = some w') : w'.Sound := by
  obtain ⟨htxs, -, -, -, hdb⟩ := external_spec h
  have hstate : w'.toTxState = ⟨w'.db, w.txs⟩ := by rw [← htxs]
  refine ⟨?_, by rw [htxs]; exact hsound.timed⟩
  rw [hstate]
  rcases hdb with hdb | ⟨row, hfind, hgrants, hdb⟩
  · rw [hdb]
    exact hsound.isolated
  · rw [hdb]
    refine hsound.isolated.write hgrants ?_ (admits_block hfind)
    intro new hnew
    rw [List.mem_singleton.mp hnew]
    exact ⟨_, List.mem_cons_self, rfl, rfl⟩

end World

/-- The state of a run, as its history tells it. -/
structure Regular (config : Config Op Op.Reply World J α) : Prop where
  sound : config.world.Sound
  tracks : ∀ thread, config.world.Tracks thread (config.history thread)
  seen : ∀ thread stmt row, Exchange.mk (.sql .pool stmt) (.ok row) ∈ config.history thread →
    config.world.db.Seen (stmt.returned row)

theorem Regular.initial {w : World} (h : w.txs = .empty) :
    Regular (.initial w : Config Op Op.Reply World J α) where
  sound := ⟨TxState.isolated_of_empty h, by simp [Config.initial, h, Table.empty]⟩
  tracks thread := by simp [World.Tracks, Config.initial, Config.history, h]
  seen thread stmt row hmem := by simp [Config.initial, Config.history] at hmem

theorem Regular.takes {config next : Config Op Op.Reply World J α} (h : Regular config)
    {thread : Nat} {job : J} {op : Op} {reply : op.Reply}
    (htakes : (World.system deps accepts serve).Takes config thread job op reply next) :
    Regular next := by
  have hstep : config.world.step deps thread htakes.choice op = some (reply, next.world) :=
    htakes.step_eq
  have hextends := World.step_extends h.sound hstep
  refine ⟨h.sound.step hstep, ?_, ?_⟩
  · intro other
    by_cases heq : other = thread
    · subst heq
      rw [htakes.history_self]
      exact (h.tracks other).step hstep
    · have hsame := (World.stepped_of_step hstep).move.find?_of_ne heq
      unfold World.Tracks
      rw [hsame, htakes.history_of_ne heq]
      exact h.tracks other
  · intro other stmt row hmem
    by_cases heq : other = thread
    · subst heq
      rw [htakes.history_self] at hmem
      rcases List.mem_append.mp hmem with hmem | hmem
      · exact (h.seen other stmt row hmem).mono hextends
      · cases List.mem_singleton.mp hmem
        exact World.step_seen hstep
    · rw [htakes.history_of_ne heq] at hmem
      exact (h.seen other stmt row hmem).mono hextends

theorem Regular.reach {ok : Config Op Op.Reply World J α → Event J Choice External → Prop}
    {w : World} (hstart : w.txs = .empty) {config : Config Op Op.Reply World J α}
    (h : (World.system deps accepts serve).Reach ok (.initial w) config) : Regular config := by
  induction h with
  | start => exact .initial hstart
  | move _ _ hmove ih =>
    rcases System.move_cases hmove with ⟨job, rfl, -, rfl⟩ | ⟨_, _, _, _, _, rfl, ⟨htakes⟩⟩ |
      ⟨change, world, rfl, hexternal, rfl⟩
    · exact ⟨ih.sound, ih.tracks, ih.seen⟩
    · exact ih.takes htakes
    · obtain ⟨htxs, -⟩ := World.external_spec hexternal
      refine ⟨ih.sound.external hexternal, ?_, ?_⟩
      · intro thread
        have := ih.tracks thread
        unfold World.Tracks at this ⊢
        rw [← htxs] at this
        exact this
      · exact fun thread stmt row hmem =>
          (ih.seen thread stmt row hmem).mono (World.external_extends hexternal)

theorem Regular.extends_takes {config next : Config Op Op.Reply World J α} (h : Regular config)
    {thread : Nat} {job : J} {op : Op} {reply : op.Reply}
    (htakes : (World.system deps accepts serve).Takes config thread job op reply next) :
    Store.Extends config.world.db next.world.db :=
  World.step_extends h.sound htakes.step_eq

/-- Rows stay, whatever happens. -/
theorem Regular.extends_move {config next : Config Op Op.Reply World J α} (h : Regular config)
    {event : Event J Choice External}
    (hmove : (World.system deps accepts serve).move config event = some next) :
    Store.Extends config.world.db next.world.db := by
  rcases System.move_cases hmove with ⟨_, rfl, -, rfl⟩ | ⟨_, _, _, _, _, rfl, ⟨htakes⟩⟩ |
    ⟨change, world, rfl, hexternal, rfl⟩
  · exact Store.Extends.refl _
  · exact h.extends_takes htakes
  · exact World.external_extends hexternal

theorem Regular.extends_reach {w : World} (hstart : w.txs = .empty)
    {ok : Config Op Op.Reply World J α → Event J Choice External → Prop}
    {config next : Config Op Op.Reply World J α}
    (h : (World.system deps accepts serve).Reachable (.initial w) config)
    (hreach : (World.system deps accepts serve).Reach ok config next) :
    Store.Extends config.world.db next.world.db := by
  induction hreach with
  | start => exact Store.Extends.refl _
  | move hbefore _ hmove ih =>
    exact ih.trans ((Regular.reach hstart (h.trans hbefore)).extends_move hmove)

/-- What a call of a thread commits. -/
theorem Regular.executes {config next : Config Op Op.Reply World J α} (h : Regular config)
    {thread : Nat} {job : J} {op : Op} {reply : op.Reply}
    (htakes : (World.system deps accepts serve).Takes config thread job op reply next) :
    ∃ calls : List Execution,
      calls.map Execution.ran = committed (openTx (config.history thread)) ⟨op, reply⟩ ∧
      Statements.Replays config.world.db calls ∧
      next.world.db = Store.write config.world.db (Statements.writtenBy Database calls) :=
  World.step_executes h.sound (h.tracks thread) htakes.step_eq

end SimpleBank
