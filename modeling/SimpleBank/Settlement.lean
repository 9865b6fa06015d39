import SimpleBank.Effects

/-! How a request ends: with everything it has written committed, or with
nothing committed at all. -/
namespace SimpleBank
open Library Db

theorem writtenBy_eq (calls : List Execution) :
    Statements.writtenBy Database calls = (calls.map Execution.ran).flatMap Ran.rows := by
  rw [List.flatMap_map]
  rfl

section Settlement

variable {deps : Deps} {w : World} {config next : ServiceConfig} {thread : Nat} {job : Job}
  {ok : ServiceConfig → Event Job Choice External → Prop}

/-- A call of a thread writes what the history of the thread says it commits. -/
theorem write_of_takes (htxs : w.txs = .empty) (hreach : (service deps).Reach ok (.initial w) config)
    {op : Op} {reply : op.Reply} (htakes : (service deps).Takes config thread job op reply next) :
    next.world.db = Store.write config.world.db
      ((committed (openTx (config.history thread)) ⟨op, reply⟩).flatMap Ran.rows) := by
  obtain ⟨calls, hran, -, hdb⟩ := (Regular.reach htxs hreach).executes htakes
  rw [hdb, writtenBy_eq, hran]

/-- The rows that each call of a thread has committed. -/
def Commitments (config : ServiceConfig) (thread : Nat) (pieces : List (List Row)) : Prop :=
  List.Forall₂ (fun (taken : Taken Op Op.Reply World) rows =>
      taken.after.db = Store.write taken.before.db rows)
    (config.trace.filter fun taken => taken.thread = thread) pieces

/-- Call by call, a thread has committed what its history says. -/
theorem exists_commitments (htxs : w.txs = .empty)
    (hreach : (service deps).Reach ok (.initial w) config) (thread : Nat) :
    ∃ pieces, Commitments config thread pieces ∧
      pieces.flatten = durable (config.history thread) := by
  induction hreach with
  | start => exact ⟨[], .nil, rfl⟩
  | @move config next _ hreach _ hmove ih =>
    rcases System.move_cases hmove with ⟨job, rfl, -, rfl⟩ |
      ⟨mover, choice, job, op, reply, rfl, ⟨htakes⟩⟩ | ⟨change, world, rfl, hexternal, rfl⟩
    · exact ih
    · obtain ⟨pieces, hpieces, hflatten⟩ := ih
      by_cases heq : mover = thread
      · subst heq
        refine ⟨pieces ++ [(committed (openTx (config.history mover)) ⟨op, reply⟩).flatMap Ran.rows],
          ?_, ?_⟩
        · rw [Commitments, htakes.trace_eq, List.filter_append]
          simp only [List.filter_singleton, decide_true, cond_true]
          exact List.rel_append hpieces (.cons (write_of_takes htxs hreach htakes) .nil)
        · rw [htakes.history_self, durable_append, List.flatten_append, hflatten]
          simp
      · refine ⟨pieces, ?_, ?_⟩
        · have hother : [(⟨mover, ⟨op, reply⟩, config.world, next.world⟩ :
              Taken Op Op.Reply World)].filter (fun taken => taken.thread = thread) = [] := by
            simp [heq]
          rw [Commitments, htakes.trace_eq, List.filter_append, hother, List.append_nil]
          exact hpieces
        · rw [htakes.history_of_ne (Ne.symm heq), hflatten]
    · exact ih

/-- An event of a run in which nobody but one thread makes calls. -/
def Alone (thread : Nat) : Event Job Choice External → Prop
  | .run mover _ => mover = thread
  | .external (.tick _) => True
  | _ => False

/-- What a request that runs alone leaves behind. -/
theorem alone_run (htxs : w.txs = .empty) {db : Database} {current : ServiceConfig}
    {events : List (Event Job Choice External)}
    (hreach : (service deps).Reachable (.initial w) current)
    (hdb : current.world.db = Store.write db (durable (current.history thread)))
    (hrun : (service deps).run current events = some config)
    (halone : ∀ event ∈ events, Alone thread event) :
    config.world.db = Store.write db (durable (config.history thread)) := by
  induction events generalizing current with
  | nil =>
    cases hrun
    exact hdb
  | cons event events ih =>
    obtain ⟨next, hmove, hrest⟩ := Option.bind_eq_some_iff.mp hrun
    refine ih (.move hreach trivial hmove) ?_ hrest
      fun other hmem => halone other (List.mem_cons_of_mem _ hmem)
    have hevent := halone event List.mem_cons_self
    rcases System.move_cases hmove with ⟨job, rfl, -, rfl⟩ |
      ⟨mover, choice, job, op, reply, rfl, ⟨htakes⟩⟩ | ⟨change, world, rfl, hexternal, rfl⟩
    · exact hevent.elim
    · cases (show mover = thread from hevent)
      rw [write_of_takes htxs hreach htakes, hdb, htakes.history_self, durable_append,
        Store.write_append]
    · cases change with
      | tick elapsed =>
        cases hexternal
        exact hdb
      | block session => exact hevent.elim

theorem settled_of_done (hreach : (service deps).Reach ok (.initial w) config) {response : Response}
    (hthread : config.threads[thread]? = some ⟨job, .done response⟩)
    (hreply : (∃ reply, response = .http reply) ∨ ∃ reply, response = .rpc reply) :
    Settled (config.history thread) response.success := by
  have hends := (service_verified deps).at_end hreach hthread
  rcases hreply with ⟨reply, rfl⟩ | ⟨reply, rfl⟩
  · exact hends
  · exact hends

theorem Commitments.unchanged {pieces : List (List Row)} (h : Commitments config thread pieces)
    (hnil : pieces.flatten = []) :
    ∀ taken ∈ config.trace, taken.thread = thread → taken.after.db = taken.before.db := by
  intro taken hmem hthread
  have hfiltered : taken ∈ config.trace.filter fun taken => taken.thread = thread :=
    List.mem_filter.mpr ⟨hmem, by simpa using hthread⟩
  obtain ⟨i, hlt, hget⟩ := List.getElem_of_mem hfiltered
  have hlt' : i < pieces.length := h.length_eq ▸ hlt
  have hwrite := (List.forall₂_iff_get.mp h).2 i hlt hlt'
  have hpiece : pieces[i] = [] := List.flatten_eq_nil_iff.mp hnil _ (List.getElem_mem hlt')
  simp only [List.get_eq_getElem, hget, hpiece] at hwrite
  exact hwrite

/-- A reply that is no success means that no call of the request has changed
the tables, and a success that all its writes are committed.  A request that
runs alone has accordingly left the tables as they were, or with its writes. -/
theorem replies_settled (htxs : w.txs = .empty)
    (hreach : (service deps).Reachable (.initial w) config) {response : Response}
    (hthread : config.threads[thread]? = some ⟨job, .done response⟩)
    (hreply : (∃ reply, response = .http reply) ∨ ∃ reply, response = .rpc reply) :
    (response.success = false →
      ∀ taken ∈ config.trace, taken.thread = thread → taken.after.db = taken.before.db) ∧
    (response.success = true →
      ∃ pieces, Commitments config thread pieces ∧
        pieces.flatten = writes (config.history thread)) ∧
    ∀ before events, (service deps).Reachable (.initial w) before →
      thread = before.threads.length →
      (service deps).run before (.arrive job :: events) = some config →
      (∀ event ∈ events, Alone thread event) →
      (response.success = false → config.world.db = before.world.db) ∧
      (response.success = true →
        config.world.db = Store.write before.world.db (writes (config.history thread))) := by
  have hsettled := settled_of_done hreach hthread hreply
  obtain ⟨pieces, hpieces, hflatten⟩ := exists_commitments htxs hreach thread
  refine ⟨?_, ?_, ?_⟩
  · intro hrefused
    exact hpieces.unchanged (hflatten.trans (hsettled.refused hrefused))
  · intro hsuccess
    exact ⟨pieces, hpieces, hflatten.trans (hsettled.committed hsuccess)⟩
  · intro before events hbefore hnew hrun halone
    obtain ⟨arrived, hmove, hrest⟩ := Option.bind_eq_some_iff.mp hrun
    have hdb : config.world.db =
        Store.write before.world.db (durable (config.history thread)) := by
      refine alone_run htxs (.move hbefore trivial hmove) ?_ hrest halone
      rcases System.move_cases hmove with ⟨_, _, -, rfl⟩ | ⟨_, _, _, _, _, hevent, -⟩ |
        ⟨_, _, hevent, -, -⟩
      · have hnil : before.history thread = [] := hbefore.follows.fresh thread (by omega)
        change before.world.db = Store.write before.world.db (durable (before.history thread))
        rw [hnil]
        rfl
      · cases hevent
      · cases hevent
    refine ⟨fun hrefused => ?_, fun hsuccess => ?_⟩
    · rw [hdb, hsettled.refused hrefused]
      rfl
    · rw [hdb, hsettled.committed hsuccess]

end Settlement

def Sample.transfer : Job := ⟨.createTransfer "Bearer alice" (.ok ⟨1, 2, 10, "USD"⟩), 0⟩

/-- A transfer loses its connection after the first balance update. -/
def Sample.failing : List (Event Job Choice External) :=
  [.run 0 {}, .run 0 {}, .run 0 {}, .run 0 {}, .run 0 {}, .run 0 { generated := 2 }, .run 0 {},
    .run 0 { fail := some ⟨.text "connection lost", rfl⟩ }, .run 0 {}]

theorem Sample.failing_runs : ((service Sample.deps).run (.initial Sample.funded)
    (.arrive Sample.transfer :: Sample.failing)).isSome = true := by
  decide +kernel

def Sample.failed : ServiceConfig := ((service Sample.deps).run (.initial Sample.funded)
  (.arrive Sample.transfer :: Sample.failing)).get Sample.failing_runs

theorem Sample.failed_runs : (service Sample.deps).run (.initial Sample.funded)
    (.arrive Sample.transfer :: Sample.failing) = some Sample.failed :=
  (Option.some_get Sample.failing_runs).symm

theorem Sample.failed_replies : Sample.failed.threads[0]? =
    some ⟨Sample.transfer, .done (.http ⟨500, .error "connection lost"⟩)⟩ := by
  rfl

theorem replies_settled_sample : Sample.failed.world.db = Sample.funded.db :=
  ((replies_settled rfl (.of_run Sample.failed_runs) Sample.failed_replies (.inl ⟨_, rfl⟩)).2.2
    (.initial Sample.funded) Sample.failing .start rfl Sample.failed_runs
    (by simp [Sample.failing, Alone])).1 rfl

end SimpleBank
