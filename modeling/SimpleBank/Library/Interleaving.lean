import Mathlib.Tactic.Common
import SimpleBank.Library.Program

/-! Programs that run concurrently over one shared state.  A system takes one
call of one thread at a time, in any order, and threads may arrive at any time.
The trace keeps every call with the states around it. -/
namespace SimpleBank.Library

/-- `accepts` says which threads may arrive in a state, `step` carries out one
call of one thread under a choice of the environment, and `external` is
whatever changes the state without being a thread. -/
structure System (Op : Type) (Reply : Op → Type) (S Job Choice External α : Type) where
  accepts : S → Job → Bool
  serve : Job → Program Op Reply α
  step : Nat → Choice → (op : Op) → S → Option (Reply op × S)
  external : External → S → Option S

structure Thread (Op : Type) (Reply : Op → Type) (Job α : Type) where
  job : Job
  program : Program Op Reply α

/-- One call of one thread, and the states before and after it. -/
structure Taken (Op : Type) (Reply : Op → Type) (S : Type) where
  thread : Nat
  exchange : Exchange Op Reply
  before : S
  after : S

structure Config (Op : Type) (Reply : Op → Type) (S Job α : Type) where
  world : S
  threads : List (Thread Op Reply Job α)
  trace : List (Taken Op Reply S)

inductive Event (Job Choice External : Type) where
  | arrive (job : Job)
  | run (thread : Nat) (choice : Choice)
  | external (change : External)

variable {Op : Type} {Reply : Op → Type} {S Job Choice External α : Type}

namespace Config

def initial (world : S) : Config Op Reply S Job α := ⟨world, [], []⟩

/-- The calls of one thread and their replies. -/
def history (config : Config Op Reply S Job α) (thread : Nat) : List (Exchange Op Reply) :=
  (config.trace.filter fun taken => taken.thread = thread).map Taken.exchange

def job? (config : Config Op Reply S Job α) (thread : Nat) : Option Job :=
  config.threads[thread]?.map Thread.job

/-- Every state a call has found or left, and the present one. -/
def visited (config : Config Op Reply S Job α) : List S :=
  config.trace.flatMap (fun taken => [taken.before, taken.after]) ++ [config.world]

end Config

theorem Config.mem_history {config : Config Op Reply S Job α} {thread : Nat}
    {exchange : Exchange Op Reply} : exchange ∈ config.history thread ↔
      ∃ taken ∈ config.trace, taken.thread = thread ∧ taken.exchange = exchange := by
  simp [Config.history, and_assoc]

theorem Config.forall_visited {config : Config Op Reply S Job α} {P : S → Prop} :
    (∀ state ∈ config.visited, P state) ↔
      (∀ taken ∈ config.trace, P taken.before ∧ P taken.after) ∧ P config.world := by
  simp only [Config.visited, List.mem_append, List.mem_flatMap, List.mem_cons, List.not_mem_nil,
    or_false]
  constructor
  · intro h
    exact ⟨fun taken hmem => ⟨h _ (.inl ⟨taken, hmem, .inl rfl⟩), h _ (.inl ⟨taken, hmem, .inr rfl⟩)⟩,
      h _ (.inr rfl)⟩
  · rintro ⟨htrace, hworld⟩ state (⟨taken, hmem, rfl | rfl⟩ | rfl)
    · exact (htrace taken hmem).1
    · exact (htrace taken hmem).2
    · exact hworld

namespace System

variable (sys : System Op Reply S Job Choice External α)

def move (config : Config Op Reply S Job α) :
    Event Job Choice External → Option (Config Op Reply S Job α)
  | .arrive job =>
    if sys.accepts config.world job then
      some { config with threads := config.threads ++ [⟨job, sys.serve job⟩] }
    else none
  | .run thread choice =>
    match config.threads[thread]? with
    | some ⟨job, .call op next⟩ =>
      (sys.step thread choice op config.world).map fun result =>
        { world := result.2
          threads := config.threads.set thread ⟨job, next result.1⟩
          trace := config.trace ++ [⟨thread, ⟨op, result.1⟩, config.world, result.2⟩] }
    | _ => none
  | .external change => (sys.external change config.world).map fun world => { config with world }

def run (config : Config Op Reply S Job α) :
    List (Event Job Choice External) → Option (Config Op Reply S Job α)
  | [] => some config
  | event :: events => (sys.move config event).bind fun next => run next events

/-- The configurations of all runs from `start` whose every event is allowed by `ok`. -/
inductive Reach (ok : Config Op Reply S Job α → Event Job Choice External → Prop)
    (start : Config Op Reply S Job α) : Config Op Reply S Job α → Prop
  | start : Reach ok start start
  | move {config next : Config Op Reply S Job α} {event : Event Job Choice External} :
      Reach ok start config → ok config event → sys.move config event = some next →
      Reach ok start next

/-- Every run from `start`. -/
abbrev Reachable (start config : Config Op Reply S Job α) : Prop :=
  sys.Reach (fun _ _ => True) start config

/-- One call of `thread`, which serves `job`, as part of a move. -/
structure Takes (config : Config Op Reply S Job α) (thread : Nat) (job : Job) (op : Op)
    (reply : Reply op) (next : Config Op Reply S Job α) where
  rest : Reply op → Program Op Reply α
  choice : Choice
  thread_eq : config.threads[thread]? = some ⟨job, .call op rest⟩
  step_eq : sys.step thread choice op config.world = some (reply, next.world)
  threads_eq : next.threads = config.threads.set thread ⟨job, rest reply⟩
  trace_eq : next.trace = config.trace ++ [⟨thread, ⟨op, reply⟩, config.world, next.world⟩]

variable {sys}

theorem Reach.mono {ok ok' : Config Op Reply S Job α → Event Job Choice External → Prop}
    {start config : Config Op Reply S Job α}
    (hok : ∀ config event, ok config event → ok' config event)
    (h : sys.Reach ok start config) : sys.Reach ok' start config := by
  induction h with
  | start => exact .start
  | move _ hevent hmove ih => exact .move ih (hok _ _ hevent) hmove

theorem Reach.reachable {ok : Config Op Reply S Job α → Event Job Choice External → Prop}
    {start config : Config Op Reply S Job α} (h : sys.Reach ok start config) :
    sys.Reachable start config :=
  h.mono fun _ _ _ => trivial

/-- Events that are allowed wherever they happen can follow any run. -/
theorem Reach.extend {ok : Config Op Reply S Job α → Event Job Choice External → Prop}
    {start current config : Config Op Reply S Job α} {events : List (Event Job Choice External)}
    (h : sys.Reach ok start current) (hok : ∀ event ∈ events, ∀ config, ok config event)
    (hrun : sys.run current events = some config) : sys.Reach ok start config := by
  induction events generalizing current with
  | nil => cases hrun; exact h
  | cons event events ih =>
    obtain ⟨next, hmove, hrest⟩ := Option.bind_eq_some_iff.mp hrun
    exact ih (.move h (hok event List.mem_cons_self current) hmove)
      (fun other hmem => hok other (List.mem_cons_of_mem _ hmem)) hrest

theorem Reachable.extend {start current config : Config Op Reply S Job α}
    {events : List (Event Job Choice External)} (h : sys.Reachable start current)
    (hrun : sys.run current events = some config) : sys.Reachable start config :=
  Reach.extend h (fun _ _ _ => trivial) hrun

theorem Reachable.of_run {start config : Config Op Reply S Job α}
    {events : List (Event Job Choice External)} (h : sys.run start events = some config) :
    sys.Reachable start config :=
  Reachable.extend .start h

/-- What one event does, by kind. -/
theorem move_cases {config next : Config Op Reply S Job α} {event : Event Job Choice External}
    (h : sys.move config event = some next) :
    (∃ job, event = .arrive job ∧ sys.accepts config.world job = true ∧
      next = { config with threads := config.threads ++ [⟨job, sys.serve job⟩] }) ∨
    (∃ thread choice job op reply, event = .run thread choice ∧
      Nonempty (sys.Takes config thread job op reply next)) ∨
    (∃ change world, event = .external change ∧
      sys.external change config.world = some world ∧ next = { config with world }) := by
  cases event with
  | arrive job =>
    simp only [move] at h
    split at h
    · exact .inl ⟨job, rfl, ‹_›, (Option.some.inj h).symm⟩
    · cases h
  | run thread choice =>
    simp only [move] at h
    split at h
    · rename_i job op rest hthread
      obtain ⟨⟨reply, world⟩, hstep, rfl⟩ := Option.map_eq_some_iff.mp h
      exact .inr (.inl ⟨thread, choice, job, op, reply, rfl,
        ⟨rest, choice, hthread, hstep, rfl, rfl⟩⟩)
    · cases h
  | external change =>
    obtain ⟨world, hexternal, hnext⟩ := Option.map_eq_some_iff.mp h
    exact .inr (.inr ⟨change, world, rfl, hexternal, hnext.symm⟩)

/-- A call is taken under the choice of its event. -/
theorem Takes.step_choice {config next : Config Op Reply S Job α} {thread : Nat} {job : Job}
    {op : Op} {reply : Reply op} (h : sys.Takes config thread job op reply next) {choice : Choice}
    (hmove : sys.move config (.run thread choice) = some next) :
    sys.step thread choice op config.world = some (reply, next.world) := by
  obtain ⟨rest, -, hthread, -, -, htrace⟩ := h
  simp only [move, hthread, Option.map_eq_some_iff] at hmove
  obtain ⟨⟨found, world⟩, hstep, rfl⟩ := hmove
  simp only [List.append_cancel_left_eq, List.cons.injEq, Taken.mk.injEq, Exchange.mk.injEq,
    heq_eq_eq, true_and, and_true] at htrace
  rw [hstep, htrace]

theorem exists_move {config : Config Op Reply S Job α} {thread : Nat} {job : Job} {op : Op}
    {rest : Reply op → Program Op Reply α} (hthread : config.threads[thread]? = some ⟨job, .call op rest⟩)
    {choice : Choice} {reply : Reply op} {world : S}
    (hstep : sys.step thread choice op config.world = some (reply, world)) :
    ∃ next, sys.move config (.run thread choice) = some next := by
  simp [move, hthread, hstep]

/-- A thread that never has to wait, as long as what it keeps true holds, comes
to its end, one call after another. -/
theorem exists_done {owes : List (Exchange Op Reply) → Op → Prop} {chooses : Choice → Prop}
    {thread : Nat} {job : Job} {valid : (op : Op) → Reply op → Prop}
    {post : List (Exchange Op Reply) → α → Prop} (inv : List (Exchange Op Reply) → S → Prop)
    (hstep : ∀ history op state, owes history op → inv history state → ∃ choice reply later,
      chooses choice ∧ sys.step thread choice op state = some (reply, later) ∧ valid op reply ∧
      inv (history ++ [⟨op, reply⟩]) later)
    {program : Program Op Reply α} {config : Config Op Reply S Job α}
    {history : List (Exchange Op Reply)} (halways : program.Always owes valid post history)
    (hinv : inv history config.world) (hthread : config.threads[thread]? = some ⟨job, program⟩) :
    ∃ events final value, (∀ event ∈ events, ∃ choice, event = .run thread choice ∧ chooses choice) ∧
      sys.run config events = some final ∧
      final.threads[thread]? = some ⟨job, .done value⟩ ∧ ∃ history, post history value := by
  induction program generalizing config history with
  | done value => exact ⟨[], config, value, fun _ h => (nomatch h), rfl, hthread, history, halways⟩
  | call op next ih =>
    obtain ⟨choice, reply, later, hchooses, htaken, hvalid, hlater⟩ :=
      hstep history op config.world halways.1 hinv
    obtain ⟨hlt, -⟩ := List.getElem?_eq_some_iff.mp hthread
    obtain ⟨after, hmove, hworld, hafter⟩ : ∃ after : Config Op Reply S Job α,
        sys.move config (.run thread choice) = some after ∧ after.world = later ∧
        after.threads[thread]? = some ⟨job, next reply⟩ := by
      refine ⟨⟨later, config.threads.set thread ⟨job, next reply⟩,
        config.trace ++ [⟨thread, ⟨op, reply⟩, config.world, later⟩]⟩, ?_, rfl,
        List.getElem?_set_self hlt⟩
      simp [move, hthread, htaken]
    obtain ⟨events, final, value, hevents, hrun, hfinal⟩ :=
      ih reply (halways.2 reply hvalid) (hworld ▸ hlater) hafter
    refine ⟨.run thread choice :: events, final, value, ?_, ?_, hfinal⟩
    · intro event hmem
      rcases List.mem_cons.mp hmem with rfl | hmem
      · exact ⟨choice, rfl, hchooses⟩
      · exact hevents event hmem
    · rw [run, hmove]
      exact hrun

section Takes

variable {config next : Config Op Reply S Job α} {thread : Nat} {job : Job} {op : Op}
  {reply : Reply op}

theorem Takes.history_self (h : sys.Takes config thread job op reply next) :
    next.history thread = config.history thread ++ [⟨op, reply⟩] := by
  simp [Config.history, h.trace_eq]

theorem Takes.history_of_ne (h : sys.Takes config thread job op reply next) {other : Nat}
    (hne : other ≠ thread) : next.history other = config.history other := by
  simp [Config.history, h.trace_eq, hne.symm]

theorem Takes.job_eq (h : sys.Takes config thread job op reply next) :
    config.job? thread = some job := by
  simp [Config.job?, h.thread_eq]

theorem Takes.thread_next (h : sys.Takes config thread job op reply next) :
    next.threads[thread]? = some ⟨job, h.rest reply⟩ := by
  obtain ⟨hlt, -⟩ := List.getElem?_eq_some_iff.mp h.thread_eq
  rw [h.threads_eq, List.getElem?_set_self hlt]

/-- Which thread serves which job is settled when the thread arrives. -/
theorem Takes.job?_eq (h : sys.Takes config thread job op reply next) (other : Nat) :
    next.job? other = config.job? other := by
  obtain ⟨hlt, -⟩ := List.getElem?_eq_some_iff.mp h.thread_eq
  unfold Config.job?
  rw [h.threads_eq]
  by_cases heq : thread = other
  · subst heq
    rw [List.getElem?_set_self hlt, h.thread_eq]
    rfl
  · rw [List.getElem?_set_ne heq]

end Takes

/-- What one event adds: nobody's job changes, and histories only grow. -/
structure Continues (config next : Config Op Reply S Job α) : Prop where
  job?_eq : ∀ thread job, config.job? thread = some job → next.job? thread = some job
  history_prefix : ∀ thread, config.history thread <+: next.history thread

theorem Continues.refl (config : Config Op Reply S Job α) : Continues config config :=
  ⟨fun _ _ h => h, fun _ => List.prefix_rfl⟩

theorem Continues.trans {a b c : Config Op Reply S Job α} (hab : Continues a b)
    (hbc : Continues b c) : Continues a c :=
  ⟨fun thread job h => hbc.job?_eq thread job (hab.job?_eq thread job h),
    fun thread => (hab.history_prefix thread).trans (hbc.history_prefix thread)⟩

theorem continues_arrive (config : Config Op Reply S Job α) (thread : Thread Op Reply Job α) :
    Continues config { config with threads := config.threads ++ [thread] } := by
  refine ⟨fun other job hjob => ?_, fun _ => List.prefix_rfl⟩
  obtain ⟨found, hfound, rfl⟩ := Option.map_eq_some_iff.mp hjob
  obtain ⟨hlt, -⟩ := List.getElem?_eq_some_iff.mp hfound
  rw [Config.job?, List.getElem?_append_left hlt, hfound]
  rfl

theorem Takes.continues {config next : Config Op Reply S Job α} {thread : Nat} {job : Job} {op : Op}
    {reply : Reply op} (h : sys.Takes config thread job op reply next) : Continues config next := by
  refine ⟨fun other otherJob hjob => (h.job?_eq other).trans hjob, fun other => ?_⟩
  by_cases heq : other = thread
  · subst heq
    rw [h.history_self]
    exact List.prefix_append _ _
  · simp [h.history_of_ne heq]

theorem continues_move {config next : Config Op Reply S Job α} {event : Event Job Choice External}
    (h : sys.move config event = some next) : Continues config next := by
  rcases move_cases h with ⟨job, rfl, -, rfl⟩ | ⟨_, _, _, _, _, rfl, ⟨htakes⟩⟩ | ⟨_, _, rfl, -, rfl⟩
  · exact continues_arrive config _
  · exact htakes.continues
  · exact ⟨fun _ _ hjob => hjob, fun _ => List.prefix_rfl⟩

/-- Every thread has come as far in its program as its history says. -/
structure Follows (sys : System Op Reply S Job Choice External α)
    (config : Config Op Reply S Job α) : Prop where
  reaches : ∀ thread job program, config.threads[thread]? = some ⟨job, program⟩ →
    (sys.serve job).Reaches (config.history thread) program
  fresh : ∀ thread, config.threads.length ≤ thread → config.history thread = []

theorem Follows.arrive {config : Config Op Reply S Job α} (h : sys.Follows config) (job : Job) :
    sys.Follows { config with threads := config.threads ++ [⟨job, sys.serve job⟩] } := by
  refine ⟨?_, ?_⟩
  · intro thread other program hat
    rcases Nat.lt_trichotomy thread config.threads.length with hlt | heq | hgt
    · rw [List.getElem?_append_left hlt] at hat
      exact h.reaches thread other program hat
    · subst heq
      simp only [List.getElem?_concat_length, Option.some.injEq, Thread.mk.injEq] at hat
      obtain ⟨rfl, rfl⟩ := hat
      have hnil := h.fresh _ (Nat.le_refl _)
      simp only [Config.history] at hnil ⊢
      rw [hnil]
      exact .start
    · rw [List.getElem?_eq_none (by simp; omega)] at hat
      cases hat
  · intro thread hlength
    simp only [List.length_append, List.length_singleton] at hlength
    exact h.fresh thread (by omega)

/-- Whoever has made a call is there, and serves the same job from then on. -/
theorem Follows.job?_arrive {config : Config Op Reply S Job α} (h : sys.Follows config) (job : Job)
    {taken : Taken Op Reply S} (hmem : taken ∈ config.trace) :
    Config.job? { config with threads := config.threads ++ [⟨job, sys.serve job⟩] } taken.thread =
      config.job? taken.thread := by
  have hlt : taken.thread < config.threads.length := by
    by_contra hge
    have hnil := h.fresh taken.thread (Nat.not_lt.mp hge)
    rw [Config.history, List.map_eq_nil_iff, List.filter_eq_nil_iff] at hnil
    simpa using hnil taken hmem
  rw [Config.job?, Config.job?, List.getElem?_append_left hlt]

theorem Follows.takes {config next : Config Op Reply S Job α} {thread : Nat} {job : Job}
    {op : Op} {reply : Reply op} (h : sys.Follows config)
    (htakes : sys.Takes config thread job op reply next) : sys.Follows next := by
  obtain ⟨hlt, -⟩ := List.getElem?_eq_some_iff.mp htakes.thread_eq
  refine ⟨?_, ?_⟩
  · intro other otherJob program hat
    rw [htakes.threads_eq] at hat
    by_cases heq : thread = other
    · subst heq
      simp only [List.getElem?_set_self hlt, Option.some.injEq, Thread.mk.injEq] at hat
      obtain ⟨rfl, rfl⟩ := hat
      rw [htakes.history_self]
      exact .reply reply (h.reaches thread job _ htakes.thread_eq)
    · rw [List.getElem?_set_ne heq] at hat
      rw [htakes.history_of_ne (Ne.symm heq)]
      exact h.reaches other otherJob program hat
  · intro other hlength
    rw [htakes.threads_eq, List.length_set] at hlength
    rw [htakes.history_of_ne (by omega)]
    exact h.fresh other hlength

theorem Reach.follows {ok : Config Op Reply S Job α → Event Job Choice External → Prop}
    {world : S} {config : Config Op Reply S Job α}
    (h : sys.Reach ok (.initial world) config) : sys.Follows config := by
  induction h with
  | start => exact ⟨by simp [Config.initial], by simp [Config.initial, Config.history]⟩
  | move _ _ hmove ih =>
    rcases move_cases hmove with ⟨job, rfl, -, rfl⟩ | ⟨_, _, _, _, _, rfl, ⟨htakes⟩⟩ |
      ⟨_, _, rfl, -, rfl⟩
    · exact ih.arrive job
    · exact ih.takes htakes
    · exact ⟨ih.reaches, ih.fresh⟩

/-- Every call in the trace was a step of the system, allowed at the time. -/
theorem Reach.steps_ok {ok : Config Op Reply S Job α → Event Job Choice External → Prop}
    {world : S} {config : Config Op Reply S Job α} (h : sys.Reach ok (.initial world) config) :
    ∀ taken ∈ config.trace, ∃ before choice, ok before (.run taken.thread choice) ∧
      sys.step taken.thread choice taken.exchange.op taken.before =
        some (taken.exchange.reply, taken.after) := by
  induction h with
  | start => simp [Config.initial]
  | @move config next event _ hok hmove ih =>
    rcases move_cases hmove with ⟨job, rfl, -, rfl⟩ | ⟨thread, choice, job, op, reply, rfl, ⟨htakes⟩⟩ |
      ⟨_, _, rfl, -, rfl⟩
    · exact ih
    · rw [htakes.trace_eq]
      intro taken hmem
      rcases List.mem_append.mp hmem with hmem | hmem
      · exact ih taken hmem
      · rw [List.mem_singleton.mp hmem]
        exact ⟨config, choice, hok, htakes.step_choice hmove⟩
    · exact ih

/-- What no move takes back holds at every call that is still to come. -/
theorem Reach.later {ok : Config Op Reply S Job α → Event Job Choice External → Prop}
    {start config : Config Op Reply S Job α} (h : sys.Reach ok start config) {P : S → Prop}
    (hstart : P start.world) (hmove : ∀ current next event, sys.Reach ok start current →
      P current.world → sys.move current event = some next → P next.world) :
    P config.world ∧ ∃ later, config.trace = start.trace ++ later ∧
      ∀ taken ∈ later, P taken.before := by
  induction h with
  | start => exact ⟨hstart, [], by simp, fun taken hmem => nomatch hmem⟩
  | @move config next event hreach _ hmoved ih =>
    obtain ⟨hholds, later, htrace, hlater⟩ := ih
    refine ⟨hmove config next event hreach hholds hmoved, ?_⟩
    rcases move_cases hmoved with ⟨job, rfl, -, rfl⟩ | ⟨thread, _, job, op, reply, rfl, ⟨htakes⟩⟩ |
      ⟨_, _, rfl, -, rfl⟩
    · exact ⟨later, htrace, hlater⟩
    · refine ⟨later ++ [⟨thread, ⟨op, reply⟩, config.world, next.world⟩], ?_, ?_⟩
      · rw [htakes.trace_eq, htrace, List.append_assoc]
      · intro taken hmem
        rcases List.mem_append.mp hmem with hmem | hmem
        · exact hlater taken hmem
        · rw [List.mem_singleton.mp hmem]
          exact hholds
    · exact ⟨later, htrace, hlater⟩

/-- Whoever arrives later finds at each call what no move takes back. -/
theorem Reach.later_of_new {ok : Config Op Reply S Job α → Event Job Choice External → Prop}
    {start config : Config Op Reply S Job α} (h : sys.Reach ok start config)
    (hfollows : sys.Follows start) {P : S → Prop} (hstart : P start.world)
    (hmove : ∀ current next event, sys.Reach ok start current → P current.world →
      sys.move current event = some next → P next.world) {taken : Taken Op Reply S}
    (hmem : taken ∈ config.trace) (hnew : start.threads.length ≤ taken.thread) : P taken.before := by
  obtain ⟨-, later, htrace, hlater⟩ := h.later hstart hmove
  rw [htrace] at hmem
  rcases List.mem_append.mp hmem with hold | hmem
  · have hsaid := Config.mem_history.mpr ⟨taken, hold, rfl, rfl⟩
    rw [hfollows.fresh taken.thread hnew] at hsaid
    cases hsaid
  · exact hlater taken hmem

/-- A call in the trace splits the run in two. -/
theorem Reach.split {ok : Config Op Reply S Job α → Event Job Choice External → Prop} {world : S}
    {config : Config Op Reply S Job α} (h : sys.Reach ok (.initial world) config)
    {before after : List (Taken Op Reply S)} {taken : Taken Op Reply S}
    (htrace : config.trace = before ++ taken :: after) : ∃ prior,
      sys.Reach ok (.initial world) prior ∧ prior.trace = before ∧ prior.world = taken.before ∧
      sys.Reach ok prior config := by
  induction h generalizing after with
  | start => cases List.append_ne_nil_of_right_ne_nil before (List.cons_ne_nil taken after) htrace.symm
  | @move config next event hreach hok hmove ih =>
    have hold : ∀ {after}, config.trace = before ++ taken :: after → ∃ prior,
        sys.Reach ok (.initial world) prior ∧ prior.trace = before ∧ prior.world = taken.before ∧
        sys.Reach ok prior next := by
      intro after hsplit
      obtain ⟨prior, hprior, hbefore, hworld, hlater⟩ := ih hsplit
      exact ⟨prior, hprior, hbefore, hworld, .move hlater hok hmove⟩
    rcases move_cases hmove with ⟨job, rfl, -, rfl⟩ | ⟨thread, _, job, op, reply, rfl, ⟨htakes⟩⟩ |
      ⟨_, _, rfl, -, rfl⟩
    · exact hold htrace
    · rw [htakes.trace_eq] at htrace
      rcases List.eq_nil_or_concat after with rfl | ⟨initial, last, rfl⟩
      · obtain ⟨hbefore, htaken⟩ := List.append_inj' htrace rfl
        cases List.singleton_inj.mp htaken
        exact ⟨config, hreach, hbefore, rfl, .move .start hok hmove⟩
      · rw [List.concat_eq_append, ← List.cons_append, ← List.append_assoc] at htrace
        exact hold (List.append_inj' htrace rfl).1
    · exact hold htrace

theorem Reach.trans {ok : Config Op Reply S Job α → Event Job Choice External → Prop}
    {start middle config : Config Op Reply S Job α} (h : sys.Reach ok start middle)
    (hlater : sys.Reach ok middle config) : sys.Reach ok start config := by
  induction hlater with
  | start => exact h
  | move _ hok hmove ih => exact .move ih hok hmove

/-- Whoever arrives later makes its calls later. -/
theorem Reach.taken_since {ok : Config Op Reply S Job α → Event Job Choice External → Prop}
    {start config : Config Op Reply S Job α} (h : sys.Reach ok start config)
    (hfollows : sys.Follows start) {thread : Nat} (hnew : start.threads.length ≤ thread)
    {exchange : Exchange Op Reply} (hmem : exchange ∈ config.history thread) :
    ∃ prior next job, sys.Reach ok start prior ∧ sys.Reach ok start next ∧
      sys.Reach ok next config ∧
      Nonempty (sys.Takes prior thread job exchange.op exchange.reply next) := by
  induction h with
  | start =>
    rw [hfollows.fresh thread hnew] at hmem
    cases hmem
  | @move config next event hreach hok hmove ih =>
    have hold : exchange ∈ config.history thread → ∃ prior later job, sys.Reach ok start prior ∧
        sys.Reach ok start later ∧ sys.Reach ok later next ∧
        Nonempty (sys.Takes prior thread job exchange.op exchange.reply later) := by
      intro hmem
      obtain ⟨prior, later, job, hprior, hlater, hconfig, htakes⟩ := ih hmem
      exact ⟨prior, later, job, hprior, hlater, .move hconfig hok hmove, htakes⟩
    rcases move_cases hmove with ⟨job, rfl, -, rfl⟩ | ⟨other, _, job, op, reply, rfl, ⟨htakes⟩⟩ |
      ⟨_, _, rfl, -, rfl⟩
    · exact hold hmem
    · by_cases heq : thread = other
      · subst heq
        rw [htakes.history_self] at hmem
        rcases List.mem_append.mp hmem with hmem | hmem
        · exact hold hmem
        · cases List.mem_singleton.mp hmem
          exact ⟨config, next, job, hreach, .move hreach hok hmove, .start, ⟨htakes⟩⟩
      · exact hold (htakes.history_of_ne heq ▸ hmem)
    · exact hold hmem

theorem Reach.continues {ok : Config Op Reply S Job α → Event Job Choice External → Prop}
    {start config : Config Op Reply S Job α} (h : sys.Reach ok start config) :
    Continues start config := by
  induction h with
  | start => exact .refl _
  | move _ _ hmove ih => exact ih.trans (continues_move hmove)

theorem Reachable.trans {ok : Config Op Reply S Job α → Event Job Choice External → Prop}
    {start middle config : Config Op Reply S Job α} (h : sys.Reachable start middle)
    (hlater : sys.Reach ok middle config) : sys.Reachable start config := by
  induction hlater with
  | start => exact h
  | move _ _ hmove ih => exact .move ih trivial hmove

/-- A run, and a value kept alongside that each of its events may change. -/
inductive Recorded {R : Type} (sys : System Op Reply S Job Choice External α)
    (record : Config Op Reply S Job α → Event Job Choice External → Config Op Reply S Job α → R → R)
    (start : Config Op Reply S Job α) (value : R) : Config Op Reply S Job α → R → Prop
  | start : Recorded sys record start value start value
  | move {config next : Config Op Reply S Job α} {event : Event Job Choice External} {current : R} :
      Recorded sys record start value config current → sys.move config event = some next →
      Recorded sys record start value next (record config event next current)

section Recorded

variable {R : Type} {record : Config Op Reply S Job α → Event Job Choice External →
  Config Op Reply S Job α → R → R} {start config : Config Op Reply S Job α} {value current : R}

theorem Recorded.reachable (h : sys.Recorded record start value config current) :
    sys.Reachable start config := by
  induction h with
  | start => exact .start
  | move _ hmove ih => exact .move ih trivial hmove

theorem Reachable.recorded (h : sys.Reachable start config) (value : R) :
    ∃ current, sys.Recorded record start value config current := by
  induction h with
  | start => exact ⟨value, .start⟩
  | move _ _ hmove ih =>
    obtain ⟨current, hcurrent⟩ := ih
    exact ⟨_, .move hcurrent hmove⟩

/-- What the run and its record say about each other, event by event. -/
theorem Recorded.holds {P : Config Op Reply S Job α → R → Prop} (hstart : P start value)
    (hmove : ∀ {config next event current}, sys.Reachable start config → P config current →
      sys.move config event = some next → P next (record config event next current))
    (h : sys.Recorded record start value config current) : P config current := by
  induction h with
  | start => exact hstart
  | move hbefore hmoved ih => exact hmove hbefore.reachable ih hmoved

end Recorded

/-- What holds of a call when it is made, with the history of its thread up to
then, holds of every call in the trace. -/
theorem Reach.of_trace {ok : Config Op Reply S Job α → Event Job Choice External → Prop} {world : S}
    {config : Config Op Reply S Job α} (h : sys.Reach ok (.initial world) config)
    {P : Job → List (Exchange Op Reply) → Taken Op Reply S → Prop}
    (hstep : ∀ {config next : Config Op Reply S Job α} {thread : Nat} {job : Job} {op : Op}
      {reply : Reply op}, sys.Reach ok (.initial world) config →
      sys.Takes config thread job op reply next →
      P job (config.history thread) ⟨thread, ⟨op, reply⟩, config.world, next.world⟩) :
    ∀ taken ∈ config.trace, ∃ job history, config.job? taken.thread = some job ∧
      history <+: config.history taken.thread ∧ P job history taken := by
  induction h with
  | start => exact fun taken hmem => nomatch hmem
  | @move config next event hreach _ hmove ih =>
    have hcontinues := continues_move hmove
    have hold : ∀ taken ∈ config.trace, ∃ job history, next.job? taken.thread = some job ∧
        history <+: next.history taken.thread ∧ P job history taken := by
      intro taken hmem
      obtain ⟨job, history, hjob, hprefix, hholds⟩ := ih taken hmem
      exact ⟨job, history, hcontinues.job?_eq _ _ hjob,
        hprefix.trans (hcontinues.history_prefix _), hholds⟩
    rcases move_cases hmove with ⟨job, rfl, -, rfl⟩ | ⟨thread, _, job, op, reply, rfl, ⟨htakes⟩⟩ |
      ⟨_, _, rfl, -, rfl⟩
    · exact hold
    · intro taken hmem
      rw [htakes.trace_eq] at hmem
      rcases List.mem_append.mp hmem with hmem | hmem
      · exact hold taken hmem
      · rw [List.mem_singleton.mp hmem]
        exact ⟨job, config.history thread, (htakes.job?_eq thread).trans htakes.job_eq,
          hcontinues.history_prefix thread, hstep hreach htakes⟩
    · exact hold

theorem Reach.steps {ok : Config Op Reply S Job α → Event Job Choice External → Prop}
    {world : S} {config : Config Op Reply S Job α} (h : sys.Reach ok (.initial world) config) :
    ∀ taken ∈ config.trace, ∃ choice, sys.step taken.thread choice taken.exchange.op taken.before =
      some (taken.exchange.reply, taken.after) := by
  intro taken hmem
  obtain ⟨-, choice, -, hstep⟩ := h.steps_ok taken hmem
  exact ⟨choice, hstep⟩

section Verified

variable (sys) (owes : Job → List (Exchange Op Reply) → Op → Prop)
  (valid : (op : Op) → Reply op → Prop) (post : Job → List (Exchange Op Reply) → α → Prop)

/-- Every program the system serves keeps what its job owes, and no step gives
a reply that is not valid. -/
structure Verified : Prop where
  always : ∀ job, (sys.serve job).Always (owes job) valid (post job) []
  valid : ∀ {thread choice op state reply later},
    sys.step thread choice op state = some (reply, later) → valid op reply

variable {sys owes valid post}

/-- Every reply a thread has had is valid. -/
theorem Verified.replied {ok : Config Op Reply S Job α → Event Job Choice External → Prop}
    {world : S} {config : Config Op Reply S Job α} (hverified : sys.Verified owes valid post)
    (h : sys.Reach ok (.initial world) config) {thread : Nat} {exchange : Exchange Op Reply}
    (hmem : exchange ∈ config.history thread) : valid exchange.op exchange.reply := by
  obtain ⟨taken, htaken, rfl⟩ := List.mem_map.mp hmem
  obtain ⟨choice, hstep⟩ := h.steps taken (List.mem_filter.mp htaken).1
  exact hverified.valid hstep

theorem Verified.at_thread {ok : Config Op Reply S Job α → Event Job Choice External → Prop}
    {world : S} {config : Config Op Reply S Job α} (hverified : sys.Verified owes valid post)
    (h : sys.Reach ok (.initial world) config) {thread : Nat} {job : Job}
    {program : Program Op Reply α} (hthread : config.threads[thread]? = some ⟨job, program⟩) :
    program.Always (owes job) valid (post job) (config.history thread) :=
  (hverified.always job).reaches (h.follows.reaches thread job program hthread)
    fun _ hmem => hverified.replied h hmem

/-- What a thread owes when it makes a call. -/
theorem Verified.at_call {ok : Config Op Reply S Job α → Event Job Choice External → Prop}
    {world : S} {config next : Config Op Reply S Job α} (hverified : sys.Verified owes valid post)
    (h : sys.Reach ok (.initial world) config) {thread : Nat} {job : Job} {op : Op}
    {reply : Reply op} (htakes : sys.Takes config thread job op reply next) :
    owes job (config.history thread) op :=
  (hverified.at_thread h htakes.thread_eq).1

/-- Whatever has been called was owed at the time. -/
theorem Verified.owed {ok : Config Op Reply S Job α → Event Job Choice External → Prop}
    {world : S} {config : Config Op Reply S Job α} (hverified : sys.Verified owes valid post)
    (h : sys.Reach ok (.initial world) config) : ∀ taken ∈ config.trace, ∃ job history,
      config.job? taken.thread = some job ∧ owes job history taken.exchange.op := by
  intro taken hmem
  obtain ⟨job, history, hjob, -, howes⟩ := h.of_trace
    (P := fun job history taken => owes job history taken.exchange.op)
    (fun hreach htakes => hverified.at_call hreach htakes) taken hmem
  exact ⟨job, history, hjob, howes⟩

theorem Verified.at_end {ok : Config Op Reply S Job α → Event Job Choice External → Prop}
    {world : S} {config : Config Op Reply S Job α} (hverified : sys.Verified owes valid post)
    (h : sys.Reach ok (.initial world) config) {thread : Nat} {job : Job} {value : α}
    (hthread : config.threads[thread]? = some ⟨job, .done value⟩) :
    post job (config.history thread) value :=
  hverified.at_thread h hthread

/-- A thread makes its calls while nothing has decided it, and its success says
whether something has: then it succeeds at the very call that decides it. -/
theorem Verified.success_iff {ok : Config Op Reply S Job α → Event Job Choice External → Prop}
    {world : S} {config next : Config Op Reply S Job α} (hverified : sys.Verified owes valid post)
    (h : sys.Reach ok (.initial world) config) (hnext : sys.Reach ok (.initial world) next)
    {thread : Nat} {job : Job} {op : Op} {reply : Reply op}
    (htakes : sys.Takes config thread job op reply next) {decides : Exchange Op Reply → Bool}
    {success : α → Bool}
    (howes : ∀ {history op}, owes job history op → ∀ exchange ∈ history, decides exchange = false)
    (hpost : ∀ {history value}, post job history value →
      (success value = true ↔ ¬∀ exchange ∈ history, decides exchange = false)) :
    (∃ value, next.threads[thread]? = some ⟨job, .done value⟩ ∧ success value = true) ↔
      decides ⟨op, reply⟩ = true := by
  have hbefore := howes (hverified.at_call h htakes)
  have halways := hverified.at_thread hnext htakes.thread_next
  rw [htakes.history_self] at halways
  rw [htakes.thread_next]
  cases hprogram : htakes.rest reply with
  | call op' rest =>
    rw [hprogram] at halways
    have hundecided := howes halways.1 ⟨op, reply⟩ (List.mem_append_right _ List.mem_cons_self)
    simp [hundecided]
  | done value =>
    rw [hprogram] at halways
    have hlast : (∀ exchange ∈ config.history thread ++ [⟨op, reply⟩], decides exchange = false) ↔
        decides ⟨op, reply⟩ = false := by
      simpa [or_imp, forall_and] using fun _ => hbefore
    have hsuccess := hpost halways
    rw [hlast, Bool.not_eq_false] at hsuccess
    simp [hsuccess]

end Verified
end System
end SimpleBank.Library
