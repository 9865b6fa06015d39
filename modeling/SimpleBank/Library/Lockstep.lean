import Mathlib.Data.List.Forall2
import SimpleBank.Library.Interleaving

/-! Two runs of one system side by side.  They start in related states and take
the same events, up to choices that need not be the same.  As long as related
states give related replies, every thread makes the same calls in both runs. -/
namespace SimpleBank.Library

/-- Both outcomes are the same error, or related values. -/
def Outcomes {ε α : Type} (related : α → α → Prop) : Except ε α → Except ε α → Prop
  | .ok value, .ok other => related value other
  | .error err, .error other => err = other
  | _, _ => False

variable {Op : Type} {Reply : Op → Type} {S Job Choice External α β : Type}

namespace Program

variable {may : Op → Prop} {replies : (op : Op) → Reply op → Reply op → Prop}

/-- The programs make the same calls, all of which they may make, as long as
the replies are related, and end with related values. -/
inductive Lockstep (may : Op → Prop) (replies : (op : Op) → Reply op → Reply op → Prop)
    (ends : α → α → Prop) : Program Op Reply α → Program Op Reply α → Prop
  | done {value other : α} : ends value other → Lockstep may replies ends (.done value) (.done other)
  | call {op : Op} {next other : Reply op → Program Op Reply α} : may op →
      (∀ reply reply', replies op reply reply' →
        Lockstep may replies ends (next reply) (other reply')) →
      Lockstep may replies ends (.call op next) (.call op other)

theorem Lockstep.bind {mid : α → α → Prop} {ends : β → β → Prop}
    {f g : α → Program Op Reply β} (hnext : ∀ value other, mid value other →
      Lockstep may replies ends (f value) (g other))
    {left right : Program Op Reply α} (h : Lockstep may replies mid left right) :
    Lockstep may replies ends (left >>= f) (right >>= g) := by
  induction h with
  | done hmid => exact hnext _ _ hmid
  | call hmay _ ih => exact .call hmay ih

/-- A program that only makes calls whose related replies are equal is in
lockstep with itself. -/
theorem Always.lockstep {allowed : Op → Prop} {program : Program Op Reply α}
    {history : List (Exchange Op Reply)} (hmay : ∀ op, allowed op → may op)
    (hsame : ∀ op reply reply', allowed op → replies op reply reply' → reply = reply')
    (h : program.Always (fun _ op => allowed op) (fun _ _ => True) (fun _ _ => True) history) :
    Lockstep may replies Eq program program := by
  induction program generalizing history with
  | done value => exact .done rfl
  | call op next ih =>
    refine .call (hmay op h.1) fun reply reply' hreply => ?_
    cases hsame op reply reply' h.1 hreply
    exact ih reply (h.2 reply trivial)

end Program

theorem forall₂_set {related : α → β → Prop} {left : List α} {right : List β}
    (h : List.Forall₂ related left right) {value : α} {other : β} (hvalue : related value other)
    (i : Nat) : List.Forall₂ related (left.set i value) (right.set i other) := by
  induction h generalizing i with
  | nil => exact .nil
  | cons hhead htail ih =>
    cases i with
    | zero => exact .cons hvalue htail
    | succ i => exact .cons hhead (ih i)

namespace System

/-- The same event in both runs, up to the choice made at a call. -/
def SameEvent (same : Op → Choice → Choice → Prop) (config : Config Op Reply S Job α) :
    Event Job Choice External → Event Job Choice External → Prop
  | .arrive job, event => event = .arrive job
  | .run thread choice, event => ∃ other, event = .run thread other ∧
      ∀ job op next, config.threads[thread]? = some ⟨job, .call op next⟩ → same op choice other
  | .external change, event => event = .external change

/-- Two runs, event by event. -/
inductive Paired (sys : System Op Reply S Job Choice External α)
    (pairs : Config Op Reply S Job α → Event Job Choice External → Event Job Choice External → Prop)
    (start start' : Config Op Reply S Job α) :
    Config Op Reply S Job α → Config Op Reply S Job α → Prop
  | start : Paired sys pairs start start' start start'
  | move {config config' next next' : Config Op Reply S Job α}
      {event event' : Event Job Choice External} :
      Paired sys pairs start start' config config' → pairs config event event' →
      sys.move config event = some next → sys.move config' event' = some next' →
      Paired sys pairs start start' next next'

variable {sys : System Op Reply S Job Choice External α}
  {pairs : Config Op Reply S Job α → Event Job Choice External → Event Job Choice External → Prop}
  {start start' config config' next next' : Config Op Reply S Job α}

theorem Paired.left (h : sys.Paired pairs start start' config config') :
    sys.Reachable start config := by
  induction h with
  | start => exact .start
  | move _ _ hmove _ ih => exact .move ih trivial hmove

/-- The same events, one after another, in both runs. -/
theorem Paired.of_run {current current' : Config Op Reply S Job α}
    (h : sys.Paired pairs start start' current current') {events : List (Event Job Choice External)}
    (hpairs : ∀ event ∈ events, ∀ config, pairs config event event)
    (hrun : sys.run current events = some config) (hrun' : sys.run current' events = some config') :
    sys.Paired pairs start start' config config' := by
  induction events generalizing current current' with
  | nil =>
    cases hrun
    cases hrun'
    exact h
  | cons event events ih =>
    obtain ⟨middle, hmove, hrest⟩ := Option.bind_eq_some_iff.mp hrun
    obtain ⟨middle', hmove', hrest'⟩ := Option.bind_eq_some_iff.mp hrun'
    exact ih (.move h (hpairs event List.mem_cons_self current) hmove hmove')
      (fun other hmem => hpairs other (List.mem_cons_of_mem _ hmem)) hrest hrest'

theorem mem_trace_of_move {event : Event Job Choice External}
    (hmove : sys.move config event = some next) {taken : Taken Op Reply S}
    (hmem : taken ∈ config.trace) : taken ∈ next.trace := by
  rcases move_cases hmove with ⟨_, rfl, -, rfl⟩ | ⟨_, _, _, _, _, rfl, ⟨htakes⟩⟩ | ⟨_, _, rfl, -, rfl⟩
  · exact hmem
  · rw [htakes.trace_eq]
    exact List.mem_append_left _ hmem
  · exact hmem

section InStep

variable (states : S → S → Prop) (may : Op → Prop)
  (replies : (op : Op) → Reply op → Reply op → Prop) (ends : α → α → Prop)

/-- Both runs have come equally far. -/
structure InStep (config config' : Config Op Reply S Job α) : Prop where
  states : states config.world config'.world
  threads : List.Forall₂ (fun thread thread' => thread.job = thread'.job ∧
    thread.program.Lockstep may replies ends thread'.program) config.threads config'.threads

variable {states may replies ends}

theorem InStep.initial {state state' : S} (h : states state state') :
    InStep states may replies ends (.initial state : Config Op Reply S Job α) (.initial state') :=
  ⟨h, .nil⟩

/-- Where one run has a thread, the other one has it as well. -/
theorem InStep.thread (h : InStep states may replies ends config config') {i : Nat} {job : Job}
    {program : Program Op Reply α} (hthread : config.threads[i]? = some ⟨job, program⟩) :
    ∃ program', config'.threads[i]? = some ⟨job, program'⟩ ∧
      program.Lockstep may replies ends program' := by
  obtain ⟨hlt, hget⟩ := List.getElem?_eq_some_iff.mp hthread
  have hlt' : i < config'.threads.length := h.threads.length_eq ▸ hlt
  obtain ⟨hjob, hprogram⟩ := (List.forall₂_iff_get.mp h.threads).2 i hlt hlt'
  simp only [List.get_eq_getElem, hget] at hjob hprogram
  refine ⟨config'.threads[i].program, ?_, hprogram⟩
  rw [List.getElem?_eq_getElem hlt', hjob]

theorem InStep.getElem?_rel (h : InStep states may replies ends config config') (i : Nat) :
    Option.Rel (fun thread thread' => thread.job = thread'.job ∧
      thread.program.Lockstep may replies ends thread'.program)
      config.threads[i]? config'.threads[i]? := by
  have hthreads := h.threads
  generalize config.threads = threads at hthreads ⊢
  generalize config'.threads = threads' at hthreads ⊢
  induction hthreads generalizing i with
  | nil => exact .none
  | cons hhead _ ih =>
    cases i with
    | zero => exact .some hhead
    | succ i => exact ih i

variable {same : Op → Choice → Choice → Prop} {event event' : Event Job Choice External}

/-- One event keeps the runs in step if each call of a thread does, and whatever
else happens. -/
theorem InStep.move (h : InStep states may replies ends config config')
    (hsame : SameEvent same config event event') (hmove : sys.move config event = some next)
    (hmove' : sys.move config' event' = some next')
    (harrive : ∀ job, event = .arrive job →
      (sys.serve job).Lockstep may replies ends (sys.serve job))
    (hstep : ∀ thread choice choice' op reply reply', may op → same op choice choice' →
      sys.step thread choice op config.world = some (reply, next.world) →
      sys.step thread choice' op config'.world = some (reply', next'.world) →
      next.trace = config.trace ++ [⟨thread, ⟨op, reply⟩, config.world, next.world⟩] →
      next'.trace = config'.trace ++ [⟨thread, ⟨op, reply'⟩, config'.world, next'.world⟩] →
      replies op reply reply' ∧ states next.world next'.world)
    (hexternal : ∀ change, event = .external change →
      sys.external change config.world = some next.world →
      sys.external change config'.world = some next'.world → states next.world next'.world) :
    InStep states may replies ends next next' := by
  cases event with
  | arrive job =>
    cases hsame
    simp only [System.move] at hmove hmove'
    split at hmove <;> cases hmove
    split at hmove' <;> cases hmove'
    exact ⟨h.states, List.rel_append h.threads (.cons ⟨rfl, harrive job rfl⟩ .nil)⟩
  | run thread choice =>
    obtain ⟨choice', rfl, hsame⟩ := hsame
    rcases move_cases hmove with ⟨_, hevent, -⟩ | ⟨_, _, job, op, reply, hevent, ⟨htakes⟩⟩ |
      ⟨_, _, hevent, -⟩
    · cases hevent
    · cases hevent
      obtain ⟨program', hthread', hlockstep⟩ := h.thread htakes.thread_eq
      cases hlockstep with
      | @call _ _ rest' hmay hrest =>
        simp only [System.move, hthread', Option.map_eq_some_iff] at hmove'
        obtain ⟨⟨reply', world'⟩, hstep', rfl⟩ := hmove'
        obtain ⟨hreplies, hstates⟩ := hstep _ _ _ _ _ _ hmay (hsame _ _ _ htakes.thread_eq)
          (htakes.step_choice hmove) hstep' htakes.trace_eq rfl
        refine ⟨hstates, ?_⟩
        rw [htakes.threads_eq]
        refine forall₂_set h.threads ?_ thread
        exact ⟨rfl, hrest reply reply' hreplies⟩
    · cases hevent
  | external change =>
    cases hsame
    obtain ⟨world, hworld, rfl⟩ := Option.map_eq_some_iff.mp hmove
    obtain ⟨world', hworld', rfl⟩ := Option.map_eq_some_iff.mp hmove'
    exact ⟨hexternal change rfl hworld hworld', h.threads⟩

/-- Whatever one run can do next, the other one can do as well, if no call of a
thread has to wait in one of them alone. -/
theorem InStep.exists_move (h : InStep states may replies ends config config')
    (hmove : sys.move config event = some next)
    (harrive : ∀ job, event = .arrive job → sys.accepts config.world job = true →
      sys.accepts config'.world job = true)
    (hstep : ∀ thread choice op reply state, may op →
      sys.step thread choice op config.world = some (reply, state) →
      ∃ choice' reply' state', same op choice choice' ∧
        sys.step thread choice' op config'.world = some (reply', state'))
    (hexternal : ∀ change state, event = .external change →
      sys.external change config.world = some state →
      ∃ state', sys.external change config'.world = some state') :
    ∃ event' next', SameEvent same config event event' ∧ sys.move config' event' = some next' := by
  rcases move_cases hmove with ⟨job, rfl, haccepts, -⟩ |
    ⟨thread, choice, job, op, reply, rfl, ⟨htakes⟩⟩ | ⟨change, state, rfl, hstate, -⟩
  · exact ⟨.arrive job, _, rfl, if_pos (harrive job rfl haccepts)⟩
  · obtain ⟨program', hthread', hlockstep⟩ := h.thread htakes.thread_eq
    cases hlockstep with
    | @call _ _ rest' hmay _ =>
      obtain ⟨choice', reply', state', hsame, hstep'⟩ :=
        hstep thread choice op reply next.world hmay (htakes.step_choice hmove)
      obtain ⟨next', hmove'⟩ := System.exists_move hthread' hstep'
      refine ⟨.run thread choice', next', ⟨choice', rfl, fun other op' rest hthread => ?_⟩, hmove'⟩
      cases htakes.thread_eq.symm.trans hthread
      exact hsame
  · obtain ⟨state', hstate'⟩ := hexternal change state rfl hstate
    exact ⟨.external change, _, rfl, Option.map_eq_some_iff.mpr ⟨state', hstate', rfl⟩⟩

end InStep

/-- A system that treats related states alike, whatever happens. -/
structure Blind (sys : System Op Reply S Job Choice External α) (states : S → S → Prop)
    (replies : (op : Op) → Reply op → Reply op → Prop) (ends : α → α → Prop) : Prop where
  accepts : ∀ {state state'} job, states state state' → sys.accepts state job = sys.accepts state' job
  serve : ∀ job, (sys.serve job).Lockstep (fun _ => True) replies ends (sys.serve job)
  step : ∀ {state state'} thread choice op, states state state' →
    Option.Rel (fun result result' => replies op result.1 result'.1 ∧ states result.2 result'.2)
      (sys.step thread choice op state) (sys.step thread choice op state')
  external : ∀ {state state'} change, states state state' →
    Option.Rel states (sys.external change state) (sys.external change state')

section Blind

variable {states : S → S → Prop} {replies : (op : Op) → Reply op → Reply op → Prop}
  {ends : α → α → Prop}

/-- The same event can happen in both runs, or in neither. -/
theorem Blind.move (h : sys.Blind states replies ends)
    (hinStep : InStep states (fun _ => True) replies ends config config')
    (event : Event Job Choice External) :
    Option.Rel (InStep states (fun _ => True) replies ends) (sys.move config event)
      (sys.move config' event) := by
  cases event with
  | arrive job =>
    simp only [System.move, h.accepts job hinStep.states]
    split
    · exact .some ⟨hinStep.states, List.rel_append hinStep.threads (.cons ⟨rfl, h.serve job⟩ .nil)⟩
    · exact .none
  | run thread choice =>
    have hthread := hinStep.getElem?_rel thread
    simp only [System.move]
    generalize config.threads[thread]? = found at hthread ⊢
    generalize config'.threads[thread]? = found' at hthread ⊢
    cases hthread with
    | none => exact .none
    | @some running running' hrunning =>
      obtain ⟨job, program⟩ := running
      obtain ⟨job', program'⟩ := running'
      obtain ⟨hjob, hlockstep⟩ := hrunning
      cases hlockstep with
      | done _ => exact .none
      | @call op next next' _ hnext =>
        have hstep := h.step thread choice op hinStep.states
        dsimp only
        generalize sys.step thread choice op config.world = result at hstep ⊢
        generalize sys.step thread choice op config'.world = result' at hstep ⊢
        cases hstep with
        | none => exact .none
        | some hresult =>
          refine .some ⟨hresult.2, forall₂_set hinStep.threads ?_ thread⟩
          exact ⟨hjob, hnext _ _ hresult.1⟩
  | external change =>
    have hexternal := h.external change hinStep.states
    simp only [System.move]
    generalize sys.external change config.world = world at hexternal ⊢
    generalize sys.external change config'.world = world' at hexternal ⊢
    cases hexternal with
    | none => exact .none
    | some hstates => exact .some ⟨hstates, hinStep.threads⟩

/-- The same events, one after another. -/
theorem Blind.run (h : sys.Blind states replies ends)
    (hinStep : InStep states (fun _ => True) replies ends config config')
    (events : List (Event Job Choice External)) :
    Option.Rel (InStep states (fun _ => True) replies ends) (sys.run config events)
      (sys.run config' events) := by
  induction events generalizing config config' with
  | nil => exact .some hinStep
  | cons event events ih =>
    have hmove := h.move hinStep event
    simp only [System.run]
    generalize sys.move config event = next at hmove ⊢
    generalize sys.move config' event = next' at hmove ⊢
    cases hmove with
    | none => exact .none
    | some hnext => exact ih hnext

end Blind
end System
end SimpleBank.Library
