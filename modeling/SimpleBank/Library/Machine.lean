import Mathlib.Algebra.BigOperators.Fin
import Mathlib.Data.List.Basic
import SimpleBank.Library.Interleaving

/-! Abstract machines: which operations are allowed when, and what they do.  A
system refines a machine if each of its calls is nothing to the machine, or one
operation that the machine allows at that point. -/
namespace SimpleBank.Library

structure Machine (A L : Type) where
  allows : A → L → Prop
  after : L → A → A

namespace Machine

variable {A L : Type} {machine : Machine A L} {start final : A} {operations : List L}

/-- The operations are allowed one after another and lead from `start` to `final`. -/
inductive Performs (machine : Machine A L) (start : A) : List L → A → Prop
  | nil : Performs machine start [] start
  | snoc {operations : List L} {state : A} {operation : L} : Performs machine start operations state →
      machine.allows state operation →
      Performs machine start (operations ++ [operation]) (machine.after operation state)

/-- One step, or none. -/
def Matches (machine : Machine A L) (before : A) (operation : Option L) (state : A) : Prop :=
  match operation with
  | none => state = before
  | some operation => machine.allows before operation ∧ state = machine.after operation before

theorem Performs.matches (h : machine.Performs start operations final) {operation : Option L}
    {state : A} (hmatches : machine.Matches final operation state) :
    machine.Performs start (operations ++ operation.toList) state := by
  cases operation with
  | none =>
    obtain rfl : state = final := hmatches
    rwa [Option.toList_none, List.append_nil]
  | some operation =>
    obtain ⟨hallows, rfl⟩ := hmatches
    exact .snoc h hallows

/-- What holds of the operations so far and the state they have led to. -/
theorem Performs.invariant {P : List L → A → Prop} (hstart : P [] start)
    (hstep : ∀ operations state operation, P operations state → machine.allows state operation →
      P (operations ++ [operation]) (machine.after operation state))
    (h : machine.Performs start operations final) : P operations final := by
  induction h with
  | nil => exact hstart
  | snoc _ hallows ih => exact hstep _ _ _ ih hallows

/-- A value that each operation moves by its own amount has moved by their sum. -/
theorem Performs.sum_eq {M : Type} [AddCommMonoid M] {value : A → M} {amount : L → M}
    {P : A → Prop} (hinit : P start)
    (hkeeps : ∀ state operation, P state → machine.allows state operation →
      P (machine.after operation state))
    (hmoves : ∀ state operation, P state → machine.allows state operation →
      value (machine.after operation state) = value state + amount operation)
    (h : machine.Performs start operations final) :
    value final = value start + (operations.map amount).sum := by
  have hboth := h.invariant (P := fun operations state =>
      P state ∧ value state = value start + (operations.map amount).sum) ⟨hinit, by simp⟩
    fun operations state operation hstate hallows => by
      refine ⟨hkeeps _ _ hstate.1 hallows, ?_⟩
      rw [hmoves _ _ hstate.1 hallows, hstate.2, List.map_append, List.sum_append,
        List.map_singleton, List.sum_singleton, add_assoc]
  exact hboth.2

end Machine

variable {Op : Type} {Reply : Op → Type} {S Job Choice External α A L : Type}

/-- The operations that a trace is made of, in the order of the calls. -/
def Config.operations (config : Config Op Reply S Job α)
    (label : Job → Exchange Op Reply → Option L) : List L :=
  config.trace.filterMap fun taken => (config.job? taken.thread).bind fun job =>
    label job taken.exchange

namespace System

variable {sys : System Op Reply S Job Choice External α} {machine : Machine A L}
  {label : Job → Exchange Op Reply → Option L}

theorem Follows.operations_arrive {config : Config Op Reply S Job α} (h : sys.Follows config)
    (job : Job) : Config.operations
      { config with threads := config.threads ++ [⟨job, sys.serve job⟩] } label =
      config.operations label := by
  refine List.filterMap_congr fun taken hmem => ?_
  rw [h.job?_arrive job hmem]

theorem Takes.operations_eq {config next : Config Op Reply S Job α} {thread : Nat} {job : Job}
    {op : Op} {reply : Reply op} (h : sys.Takes config thread job op reply next) :
    next.operations label = config.operations label ++ (label job ⟨op, reply⟩).toList := by
  have hold : (config.trace.filterMap fun taken => (next.job? taken.thread).bind fun job =>
      label job taken.exchange) = config.operations label :=
    List.filterMap_congr fun taken _ => by rw [h.job?_eq]
  rw [Config.operations, h.trace_eq, List.filterMap_append, hold]
  congr 1
  rw [List.filterMap_cons, h.job?_eq, h.job_eq, Option.bind_some]
  cases label job ⟨op, reply⟩ <;> rfl

/-- What has been carried out stays so, and in its place. -/
theorem Reach.operations_prefix {ok : Config Op Reply S Job α → Event Job Choice External → Prop}
    {world : S} {start config : Config Op Reply S Job α} (hstart : sys.Reach ok (.initial world) start)
    (h : sys.Reach ok start config) : start.operations label <+: config.operations label := by
  induction h with
  | start => exact List.prefix_rfl
  | move hreach _ hmove ih =>
    rcases move_cases hmove with ⟨job, rfl, -, rfl⟩ | ⟨_, _, job, op, reply, rfl, ⟨htakes⟩⟩ |
      ⟨_, _, rfl, -, rfl⟩
    · rw [(hstart.trans hreach).follows.operations_arrive job]
      exact ih
    · rw [htakes.operations_eq]
      exact ih.trans (List.prefix_append _ _)
    · exact ih

/-- A sum over a trace, thread by thread. -/
theorem sum_by_thread {M : Type} [AddCommMonoid M] (value : Taken Op Reply S → M)
    {trace : List (Taken Op Reply S)} {count : Nat} (h : ∀ taken ∈ trace, taken.thread < count) :
    (trace.map value).sum = ∑ thread : Fin count,
      ((trace.filter fun taken => taken.thread == thread.val).map value).sum := by
  induction trace with
  | nil => simp
  | cons taken trace ih =>
    have hown : ∀ thread : Fin count,
        (((taken :: trace).filter fun taken => taken.thread == thread.val).map value).sum =
          (if thread = ⟨taken.thread, h taken List.mem_cons_self⟩ then value taken else 0) +
            ((trace.filter fun taken => taken.thread == thread.val).map value).sum := by
      intro thread
      by_cases heq : taken.thread = thread.val
      · simp [heq]
      · have hne : thread ≠ ⟨taken.thread, h taken List.mem_cons_self⟩ := by
          rintro rfl
          exact heq rfl
        simp [heq, hne]
    rw [Finset.sum_congr rfl fun thread _ => hown thread, Finset.sum_add_distrib,
      Finset.sum_ite_eq', if_pos (Finset.mem_univ _), List.map_cons, List.sum_cons,
      ih fun taken hmem => h taken (List.mem_cons_of_mem _ hmem)]

theorem sum_filterMap {M β γ : Type} [AddCommMonoid M] (f : β → Option γ) (amount : γ → M)
    (list : List β) : ((list.filterMap f).map amount).sum =
      (list.map fun value => ((f value).map amount).getD 0).sum := by
  induction list with
  | nil => rfl
  | cons value list ih =>
    rw [List.map_cons, List.sum_cons, ← ih]
    cases hvalue : f value with
    | none => simp [hvalue]
    | some result => simp [hvalue]

/-- What the operations of a run come to is what those of each thread come to. -/
theorem Follows.sum_operations {M : Type} [AddCommMonoid M] {config : Config Op Reply S Job α}
    (h : sys.Follows config) (amount : L → M) :
    ((config.operations label).map amount).sum = ∑ thread : Fin config.threads.length,
      (((config.history thread).filterMap (label config.threads[thread].job)).map amount).sum := by
  have hlt : ∀ taken ∈ config.trace, taken.thread < config.threads.length := by
    intro taken hmem
    by_contra hge
    have hnil := h.fresh taken.thread (Nat.not_lt.mp hge)
    rw [Config.history, List.map_eq_nil_iff, List.filter_eq_nil_iff] at hnil
    simpa using hnil taken hmem
  rw [Config.operations, sum_filterMap, sum_by_thread _ hlt]
  refine Finset.sum_congr rfl fun thread _ => ?_
  rw [sum_filterMap, Config.history, List.map_map]
  refine congrArg List.sum (List.map_congr_left fun taken hmem => ?_)
  have hthread : taken.thread = thread.val := by simpa using (List.mem_filter.mp hmem).2
  rw [Function.comp_apply, hthread, Config.job?, List.getElem?_eq_getElem thread.isLt]
  rfl

/-- A run of a system that refines a machine performs its operations. -/
theorem Reach.performs {ok : Config Op Reply S Job α → Event Job Choice External → Prop} {start : S}
    {config : Config Op Reply S Job α} (abstraction : S → A)
    (htakes : ∀ {config next : Config Op Reply S Job α} {thread : Nat} {job : Job} {op : Op}
      {reply : Reply op}, sys.Reach ok (.initial start) config → sys.Reach ok (.initial start) next →
      sys.Takes config thread job op reply next →
      machine.Matches (abstraction config.world) (label job ⟨op, reply⟩) (abstraction next.world))
    (hexternal : ∀ {change state later}, sys.external change state = some later →
      abstraction later = abstraction state)
    (h : sys.Reach ok (.initial start) config) :
    machine.Performs (abstraction start) (config.operations label) (abstraction config.world) := by
  induction h with
  | start => exact .nil
  | @move config next event hreach hok hmove ih =>
    have hnext := Reach.move hreach hok hmove
    rcases move_cases hmove with ⟨job, rfl, -, rfl⟩ | ⟨_, _, job, op, reply, rfl, ⟨taken⟩⟩ |
      ⟨_, world, rfl, hchange, rfl⟩
    · rw [hreach.follows.operations_arrive job]
      exact ih
    · rw [taken.operations_eq]
      exact ih.matches (htakes hreach hnext taken)
    · rw [show abstraction world = _ from hexternal hchange]
      exact ih

end System
end SimpleBank.Library
