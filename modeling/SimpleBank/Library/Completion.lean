import Mathlib.Algebra.Order.BigOperators.Group.Finset
import SimpleBank.Library.Interleaving

/-! How the threads of a system come to their ends: a bound on the calls of each
bounds every run without arrivals, and where somebody can always go on, such a
run ends with nothing left to do. -/
namespace SimpleBank.Library

variable {Op : Type} {Reply : Op → Type} {S Job Choice External α β : Type}

namespace Program

/-- The program makes at most so many calls, each of them `allowed`. -/
def Makes (allowed : Op → Prop) : Nat → Program Op Reply α → Prop
  | _, .done _ => True
  | 0, .call _ _ => False
  | calls + 1, .call op next => allowed op ∧ ∀ reply, (next reply).Makes allowed calls

variable {allowed : Op → Prop} {calls more : Nat}

@[simp] theorem makes_done {value : α} :
    (Program.done value : Program Op Reply α).Makes allowed calls ↔ True := by
  cases calls <;> exact Iff.rfl

@[simp] theorem makes_pure {value : α} :
    (pure value : Program Op Reply α).Makes allowed calls ↔ True := makes_done

theorem makes_call {op : Op} {next : Reply op → Program Op Reply α} (hallowed : allowed op)
    (hnext : ∀ reply, (next reply).Makes allowed calls) :
    (Program.call op next).Makes allowed (calls + 1) :=
  ⟨hallowed, hnext⟩

theorem Makes.mono {allowed' : Op → Prop} (hallowed : ∀ op, allowed op → allowed' op)
    (hle : calls ≤ more) {program : Program Op Reply α} (h : program.Makes allowed calls) :
    program.Makes allowed' more := by
  induction program generalizing calls more with
  | done value => simp
  | call op next ih =>
    cases calls with
    | zero => exact h.elim
    | succ calls =>
      cases more with
      | zero => omega
      | succ more =>
        exact ⟨hallowed op h.1, fun reply => ih reply (Nat.le_of_succ_le_succ hle) (h.2 reply)⟩

theorem Makes.bind {program : Program Op Reply α} (h : program.Makes allowed calls) (more : Nat)
    {f : α → Program Op Reply β} (hf : ∀ value, (f value).Makes allowed more) :
    (program >>= f).Makes allowed (calls + more) := by
  induction program generalizing calls with
  | done value => exact (hf value).mono (fun _ h => h) (Nat.le_add_left _ _)
  | call op next ih =>
    cases calls with
    | zero => exact h.elim
    | succ calls =>
      rw [Nat.add_right_comm]
      exact ⟨h.1, fun reply => ih reply (h.2 reply)⟩

theorem Makes.map {program : Program Op Reply α} (h : program.Makes allowed calls) (f : α → β) :
    (f <$> program).Makes allowed calls :=
  h.bind 0 fun _ => makes_done.mpr trivial

/-- What is left of a program has the calls left that it has not made. -/
theorem Makes.reaches {program rest : Program Op Reply α} {history : List (Exchange Op Reply)}
    (h : program.Makes allowed calls) (hreaches : Reaches program history rest) :
    ∃ left, left + history.length = calls ∧ rest.Makes allowed left := by
  induction hreaches with
  | start => exact ⟨calls, rfl, h⟩
  | reply reply _ ih =>
    obtain ⟨left, hleft, hmakes⟩ := ih
    cases left with
    | zero => exact hmakes.elim
    | succ left =>
      refine ⟨left, ?_, hmakes.2 reply⟩
      rw [List.length_append, List.length_singleton]
      omega

/-- A property of histories that every allowed call keeps holds at each call, and
at the end. -/
theorem Makes.always {owes : List (Exchange Op Reply) → Op → Prop}
    {valid : (op : Op) → Reply op → Prop} {P : List (Exchange Op Reply) → Prop}
    (howes : ∀ history op, P history → allowed op → owes history op)
    (hkeeps : ∀ history exchange, P history → allowed exchange.op → P (history ++ [exchange]))
    {program : Program Op Reply α} {history : List (Exchange Op Reply)}
    (h : program.Makes allowed calls) (hstart : P history) :
    program.Always owes valid (fun later _ => P later) history := by
  induction program generalizing calls history with
  | done value => exact hstart
  | call op next ih =>
    cases calls with
    | zero => exact h.elim
    | succ calls =>
      exact ⟨howes _ _ hstart h.1, fun reply _ => ih reply (h.2 reply) (hkeeps _ _ hstart h.1)⟩

end Program

/-- No reply so far is marked. -/
def Unmarked (marks : Exchange Op Reply → Bool) (history : List (Exchange Op Reply)) : Prop :=
  ∀ exchange ∈ history, marks exchange = false

section Unmarked

variable {marks : Exchange Op Reply → Bool} {history : List (Exchange Op Reply)}
  {exchange : Exchange Op Reply} {success : Bool}

theorem unmarked_nil : Unmarked marks [] := fun _ hmem => nomatch hmem

theorem Unmarked.append (h : Unmarked marks history) (hnext : marks exchange = false) :
    Unmarked marks (history ++ [exchange]) := by
  intro other hmem
  rcases List.mem_append.mp hmem with hmem | hmem
  · exact h other hmem
  · rw [List.mem_singleton.mp hmem]
    exact hnext

theorem unmarked_iff : Unmarked marks history ↔ history.countP marks = 0 := by
  simp [Unmarked, List.countP_eq_zero]

/-- A history without a mark ends without success. -/
theorem Unmarked.failed (h : Unmarked marks history) (hfailed : success = false) :
    success = true ↔ ¬Unmarked marks history := by
  simp [h, hfailed]

/-- A marked reply ends with success. -/
theorem succeeded_last (hmarks : marks exchange = true) (hsuccess : success = true) :
    success = true ↔ ¬Unmarked marks (history ++ [exchange]) := by
  refine iff_of_true hsuccess fun h => ?_
  cases (h exchange (List.mem_append_right _ List.mem_cons_self)).symm.trans hmarks

/-- A call whose reply may be marked is made when none is marked yet. -/
def MarksOnce (marks : Exchange Op Reply → Bool) (history : List (Exchange Op Reply)) (op : Op) :
    Prop :=
  Unmarked marks history ∨ ∀ reply, marks ⟨op, reply⟩ = false

/-- Then at most one reply is ever marked. -/
theorem MarksOnce.countP_le_one {valid : (op : Op) → Reply op → Prop}
    {post : List (Exchange Op Reply) → α → Prop} {program rest : Program Op Reply α}
    (h : program.Always (MarksOnce marks) valid post []) (hreaches : program.Reaches history rest)
    (hvalid : ∀ exchange ∈ history, valid exchange.op exchange.reply) :
    history.countP marks ≤ 1 := by
  induction hreaches with
  | start => exact Nat.zero_le _
  | @reply history op next reply hreaches ih =>
    have hbefore := fun exchange hmem => hvalid exchange (List.mem_append_left _ hmem)
    rw [List.countP_append]
    rcases (h.reaches hreaches hbefore).1 with hunmarked | hnever
    · rw [unmarked_iff.mp hunmarked, Nat.zero_add]
      exact List.countP_le_length
    · rw [List.countP_singleton, if_neg (by simp [hnever])]
      exact ih hbefore

end Unmarked

/-- A thread that has a call to make. -/
def Config.Unfinished (config : Config Op Reply S Job α) (thread : Nat) : Prop :=
  ∃ job op next, config.threads[thread]? = some ⟨job, .call op next⟩

namespace System

variable {sys : System Op Reply S Job Choice External α} {config : Config Op Reply S Job α}
  {start : S} {calls : Nat} {allowed : Op → Prop}

/-- The trace is as long as the histories of all threads together. -/
theorem Follows.length_trace_le (h : sys.Follows config)
    (hcalls : ∀ thread, (config.history thread).length ≤ calls) :
    config.trace.length ≤ config.threads.length * calls := by
  have hcount : ∀ thread, Multiset.count thread (config.trace.map Taken.thread : Multiset Nat) =
      (config.history thread).length := by
    intro thread
    rw [Multiset.coe_count, List.count_eq_countP, List.countP_map, List.countP_eq_length_filter,
      Config.history, List.length_map]
    rfl
  have hmem : ∀ thread ∈ (config.trace.map Taken.thread : Multiset Nat),
      thread ∈ Finset.range config.threads.length := by
    intro thread hthread
    rw [Finset.mem_range]
    by_contra hge
    have hnil := h.fresh thread (Nat.not_lt.mp hge)
    have hpos := Multiset.count_pos.mpr hthread
    rw [hcount, hnil] at hpos
    exact Nat.lt_irrefl _ hpos
  calc config.trace.length = Multiset.card (config.trace.map Taken.thread : Multiset Nat) := by simp
    _ = ∑ thread ∈ Finset.range config.threads.length, (config.history thread).length := by
      rw [← Multiset.sum_count_eq_card hmem]
      exact Finset.sum_congr rfl fun thread _ => hcount thread
    _ ≤ ∑ _thread ∈ Finset.range config.threads.length, calls :=
      Finset.sum_le_sum fun thread _ => hcalls thread
    _ = config.threads.length * calls := by simp

/-- What each program makes bounds the calls of every thread in every run. -/
theorem Follows.length_history_le (h : sys.Follows config)
    (hmakes : ∀ job, (sys.serve job).Makes allowed calls) (thread : Nat) :
    (config.history thread).length ≤ calls := by
  cases hthread : config.threads[thread]? with
  | none =>
    rw [h.fresh thread (List.getElem?_eq_none_iff.mp hthread)]
    exact Nat.zero_le _
  | some state =>
    obtain ⟨job, program⟩ := state
    obtain ⟨left, hleft, -⟩ := (hmakes job).reaches (h.reaches thread job program hthread)
    omega

/-- Where an unfinished thread means that some thread can go on, the threads can
all be brought to their ends. -/
theorem Reachable.exists_completed (chooses : Choice → Prop)
    (hmakes : ∀ job, (sys.serve job).Makes allowed calls)
    (hprogress : ∀ config, sys.Reachable (.initial start) config → ∀ thread,
      config.Unfinished thread → ∃ other choice next, chooses choice ∧
        sys.move config (.run other choice) = some next)
    (h : sys.Reachable (.initial start) config) :
    ∃ events final, (∀ event ∈ events, ∃ thread choice, event = .run thread choice ∧ chooses choice) ∧
      sys.run config events = some final ∧ ∀ thread, ¬final.Unfinished thread := by
  induction hleft : config.threads.length * calls - config.trace.length using Nat.strongRecOn
    generalizing config with
  | ind left ih =>
  by_cases hunfinished : ∃ thread, config.Unfinished thread
  · obtain ⟨thread, hthread⟩ := hunfinished
    obtain ⟨other, choice, next, hchooses, hmove⟩ := hprogress config h thread hthread
    have hnext : sys.Reachable (.initial start) next := .move h trivial hmove
    obtain ⟨_, heq, -, -⟩ | ⟨_, _, job, op, reply, -, ⟨htakes⟩⟩ | ⟨_, _, heq, -⟩ := move_cases hmove
    · cases heq
    · have hbound := hnext.follows.length_trace_le (hnext.follows.length_history_le hmakes)
      have hthreads : next.threads.length = config.threads.length := by simp [htakes.threads_eq]
      have htrace : next.trace.length = config.trace.length + 1 := by simp [htakes.trace_eq]
      rw [hthreads] at hbound
      obtain ⟨events, final, hevents, hrun, hdone⟩ :=
        ih (next.threads.length * calls - next.trace.length) (by rw [hthreads]; omega) hnext rfl
      refine ⟨.run other choice :: events, final, ?_, ?_, hdone⟩
      · intro event hmem
        rcases List.mem_cons.mp hmem with rfl | hmem
        · exact ⟨other, choice, rfl, hchooses⟩
        · exact hevents event hmem
      · rw [run, hmove]
        exact hrun
    · cases heq
  · exact ⟨[], config, fun _ hmem => absurd hmem List.not_mem_nil, rfl, fun thread hthread =>
      hunfinished ⟨thread, hthread⟩⟩

end System
end SimpleBank.Library
