import Mathlib.Init

/-! Programs that call an environment and continue with its reply.  The type
of a reply depends on the call.  A program is a tree, so what it owes before
each of its calls is proved by recursion on it, whatever the environment does
between two calls. -/
namespace SimpleBank.Library

inductive Program (Op : Type) (Reply : Op → Type) (α : Type) where
  | done (value : α)
  | call (op : Op) (next : Reply op → Program Op Reply α)

namespace Program

variable {Op : Type} {Reply : Op → Type} {α β γ S : Type}

def bind : Program Op Reply α → (α → Program Op Reply β) → Program Op Reply β
  | .done value, f => f value
  | .call op next, f => .call op fun reply => (next reply).bind f

instance : Monad (Program Op Reply) where
  pure := .done
  bind := bind

def perform (op : Op) : Program Op Reply (Reply op) := .call op .done

@[simp] theorem done_bind (value : α) (f : α → Program Op Reply β) :
    (Program.done value >>= f : Program Op Reply β) = f value := rfl

@[simp] theorem pure_bind (value : α) (f : α → Program Op Reply β) :
    (pure value >>= f : Program Op Reply β) = f value := rfl

@[simp] theorem call_bind (op : Op) (next : Reply op → Program Op Reply α)
    (f : α → Program Op Reply β) :
    (Program.call op next >>= f : Program Op Reply β) =
      .call op fun reply => next reply >>= f := rfl

@[simp] theorem perform_bind (op : Op) (f : Reply op → Program Op Reply β) :
    (perform op >>= f : Program Op Reply β) = .call op f := rfl

theorem bind_assoc (program : Program Op Reply α) (f : α → Program Op Reply β)
    (g : β → Program Op Reply γ) :
    (program >>= f) >>= g = program >>= fun value => f value >>= g := by
  induction program with
  | done value => rfl
  | call op next ih =>
    simp only [call_bind]
    congr 1
    funext reply
    exact ih reply

/-- Run a program alone against an environment that answers every call. -/
def runWith (answer : (op : Op) → S → Option (Reply op × S)) :
    Program Op Reply α → S → Option (α × S)
  | .done value, state => some (value, state)
  | .call op next, state => (answer op state).bind fun result =>
      (next result.1).runWith answer result.2

theorem runWith_call {answer : (op : Op) → S → Option (Reply op × S)} {op : Op}
    {next : Reply op → Program Op Reply α} {state state' : S} {reply : Reply op}
    (h : answer op state = some (reply, state')) :
    (Program.call op next).runWith answer state = (next reply).runWith answer state' := by
  rw [runWith, h, Option.bind_some]

theorem runWith_bind (answer : (op : Op) → S → Option (Reply op × S))
    (program : Program Op Reply α) (f : α → Program Op Reply β) (state : S) :
    (program >>= f).runWith answer state =
      (program.runWith answer state).bind fun result => (f result.1).runWith answer result.2 := by
  induction program generalizing state with
  | done value => rfl
  | call op next ih =>
    simp only [call_bind, runWith]
    cases answer op state with
    | none => rfl
    | some result => exact ih result.1 result.2

/-- What a program can end with, and in which state, when it runs alone and an
answer may come out in several ways. -/
inductive Evaluates (answers : (op : Op) → S → Reply op → S → Prop) :
    Program Op Reply α → S → α → S → Prop
  | done (value : α) (state : S) : Evaluates answers (.done value) state value state
  | call {op : Op} {next : Reply op → Program Op Reply α} {state state' final : S}
      {reply : Reply op} {value : α} : answers op state reply state' →
      Evaluates answers (next reply) state' value final →
      Evaluates answers (.call op next) state value final

section Evaluates

variable {answers : (op : Op) → S → Reply op → S → Prop} {state final : S}

theorem evaluates_done {value value' : α} :
    Evaluates answers (.done value : Program Op Reply α) state value' final ↔
      value' = value ∧ final = state := by
  constructor
  · rintro ⟨⟩
    exact ⟨rfl, rfl⟩
  · rintro ⟨rfl, rfl⟩
    exact .done _ _

theorem evaluates_call {op : Op} {next : Reply op → Program Op Reply α} {value : α} :
    Evaluates answers (.call op next) state value final ↔
      ∃ reply state', answers op state reply state' ∧
        Evaluates answers (next reply) state' value final := by
  constructor
  · rintro ⟨⟩
    exact ⟨_, _, ‹_›, ‹_›⟩
  · rintro ⟨reply, state', hanswer, hrest⟩
    exact .call hanswer hrest

theorem evaluates_bind {program : Program Op Reply α} {f : α → Program Op Reply β} {value : β} :
    Evaluates answers (program >>= f) state value final ↔
      ∃ middle state', Evaluates answers program state middle state' ∧
        Evaluates answers (f middle) state' value final := by
  induction program generalizing state with
  | done found =>
    constructor
    · exact fun h => ⟨found, state, .done _ _, h⟩
    · rintro ⟨middle, state', ⟨⟩, hf⟩
      exact hf
  | call op next ih =>
    simp only [call_bind, evaluates_call, ih]
    constructor
    · rintro ⟨reply, state', hanswer, middle, later, hrest, hf⟩
      exact ⟨middle, later, ⟨reply, state', hanswer, hrest⟩, hf⟩
    · rintro ⟨middle, later, ⟨reply, state', hanswer, hrest⟩, hf⟩
      exact ⟨reply, state', hanswer, middle, later, hrest, hf⟩

end Evaluates

end Program

structure Exchange (Op : Type) (Reply : Op → Type) where
  op : Op
  reply : Reply op

namespace Program

variable {Op : Type} {Reply : Op → Type} {α β : Type}

/-- What is left of a program after a history of calls and their replies. -/
inductive Reaches (program : Program Op Reply α) :
    List (Exchange Op Reply) → Program Op Reply α → Prop
  | start : Reaches program [] program
  | reply {history : List (Exchange Op Reply)} {op : Op} {next : Reply op → Program Op Reply α}
      (reply : Reply op) : Reaches program history (.call op next) →
      Reaches program (history ++ [⟨op, reply⟩]) (next reply)

theorem Reaches.eq_of_nil {program rest : Program Op Reply α} (h : Reaches program [] rest) :
    rest = program := by
  generalize hnil : ([] : List (Exchange Op Reply)) = history at h
  cases h with
  | start => rfl
  | reply _ _ => simp at hnil

/-- What a program ends with when its calls get the replies of a history, and
the rest of the history. -/
def replay [DecidableEq Op] : Program Op Reply α → List (Exchange Op Reply) →
    Option (α × List (Exchange Op Reply))
  | .done value, history => some (value, history)
  | .call _ _, [] => none
  | .call op next, ⟨op', reply⟩ :: history =>
    if h : op' = op then (next (h ▸ reply)).replay history else none

section Replay

variable [DecidableEq Op]

theorem replay_call_cons {op : Op} {reply : Reply op} {next : Reply op → Program Op Reply α}
    {history : List (Exchange Op Reply)} :
    (Program.call op next).replay (⟨op, reply⟩ :: history) = (next reply).replay history := by
  simp [replay]

theorem replay_call_eq_some {op : Op} {next : Reply op → Program Op Reply α}
    {history : List (Exchange Op Reply)} {result : α × List (Exchange Op Reply)} :
    (Program.call op next).replay history = some result ↔
      ∃ reply rest, history = ⟨op, reply⟩ :: rest ∧ (next reply).replay rest = some result := by
  constructor
  · intro h
    cases history with
    | nil => cases h
    | cons exchange rest =>
      obtain ⟨op', reply⟩ := exchange
      simp only [replay] at h
      split at h
      · rename_i heq
        cases heq
        exact ⟨reply, rest, rfl, h⟩
      · cases h
  · rintro ⟨reply, rest, rfl, h⟩
    rw [replay_call_cons, h]

theorem replay_bind (program : Program Op Reply α) (f : α → Program Op Reply β)
    (history : List (Exchange Op Reply)) : (program >>= f).replay history =
      (program.replay history).bind fun result => (f result.1).replay result.2 := by
  induction program generalizing history with
  | done value => rfl
  | call op next ih =>
    rw [call_bind]
    cases history with
    | nil => rfl
    | cons exchange rest =>
      obtain ⟨op', reply⟩ := exchange
      simp only [replay]
      split
      · exact ih _ rest
      · rfl

theorem Reaches.replay {program rest : Program Op Reply α} {history : List (Exchange Op Reply)}
    (h : Reaches program history rest) (later : List (Exchange Op Reply)) :
    program.replay (history ++ later) = rest.replay later := by
  induction h generalizing later with
  | start => rfl
  | reply reply _ ih =>
    rw [List.append_assoc, ih]
    exact replay_call_cons

theorem Reaches.replay_done {program : Program Op Reply α} {history : List (Exchange Op Reply)}
    {value : α} (h : Reaches program history (.done value)) :
    program.replay history = some (value, []) := by
  have hreplay := h.replay []
  rwa [List.append_nil] at hreplay

end Replay

section Always

variable (owes : List (Exchange Op Reply) → Op → Prop) (valid : (op : Op) → Reply op → Prop)

/-- Before each call the program keeps what it owes, and it ends in `post`, as
long as all replies are `valid`. -/
def Always (post : List (Exchange Op Reply) → α → Prop) :
    List (Exchange Op Reply) → Program Op Reply α → Prop
  | history, .done value => post history value
  | history, .call op next => owes history op ∧
      ∀ reply, valid op reply → Always post (history ++ [⟨op, reply⟩]) (next reply)

variable {owes valid}

@[simp] theorem always_done {post : List (Exchange Op Reply) → α → Prop}
    {history : List (Exchange Op Reply)} {value : α} :
    Always owes valid post history (.done value) ↔ post history value := Iff.rfl

@[simp] theorem always_pure {post : List (Exchange Op Reply) → α → Prop}
    {history : List (Exchange Op Reply)} {value : α} :
    Always owes valid post history (pure value) ↔ post history value := Iff.rfl

@[simp] theorem always_call {post : List (Exchange Op Reply) → α → Prop}
    {history : List (Exchange Op Reply)} {op : Op} {next : Reply op → Program Op Reply α} :
    Always owes valid post history (.call op next) ↔ owes history op ∧
      ∀ reply, valid op reply → Always owes valid post (history ++ [⟨op, reply⟩]) (next reply) :=
  Iff.rfl

theorem Always.bind {mid : List (Exchange Op Reply) → β → Prop}
    {post : List (Exchange Op Reply) → α → Prop} {f : β → Program Op Reply α}
    (hnext : ∀ history value, mid history value → Always owes valid post history (f value))
    {program : Program Op Reply β} {history : List (Exchange Op Reply)}
    (h : Always owes valid mid history program) :
    Always owes valid post history (program >>= f) := by
  induction program generalizing history with
  | done value => exact hnext history value h
  | call op next ih => exact ⟨h.1, fun reply hreply => ih reply (h.2 reply hreply)⟩

theorem Always.mono {owes' : List (Exchange Op Reply) → Op → Prop}
    {post post' : List (Exchange Op Reply) → α → Prop}
    (howes : ∀ history op, owes history op → owes' history op)
    (hpost : ∀ history value, post history value → post' history value)
    {program : Program Op Reply α} {history : List (Exchange Op Reply)}
    (h : Always owes valid post history program) : Always owes' valid post' history program := by
  induction program generalizing history with
  | done value => exact hpost history value h
  | call op next ih => exact ⟨howes history op h.1, fun reply hreply => ih reply (h.2 reply hreply)⟩

/-- A program that owes nothing. -/
theorem Always.of_trivial (program : Program Op Reply α) (history : List (Exchange Op Reply)) :
    Always (fun _ _ => True) valid (fun _ _ => True) history program := by
  induction program generalizing history with
  | done value => trivial
  | call op next ih => exact ⟨trivial, fun reply _ => ih reply _⟩

/-- A program that has come some way still keeps what it owes. -/
theorem Always.reaches {post : List (Exchange Op Reply) → α → Prop}
    {program rest : Program Op Reply α} {history : List (Exchange Op Reply)}
    (h : Always owes valid post [] program) (hreaches : Reaches program history rest)
    (hvalid : ∀ exchange ∈ history, valid exchange.op exchange.reply) :
    Always owes valid post history rest := by
  induction hreaches with
  | start => exact h
  | @reply history op next reply _ ih =>
    have hbefore := ih fun exchange hmem => hvalid exchange (List.mem_append_left _ hmem)
    exact hbefore.2 reply (hvalid ⟨op, reply⟩ (List.mem_append_right _ List.mem_cons_self))

/-- Whatever the program has called, it owed at the time. -/
theorem Always.owed {post : List (Exchange Op Reply) → α → Prop}
    {program rest : Program Op Reply α} {history : List (Exchange Op Reply)}
    (h : Always owes valid post [] program) (hreaches : Reaches program history rest)
    (hvalid : ∀ exchange ∈ history, valid exchange.op exchange.reply) :
    ∀ exchange ∈ history, ∃ earlier, owes earlier exchange.op := by
  induction hreaches with
  | start => exact fun _ hmem => nomatch hmem
  | @reply history op next reply hreaches ih =>
    intro exchange hmem
    have hvalid := fun other hmem => hvalid other (List.mem_append_left _ hmem)
    rcases List.mem_append.mp hmem with hmem | hmem
    · exact ih hvalid exchange hmem
    · rw [List.mem_singleton.mp hmem]
      exact ⟨history, (h.reaches hreaches hvalid).1⟩

/-- A program that gets an answer to every call it may make comes to an end. -/
theorem Always.exists_evaluates {S : Type} {answers : (op : Op) → S → Reply op → S → Prop}
    (inv : List (Exchange Op Reply) → S → Prop) {post : List (Exchange Op Reply) → α → Prop}
    (hstep : ∀ history op state, owes history op → inv history state → ∃ reply state',
      answers op state reply state' ∧ valid op reply ∧ inv (history ++ [⟨op, reply⟩]) state')
    {program : Program Op Reply α} {history : List (Exchange Op Reply)} {state : S}
    (h : Always owes valid post history program) (hinv : inv history state) :
    ∃ value final, Evaluates answers program state value final := by
  induction program generalizing history state with
  | done value => exact ⟨value, state, .done _ _⟩
  | call op next ih =>
    obtain ⟨reply, state', hanswer, hvalid, hinv'⟩ := hstep history op state h.1 hinv
    obtain ⟨value, final, hrest⟩ := ih reply (h.2 reply hvalid) hinv'
    exact ⟨value, final, .call hanswer hrest⟩

/-- The calls a program has made in a history it comes to an end in. -/
theorem Always.of_replay [DecidableEq Op] {allowed : Op → Prop}
    {post : List (Exchange Op Reply) → α → Prop}
    {program : Program Op Reply α} {earlier history rest : List (Exchange Op Reply)} {value : α}
    (h : Always (fun _ op => allowed op) (fun _ _ => True) post earlier program)
    (hreplay : program.replay history = some (value, rest)) :
    ∃ during, history = during ++ rest ∧ ∀ exchange ∈ during, allowed exchange.op := by
  induction program generalizing earlier history with
  | done found =>
    cases hreplay
    exact ⟨[], rfl, fun _ hmem => nomatch hmem⟩
  | call op next ih =>
    obtain ⟨reply, after, rfl, hafter⟩ := replay_call_eq_some.mp hreplay
    obtain ⟨during, rfl, hduring⟩ := ih reply (h.2 reply trivial) hafter
    refine ⟨⟨op, reply⟩ :: during, rfl, ?_⟩
    intro exchange hmem
    rcases List.mem_cons.mp hmem with rfl | hmem
    · exact h.1
    · exact hduring exchange hmem

end Always
end Program
end SimpleBank.Library
