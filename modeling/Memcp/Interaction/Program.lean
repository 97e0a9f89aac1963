import Mathlib.Logic.Function.Basic

/-!
Programs that talk to an environment through typed calls.  A program is the
tree of everything it may do: it stops with a value, or it makes a call and
goes on with whatever the environment replies.
-/

namespace Interaction

/-- The calls a program may make, each with the type of its reply. -/
structure Signature where
  Call : Type
  Reply : Call → Type

inductive Program (sig : Signature) (α : Type) : Type where
  | done (value : α)
  | ask (call : sig.Call) (next : sig.Reply call → Program sig α)

/-- A call together with the reply the environment gave. -/
structure Event (sig : Signature) where
  call : sig.Call
  reply : sig.Reply call

abbrev Trace (sig : Signature) := List (Event sig)

variable {sig target : Signature} {α β γ : Type}

namespace Program

def bind : Program sig α → (α → Program sig β) → Program sig β
  | .done value, rest => rest value
  | .ask call next, rest => .ask call fun reply => (next reply).bind rest

/-- The program that makes one call and returns its reply. -/
def call (request : sig.Call) : Program sig (sig.Reply request) :=
  .ask request .done

@[simp] theorem done_bind (value : α) (rest : α → Program sig β) :
    (Program.done value).bind rest = rest value := rfl

@[simp] theorem ask_bind (request : sig.Call)
    (next : sig.Reply request → Program sig α)
    (rest : α → Program sig β) :
    (Program.ask request next).bind rest =
      .ask request fun reply => (next reply).bind rest := rfl

@[simp] theorem call_bind (request : sig.Call)
    (rest : sig.Reply request → Program sig β) :
    (Program.call request).bind rest = .ask request rest := rfl

@[simp] theorem bind_done (program : Program sig α) :
    program.bind .done = program := by
  induction program with
  | done value => rfl
  | ask request next induction =>
      simp only [ask_bind]
      exact congrArg _ (funext induction)

theorem bind_assoc (program : Program sig α)
    (first : α → Program sig β) (second : β → Program sig γ) :
    (program.bind first).bind second =
      program.bind fun value => (first value).bind second := by
  induction program with
  | done value => rfl
  | ask request next induction =>
      simp only [ask_bind]
      exact congrArg _ (funext induction)

/-- What a program that has stopped returned. -/
def value? : Program sig α → Option α
  | .done value => some value
  | .ask _ _ => none

def eval {State : Type}
    (answer : (call : sig.Call) → State → sig.Reply call × State) :
    Program sig α → State → α × State
  | .done value, state => (value, state)
  | .ask call next, state =>
      (next (answer call state).1).eval answer (answer call state).2

theorem eval_bind {State : Type}
    (answer : (call : sig.Call) → State → sig.Reply call × State)
    (program : Program sig α) (rest : α → Program sig β) (state : State) :
    (program.bind rest).eval answer state =
      (rest (program.eval answer state).1).eval answer
        (program.eval answer state).2 := by
  induction program generalizing state with
  | done value => rfl
  | ask request next induction => exact induction _ _

/-! Replacing every call by a program over another signature. -/

def interpret (handler : (call : sig.Call) → Program target (sig.Reply call)) :
    Program sig α → Program target α
  | .done value => .done value
  | .ask call next =>
      (handler call).bind fun reply => (next reply).interpret handler

end Program

/-! A run of a program against some environment: the calls made, the replies
given and the value returned. -/

inductive Runs : Program sig α → Trace sig → α → Prop
  | done (value : α) : Runs (.done value) [] value
  | ask {request : sig.Call} {next : sig.Reply request → Program sig α}
      (reply : sig.Reply request) {rest : Trace sig} {value : α}
      (tail : Runs (next reply) rest value) :
      Runs (.ask request next) (⟨request, reply⟩ :: rest) value

namespace Program

/-- The run of a program against an environment that answers each call knowing
the events so far. -/
def against (environment : Trace sig → (call : sig.Call) → sig.Reply call) :
    Program sig α → Trace sig → Trace sig × α
  | .done value, past => (past, value)
  | .ask call next, past =>
      (next (environment past call)).against environment
        (past ++ [⟨call, environment past call⟩])

theorem against_bind
    (environment : Trace sig → (call : sig.Call) → sig.Reply call)
    (program : Program sig α) (rest : α → Program sig β) (past : Trace sig) :
    (program.bind rest).against environment past =
      (rest (program.against environment past).2).against environment
        (program.against environment past).1 := by
  induction program generalizing past with
  | done value => rfl
  | ask call next induction => exact induction _ _

theorem runs_against
    (environment : Trace sig → (call : sig.Call) → sig.Reply call)
    (program : Program sig α) (past : Trace sig) :
    ∃ trace, (program.against environment past).1 = past ++ trace ∧
      Runs program trace (program.against environment past).2 := by
  induction program generalizing past with
  | done value => exact ⟨[], by simp [against], .done value⟩
  | ask call next induction =>
      obtain ⟨trace, same, runs⟩ := induction (environment past call)
        (past ++ [⟨call, environment past call⟩])
      exact ⟨⟨call, environment past call⟩ :: trace,
        by simpa [against] using same, .ask _ runs⟩

end Program

/-!
Reasoning about a program in an arbitrary environment.  `Safe guard post
program past` says that after the events `past`, whatever the environment
replies, each call satisfies `guard` on the events before it, and the value
satisfies `post` on all the events.
-/

def Safe (guard : Trace sig → sig.Call → Prop) (post : Trace sig → α → Prop) :
    Program sig α → Trace sig → Prop
  | .done value, past => post past value
  | .ask call next, past =>
      guard past call ∧
        ∀ reply, Safe guard post (next reply) (past ++ [⟨call, reply⟩])

namespace Safe

variable {guard : Trace sig → sig.Call → Prop}
  {post : Trace sig → α → Prop} {past : Trace sig}

@[simp] theorem done_iff (value : α) :
    Safe guard post (.done value) past ↔ post past value := Iff.rfl

@[simp] theorem ask_iff (request : sig.Call)
    (next : sig.Reply request → Program sig α) :
    Safe guard post (.ask request next) past ↔
      guard past request ∧
        ∀ reply, Safe guard post (next reply) (past ++ [⟨request, reply⟩]) :=
  Iff.rfl

/-- What holds of the events of a program's start holds of its whole run, so
a program is safe when its first part establishes what the rest needs. -/
theorem bind {middle : Trace sig → α → Prop} {post : Trace sig → β → Prop}
    {program : Program sig α} {rest : α → Program sig β}
    (first : Safe guard middle program past)
    (second : ∀ later value, middle later value →
      Safe guard post (rest value) later) :
    Safe guard post (program.bind rest) past := by
  induction program generalizing past with
  | done value => exact second past value first
  | ask request next induction =>
      exact ⟨first.1, fun reply => induction reply (first.2 reply)⟩

theorem mono {guard' : Trace sig → sig.Call → Prop}
    {post' : Trace sig → α → Prop} {program : Program sig α}
    (safe : Safe guard post program past)
    (guards : ∀ later request, guard later request → guard' later request)
    (posts : ∀ later value, post later value → post' later value) :
    Safe guard' post' program past := by
  induction program generalizing past with
  | done value => exact posts past value safe
  | ask request next induction =>
      exact ⟨guards past request safe.1,
        fun reply => induction reply (safe.2 reply)⟩

/-- What the allowed calls keep true of the past may be assumed at the end of a
run. -/
theorem maintain {kept : Trace sig → Prop} {program : Program sig α}
    (grows : ∀ later request reply, guard later request → kept later →
      kept (later ++ [⟨request, reply⟩]))
    (holds : kept past) (safe : Safe guard post program past) :
    Safe guard (fun later value => kept later ∧ post later value) program past := by
  induction program generalizing past with
  | done value => exact ⟨holds, safe⟩
  | ask request next induction =>
      exact ⟨safe.1, fun reply =>
        induction reply (grows past request reply safe.1 holds) (safe.2 reply)⟩

/-- Knowledge about the past that survives longer pasts may be assumed at the
end of a run. -/
theorem keep {kept : Trace sig → Prop}
    {program : Program sig α}
    (grows : ∀ later event, kept later → kept (later ++ [event]))
    (holds : kept past)
    (safe : Safe guard post program past) :
    Safe guard (fun later value => kept later ∧ post later value)
      program past :=
  maintain (fun later _ _ _ => grows later _) holds safe

theorem and {post' : Trace sig → α → Prop} {program : Program sig α}
    (safe : Safe guard post program past) (safe' : Safe guard post' program past) :
    Safe guard (fun later value => post later value ∧ post' later value) program
      past := by
  induction program generalizing past with
  | done value => exact ⟨safe, safe'⟩
  | ask request next induction =>
      exact ⟨safe.1, fun reply => induction reply (safe.2 reply) (safe'.2 reply)⟩

theorem both {guard' : Trace sig → sig.Call → Prop} {post' : Trace sig → α → Prop}
    {program : Program sig α} (safe : Safe guard post program past)
    (safe' : Safe guard' post' program past) :
    Safe (fun later call => guard later call ∧ guard' later call)
      (fun later value => post later value ∧ post' later value) program past := by
  induction program generalizing past with
  | done value => exact ⟨safe, safe'⟩
  | ask request next induction =>
      exact ⟨⟨safe.1, safe'.1⟩, fun reply => induction reply (safe.2 reply) (safe'.2 reply)⟩

theorem extended {program : Program sig α}
    (safe : Safe guard post program past) :
    Safe guard (fun later value => past <+: later ∧ post later value)
      program past :=
  keep (fun _ _ extended => extended.trans (List.prefix_append _ _))
    (List.prefix_refl past) safe

/-- Adequacy: every run of a safe program ends in `post`. -/
theorem post_of_runs {program : Program sig α} {trace : Trace sig} {value : α}
    (safe : Safe guard post program past)
    (runs : Runs program trace value) :
    post (past ++ trace) value := by
  induction runs generalizing past with
  | done value => simpa using safe
  | ask reply tail induction =>
      simpa using induction (safe.2 reply)

/-- Adequacy: every call of a run of a safe program satisfies `guard` on the
events before it. -/
theorem guard_of_runs {program : Program sig α} {trace : Trace sig} {value : α}
    (safe : Safe guard post program past)
    (runs : Runs program trace value)
    {before after : Trace sig} {event : Event sig}
    (split : trace = before ++ event :: after) :
    guard (past ++ before) event.call := by
  induction runs generalizing past before with
  | done value => simp at split
  | ask reply tail induction =>
      cases before with
      | nil =>
          simp only [List.nil_append, List.cons.injEq] at split
          obtain ⟨rfl, -⟩ := split
          simpa using safe.1
      | cons head before =>
          simp only [List.cons_append, List.cons.injEq] at split
          obtain ⟨rfl, split⟩ := split
          simpa using induction (safe.2 reply) split

/-- When each call's replacement is safe and leaves a past that matches the one
with the call answered, so is the program with its calls replaced. -/
theorem interpret {guard' : Trace target → target.Call → Prop}
    {link : Trace sig → Trace target → Prop}
    {handler : (call : sig.Call) → Program target (sig.Reply call)}
    (handles : ∀ past past' call, link past past' → guard past call →
      Safe guard' (fun later reply => link (past ++ [⟨call, reply⟩]) later)
        (handler call) past')
    {program : Program sig α} {past' : Trace target}
    (safe : Safe guard post program past) (linked : link past past') :
    Safe guard' (fun later value => ∃ trace, link trace later ∧ post trace value)
      (program.interpret handler) past' := by
  induction program generalizing past past' with
  | done value => exact ⟨past, linked, safe⟩
  | ask request next induction =>
      exact Safe.bind (handles past past' request linked safe.1)
        fun later reply linked => induction reply (safe.2 reply) linked

theorem post_of_against {program : Program sig α}
    (safe : Safe guard post program [])
    (environment : Trace sig → (call : sig.Call) → sig.Reply call) :
    post (program.against environment []).1
      (program.against environment []).2 := by
  obtain ⟨trace, same, runs⟩ := program.runs_against environment []
  rw [same]
  exact safe.post_of_runs runs

theorem guard_of_against {program : Program sig α}
    (safe : Safe guard post program [])
    (environment : Trace sig → (call : sig.Call) → sig.Reply call)
    {before after : Trace sig} {event : Event sig}
    (split : (program.against environment []).1 = before ++ event :: after) :
    guard before event.call := by
  obtain ⟨trace, same, runs⟩ := program.runs_against environment []
  rw [List.nil_append] at same
  exact safe.guard_of_runs runs (same ▸ split)

/-- A client of safe implementations of its calls is safe. -/
theorem client {guard' : target.Call → Prop}
    {handler : (call : sig.Call) → Program target (sig.Reply call)}
    (handles : ∀ call past, Safe (fun _ => guard') (fun _ _ => True) (handler call) past)
    (program : Program sig α) (past : Trace target) :
    Safe (fun _ => guard') (fun _ _ => True) (program.interpret handler) past := by
  induction program generalizing past with
  | done value => exact trivial
  | ask request next induction =>
      exact Safe.bind (handles request past) fun later reply _ => induction reply later

/-- What is allowed whatever came before is allowed after any past. -/
theorem anywhere {guard : sig.Call → Prop} {program : Program sig α}
    (safe : Safe (fun _ => guard) (fun _ _ => True) program past) (past' : Trace sig) :
    Safe (fun _ => guard) (fun _ _ => True) program past' := by
  induction program generalizing past past' with
  | done value => exact trivial
  | ask request next induction =>
      exact ⟨safe.1, fun reply => induction reply (safe.2 reply) _⟩

/-! Safety from runs: what every environment sees of a program is all it may do. -/

/-- Environments that agree from a point on see the same. -/
theorem against_congr {environment environment' : Trace sig → (call : sig.Call) →
    sig.Reply call} (program : Program sig α) {past : Trace sig}
    (agree : ∀ later call, past.length ≤ later.length →
      environment later call = environment' later call) :
    program.against environment past = program.against environment' past := by
  induction program generalizing past with
  | done value => rfl
  | ask request next induction =>
      simp only [Program.against, agree past request (Nat.le_refl _)]
      refine induction _ fun later call longer => agree later call ?_
      rw [List.length_append] at longer
      exact Nat.le_trans (Nat.le_add_right _ _) longer

open Classical in
/-- Whatever follows one reply follows the call in some environment. -/
theorem exists_against_ask {request : sig.Call} (next : sig.Reply request → Program sig α)
    (reply : sig.Reply request) (past : Trace sig)
    (environment : Trace sig → (call : sig.Call) → sig.Reply call) :
    ∃ replying, (Program.ask request next).against replying past =
      (next reply).against environment (past ++ [⟨request, reply⟩]) := by
  -- The environment that gives this reply, and then answers like the other.
  let replying : Trace sig → (call : sig.Call) → sig.Reply call := fun later call =>
    if same : call = request ∧ later = past then same.1 ▸ reply
    else environment later call
  have gives : replying past request = reply := by
    simp [replying]
  refine ⟨replying, ?_⟩
  rw [Program.against, gives]
  refine against_congr _ fun later call longer => ?_
  have distinct : later ≠ past := by
    rintro rfl
    rw [List.length_append] at longer
    exact Nat.not_succ_le_self _ longer
  simp [replying, distinct]

/-- A program is safe when every call it makes in any environment is allowed. -/
theorem of_against {guard : sig.Call → Prop} {program : Program sig α}
    {past : Trace sig} (environment : Trace sig → (call : sig.Call) → sig.Reply call)
    (allowed : ∀ environment, ∃ calls, (program.against environment past).1 = past ++ calls ∧
      ∀ event ∈ calls, guard event.call) :
    Safe (fun _ => guard) (fun _ _ => True) program past := by
  induction program generalizing past with
  | done value => exact trivial
  | ask request next induction =>
      have first : ∀ reply environment, ∃ calls,
          ((next reply).against environment (past ++ [⟨request, reply⟩])).1 =
              (past ++ [⟨request, reply⟩]) ++ calls ∧
            guard request ∧ ∀ event ∈ calls, guard event.call := by
        intro reply environment
        obtain ⟨replying, goesOn⟩ := exists_against_ask next reply past environment
        obtain ⟨calls, ran, each⟩ := allowed replying
        obtain ⟨trace, grows, -⟩ := (next reply).runs_against environment
          (past ++ [⟨request, reply⟩])
        have same : calls = ⟨request, reply⟩ :: trace := by
          refine (List.append_right_inj past).mp ?_
          rw [← ran, goesOn, grows, List.append_assoc]
          rfl
        subst same
        exact ⟨trace, grows, each _ List.mem_cons_self, fun event member =>
          each event (List.mem_cons_of_mem _ member)⟩
      refine ⟨(first (environment past request) environment).choose_spec.2.1,
        fun reply => induction reply fun environment => ?_⟩
      obtain ⟨calls, ran, -, each⟩ := first reply environment
      exact ⟨calls, ran, each⟩

end Safe

/-!
Safety in an environment that keeps to what is assumed of its replies.  Once an
event is not as assumed, nothing is promised any more.
-/

def SafeWhile (assumed : Event sig → Prop) (guard : Trace sig → sig.Call → Prop)
    (post : Trace sig → α → Prop) : Program sig α → Trace sig → Prop :=
  Safe (fun past call => (∀ event ∈ past, assumed event) → guard past call)
    fun past value => (∀ event ∈ past, assumed event) → post past value

namespace SafeWhile

variable {assumed : Event sig → Prop} {guard : Trace sig → sig.Call → Prop}
  {post : Trace sig → α → Prop} {past : Trace sig}

theorem vacuous {program : Program sig α}
    (broken : ¬ ∀ event ∈ past, assumed event) :
    SafeWhile assumed guard post program past := by
  induction program generalizing past with
  | done value => exact fun kept => absurd kept broken
  | ask request next induction =>
      refine ⟨fun kept => absurd kept broken, fun reply => ?_⟩
      apply induction
      intro kept
      exact broken fun event member => kept event (List.mem_append_left _ member)

theorem ask {request : sig.Call} {next : sig.Reply request → Program sig α}
    (allowed : guard past request)
    (answered : ∀ reply, assumed ⟨request, reply⟩ →
      SafeWhile assumed guard post (next reply) (past ++ [⟨request, reply⟩])) :
    SafeWhile assumed guard post (.ask request next) past := by
  refine ⟨fun _ => allowed, fun reply => ?_⟩
  by_cases kept : assumed ⟨request, reply⟩
  · exact answered reply kept
  · apply vacuous
    intro every
    exact kept (every _ (List.mem_append_right _ (List.mem_singleton.mpr rfl)))

theorem bind {middle : Trace sig → α → Prop} {post : Trace sig → β → Prop}
    {program : Program sig α} {rest : α → Program sig β}
    (first : SafeWhile assumed guard middle program past)
    (second : ∀ later value, middle later value →
      SafeWhile assumed guard post (rest value) later) :
    SafeWhile assumed guard post (program.bind rest) past := by
  refine Safe.bind first fun later value holds => ?_
  by_cases kept : ∀ event ∈ later, assumed event
  · exact second later value (holds kept)
  · exact vacuous kept

/-- Adequacy, in an environment that always answers as assumed. -/
theorem post_of_against {program : Program sig α} {past : Trace sig}
    {environment : Trace sig → (call : sig.Call) → sig.Reply call}
    (safe : SafeWhile assumed guard post program past)
    (conforms : ∀ past call, assumed ⟨call, environment past call⟩)
    (before : ∀ event ∈ past, assumed event) :
    post (program.against environment past).1 (program.against environment past).2 := by
  induction program generalizing past with
  | done value => exact safe before
  | ask request next induction =>
      refine induction _ (safe.2 (environment past request)) fun event member => ?_
      rcases List.mem_append.mp member with earlier | last
      · exact before event earlier
      · rw [List.mem_singleton.mp last]
        exact conforms past request

end SafeWhile

end Interaction
