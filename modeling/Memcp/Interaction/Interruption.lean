import Memcp.Interaction.Fallible

/-!
Programs that are stopped before they end.  Part of the state outlasts the stop; a program
is atomic when that part is then as it was before, or as the whole program leaves it.
-/

namespace Interaction

variable {sig : Signature} {α β State D : Type}
  {answer : (call : sig.Call) → State → sig.Reply call × State}

namespace Program

/-- The state when a program has made so many of its calls. -/
def stateAfter (answer : (call : sig.Call) → State → sig.Reply call × State) :
    Nat → Program sig α → State → State
  | 0, _, state => state
  | _ + 1, .done _, state => state
  | calls + 1, .ask call next, state =>
      (next (answer call state).1).stateAfter answer calls (answer call state).2

theorem stateAfter_done (calls : Nat) (value : α) (state : State) :
    (Program.done value : Program sig α).stateAfter answer calls state = state := by
  cases calls with
  | zero => rfl
  | succ calls => rfl

/-- After enough calls a program has ended. -/
theorem exists_stateAfter_eq (program : Program sig α) (state : State) :
    ∃ calls, program.stateAfter answer calls state = (program.eval answer state).2 := by
  induction program generalizing state with
  | done value => exact ⟨0, rfl⟩
  | ask call next induction =>
      obtain ⟨calls, ended⟩ := induction (answer call state).1 (answer call state).2
      exact ⟨calls + 1, ended⟩

/-- A sequence is stopped in its first part or in its second. -/
theorem stateAfter_bind (program : Program sig α) (rest : α → Program sig β)
    (state : State) (calls : Nat) :
    (program.bind rest).stateAfter answer calls state =
        program.stateAfter answer calls state ∨
      ∃ left, (program.bind rest).stateAfter answer calls state =
        (rest (program.eval answer state).1).stateAfter answer left
          (program.eval answer state).2 := by
  induction program generalizing state calls with
  | done value => exact .inr ⟨calls, rfl⟩
  | ask call next induction =>
      cases calls with
      | zero => exact .inl rfl
      | succ calls => exact induction _ _ _

section Durable

variable (answer) (durable : State → D)

/-- Nothing a program does outlasts a stop. -/
def Still (program : Program sig α) (state : State) : Prop :=
  ∀ calls, durable (program.stateAfter answer calls state) = durable state

def Atomic (program : Program sig α) (state : State) : Prop :=
  ∀ calls, durable (program.stateAfter answer calls state) = durable state ∨
    durable (program.stateAfter answer calls state) =
      durable (program.eval answer state).2

variable {answer durable} {program : Program sig α} {rest : α → Program sig β}
  {state : State}

theorem Still.done (value : α) (state : State) :
    Still answer durable (.done value : Program sig α) state := by
  intro calls
  rw [stateAfter_done]

theorem Still.eval (still : Still answer durable program state) :
    durable (program.eval answer state).2 = durable state := by
  obtain ⟨calls, ended⟩ := program.exists_stateAfter_eq state
  rw [← ended]
  exact still calls

theorem Still.call {call : sig.Call}
    (keeps : durable (answer call state).2 = durable state) :
    Still answer durable (Program.call call) state := by
  intro calls
  cases calls with
  | zero => rfl
  | succ calls =>
      rw [Program.call, stateAfter, stateAfter_done]
      exact keeps

theorem Still.bind (first : Still answer durable program state)
    (second : ∀ value state, Still answer durable (rest value) state) :
    Still answer durable (program.bind rest) state := by
  intro calls
  rcases stateAfter_bind program rest state calls with stopped | ⟨left, stopped⟩
  · rw [stopped]
    exact first calls
  · rw [stopped, second _ _ left]
    exact first.eval

theorem Still.atomic (still : Still answer durable program state) :
    Atomic answer durable program state :=
  fun calls => .inl (still calls)

/-- A single call is made or not. -/
theorem Atomic.call (call : sig.Call) (state : State) :
    Atomic answer durable (Program.call call) state := by
  intro calls
  cases calls with
  | zero => exact .inl rfl
  | succ calls =>
      refine .inr ?_
      rw [Program.call, stateAfter, stateAfter_done]
      rfl

/-- What comes before the one durable change. -/
theorem Atomic.after (first : Still answer durable program state)
    (second : ∀ value state, Atomic answer durable (rest value) state) :
    Atomic answer durable (program.bind rest) state := by
  intro calls
  rw [eval_bind]
  rcases stateAfter_bind program rest state calls with stopped | ⟨left, stopped⟩
  · rw [stopped]
    exact .inl (first calls)
  · rw [stopped]
    refine (second _ _ left).imp_left fun unchanged => ?_
    rw [unchanged, first.eval]

/-- What comes after it. -/
theorem Atomic.before (first : Atomic answer durable program state)
    (second : ∀ value state, Still answer durable (rest value) state) :
    Atomic answer durable (program.bind rest) state := by
  intro calls
  rw [eval_bind, (second _ _).eval]
  rcases stateAfter_bind program rest state calls with stopped | ⟨left, stopped⟩
  · rw [stopped]
    exact first calls
  · rw [stopped, second _ _ left]
    exact .inr rfl

end Durable

end Program

/-! Code that may raise. -/

namespace Fallible

variable {ε : Type}

abbrev Still (answer : (call : sig.Call) → State → sig.Reply call × State)
    (durable : State → D) (action : Fallible sig ε α) (state : State) : Prop :=
  Program.Still answer durable action state

abbrev Atomic (answer : (call : sig.Call) → State → sig.Reply call × State)
    (durable : State → D) (action : Fallible sig ε α) (state : State) : Prop :=
  Program.Atomic answer durable action state

variable {durable : State → D} {action : Fallible sig ε α}
  {rest : α → Fallible sig ε β} {state : State}

theorem Still.pure (value : α) (state : State) :
    Still answer durable (Pure.pure value : Fallible sig ε α) state :=
  .done _ _

theorem Still.throw (error : ε) (state : State) :
    Still answer durable (throw error : Fallible sig ε α) state :=
  .done _ _

theorem Still.lift (outcome : Except ε α) (state : State) :
    Still answer durable (liftM outcome : Fallible sig ε α) state :=
  .done _ _

theorem Still.either {returned : α → Fallible sig ε β} {raised : ε → Fallible sig ε β}
    (first : Still answer durable action state)
    (returns : ∀ value state, Still answer durable (returned value) state)
    (raises : ∀ error state, Still answer durable (raised error) state) :
    Still answer durable (action.either returned raised) state := by
  refine Program.Still.bind first fun outcome later => ?_
  cases outcome with
  | ok value => exact returns value later
  | error error => exact raises error later

theorem Still.bind (first : Still answer durable action state)
    (second : ∀ value state, Still answer durable (rest value) state) :
    Still answer durable (action >>= rest) state :=
  Still.either first second fun _ _ => .done _ _

theorem Atomic.either {returned : α → Fallible sig ε β} {raised : ε → Fallible sig ε β}
    (first : Still answer durable action state)
    (returns : ∀ value state, Atomic answer durable (returned value) state)
    (raises : ∀ error state, Atomic answer durable (raised error) state) :
    Atomic answer durable (action.either returned raised) state := by
  refine Program.Atomic.after first fun outcome later => ?_
  cases outcome with
  | ok value => exact returns value later
  | error error => exact raises error later

theorem Atomic.after (first : Still answer durable action state)
    (second : ∀ value state, Atomic answer durable (rest value) state) :
    Atomic answer durable (action >>= rest) state :=
  Atomic.either first second fun _ _ => (Program.Still.done _ _).atomic

theorem Atomic.before (first : Atomic answer durable action state)
    (second : ∀ value state, Still answer durable (rest value) state) :
    Atomic answer durable (action >>= rest) state := by
  refine Program.Atomic.before first fun outcome later => ?_
  cases outcome with
  | ok value => exact second value later
  | error error => exact .done _ _

end Fallible

end Interaction
