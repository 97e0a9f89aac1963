import Memcp.Policy.OneSpace

/-!
Backends whose add and get calls may raise.  Which of them do is given from
outside, call by call, and a call that raises changes nothing.
-/

namespace Memcp

open Python Interaction

variable {unicode : Unicode} {α : Type}

/-- The status and body a call raises, if it does. -/
abbrev Fault := Option (Int × String)

def BackendCall.mayRaise : BackendCall → Bool
  | .add .. | .get .. => true
  | _ => false

def Effect.mayRaise : Effect → Bool
  | .backend call => call.mayRaise
  | .audit _ => false

/-- A call, which raises if it may and has a fault. -/
def Store.performOr (store : Store) (fresh : Fresh) (fault : Fault)
    (call : BackendCall) (state : store.State) :
    Except Exc call.Result × store.State :=
  match fault, call.mayRaise with
  | some (status, body), true => (.error (.memoryAPIError status body), state)
  | _, _ => store.perform fresh call state

/-- A store that answers the calls of operations, or raises. -/
abbrev Store.failing (store : Store) : Machine effects (Fresh × Fault) where
  State := store.State
  perform
    | (fresh, fault), .backend call, state => store.performOr fresh fault call state
    | _, .audit _, state => ((), state)

/-- The supply of a run in which the calls with a fault fail. -/
abbrev FreshIds.faulty (fresh : FreshIds) (faults : Nat → Fault) (asked : Nat) :
    Fresh × Fault :=
  (fresh.supply asked, faults asked)

section Calls

variable {store : Store} {fresh : Fresh} {fault : Fault} {call : BackendCall}
  {state : store.State}

theorem Store.performOr_none :
    store.performOr fresh none call state = store.perform fresh call state := rfl

theorem Store.performOr_some {status : Int} {body : String}
    (raises : call.mayRaise = true) :
    store.performOr fresh (some (status, body)) call state =
      (.error (.memoryAPIError status body), state) := by
  simp only [Store.performOr, raises]

theorem Store.performOr_of_not (never : call.mayRaise = false) :
    store.performOr fresh fault call state = store.perform fresh call state := by
  unfold Store.performOr
  rw [never]
  cases fault with
  | none => rfl
  | some raised => rfl

theorem Store.performOr_cases (fault : Fault) (call : BackendCall) :
    (∀ (store : Store) fresh state,
      store.performOr fresh fault call state = store.perform fresh call state) ∨
    ∃ status body, fault = some (status, body) ∧ call.mayRaise = true := by
  cases raises : call.mayRaise with
  | false => exact .inl fun _ _ _ => Store.performOr_of_not raises
  | true =>
      cases fault with
      | none => exact .inl fun _ _ _ => Store.performOr_none
      | some raised => exact .inr ⟨raised.1, raised.2, rfl, rfl⟩

end Calls

theorem Store.exec_failing {store : Store} {program : Program effects α}
    {past : Trace effects}
    (quiet : Safe (fun _ (effect : Effect) => effect.mayRaise = false) (fun _ _ => True) program
      past)
    (fresh : FreshIds) (faults : Nat → Fault) (asked : Nat) (state : store.State) :
    program.exec store.failing (fresh.faulty faults) asked state =
      program.exec store.machine fresh.supply asked state := by
  induction program generalizing past asked state with
  | done value => rfl
  | ask effect next induction =>
      obtain ⟨never, quiet⟩ := quiet
      cases effect with
      | audit entry => exact induction () (quiet ()) (asked + 1) state
      | backend call =>
          have same : store.performOr (fresh.supply asked) (faults asked) call state =
              store.perform (fresh.supply asked) call state :=
            Store.performOr_of_not never
          simp only [Program.exec_ask, same]
          exact induction _ (quiet _) _ _

/-! From a backend to the space it is asked about. -/

section Backends

variable {store : Store} {representation : Representation unicode store}
  {fresh : FreshIds} {asked : Nat} {state : store.State} {space : String}

/-- A call about one space answers and changes it as it would alone. -/
theorem Representation.Stands.performOr_space
    (stands : representation.Stands fresh asked state) (fault : Fault)
    {call : BackendCall}
    (within : ∀ partition, call.partition? = some partition → partition = space) :
    let ran := store.performOr (fresh.supply asked) fault call state
    let alone := (Space.store unicode).performOr (fresh.supply asked) fault call
      (representation.spaces state space)
    ran.1 = alone.1 ∧
      representation.spaces ran.2 =
        Function.update (representation.spaces state) space alone.2 ∧
      representation.Stands fresh (asked + 1) ran.2 := by
  rcases Store.performOr_cases fault call with through | ⟨status, body, rfl, raises⟩
  · rw [through store, through (Space.store unicode)]
    obtain ⟨reply, spaces, later⟩ := stands.step (.backend call)
    cases names : call.partition? with
    | none =>
        cases call with
        | capabilities =>
            refine ⟨reply, ?_, later⟩
            exact spaces.trans (Function.update_eq_self space _).symm
        | _ => cases names
    | some partition =>
        obtain rfl := within partition names
        have named := @Spaces.perform_named unicode (fresh.supply asked) call
          (representation.spaces state) partition names
        exact ⟨reply.trans (congrArg Prod.fst named),
          spaces.trans (congrArg Prod.snd named), later⟩
  · rw [Store.performOr_some raises, Store.performOr_some raises]
    exact ⟨rfl, (Function.update_eq_self space _).symm,
      stands.later (Nat.le_succ asked)⟩

/-- A run about one space is the run on that space. -/
theorem Representation.exec_failing {program : Program effects α}
    {past : Trace effects}
    (confined : Safe (fun _ => Effect.within space) (fun _ _ => True) program past)
    (stands : representation.Stands fresh asked state) (faults : Nat → Fault) :
    let ran := program.exec store.failing (fresh.faulty faults) asked state
    let alone := program.exec (Space.store unicode).failing (fresh.faulty faults) asked
      (representation.spaces state space)
    ran.1 = alone.1 ∧ ran.2.1 = alone.2.1 ∧
      representation.spaces ran.2.2 =
        Function.update (representation.spaces state) space alone.2.2 := by
  induction program generalizing past asked state with
  | done value => exact ⟨rfl, rfl, (Function.update_eq_self space _).symm⟩
  | ask effect next induction =>
      obtain ⟨within, confined⟩ := confined
      cases effect with
      | audit entry =>
          exact induction () (confined ()) (stands.later (Nat.le_succ asked))
      | backend call =>
          obtain ⟨reply, spaces, later⟩ := stands.performOr_space (faults asked)
            fun partition named => within call partition rfl named
          obtain ⟨outcome, count, left⟩ := induction _ (confined _) later
          have own := (congrFun spaces space).trans (Function.update_self ..)
          simp only [Program.exec_ask]
          rw [own] at outcome count left
          rw [spaces, Function.update_idem] at left
          rw [← reply]
          exact ⟨outcome, count, left⟩

end Backends

end Memcp
