import Memcp.Interaction.Fallible

/-!
How many calls a program makes.  `Costs assumed post program most` says that the program
stops after at most `most` calls, with a value of which `post` holds, as long as each reply
is as assumed.  In a pool a program spends one call at each of its turns, so it has stopped
after as many, whatever the other programs do.
-/

namespace Interaction

variable {sig : Signature} {ε α β : Type}

def Program.Costs (assumed : Event sig → Prop) (post : α → Prop) :
    Program sig α → Nat → Prop
  | .done value, _ => post value
  | .ask _ _, 0 => False
  | .ask call next, most + 1 =>
      ∀ reply, assumed ⟨call, reply⟩ → (next reply).Costs assumed post most

namespace Program.Costs

variable {assumed : Event sig → Prop} {post : α → Prop} {program : Program sig α}
  {most : Nat}

theorem mono {post' : α → Prop} {more : Nat} (costs : program.Costs assumed post most)
    (posts : ∀ value, post value → post' value) (fewer : most ≤ more) :
    program.Costs assumed post' more := by
  induction program generalizing most more with
  | done value => exact posts value costs
  | ask call next induction =>
      cases most with
      | zero => cases costs
      | succ most =>
          cases more with
          | zero => cases fewer
          | succ more =>
              exact fun reply kept =>
                induction reply (costs reply kept) (Nat.le_of_succ_le_succ fewer)

theorem bind {post' : β → Prop} {rest : α → Program sig β} {more : Nat}
    (first : program.Costs assumed post most)
    (second : ∀ value, post value → (rest value).Costs assumed post' more) :
    (program.bind rest).Costs assumed post' (most + more) := by
  induction program generalizing most with
  | done value => exact (second value first).mono (fun _ => id) (Nat.le_add_left _ _)
  | ask call next induction =>
      cases most with
      | zero => cases first
      | succ most =>
          rw [Nat.succ_add]
          exact fun reply kept => induction reply (first reply kept)

/-- What follows makes no call. -/
theorem bindFree {post' : β → Prop} {rest : α → Program sig β}
    (first : program.Costs assumed post most)
    (second : ∀ value, post value → (rest value).Costs assumed post' 0) :
    (program.bind rest).Costs assumed post' most :=
  bind first second

/-- Nothing is left to spend for a program that goes on. -/
theorem done_of_zero (costs : program.Costs assumed post 0) :
    ∃ value, program = .done value ∧ post value := by
  cases program with
  | done value => exact ⟨value, rfl, costs⟩
  | ask call next => cases costs

end Program.Costs

/-! Programs that may raise. -/

/-- `action` makes at most `most` calls, and `post` holds of what it returns. -/
def Fallible.Costs (assumed : Event sig → Prop) (post : α → Prop)
    (action : Fallible sig ε α) (most : Nat) : Prop :=
  Program.Costs assumed (fun outcome => ∀ value, outcome = .ok value → post value)
    action most

namespace Fallible.Costs

variable {assumed : Event sig → Prop} {post : α → Prop} {post' : β → Prop}
  {action : Fallible sig ε α} {most more : Nat}

theorem pure {value : α} (holds : post value) :
    Fallible.Costs assumed post (Pure.pure value : Fallible sig ε α) most := by
  rintro _ ⟨⟩
  exact holds

theorem throw (error : ε) :
    Fallible.Costs assumed post (MonadExcept.throw error : Fallible sig ε α) most := by
  rintro _ ⟨⟩

theorem lift {outcome : Except ε α} (holds : ∀ value, outcome = .ok value → post value) :
    Fallible.Costs assumed post (liftM outcome : Fallible sig ε α) most := holds

theorem mono {post' : α → Prop} (costs : Fallible.Costs assumed post action most)
    (posts : ∀ value, post value → post' value) (fewer : most ≤ more) :
    Fallible.Costs assumed post' action more :=
  Program.Costs.mono costs
    (fun _ holds value returned => posts value (holds value returned)) fewer

theorem bind {rest : α → Fallible sig ε β} (first : Fallible.Costs assumed post action most)
    (second : ∀ value, post value → Fallible.Costs assumed post' (rest value) more) :
    Fallible.Costs assumed post' (action >>= rest) (most + more) := by
  refine Program.Costs.bind first fun outcome holds => ?_
  cases outcome with
  | ok value => exact second value (holds value rfl)
  | error error => exact Costs.throw error

theorem bindFree {rest : α → Fallible sig ε β}
    (first : Fallible.Costs assumed post action most)
    (second : ∀ value, post value → Fallible.Costs assumed post' (rest value) 0) :
    Fallible.Costs assumed post' (action >>= rest) most :=
  bind first second

theorem check {outcome : Except ε α} {rest : α → Fallible sig ε β}
    (second : ∀ value, outcome = .ok value →
      Fallible.Costs assumed post' (rest value) most) :
    Fallible.Costs assumed post' (liftM outcome >>= rest) most := by
  cases outcome with
  | ok value => exact second value rfl
  | error error => exact Costs.throw error

theorem map {f : α → β} (costs : Fallible.Costs assumed (fun value => post' (f value))
      action most) :
    Fallible.Costs assumed post' (f <$> action) most :=
  bindFree costs fun _ holds => Costs.pure holds

theorem mapError {f : ε → ε} (costs : Fallible.Costs assumed post action most) :
    Fallible.Costs assumed post (action.mapError f) most := by
  refine Program.Costs.bindFree costs fun outcome holds => ?_
  cases outcome with
  | ok value => exact holds
  | error error => exact Costs.throw (f error)

end Fallible.Costs

/-! Programs in a pool. -/

namespace Pool

variable {Task Supply : Type} [DecidableEq Task] {machine : Machine sig Supply}
  {supply : Task → Nat → Supply} {pool : Pool sig Task α machine.State} {task : Task}
  {assumed : Event sig → Prop} {post : α → Prop} {most : Nat}

theorem past_prefix_run (schedule : List Task) :
    pool.past task <+: (run machine supply pool schedule).past task :=
  ((log_prefix_run schedule).filter _).map _

theorem program_run_of_done {value : α} (stopped : pool.program task = .done value)
    (schedule : List Task) :
    (run machine supply pool schedule).program task = .done value := by
  refine run_invariant (fun pool => pool.program task = .done value) ?_ stopped schedule
  intro pool other stopped
  by_cases own : other = task
  case neg => rwa [program_step_of_ne own]
  case pos =>
    subst own
    rwa [step_of_done stopped]

/-- A program that costs at most `most` spends a call at each of its turns, until it
stops. -/
theorem run_costs (costs : (pool.program task).Costs assumed post most)
    (schedule : List Task)
    (kept : ∀ event ∈ (run machine supply pool schedule).past task, assumed event) :
    ∃ spent left, spent + left = most ∧
      ((run machine supply pool schedule).past task).length =
        (pool.past task).length + spent ∧
      ((run machine supply pool schedule).program task).Costs assumed post left ∧
      (spent = schedule.count task ∨
        ∃ value, (run machine supply pool schedule).program task = .done value) := by
  induction schedule generalizing pool most with
  | nil => exact ⟨0, most, Nat.zero_add _, rfl, costs, .inl rfl⟩
  | cons head schedule induction =>
      rw [run_cons] at kept ⊢
      by_cases own : head = task
      case neg =>
        rw [← program_step_of_ne own] at costs
        obtain ⟨spent, left, budget, length, costs, turns⟩ := induction costs kept
        rw [past_step_of_ne own] at length
        rw [List.count_cons_of_ne own]
        exact ⟨spent, left, budget, length, costs, turns⟩
      case pos =>
        subst own
        cases asks : pool.program head with
        | done value =>
            rw [step_of_done asks] at kept ⊢
            obtain ⟨spent, left, budget, length, costs, -⟩ := induction costs kept
            exact ⟨spent, left, budget, length, costs,
              .inr ⟨value, program_run_of_done asks schedule⟩⟩
        | ask call next =>
            rw [asks] at costs
            cases most with
            | zero => cases costs
            | succ most =>
                have took : step machine supply pool head = _ := step_of_ask asks
                have program : (step machine supply pool head).program head =
                    next (machine.perform (supply head (pool.past head).length) call
                      pool.state).1 := by
                  rw [took]
                  exact Function.update_self _ _ _
                have past : (step machine supply pool head).past head =
                    pool.past head ++ [⟨call, (machine.perform
                      (supply head (pool.past head).length) call pool.state).1⟩] := by
                  rw [took]
                  exact past_append_self _ _ _ _ _
                have seen : assumed ⟨call, (machine.perform
                    (supply head (pool.past head).length) call pool.state).1⟩ := by
                  refine kept _ ((past_prefix_run schedule).subset ?_)
                  rw [past]
                  exact List.mem_append_right _ List.mem_cons_self
                have costs := costs _ seen
                rw [← program] at costs
                obtain ⟨spent, left, budget, length, costs, turns⟩ := induction costs kept
                refine ⟨spent + 1, left, by omega, ?_, costs, ?_⟩
                · rw [length, past, List.length_append, List.length_singleton]
                  omega
                · rw [List.count_cons_self]
                  exact turns.imp (congrArg (· + 1)) id

/-- What holds of every reply of a machine holds of every event of a run. -/
theorem run_replies {state : machine.State} {program : Task → Program sig α}
    {holds : Event sig → Prop}
    (replies : ∀ fresh call state, holds ⟨call, (machine.perform fresh call state).1⟩)
    (schedule : List Task) (task : Task) :
    ∀ event ∈ (run machine supply (start state program) schedule).past task, holds event := by
  have logged := @run_invariant sig Supply Task α _ machine supply (start state program)
    (fun pool => ∀ entry ∈ pool.log, holds entry.2) ?_ (fun _ => nofun) schedule
  · intro event member
    obtain ⟨entry, kept, rfl⟩ := List.mem_map.mp member
    exact logged entry (List.mem_of_mem_filter kept)
  · intro pool other logged
    cases asks : pool.program other with
    | done value => rwa [step_of_done asks]
    | ask call next =>
        rw [step_of_ask asks]
        intro entry member
        rcases List.mem_append.mp member with earlier | last
        · exact logged entry earlier
        · rw [List.mem_singleton.mp last]
          exact replies _ _ _

/-- A program stops within its budget of own turns, and makes no more calls. -/
theorem stops_within {state : machine.State} {program : Task → Program sig α}
    (costs : (program task).Costs assumed post most) (schedule : List Task)
    (kept : ∀ event ∈ (run machine supply (start state program) schedule).past task,
      assumed event) :
    ((run machine supply (start state program) schedule).past task).length ≤ most ∧
      (most ≤ schedule.count task →
        ∃ value, (run machine supply (start state program) schedule).program task =
          .done value) := by
  have costs : ((start state program).program task).Costs assumed post most := costs
  obtain ⟨spent, left, budget, length, costs, turns⟩ := run_costs costs schedule kept
  rw [past_start, List.length_nil, Nat.zero_add] at length
  refine ⟨by omega, fun enough => turns.elim (fun all => ?_) id⟩
  obtain rfl : left = 0 := by omega
  obtain ⟨value, stopped, -⟩ := costs.done_of_zero
  exact ⟨value, stopped⟩

end Pool

end Interaction
