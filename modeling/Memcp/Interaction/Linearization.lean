import Memcp.Interaction.Pool
import Mathlib.Data.List.Nodup

/-!
Linearization of pools.  A task takes effect at one point between its first step and
its last, as if it ran alone there; some tasks take effect call by call instead.  The
points of a run, in the order they come, explain the state it reaches.
-/

namespace Interaction

namespace Program

variable {sig : Signature} {Supply α : Type} {machine : Machine sig Supply}
  {supply : Nat → Supply} {asked : Nat} {state later : machine.State}

theorem le_asked (program : Program sig α) (asked : Nat) (state : machine.State) :
    asked ≤ (program.exec machine supply asked state).2.1 := by
  induction program generalizing asked state with
  | done value => exact Nat.le_refl asked
  | ask call next induction => exact Nat.le_of_succ_le (induction _ _ _)

/-- A program that makes no call has stopped. -/
theorem done_of_exec {program : Program sig α} {value : α}
    (ran : program.exec machine supply asked state = (value, asked, later)) :
    program = .done value := by
  cases program with
  | done other =>
      cases ran
      rfl
  | ask call next =>
      have grows := @le_asked _ _ _ machine supply
        (next (machine.perform (supply asked) call state).1) (asked + 1)
        (machine.perform (supply asked) call state).2
      rw [exec_ask] at ran
      rw [ran] at grows
      exact absurd grows (Nat.not_succ_le_self asked)

end Program

/-- A state reached from another by labelled steps, in order. -/
inductive Takes {State Label : Type} (effect : Label → State → State → Prop)
    (initial : State) : List Label → State → Prop
  | none : Takes effect initial [] initial
  | point {labels : List Label} {label : Label} {state later : State}
      (before : Takes effect initial labels state) (takes : effect label state later) :
      Takes effect initial (labels ++ [label]) later

variable {sig : Signature} {Supply Task α : Type}

/-- Where a task takes effect, as a whole or by one of its calls. -/
inductive Point (sig : Signature) (Supply Task α : Type) where
  | whole (task : Task) (value : α)
  | part (task : Task) (given : Supply) (call : sig.Call)

namespace Point

def task : Point sig Supply Task α → Task
  | .whole task _ => task
  | .part task _ _ => task

def whole? : Point sig Supply Task α → Option (Task × α)
  | .whole task value => some (task, value)
  | .part .. => none

end Point

/-- The tasks that took effect as a whole, with the values they took. -/
def wholes (points : List (Point sig Supply Task α)) : List (Task × α) :=
  points.filterMap Point.whole?

@[simp] theorem wholes_nil : wholes ([] : List (Point sig Supply Task α)) = [] := rfl

@[simp] theorem wholes_append (points more : List (Point sig Supply Task α)) :
    wholes (points ++ more) = wholes points ++ wholes more :=
  List.filterMap_append

@[simp] theorem wholes_whole (task : Task) (value : α) :
    wholes [(.whole task value : Point sig Supply Task α)] = [(task, value)] := rfl

@[simp] theorem wholes_part (task : Task) (given : Supply) (call : sig.Call) :
    wholes [(.part task given call : Point sig Supply Task α)] = [] := rfl

/-- The value a task took effect with. -/
def taken [DecidableEq Task] (points : List (Point sig Supply Task α)) (task : Task) :
    Option α :=
  ((wholes points).find? fun entry => entry.1 = task).map Prod.snd

section Taken

variable [DecidableEq Task] {points : List (Point sig Supply Task α)} {task : Task}

theorem taken_eq_none : taken points task = none ↔ task ∉ (wholes points).map Prod.fst := by
  simp only [taken, Option.map_eq_none_iff, List.find?_eq_none, List.mem_map,
    decide_eq_true_eq]
  constructor
  · rintro absent ⟨entry, member, same⟩
    exact absent entry member same
  · exact fun absent entry member same => absent ⟨entry, member, same⟩

theorem taken_part (other : Task) (given : Supply) (call : sig.Call) :
    taken (points ++ [.part other given call]) task = taken points task := by
  simp [taken]

theorem taken_whole_self {value : α} (waits : taken points task = none) :
    taken (points ++ [.whole task value]) task = some value := by
  have absent : (wholes points).find? (fun entry => entry.1 = task) = none :=
    Option.map_eq_none_iff.mp waits
  simp [taken, List.find?_append, absent]

theorem taken_whole_of_ne {other : Task} {value : α} (distinct : other ≠ task) :
    taken (points ++ [.whole other value]) task = taken points task := by
  simp [taken, List.find?_append, distinct]

end Taken

/-- What a task's whole operation does at once, and which tasks take effect call by
call. -/
structure Sequential (Task α State : Type) where
  alone : Task → α → State → State → Prop
  loose : Task → Prop

def Sequential.Effect (machine : Machine sig Supply)
    (sequential : Sequential Task α machine.State) :
    Point sig Supply Task α → machine.State → machine.State → Prop
  | .whole task value, state, later => sequential.alone task value state later
  | .part task given call, state, later =>
      sequential.loose task ∧ later = (machine.perform given call state).2

namespace Pool

variable [DecidableEq Task] {machine : Machine sig Supply} {supply : Task → Nat → Supply}

/-- What a step leaves of the task that takes it. -/
theorem step_own {pool : Pool sig Task α machine.State} {task : Task} {call : sig.Call}
    {next : sig.Reply call → Program sig α} {past : Trace sig}
    (asks : pool.program task = .ask call next) (seen : pool.past task = past) :
    let answer := machine.perform (supply task past.length) call pool.state
    let later := pool.step machine supply task
    later.state = answer.2 ∧ later.program task = next answer.1 ∧
      later.past task = past ++ [⟨call, answer.1⟩] := by
  intro answer later
  have stepped : later = _ := step_of_ask asks
  rw [seen] at stepped
  refine ⟨congrArg Pool.state stepped, ?_, ?_⟩
  · refine (congrFun (congrArg Pool.program stepped) task).trans ?_
    exact Function.update_self ..
  · rw [← seen]
    exact (congrArg (Pool.past · task) stepped).trans (past_append_self ..)

/-- The points so far explain the state, and each task stands where the value it took
effect with, if any, says. -/
structure Linearized (sequential : Sequential Task α machine.State)
    (standing : Pool sig Task α machine.State → Task → Option α → Prop)
    (initial : machine.State) (points : List (Point sig Supply Task α))
    (pool : Pool sig Task α machine.State) : Prop where
  effect : Takes (sequential.Effect machine) initial points pool.state
  once : ((wholes points).map Prod.fst).Nodup
  standing : ∀ task, ¬ sequential.loose task → standing pool task (taken points task)

/-- What single steps have to meet.  A task's own step either leaves the state and where
the task stands, or is where the task takes effect; the steps of others leave where it
stands. -/
structure Linearizes (machine : Machine sig Supply) (supply : Task → Nat → Supply)
    (sequential : Sequential Task α machine.State)
    (invariant : Pool sig Task α machine.State → Prop)
    (standing : Pool sig Task α machine.State → Task → Option α → Prop) : Prop where
  kept : ∀ pool task, invariant pool → invariant (pool.step machine supply task)
  own : ∀ pool task call next taken, invariant pool → ¬ sequential.loose task →
    pool.program task = .ask call next → standing pool task taken →
      ((pool.step machine supply task).state = pool.state ∧
          standing (pool.step machine supply task) task taken) ∨
        (taken = none ∧ ∃ value,
          sequential.alone task value pool.state (pool.step machine supply task).state ∧
            standing (pool.step machine supply task) task (some value))
  others : ∀ pool task other taken, invariant pool → ¬ sequential.loose other →
    other ≠ task → standing pool other taken →
      standing (pool.step machine supply task) other taken

namespace Linearizes

variable {sequential : Sequential Task α machine.State}
  {invariant : Pool sig Task α machine.State → Prop}
  {standing : Pool sig Task α machine.State → Task → Option α → Prop}
  {initial : machine.State} {points : List (Point sig Supply Task α)}
  {pool : Pool sig Task α machine.State}

/-- One step adds at most one point, of the task that took it. -/
theorem step (linearizes : Linearizes machine supply sequential invariant standing)
    (holds : invariant pool)
    (linearized : Linearized sequential standing initial points pool) (task : Task) :
    ∃ more, (∀ point ∈ more, point.task = task) ∧
      Linearized sequential standing initial (points ++ more)
        (pool.step machine supply task) := by
  cases asks : pool.program task with
  | done value =>
      rw [step_of_done asks]
      exact ⟨[], List.forall_mem_nil _, by simpa using linearized⟩
  | ask call next =>
      have others : ∀ other, other ≠ task → ¬ sequential.loose other →
          standing (pool.step machine supply task) other (taken points other) :=
        fun other distinct bound => linearizes.others pool task other _ holds bound
          distinct (linearized.standing other bound)
      by_cases loose : sequential.loose task
      · refine ⟨[.part task (supply task (pool.past task).length) call], ?_, ?_, ?_, ?_⟩
        · exact fun point member => List.mem_singleton.mp member ▸ rfl
        · refine .point linearized.effect ⟨loose, ?_⟩
          rw [step_of_ask asks]
        · simpa using linearized.once
        · intro other bound
          rw [taken_part]
          exact others other (fun same => bound (same ▸ loose)) bound
      · rcases linearizes.own pool task call next _ holds loose asks
          (linearized.standing task loose) with ⟨same, stays⟩ | ⟨waits, value, alone, stands⟩
        · refine ⟨[], List.forall_mem_nil _, ?_, ?_, ?_⟩
          · rw [List.append_nil, same]
            exact linearized.effect
          · simpa using linearized.once
          · intro other bound
            rw [List.append_nil]
            rcases eq_or_ne other task with rfl | distinct
            · exact stays
            · exact others other distinct bound
        · refine ⟨[.whole task value], ?_, ?_, ?_, ?_⟩
          · exact fun point member => List.mem_singleton.mp member ▸ rfl
          · exact .point linearized.effect alone
          · have absent := taken_eq_none.mp waits
            rw [wholes_append, List.map_append, List.nodup_append]
            refine ⟨linearized.once, List.nodup_singleton _, ?_⟩
            intro other old new added same
            obtain rfl : new = task := by simpa using added
            exact absent (same ▸ old)
          · intro other bound
            rcases eq_or_ne other task with rfl | distinct
            · rw [taken_whole_self waits]
              exact stands
            · rw [taken_whole_of_ne distinct.symm]
              exact others other distinct bound

/-- The points of a run go on with the run, each by a task that takes a step. -/
theorem run (linearizes : Linearizes machine supply sequential invariant standing)
    (holds : invariant pool)
    (linearized : Linearized sequential standing initial points pool)
    (schedule : List Task) :
    ∃ more, (∀ point ∈ more, point.task ∈ schedule) ∧
      Linearized sequential standing initial (points ++ more)
        (pool.run machine supply schedule) := by
  induction schedule generalizing pool points with
  | nil => exact ⟨[], List.forall_mem_nil _, by simpa using linearized⟩
  | cons task schedule induction =>
      obtain ⟨here, own, linearized⟩ := linearizes.step holds linearized task
      obtain ⟨rest, scheduled, linearized⟩ :=
        induction (linearizes.kept pool task holds) linearized
      refine ⟨here ++ rest, ?_, by simpa using linearized⟩
      intro point member
      rcases List.mem_append.mp member with first | later
      · exact own point first ▸ List.mem_cons_self
      · exact List.mem_cons_of_mem _ (scheduled point later)

end Linearizes

end Pool

end Interaction
