import Memcp.Interaction.Program
import Mathlib.Data.List.Basic
import Mathlib.Data.List.Infix
import Mathlib.Data.Nat.Find

/-!
Machines that answer calls, and pools of programs that share one machine.
One step of a pool answers one call of one task, so a run of a pool is an
interleaving of its programs at the granularity of single calls.
-/

namespace Interaction

variable {sig : Signature} {Supply Task α β : Type}

/-- An environment with a state.  `Supply` is what a call takes from outside
the machine, such as a fresh name, a clock reading or a choice. -/
structure Machine (sig : Signature) (Supply : Type) where
  State : Type
  perform : Supply → (call : sig.Call) → State → sig.Reply call × State

/-! A program run alone on a machine; `asked` counts the calls it has made. -/

namespace Program

def exec (machine : Machine sig Supply) (supply : Nat → Supply) :
    Program sig α → Nat → machine.State → α × Nat × machine.State
  | .done value, asked, state => (value, asked, state)
  | .ask call next, asked, state =>
      (next (machine.perform (supply asked) call state).1).exec machine supply
        (asked + 1) (machine.perform (supply asked) call state).2

variable {machine : Machine sig Supply} {supply : Nat → Supply}

@[simp] theorem exec_done (value : α) (asked : Nat) (state : machine.State) :
    (Program.done value : Program sig α).exec machine supply asked state =
      (value, asked, state) := rfl

@[simp] theorem exec_ask (call : sig.Call)
    (next : sig.Reply call → Program sig α)
    (asked : Nat) (state : machine.State) :
    (Program.ask call next).exec machine supply asked state =
      (next (machine.perform (supply asked) call state).1).exec machine supply
        (asked + 1) (machine.perform (supply asked) call state).2 := rfl

theorem exec_bind (program : Program sig α) (rest : α → Program sig β)
    (asked : Nat) (state : machine.State) :
    (program.bind rest).exec machine supply asked state =
      (rest (program.exec machine supply asked state).1).exec machine supply
        (program.exec machine supply asked state).2.1
        (program.exec machine supply asked state).2.2 := by
  induction program generalizing asked state with
  | done value => rfl
  | ask call next induction => exact induction _ _ _

theorem exec_bind_eq {program : Program sig α} {value : α} {asked asked' : Nat}
    {state later : machine.State}
    (first : program.exec machine supply asked state = (value, asked', later))
    (rest : α → Program sig β) :
    (program.bind rest).exec machine supply asked state =
      (rest value).exec machine supply asked' later := by
  rw [exec_bind, first]

/-- Two machines that answer alike from related states run a program alike. -/
theorem exec_related {left right : Machine sig Supply}
    {related : Nat → left.State → right.State → Prop}
    (step : ∀ asked call l r, related asked l r →
      (left.perform (supply asked) call l).1 =
          (right.perform (supply asked) call r).1 ∧
        related (asked + 1) (left.perform (supply asked) call l).2
          (right.perform (supply asked) call r).2)
    (program : Program sig α) {asked : Nat} {l : left.State} {r : right.State}
    (relates : related asked l r) :
    (program.exec left supply asked l).1 = (program.exec right supply asked r).1 ∧
      (program.exec left supply asked l).2.1 =
        (program.exec right supply asked r).2.1 ∧
      related (program.exec left supply asked l).2.1
        (program.exec left supply asked l).2.2
        (program.exec right supply asked r).2.2 := by
  induction program generalizing asked l r with
  | done value => exact ⟨rfl, rfl, relates⟩
  | ask call next induction =>
      obtain ⟨reply, later⟩ := step asked call l r relates
      simp only [exec_ask]
      rw [← reply]
      exact induction _ later

end Program

/-! Pools. -/

/-- Programs that share a machine, with the log of every call answered. -/
structure Pool (sig : Signature) (Task α State : Type) where
  state : State
  program : Task → Program sig α
  log : List (Task × Event sig)

namespace Pool

variable [DecidableEq Task]

/-- The events of one task, in order. -/
def past {State : Type} (pool : Pool sig Task α State) (task : Task) :
    Trace sig :=
  (pool.log.filter fun entry => entry.1 = task).map Prod.snd

def start {State : Type} (state : State) (program : Task → Program sig α) :
    Pool sig Task α State := ⟨state, program, []⟩

/-- Answer the next call of `task`.  Its `n`-th call takes the `n`-th supply
of the task, whatever the other tasks do. -/
def step (machine : Machine sig Supply) (supply : Task → Nat → Supply)
    (pool : Pool sig Task α machine.State) (task : Task) :
    Pool sig Task α machine.State :=
  match pool.program task with
  | .done _ => pool
  | .ask call next =>
      let answer := machine.perform (supply task (pool.past task).length) call
        pool.state
      { state := answer.2
        program := Function.update pool.program task (next answer.1)
        log := pool.log ++ [(task, ⟨call, answer.1⟩)] }

def run (machine : Machine sig Supply) (supply : Task → Nat → Supply)
    (pool : Pool sig Task α machine.State) (schedule : List Task) :
    Pool sig Task α machine.State :=
  schedule.foldl (step machine supply) pool

section

variable {machine : Machine sig Supply} {supply : Task → Nat → Supply}
  {pool : Pool sig Task α machine.State}

@[simp] theorem past_start {State : Type} (state : State)
    (program : Task → Program sig α) (task : Task) :
    (start state program).past task = [] := rfl

@[simp] theorem run_nil : run machine supply pool [] = pool := rfl

@[simp] theorem run_cons (task : Task) (schedule : List Task) :
    run machine supply pool (task :: schedule) =
      run machine supply (step machine supply pool task) schedule := rfl

@[simp] theorem run_append (first second : List Task) :
    run machine supply pool (first ++ second) =
      run machine supply (run machine supply pool first) second := by
  simp [run]

theorem step_of_done {task : Task} {value : α}
    (stopped : pool.program task = .done value) :
    step machine supply pool task = pool := by
  simp [step, stopped]

theorem step_of_ask {task : Task} {call : sig.Call}
    {next : sig.Reply call → Program sig α}
    (asks : pool.program task = .ask call next) :
    step machine supply pool task =
      { state := (machine.perform (supply task (pool.past task).length) call
          pool.state).2
        program := Function.update pool.program task
          (next (machine.perform (supply task (pool.past task).length) call
            pool.state).1)
        log := pool.log ++ [(task, ⟨call,
          (machine.perform (supply task (pool.past task).length) call
            pool.state).1⟩)] } := by
  simp [step, asks]

theorem past_append_self {State : Type} (pool : Pool sig Task α State)
    (state : State) (program : Task → Program sig α) (task : Task)
    (event : Event sig) :
    (Pool.mk state program (pool.log ++ [(task, event)])).past task =
      pool.past task ++ [event] := by
  simp [past]

theorem past_append_of_ne {State : Type} (pool : Pool sig Task α State)
    (state : State) (program : Task → Program sig α) {task other : Task}
    (distinct : task ≠ other) (event : Event sig) :
    (Pool.mk state program (pool.log ++ [(task, event)])).past other =
      pool.past other := by
  simp [past, distinct]

theorem run_invariant (invariant : Pool sig Task α machine.State → Prop)
    (kept : ∀ pool task, invariant pool →
      invariant (step machine supply pool task))
    (holds : invariant pool) (schedule : List Task) :
    invariant (run machine supply pool schedule) := by
  induction schedule generalizing pool with
  | nil => exact holds
  | cons task schedule induction => exact induction (kept pool task holds)

theorem log_prefix_step (task : Task) :
    pool.log <+: (step machine supply pool task).log := by
  cases asks : pool.program task with
  | done value =>
      rw [step_of_done asks]
  | ask call next =>
      rw [step_of_ask asks]
      exact List.prefix_append _ _

theorem log_prefix_run (schedule : List Task) :
    pool.log <+: (run machine supply pool schedule).log := by
  induction schedule generalizing pool with
  | nil => exact List.prefix_refl _
  | cons task schedule induction => exact (log_prefix_step task).trans induction

theorem program_step_of_ne {task other : Task} (distinct : other ≠ task) :
    (step machine supply pool other).program task = pool.program task := by
  cases asks : pool.program other with
  | done value => rw [step_of_done asks]
  | ask call next =>
      rw [step_of_ask asks]
      exact Function.update_of_ne distinct.symm _ _

theorem past_step_of_ne {task other : Task} (distinct : other ≠ task) :
    (step machine supply pool other).past task = pool.past task := by
  cases asks : pool.program other with
  | done value => rw [step_of_done asks]
  | ask call next =>
      rw [step_of_ask asks]
      exact past_append_of_ne pool _ _ distinct _

/-- A task whose turn keeps coming stops. -/
theorem stops (task : Task) {schedule : Nat → Task}
    (fair : ∀ n, ∃ m, n ≤ m ∧ schedule m = task) :
    ∃ n value, (run machine supply pool ((List.range n).map schedule)).program task =
      .done value := by
  let reached := fun n => run machine supply pool ((List.range n).map schedule)
  have next : ∀ n, reached (n + 1) = step machine supply (reached n) (schedule n) := by
    intro n
    simp only [reached, List.range_succ, List.map_append, List.map_cons, List.map_nil,
      run_append, run_cons, run_nil]
  have every : ∀ (program : Program sig α) n, (reached n).program task = program →
      ∃ n value, (reached n).program task = .done value := by
    intro program
    induction program with
    | done value => exact fun n stopped => ⟨n, value, stopped⟩
    | ask call rest induction =>
        intro n asks
        obtain ⟨later, own⟩ := Nat.find_spec (fair n)
        have waits : ∀ m, n ≤ m → m ≤ Nat.find (fair n) →
            (reached m).program task = .ask call rest := by
          intro m from' upto
          induction m, from' using Nat.le_induction with
          | base => exact asks
          | succ m from' waits =>
              have foreign : schedule m ≠ task := fun same =>
                Nat.find_min (fair n) upto ⟨from', same⟩
              rw [next, program_step_of_ne foreign]
              exact waits (Nat.le_of_succ_le upto)
        have turn := waits _ later (Nat.le_refl _)
        have goes : ∃ reply, (reached (Nat.find (fair n) + 1)).program task =
            rest reply := by
          rw [next, own, step_of_ask turn]
          exact ⟨_, Function.update_self _ _ _⟩
        obtain ⟨reply, goes⟩ := goes
        exact induction reply _ goes
  exact every _ 0 rfl

/-! Every task of a pool stays safe on its own past. -/

/-- Each task's program is safe after the events the task has seen. -/
def AllSafe (guard : Task → Trace sig → sig.Call → Prop)
    (post : Task → Trace sig → α → Prop)
    {State : Type} (pool : Pool sig Task α State) : Prop :=
  ∀ task, Safe (guard task) (post task) (pool.program task) (pool.past task)

theorem safe_step {guard : Trace sig → sig.Call → Prop} {post : Trace sig → α → Prop}
    {task : Task} (safe : Safe guard post (pool.program task) (pool.past task))
    (other : Task) :
    Safe guard post ((step machine supply pool other).program task)
      ((step machine supply pool other).past task) := by
  cases asks : pool.program other with
  | done value => rwa [step_of_done asks]
  | ask call next =>
      rw [step_of_ask asks]
      by_cases same : other = task
      · subst same
        rw [asks] at safe
        rw [past_append_self]
        simpa using safe.2 _
      · rw [past_append_of_ne _ _ _ same]
        simpa [Function.update_of_ne (Ne.symm same)] using safe

theorem AllSafe.step {guard : Task → Trace sig → sig.Call → Prop}
    {post : Task → Trace sig → α → Prop}
    (safe : pool.AllSafe guard post) (task : Task) :
    (step machine supply pool task).AllSafe guard post :=
  fun other => safe_step (safe other) task

theorem AllSafe.run {guard : Task → Trace sig → sig.Call → Prop}
    {post : Task → Trace sig → α → Prop}
    (safe : pool.AllSafe guard post) (schedule : List Task) :
    (run machine supply pool schedule).AllSafe guard post :=
  run_invariant (fun pool => pool.AllSafe guard post)
    (fun _ task safe => safe.step task) safe schedule

/-- Every call a task has made in a run was allowed. -/
theorem past_allowed {guard : sig.Call → Prop} {post : Trace sig → α → Prop} {task : Task}
    (safe : Safe (fun _ => guard) post (pool.program task) (pool.past task))
    (earlier : ∀ event ∈ pool.past task, guard event.call) (schedule : List Task) :
    ∀ event ∈ (run machine supply pool schedule).past task, guard event.call := by
  induction schedule generalizing pool with
  | nil => exact earlier
  | cons other schedule induction =>
      refine induction (safe_step safe other) ?_
      cases asks : pool.program other with
      | done value =>
          rw [step_of_done asks]
          exact earlier
      | ask call next =>
          rw [step_of_ask asks]
          by_cases same : other = task
          · subst same
            rw [past_append_self]
            intro event member
            rcases List.mem_append.mp member with before | last
            · exact earlier event before
            · rw [List.mem_singleton.mp last]
              rw [asks] at safe
              exact safe.1
          · rw [past_append_of_ne _ _ _ same]
            exact earlier

end

/-!
Simulation.  Two machines whose replies agree along every pair of related
states take the same steps under the same schedule.  The relation may depend
on the pool's log, so that it can speak of the supplies already used.
-/

section Simulation

variable {concrete abstract : Machine sig Supply}
  {supply : Task → Nat → Supply}

/-- Pools that differ in the state of the machine only. -/
structure Related (related : List (Task × Event sig) →
      concrete.State → abstract.State → Prop)
    (left : Pool sig Task α concrete.State)
    (right : Pool sig Task α abstract.State) : Prop where
  program : left.program = right.program
  log : left.log = right.log
  state : related left.log left.state right.state

variable {related : List (Task × Event sig) →
    concrete.State → abstract.State → Prop}
  {left : Pool sig Task α concrete.State}
  {right : Pool sig Task α abstract.State}

theorem Related.past (same : Related related left right) (task : Task) :
    left.past task = right.past task := by
  simp [Pool.past, same.log]

theorem Related.step (same : Related related left right)
    (task : Task)
    (simulates : ∀ call next, left.program task = .ask call next →
      let given := supply task (left.past task).length
      (concrete.perform given call left.state).1 =
          (abstract.perform given call right.state).1 ∧
        related (left.log ++ [(task,
            ⟨call, (concrete.perform given call left.state).1⟩)])
          (concrete.perform given call left.state).2
          (abstract.perform given call right.state).2) :
    Related related (left.step concrete supply task)
      (right.step abstract supply task) := by
  cases asks : left.program task with
  | done value =>
      rw [step_of_done asks, step_of_done (same.program ▸ asks)]
      exact same
  | ask call next =>
      obtain ⟨replies, states⟩ := simulates call next asks
      rw [step_of_ask asks, step_of_ask (same.program ▸ asks)]
      rw [← same.past task]
      constructor
      · simp only [same.program, replies]
      · simp only [same.log, replies]
      · exact states

end Simulation

/-!
Noninterference.  Tasks belong to domains; a call confined to a domain sees
only what its domain sees and changes only what its domain sees.  Then what
the tasks of a domain do is what they do when the other domains do nothing.
-/

section Noninterference

variable {Domain : Type}

/-- The two conditions on single calls from which noninterference of whole
runs follows; `alike d` relates the states domain `d` can't tell apart. -/
structure Unwinding (machine : Machine sig Supply) (Domain : Type)
    (confined : Domain → sig.Call → Prop)
    (alike : Domain → machine.State → machine.State → Prop) : Prop where
  equivalence : ∀ domain, Equivalence (alike domain)
  observes : ∀ domain supply call left right,
    confined domain call → alike domain left right →
      (machine.perform supply call left).1 =
          (machine.perform supply call right).1 ∧
        alike domain (machine.perform supply call left).2
          (machine.perform supply call right).2
  respects : ∀ domain other supply call state,
    other ≠ domain → confined other call →
      alike domain (machine.perform supply call state).2 state

variable {machine : Machine sig Supply} {supply : Task → Nat → Supply}
  {confined : Domain → sig.Call → Prop}
  {alike : Domain → machine.State → machine.State → Prop}

/-- What a domain may ask; a task without a domain asks what changes nothing. -/
def orSilent (confined : Domain → sig.Call → Prop) (silent : sig.Call → Prop) :
    Option Domain → sig.Call → Prop
  | some domain => confined domain
  | none => silent

/-- What a domain can't tell apart; a task without a domain tells nothing apart. -/
def orBlind {State : Type} (alike : Domain → State → State → Prop) :
    Option Domain → State → State → Prop
  | some domain => alike domain
  | none => fun _ _ => True

/-- Tasks without a domain neither see nor change anything. -/
theorem Unwinding.option (unwinding : Unwinding machine Domain confined alike)
    {silent : sig.Call → Prop}
    (keeps : ∀ supply call state, silent call →
      (machine.perform supply call state).2 = state)
    (answers : ∀ supply call left right, silent call →
      (machine.perform supply call left).1 = (machine.perform supply call right).1) :
    Unwinding machine (Option Domain) (orSilent confined silent) (orBlind alike) where
  equivalence domain := by
    cases domain with
    | none => exact ⟨fun _ => trivial, fun _ => trivial, fun _ _ => trivial⟩
    | some domain => exact unwinding.equivalence domain
  observes domain supply call left right asks same := by
    cases domain with
    | none => exact ⟨answers supply call left right asks, trivial⟩
    | some domain => exact unwinding.observes domain supply call left right asks same
  respects domain other supply call state differ asks := by
    cases domain with
    | none => exact trivial
    | some domain =>
        cases other with
        | none =>
            rw [orBlind, keeps supply call state asks]
            exact (unwinding.equivalence domain).refl state
        | some other =>
            exact unwinding.respects domain other supply call state
              (fun same => differ (congrArg some same)) asks

/-- What the tasks of a domain see of two pools is the same. -/
structure SameView (domain : Task → Domain)
    (alike : Domain → machine.State → machine.State → Prop) (viewer : Domain)
    (left right : Pool sig Task α machine.State) : Prop where
  program : ∀ task, domain task = viewer →
    left.program task = right.program task
  past : ∀ task, domain task = viewer → left.past task = right.past task
  state : alike viewer left.state right.state

/-- Every call a task may make is confined to its domain. -/
def Confined (domain : Task → Domain) (confined : Domain → sig.Call → Prop)
    {State : Type} (pool : Pool sig Task α State) : Prop :=
  pool.AllSafe (fun task _ call => confined (domain task) call)
    (fun _ _ _ => True)

theorem SameView.step_own {domain : Task → Domain} {viewer : Domain}
    (unwinding : Unwinding machine Domain confined alike)
    {left right : Pool sig Task α machine.State}
    (same : SameView domain alike viewer left right)
    (safe : left.Confined domain confined)
    {task : Task} (own : domain task = viewer) :
    SameView domain alike viewer (left.step machine supply task)
      (right.step machine supply task) := by
  have programs := same.program task own
  cases asks : left.program task with
  | done value =>
      rw [step_of_done asks, step_of_done (programs ▸ asks)]
      exact same
  | ask call next =>
      have here := safe task
      rw [asks] at here
      obtain ⟨replies, states⟩ := unwinding.observes viewer
        (supply task (left.past task).length) call left.state right.state
        (own ▸ here.1) same.state
      rw [step_of_ask asks, step_of_ask (programs ▸ asks),
        ← same.past task own]
      constructor
      · intro other ownOther
        by_cases equal : task = other
        · subst equal
          simp [replies]
        · simp [Function.update_of_ne (Ne.symm equal), same.program other ownOther]
      · intro other ownOther
        by_cases equal : task = other
        · subst equal
          rw [past_append_self, past_append_self, replies, same.past task own]
        · rw [past_append_of_ne _ _ _ equal, past_append_of_ne _ _ _ equal,
            same.past other ownOther]
      · exact states

theorem SameView.step_other {domain : Task → Domain} {viewer : Domain}
    (unwinding : Unwinding machine Domain confined alike)
    {left right : Pool sig Task α machine.State}
    (same : SameView domain alike viewer left right)
    (safe : left.Confined domain confined)
    {task : Task} (foreign : domain task ≠ viewer) :
    SameView domain alike viewer (left.step machine supply task) right := by
  cases asks : left.program task with
  | done value => rwa [step_of_done asks]
  | ask call next =>
      have here := safe task
      rw [asks] at here
      rw [step_of_ask asks]
      have distinct : ∀ other, domain other = viewer → task ≠ other :=
        fun other own equal => foreign (equal ▸ own)
      constructor
      · intro other own
        simp [Function.update_of_ne (Ne.symm (distinct other own)),
          same.program other own]
      · intro other own
        rw [past_append_of_ne _ _ _ (distinct other own), same.past other own]
      · exact (unwinding.equivalence viewer).trans
          (unwinding.respects viewer (domain task) _ call left.state foreign
            here.1)
          same.state

/-- A domain sees the same in a run and in the run that leaves out the steps
of every other domain. -/
theorem noninterference [DecidableEq Domain] {domain : Task → Domain}
    (viewer : Domain)
    (unwinding : Unwinding machine Domain confined alike)
    {left right : Pool sig Task α machine.State}
    (same : SameView domain alike viewer left right)
    (safe : left.Confined domain confined)
    (schedule : List Task) :
    SameView domain alike viewer (left.run machine supply schedule)
      (right.run machine supply
        (schedule.filter fun task => domain task = viewer)) := by
  induction schedule generalizing left right with
  | nil => exact same
  | cons task schedule induction =>
      by_cases own : domain task = viewer
      · simp only [own, decide_true, List.filter_cons_of_pos, run_cons]
        exact induction (same.step_own unwinding safe own) (safe.step task)
      · simp only [own, decide_false, Bool.false_eq_true, not_false_eq_true,
          List.filter_cons_of_neg, run_cons]
        exact induction (same.step_other unwinding safe own) (safe.step task)

end Noninterference

end Pool

end Interaction
