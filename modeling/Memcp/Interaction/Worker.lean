import Memcp.Interaction.Program
import Mathlib.Data.List.Nodup

/-!
Programs in worker threads behind one lock.  A task takes the lock, hands its
program to a thread and awaits it; the thread makes its calls on a state all
threads share.  A task cancelled while it awaits its thread gives up the lock at
once, and the thread goes on.
-/

namespace Interaction

/-- Where a task stands. -/
inductive Stage (Result : Type) where
  | waiting
  | awaiting
  | returned (value : Result)
  | cancelled

variable {sig : Signature} {State Task : Type} {Result : Task → Type}

structure Workers (sig : Signature) (State Task : Type) (Result : Task → Type) where
  state : State
  holder : Option Task
  stage : (task : Task) → Stage (Result task)
  /-- What is left of the program in the task's thread. -/
  thread : (task : Task) → Option (Program sig (Result task))

inductive Turn (Task : Type) where
  /-- Take the free lock and start the thread. -/
  | acquire (task : Task)
  /-- The next call of the task's thread. -/
  | call (task : Task)
  /-- Hand over what the thread returned, and release the lock. -/
  | resume (task : Task)
  | cancel (task : Task)

namespace Workers

def start (state : State) : Workers sig State Task Result where
  state := state
  holder := none
  stage _ := .waiting
  thread _ := none

/-- Whether the task's thread has calls to make. -/
def executing (workers : Workers sig State Task Result) (task : Task) : Bool :=
  match workers.thread task with
  | some (.ask _ _) => true
  | _ => false

section Steps

variable (answer : (call : sig.Call) → State → sig.Reply call × State)
  (body : (task : Task) → Option (Program sig (Result task)))

/-! The programs of several tasks run one after the other. -/

def serially (order : List Task) (state : State) : State :=
  order.foldl (fun state task =>
    match body task with
    | some program => (program.eval answer state).2
    | none => state) state

section Lemmas

variable {answer body} {initial : State} {order : List Task}
  {workers : Workers sig State Task Result} {task : Task}

theorem serially_append (program : Program sig (Result task))
    (runs : body task = some program) :
    serially answer body (order ++ [task]) initial =
      (program.eval answer (serially answer body order initial)).2 := by
  simp [serially, runs]

theorem executing_of_thread {program : Program sig (Result task)}
    (runs : workers.thread task = some program)
    (ended : workers.executing task = false) : ∃ value, program = .done value := by
  cases program with
  | done value => exact ⟨value, rfl⟩
  | ask call rest => simp [executing, runs] at ended

end Lemmas

variable [DecidableEq Task]

/-- One turn, when it is possible. -/
def step (workers : Workers sig State Task Result) :
    Turn Task → Option (Workers sig State Task Result)
  | .acquire task =>
      match workers.holder, workers.stage task, body task with
      | none, .waiting, some program => some { workers with
          holder := some task
          stage := Function.update workers.stage task .awaiting
          thread := Function.update workers.thread task (some program) }
      | _, _, _ => none
  | .call task =>
      match workers.thread task with
      | some (.ask call next) => some { workers with
          state := (answer call workers.state).2
          thread := Function.update workers.thread task
            (some (next (answer call workers.state).1)) }
      | _ => none
  | .resume task =>
      match workers.stage task, workers.thread task with
      | .awaiting, some (.done value) => some { workers with
          holder := none
          stage := Function.update workers.stage task (.returned value) }
      | _, _ => none
  | .cancel task =>
      match workers.stage task with
      | .waiting => some { workers with
          stage := Function.update workers.stage task .cancelled }
      | .awaiting => some { workers with
          holder := none
          stage := Function.update workers.stage task .cancelled }
      | _ => none

def run : List (Turn Task) → Workers sig State Task Result →
    Option (Workers sig State Task Result)
  | [], workers => some workers
  | turn :: turns, workers =>
      (step answer body workers turn).bind (run turns)

/-- No task is cancelled while its thread executes. -/
def Uninterrupted : List (Turn Task) → Workers sig State Task Result → Prop
  | [], _ => True
  | turn :: turns, workers =>
      (∀ task, turn = .cancel task → workers.executing task = false) ∧
        ∀ next, step answer body workers turn = some next →
          Uninterrupted turns next

/-- The calls made so far are those of whole programs run in `order`, the last
of which may still be executing while its task holds the lock. -/
structure Serial (initial : State) (order : List Task)
    (workers : Workers sig State Task Result) : Prop where
  once : order.Nodup
  unstarted : ∀ task, workers.stage task = .waiting → task ∉ order
  awaits : ∀ task, workers.stage task = .awaiting ↔ workers.holder = some task
  idle : ∀ task, workers.holder ≠ some task → workers.executing task = false
  free : workers.holder = none → workers.state = serially answer body order initial
  held : ∀ task, workers.holder = some task →
    ∃ earlier program rest, order = earlier ++ [task] ∧ body task = some program ∧
      workers.thread task = some rest ∧
      rest.eval answer workers.state =
        program.eval answer (serially answer body earlier initial)
  ended : ∀ task value, workers.thread task = some (.done value) →
    ∃ earlier later program, order = earlier ++ task :: later ∧
      body task = some program ∧
      value = (program.eval answer (serially answer body earlier initial)).1
  returned : ∀ task value, workers.stage task = .returned value →
    workers.thread task = some (.done value)

variable {answer body} {initial : State} {order : List Task}
  {workers : Workers sig State Task Result} {task : Task}

namespace Serial

omit [DecidableEq Task] in
theorem start (initial : State) :
    Serial answer body initial []
      (Workers.start initial : Workers sig State Task Result) where
  once := List.nodup_nil
  unstarted _ _ := List.not_mem_nil
  awaits _ := ⟨nofun, nofun⟩
  idle _ _ := rfl
  free _ := rfl
  held _ := nofun
  ended _ _ := nofun
  returned _ _ := nofun

theorem acquire (serial : Serial answer body initial order workers)
    {program : Program sig (Result task)} (unheld : workers.holder = none)
    (waiting : workers.stage task = .waiting) (runs : body task = some program) :
    Serial answer body initial (order ++ [task]) { workers with
      holder := some task
      stage := Function.update workers.stage task .awaiting
      thread := Function.update workers.thread task (some program) } where
  once := by
    refine List.nodup_append.mpr ⟨serial.once, List.nodup_singleton _, ?_⟩
    rintro other member _ final rfl
    exact serial.unstarted task waiting (List.mem_singleton.mp final ▸ member)
  unstarted other unstarted := by
    dsimp only at unstarted
    rcases eq_or_ne other task with same | differ
    · subst same
      rw [Function.update_self] at unstarted
      cases unstarted
    · rw [Function.update_of_ne differ] at unstarted
      simpa [differ] using serial.unstarted other unstarted
  awaits other := by
    dsimp only
    rcases eq_or_ne other task with same | differ
    · subst same
      rw [Function.update_self]
      exact ⟨fun _ => rfl, fun _ => rfl⟩
    · rw [Function.update_of_ne differ, serial.awaits other, unheld]
      exact ⟨nofun, fun same => absurd (Option.some.inj same).symm differ⟩
  idle other notHolder := by
    have differ : other ≠ task := fun same => notHolder (congrArg some same.symm)
    have idle := serial.idle other (by simp [unheld])
    unfold executing at idle ⊢
    dsimp only
    rwa [Function.update_of_ne differ]
  free := nofun
  held other holds := by
    obtain rfl : task = other := Option.some.inj holds
    refine ⟨order, program, program, rfl, runs, Function.update_self .., ?_⟩
    rw [serial.free unheld]
  ended other value ended := by
    dsimp only at ended
    rcases eq_or_ne other task with same | differ
    · subst same
      rw [Function.update_self] at ended
      cases ended
      exact ⟨order, [], _, rfl, runs, rfl⟩
    · rw [Function.update_of_ne differ] at ended
      obtain ⟨earlier, later, program, rfl, runs, same⟩ :=
        serial.ended other value ended
      exact ⟨earlier, later ++ [task], program, by simp, runs, same⟩
  returned other value returned := by
    dsimp only at returned ⊢
    rcases eq_or_ne other task with same | differ
    · subst same
      rw [Function.update_self] at returned
      cases returned
    · rw [Function.update_of_ne differ] at returned ⊢
      exact serial.returned other value returned

theorem call (serial : Serial answer body initial order workers)
    {call : sig.Call} {rest : sig.Reply call → Program sig (Result task)}
    (asks : workers.thread task = some (.ask call rest)) :
    Serial answer body initial order { workers with
      state := (answer call workers.state).2
      thread := Function.update workers.thread task
        (some (rest (answer call workers.state).1)) } := by
  have executes : workers.executing task = true := by simp [executing, asks]
  have holds : workers.holder = some task := by
    by_contra notHolder
    rw [serial.idle task notHolder] at executes
    cases executes
  obtain ⟨earlier, program, _, split, runs, same, evaluates⟩ := serial.held task holds
  obtain rfl := Option.some.inj (asks.symm.trans same)
  constructor
  · exact serial.once
  · exact serial.unstarted
  · exact serial.awaits
  · intro other notHolder
    have differ : other ≠ task := fun same =>
      notHolder (holds.trans (congrArg some same.symm))
    have idle := serial.idle other notHolder
    unfold executing at idle ⊢
    dsimp only
    rwa [Function.update_of_ne differ]
  · exact fun free => nomatch holds.symm.trans free
  · intro other otherHolds
    obtain rfl : task = other := Option.some.inj (holds.symm.trans otherHolds)
    exact ⟨earlier, program, _, split, runs, Function.update_self .., evaluates⟩
  · intro other value ended
    dsimp only at ended
    rcases eq_or_ne other task with same | differ
    · subst same
      rw [Function.update_self] at ended
      have last := Option.some.inj ended
      refine ⟨earlier, [], program, split, runs, ?_⟩
      rw [← evaluates, Program.eval, last]
      rfl
    · rw [Function.update_of_ne differ] at ended
      exact serial.ended other value ended
  · intro other value returned
    dsimp only at returned ⊢
    rcases eq_or_ne other task with same | differ
    · subst same
      rw [(serial.awaits other).mpr holds] at returned
      cases returned
    · rw [Function.update_of_ne differ]
      exact serial.returned other value returned

theorem release (serial : Serial answer body initial order workers)
    {stage : Stage (Result task)} (awaits : workers.stage task = .awaiting)
    (ended : workers.executing task = false) (started : stage ≠ .waiting)
    (resumed : stage ≠ .awaiting)
    (returned : ∀ value, stage = .returned value →
      workers.thread task = some (.done value)) :
    Serial answer body initial order { workers with
      holder := none
      stage := Function.update workers.stage task stage } := by
  have holds := (serial.awaits task).mp awaits
  obtain ⟨earlier, program, rest, split, runs, thread, evaluates⟩ :=
    serial.held task holds
  obtain ⟨value, rfl⟩ := executing_of_thread thread ended
  constructor
  · exact serial.once
  · intro other waiting
    dsimp only at waiting
    rcases eq_or_ne other task with same | differ
    · subst same
      rw [Function.update_self] at waiting
      exact absurd waiting started
    · rw [Function.update_of_ne differ] at waiting
      exact serial.unstarted other waiting
  · intro other
    dsimp only
    rcases eq_or_ne other task with same | differ
    · subst same
      rw [Function.update_self]
      exact ⟨fun same => absurd same resumed, nofun⟩
    · rw [Function.update_of_ne differ, serial.awaits other, holds]
      exact ⟨fun same => absurd (Option.some.inj same).symm differ, nofun⟩
  · intro other _
    rcases eq_or_ne other task with same | differ
    · subst same
      exact ended
    · exact serial.idle other fun same =>
        differ (Option.some.inj (same.symm.trans holds))
  · intro _
    rw [split, serially_append program runs, ← evaluates]
    rfl
  · nofun
  · exact serial.ended
  · intro other result returnedOther
    dsimp only at returnedOther ⊢
    rcases eq_or_ne other task with same | differ
    · subst same
      rw [Function.update_self] at returnedOther
      exact returned result returnedOther
    · rw [Function.update_of_ne differ] at returnedOther
      exact serial.returned other result returnedOther

theorem leave (serial : Serial answer body initial order workers)
    (waiting : workers.stage task = .waiting) :
    Serial answer body initial order { workers with
      stage := Function.update workers.stage task .cancelled } := by
  constructor
  · exact serial.once
  · intro other unstarted
    dsimp only at unstarted
    rcases eq_or_ne other task with same | differ
    · subst same
      exact serial.unstarted other waiting
    · rw [Function.update_of_ne differ] at unstarted
      exact serial.unstarted other unstarted
  · intro other
    dsimp only
    rcases eq_or_ne other task with same | differ
    · subst same
      have awaits := serial.awaits other
      rw [waiting] at awaits
      rw [Function.update_self, ← awaits]
      exact ⟨nofun, nofun⟩
    · rw [Function.update_of_ne differ]
      exact serial.awaits other
  · exact serial.idle
  · exact serial.free
  · exact serial.held
  · exact serial.ended
  · intro other value returned
    dsimp only at returned ⊢
    rcases eq_or_ne other task with same | differ
    · subst same
      rw [Function.update_self] at returned
      cases returned
    · rw [Function.update_of_ne differ] at returned
      exact serial.returned other value returned

end Serial

/-- One turn that cancels no executing task keeps the calls serial. -/
theorem Serial.step (serial : Serial answer body initial order workers)
    {turn : Turn Task} (calm : ∀ task, turn = .cancel task →
      workers.executing task = false)
    {next : Workers sig State Task Result}
    (stepped : Workers.step answer body workers turn = some next) :
    ∃ order, Serial answer body initial order next := by
  cases turn with
  | acquire task =>
      simp only [Workers.step] at stepped
      split at stepped
      · rename_i program unheld waiting runs
        cases stepped
        exact ⟨_, serial.acquire unheld waiting runs⟩
      · cases stepped
  | call task =>
      simp only [Workers.step] at stepped
      split at stepped
      · rename_i call rest asks
        cases stepped
        exact ⟨order, serial.call asks⟩
      · cases stepped
  | resume task =>
      simp only [Workers.step] at stepped
      split at stepped
      · rename_i value awaits thread
        cases stepped
        refine ⟨order, serial.release awaits ?_ nofun nofun ?_⟩
        · simp [executing, thread]
        · rintro _ ⟨⟩
          exact thread
      · cases stepped
  | cancel task =>
      simp only [Workers.step] at stepped
      split at stepped
      · rename_i waiting
        cases stepped
        exact ⟨order, serial.leave waiting⟩
      · rename_i awaits
        cases stepped
        exact ⟨order, serial.release awaits (calm task rfl) nofun nofun nofun⟩
      · cases stepped

theorem Serial.run (turns : List (Turn Task))
    {workers last : Workers sig State Task Result} {order : List Task}
    (serial : Serial answer body initial order workers)
    (calm : Uninterrupted answer body turns workers)
    (ran : Workers.run answer body turns workers = some last) :
    ∃ order, Serial answer body initial order last := by
  induction turns generalizing workers order with
  | nil =>
      cases ran
      exact ⟨order, serial⟩
  | cons turn turns induction =>
      obtain ⟨next, stepped, ran⟩ := Option.bind_eq_some_iff.mp ran
      obtain ⟨order, serial⟩ := serial.step calm.1 stepped
      exact induction serial (calm.2 next stepped) ran

end Steps

end Workers

end Interaction
