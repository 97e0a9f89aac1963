import Memcp.Interaction.Pool

/-!
Programs that read once and then write at most once, the write depending on
what they read.  When two of them share a machine, either one runs after the
other, or the one that writes last has read before the other wrote.
-/

namespace Interaction

variable {sig : Signature} {Supply V α : Type}

/-- From what a program reads, the change it makes, if any. -/
abbrev Writer (V : Type) := V → Option (V → V)

namespace Writer

/-- The view after a program that read `seen` has made its change to `view`. -/
def applied (writer : Writer V) (seen view : V) : V :=
  (writer seen).elim view fun change => change view

/-- One after the other. -/
def serially (first second : Writer V) (view : V) : V :=
  second.applied (first.applied view view) (first.applied view view)

/-- Both read before either writes. -/
def overlapping (first second : Writer V) (view : V) : V :=
  second.applied view (first.applied view view)

end Writer

namespace Program

section

variable (machine : Machine sig Supply) (view : machine.State → V)

/-- No call changes what is viewed. -/
def Quiet : Program sig α → Prop
  | .done _ => True
  | .ask call next =>
      (∀ supply state, view (machine.perform supply call state).2 = view state) ∧
        ∀ reply, Quiet (next reply)

/-- The next call makes the change, and the later ones none. -/
def Writing (change : V → V) : Program sig α → Prop
  | .done _ => False
  | .ask call next =>
      (∀ supply state, view (machine.perform supply call state).2 =
        change (view state)) ∧
        ∀ reply, Quiet machine view (next reply)

/-- The next call reads, and then the change is made that the view read calls
for. -/
def Reading (writer : Writer V) : Program sig α → Prop
  | .done _ => ∀ seen, writer seen = none
  | .ask call next =>
      ∀ supply state, view (machine.perform supply call state).2 = view state ∧
        match writer (view state) with
        | none => Quiet machine view (next (machine.perform supply call state).1)
        | some change =>
            Writing machine view change (next (machine.perform supply call state).1)

end

variable {machine : Machine sig Supply} {view : machine.State → V}
  {supply : Nat → Supply}

theorem Quiet.bind {β : Type} {program : Program sig α} {rest : α → Program sig β}
    (quiet : Quiet machine view program)
    (quietRest : ∀ value, Quiet machine view (rest value)) :
    Quiet machine view (program.bind rest) := by
  induction program with
  | done value => exact quietRest value
  | ask call next induction => exact ⟨quiet.1, fun reply => induction reply (quiet.2 reply)⟩

theorem Quiet.exec {program : Program sig α} (quiet : Quiet machine view program)
    (asked : Nat) (state : machine.State) :
    view (program.exec machine supply asked state).2.2 = view state := by
  induction program generalizing asked state with
  | done value => rfl
  | ask call next induction =>
      rw [exec_ask, induction _ (quiet.2 _)]
      exact quiet.1 _ _

/-- Run alone, the change is made to the view it was read from. -/
theorem Reading.exec {writer : Writer V} {program : Program sig α}
    (reading : Reading machine view writer program) (asked : Nat)
    (state : machine.State) :
    view (program.exec machine supply asked state).2.2 =
      writer.applied (view state) (view state) := by
  cases program with
  | done value => simp [Writer.applied, reading (view state)]
  | ask call next =>
      obtain ⟨kept, goes⟩ := reading (supply asked) state
      rw [exec_ask, Writer.applied]
      cases calls : writer (view state) with
      | none =>
          rw [calls] at goes
          rw [Quiet.exec goes, kept]
          rfl
      | some change =>
          rw [calls] at goes
          generalize next (machine.perform (supply asked) call state).1 = rest at goes
          cases rest with
          | done value => exact goes.elim
          | ask call' next' =>
              rw [exec_ask, Quiet.exec (goes.2 _), goes.1, kept]
              rfl

end Program

namespace Pool

open Program

variable {machine : Machine sig Supply} {view : machine.State → V}
  {supply : Bool → Nat → Supply} {writer : Bool → Writer V} {before : V}
  {pool : Pool sig Bool α machine.State}

/-- A program that has yet to read, or has read one of the views `may` holds of
and has yet to write. -/
def Pending (machine : Machine sig Supply) (view : machine.State → V)
    (writer : Writer V) (may : V → Prop) (program : Program sig α) : Prop :=
  Reading machine view writer program ∨ ∃ seen change, may seen ∧
    writer seen = some change ∧ Writing machine view change program

theorem Pending.mono {writer : Writer V} {may may' : V → Prop}
    {program : Program sig α} (pending : Pending machine view writer may program)
    (implies : ∀ seen, may seen → may' seen) :
    Pending machine view writer may' program := by
  rcases pending with reading | ⟨seen, change, allowed, rest⟩
  · exact .inl reading
  · exact .inr ⟨seen, change, implies seen allowed, rest⟩

/-- How far two programs have come that started on `before`. -/
inductive Progress (machine : Machine sig Supply) (view : machine.State → V)
    (writer : Bool → Writer V) (before : V) (pool : Pool sig Bool α machine.State) :
    Prop
  | neither (same : view pool.state = before)
      (each : ∀ task, Pending machine view (writer task) (· = before)
        (pool.program task))
  | one (first : Bool) (ended : Quiet machine view (pool.program first))
      (same : view pool.state = (writer first).applied before before)
      (other : Pending machine view (writer !first)
        (fun seen => seen = before ∨ seen = view pool.state) (pool.program !first))
  | both (first : Bool) (each : ∀ task, Quiet machine view (pool.program task))
      (same : view pool.state = (writer first).serially (writer !first) before ∨
        view pool.state = (writer first).overlapping (writer !first) before)

/-- The next call of a program that is to write: it reads, and there is nothing
to write or the write is to follow; or it writes what it has read calls for. -/
theorem Pending.step {writer : Writer V} {may : V → Prop} {call : sig.Call}
    {next : sig.Reply call → Program sig α}
    (pending : Pending machine view writer may (.ask call next)) (given : Supply)
    (state : machine.State) :
    (view (machine.perform given call state).2 = view state ∧
      ∃ change, writer (view state) = some change ∧
        Writing machine view change (next (machine.perform given call state).1)) ∨
    ∃ seen, (may seen ∨ seen = view state) ∧
      view (machine.perform given call state).2 = writer.applied seen (view state) ∧
      Quiet machine view (next (machine.perform given call state).1) := by
  rcases pending with reading | ⟨seen, change, allowed, calls, writing⟩
  · obtain ⟨kept, goes⟩ := reading given state
    cases calls : writer (view state) with
    | none =>
        rw [calls] at goes
        exact .inr ⟨view state, .inr rfl, by simp [kept, Writer.applied, calls], goes⟩
    | some change =>
        rw [calls] at goes
        exact .inl ⟨kept, change, rfl, goes⟩
  · exact .inr ⟨seen, .inl allowed, by simp [writing.1, Writer.applied, calls],
      writing.2 _⟩

theorem Progress.step (progress : Progress machine view writer before pool)
    (task : Bool) :
    Progress machine view writer before (pool.step machine supply task) := by
  cases asks : pool.program task with
  | done value => rwa [step_of_done asks]
  | ask call next =>
      rw [step_of_ask asks]
      generalize supply task (pool.past task).length = given
      have flipped : (!task) ≠ task := by cases task <;> decide
      cases progress with
      | neither same each =>
          have here := each task
          rw [asks] at here
          have rest := each !task
          rcases here.step given pool.state with
            ⟨kept, change, calls, writing⟩ | ⟨seen, allowed, changed, quiet⟩
          · rw [same] at kept calls
            refine .neither kept fun other => ?_
            rcases eq_or_ne other task with rfl | distinct
            · simp only [Function.update_self]
              exact .inr ⟨before, change, rfl, calls, writing⟩
            · simp only [Function.update_of_ne distinct]
              exact each other
          · obtain rfl : seen = before := allowed.elim id fun read => read.trans same
            refine .one task ?_ (same ▸ changed) ?_
            · simpa using quiet
            · simp only [Function.update_of_ne flipped]
              exact rest.mono fun _ read => .inl read
      | one first ended same other =>
          rcases eq_or_ne task first with rfl | distinct
          · rw [asks] at ended
            refine .one task ?_ ((ended.1 _ _).trans same) ?_
            · simpa using ended.2 _
            · simp only [Function.update_of_ne flipped, ended.1]
              exact other
          · obtain rfl : task = !first := Bool.eq_not.mpr distinct
            rw [asks] at other
            rcases other.step given pool.state with
              ⟨kept, change, calls, writing⟩ | ⟨seen, allowed, changed, quiet⟩
            · refine .one first ?_ (kept.trans same) ?_
              · simpa [Function.update_of_ne distinct.symm] using ended
              · simp only [Function.update_self, kept]
                exact .inr ⟨view pool.state, change, .inr rfl, calls, writing⟩
            · refine .both first (fun other => ?_) ?_
              · rcases eq_or_ne other (!first) with rfl | differs
                · simpa using quiet
                · obtain rfl : other = first := by simpa using Bool.eq_not.mpr differs
                  simpa [Function.update_of_ne differs] using ended
              · rw [changed, same]
                rcases allowed with (rfl | rfl) | rfl
                · exact .inr rfl
                · exact .inl (by rw [same]; rfl)
                · exact .inl (by rw [same]; rfl)
      | both first each same =>
          have quiet := each task
          rw [asks] at quiet
          refine .both first (fun other => ?_) ((quiet.1 _ _).symm ▸ same)
          rcases eq_or_ne other task with rfl | distinct
          · simpa using quiet.2 _
          · simp only [Function.update_of_ne distinct]
            exact each other

theorem Progress.run (progress : Progress machine view writer before pool)
    (schedule : List Bool) :
    Progress machine view writer before (pool.run machine supply schedule) :=
  run_invariant _ (fun _ task progress => progress.step task) progress schedule

theorem Pending.applied_of_done {writer : Writer V} {may : V → Prop} {value : α}
    (pending : Pending machine view writer may (.done value)) (seen now : V) :
    writer.applied seen now = now := by
  rcases pending with reading | ⟨_, _, _, _, writing⟩
  · simp [Writer.applied, reading seen]
  · exact writing.elim

/-- When both have ended, one ran after the other, or both had read before
either wrote. -/
theorem Progress.ended (progress : Progress machine view writer before pool)
    (done : ∀ task, ∃ value, pool.program task = .done value) :
    ∃ first, view pool.state = (writer first).serially (writer !first) before ∨
      view pool.state = (writer first).overlapping (writer !first) before := by
  cases progress with
  | neither same each =>
      refine ⟨false, .inl ?_⟩
      have idle : ∀ task seen now, (writer task).applied seen now = now := by
        intro task seen now
        obtain ⟨value, stopped⟩ := done task
        have pending := each task
        rw [stopped] at pending
        exact pending.applied_of_done seen now
      simp only [Writer.serially, idle, same]
  | one first ended same other =>
      refine ⟨first, .inl ?_⟩
      obtain ⟨value, stopped⟩ := done !first
      rw [stopped] at other
      rw [Writer.serially, other.applied_of_done, same]
  | both first each same => exact ⟨first, same⟩

end Pool

end Interaction
