import Memcp.Interaction.Fallible

/-!
Programs that stop on a failure.  `failure` tells which replies are failures, each with what
is raised for it, and `silent` which calls may still follow one.  Whatever the environment
replies, the first failure is the last of a program's calls but for silent ones, and nothing
is raised but for a failure or by the program itself.
-/

namespace Interaction

variable {sig : Signature} {ε α β : Type}

/-- How a run that stops on failures comes to its outcome. -/
inductive Concluded (silent : sig.Call → Prop) (failure : Event sig → Option ε)
    (refuses : ε → Prop) (past : Trace sig) : Except ε α → Prop
  | returned {value : α} (sound : ∀ event ∈ past, failure event = none) :
      Concluded silent failure refuses past (.ok value)
  | refused {error : ε} (sound : ∀ event ∈ past, failure event = none)
      (own : refuses error) : Concluded silent failure refuses past (.error error)
  | failed {before after : Trace sig} {event : Event sig} {error : ε}
      (split : past = before ++ event :: after)
      (sound : ∀ event ∈ before, failure event = none)
      (fails : failure event = some error) (quiet : ∀ event ∈ after, silent event.call) :
      Concluded silent failure refuses past (.error error)

variable {silent : sig.Call → Prop} {failure : Event sig → Option ε} {refuses : ε → Prop}
  {past : Trace sig}

namespace Concluded

/-- A silent call changes nothing. -/
theorem append {outcome : Except ε α} {event : Event sig}
    (concluded : Concluded silent failure refuses past outcome) (quiet : silent event.call)
    (passes : failure event = none) :
    Concluded silent failure refuses (past ++ [event]) outcome := by
  have still : ∀ {before : Trace sig}, (∀ event ∈ before, failure event = none) →
      ∀ other ∈ before ++ [event], failure other = none := by
    intro before sound
    exact List.forall_mem_append.mpr ⟨sound, List.forall_mem_singleton.mpr passes⟩
  cases concluded with
  | returned sound => exact .returned (still sound)
  | refused sound own => exact .refused (still sound) own
  | @failed before after event' error split sound fails silents =>
      subst split
      refine .failed (List.append_assoc _ _ _) sound fails ?_
      exact List.forall_mem_append.mpr ⟨silents, List.forall_mem_singleton.mpr quiet⟩

theorem error {error : ε} (concluded : Concluded silent failure refuses past
      (.error error : Except ε α)) :
    Concluded silent failure refuses past (.error error : Except ε β) := by
  cases concluded with
  | refused sound own => exact .refused sound own
  | failed split sound fails quiet => exact .failed split sound fails quiet

/-- A failure is raised, and only silent calls follow it. -/
theorem of_failure {outcome : Except ε α}
    (concluded : Concluded silent failure refuses past outcome)
    (silents : ∀ event, silent event.call → failure event = none)
    {before after : Trace sig} {event : Event sig} {error : ε}
    (split : past = before ++ event :: after) (fails : failure event = some error) :
    outcome = .error error ∧ ∀ later ∈ after, silent later.call := by
  have unsound : (∀ event ∈ past, failure event = none) → False := by
    intro sound
    have passes := sound event (split ▸ List.mem_append_right before List.mem_cons_self)
    cases passes.symm.trans fails
  cases concluded with
  | returned sound => exact (unsound sound).elim
  | refused sound own => exact (unsound sound).elim
  | @failed before' after' event' error' split' sound fails' quiet =>
      rcases List.append_eq_append_iff.mp (split.symm.trans split') with
        ⟨between, rfl, same⟩ | ⟨between, rfl, same⟩
      · cases between with
        | nil =>
            cases same
            cases fails.symm.trans fails'
            exact ⟨rfl, quiet⟩
        | cons head between =>
            cases same
            have passes := sound event (List.mem_append_right _ List.mem_cons_self)
            cases passes.symm.trans fails
      · cases between with
        | nil =>
            cases same
            cases fails.symm.trans fails'
            exact ⟨rfl, quiet⟩
        | cons head between =>
            cases same
            have passes := silents event (quiet event
              (List.mem_append_right _ List.mem_cons_self))
            cases passes.symm.trans fails

/-- What is raised is a failure's or the program's own. -/
theorem of_error {error : ε}
    (concluded : Concluded silent failure refuses past (.error error : Except ε α)) :
    (∃ event ∈ past, failure event = some error) ∨
      (∀ event ∈ past, failure event = none) ∧ refuses error := by
  cases concluded with
  | refused sound own => exact .inr ⟨sound, own⟩
  | @failed before after event error split sound fails quiet =>
      exact .inl ⟨event, split ▸ List.mem_append_right before List.mem_cons_self, fails⟩

end Concluded

namespace Fallible

/-- After events without a failure, `action` stops on the first. -/
def StopsOn (silent : sig.Call → Prop) (failure : Event sig → Option ε)
    (refuses : ε → Prop) (action : Fallible sig ε α) : Prop :=
  ∀ past, (∀ event ∈ past, failure event = none) →
    Safe (fun _ _ => True) (Concluded silent failure refuses) action past

namespace StopsOn

theorem pure (value : α) :
    StopsOn silent failure refuses (Pure.pure value : Fallible sig ε α) :=
  fun _ sound => .returned sound

theorem throw {error : ε} (own : refuses error) :
    StopsOn silent failure refuses (MonadExcept.throw error : Fallible sig ε α) :=
  fun _ sound => .refused sound own

theorem lift {outcome : Except ε α} (own : ∀ error, outcome = .error error → refuses error) :
    StopsOn silent failure refuses (liftM outcome : Fallible sig ε α) := by
  intro past sound
  cases outcome with
  | ok value => exact .returned sound
  | error error => exact .refused sound (own error rfl)

theorem bind {action : Fallible sig ε α} {rest : α → Fallible sig ε β}
    (first : StopsOn silent failure refuses action)
    (second : ∀ value, StopsOn silent failure refuses (rest value)) :
    StopsOn silent failure refuses (action >>= rest) := by
  intro past sound
  refine safe_bind (first past sound) (fun later error concluded => concluded.error) ?_
  intro later value concluded
  cases concluded with
  | returned sound => exact second value later sound

theorem check {outcome : Except ε α} {rest : α → Fallible sig ε β}
    (own : ∀ error, outcome = .error error → refuses error)
    (second : ∀ value, outcome = .ok value → StopsOn silent failure refuses (rest value)) :
    StopsOn silent failure refuses (liftM outcome >>= rest) := by
  cases outcome with
  | ok value => exact second value rfl
  | error error => exact fun _ sound => .refused sound (own error rfl)

theorem map {action : Fallible sig ε α} {f : α → β}
    (stops : StopsOn silent failure refuses action) :
    StopsOn silent failure refuses (f <$> action) :=
  bind stops fun _ => pure _

/-- A failure is raised as another exception. -/
theorem mapError {f : ε → ε} {refuses' : ε → Prop} {action : Fallible sig ε α}
    (stops : StopsOn silent failure refuses action)
    (own : ∀ error, refuses error → refuses' (f error)) :
    StopsOn silent (fun event => (failure event).map f) refuses' (action.mapError f) := by
  intro past sound
  have sound : ∀ event ∈ past, failure event = none :=
    fun event member => Option.map_eq_none_iff.mp (sound event member)
  refine Safe.bind (stops past sound) fun later outcome concluded => ?_
  have lift : ∀ {before : Trace sig}, (∀ event ∈ before, failure event = none) →
      ∀ event ∈ before, (failure event).map f = none :=
    fun sound event member => Option.map_eq_none_iff.mpr (sound event member)
  cases concluded with
  | returned sound => exact .returned (lift sound)
  | refused sound raised => exact .refused (lift sound) (own _ raised)
  | failed split sound fails quiet =>
      exact .failed split (lift sound) (Option.map_eq_some_iff.mpr ⟨_, fails, rfl⟩) quiet

end StopsOn

end Fallible

end Interaction
