import Mathlib.Data.List.Induction

/-!
Loops whose state is a function of the items read so far, with and without an
early end.
-/

namespace List

variable {ε α σ : Type}

/-- A loop goes on for as long as what it has read is clear, and ends with an
error at the first item after which it is not. -/
structure Guards (step : σ → α → Except ε σ) (state : List α → σ)
    (clear : List α → Prop) (fails : ε → Prop) : Prop where
  earlier : ∀ done item, clear (done ++ [item]) → clear done
  passes : ∀ done item, clear (done ++ [item]) →
    step (state done) item = .ok (state (done ++ [item]))
  raises : ∀ done item, clear done → ¬ clear (done ++ [item]) →
    ∃ error, step (state done) item = .error error ∧ fails error

namespace Guards

variable {step : σ → α → Except ε σ} {state : List α → σ} {clear : List α → Prop}
  {fails : ε → Prop}

theorem foldlM_ok (guards : Guards step state clear fails) {items : List α}
    (holds : clear items) : items.foldlM step (state []) = .ok (state items) := by
  induction items using List.reverseRecOn with
  | nil => rfl
  | append_singleton items item induction =>
      rw [foldlM_append, induction (guards.earlier items item holds)]
      change (step (state items) item >>= pure) = _
      rw [guards.passes items item holds]
      rfl

theorem foldlM_error (guards : Guards step state clear fails) (items : List α)
    (first : clear []) (breaks : ¬ clear items) :
    ∃ error, items.foldlM step (state []) = .error error ∧ fails error := by
  induction items using List.reverseRecOn with
  | nil => exact absurd first breaks
  | append_singleton items item induction =>
      by_cases holds : clear items
      · obtain ⟨error, raised, kind⟩ := guards.raises items item holds breaks
        refine ⟨error, ?_, kind⟩
        rw [foldlM_append, guards.foldlM_ok holds]
        change (step (state items) item >>= pure) = _
        rw [raised]
        rfl
      · obtain ⟨error, raised, kind⟩ := induction holds
        refine ⟨error, ?_, kind⟩
        rw [foldlM_append, raised]
        rfl

end Guards

end List
