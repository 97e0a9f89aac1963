import Mathlib.Data.List.Forall2

/-! Two lists related element by element. -/

namespace List.Forall₂

variable {α β : Type} {R : α → β → Prop} {left : List α} {right : List β}

theorem exists_right (related : Forall₂ R left right) {value : α} (member : value ∈ left) :
    ∃ other ∈ right, R value other := by
  induction related with
  | nil => cases member
  | cons first _ induction =>
      cases member with
      | head => exact ⟨_, mem_cons_self, first⟩
      | tail _ member =>
          obtain ⟨other, member', related⟩ := induction member
          exact ⟨other, mem_cons_of_mem _ member', related⟩

theorem exists_left (related : Forall₂ R left right) {other : β} (member : other ∈ right) :
    ∃ value ∈ left, R value other :=
  related.flip.exists_right member

theorem members (related : Forall₂ R left right) :
    Forall₂ (fun value other => value ∈ left ∧ R value other) left right :=
  (forall₂_and_left _ _).mpr ⟨fun _ member => member, related⟩

theorem map_eq {γ : Type} {f : α → γ} {g : β → γ} (related : Forall₂ R left right)
    (same : ∀ value other, R value other → g other = f value) :
    right.map g = left.map f := by
  induction related with
  | nil => rfl
  | cons first _ induction => rw [map_cons, map_cons, same _ _ first, induction]

theorem getLast? (related : Forall₂ R left right) :
    (left.getLast? = none ∧ right.getLast? = none) ∨
      ∃ value other, left.getLast? = some value ∧ right.getLast? = some other ∧
        R value other := by
  have reversed := forall₂_reverse_iff.mpr related
  rw [← head?_reverse, ← head?_reverse]
  generalize left.reverse = left, right.reverse = right at reversed ⊢
  cases reversed with
  | nil => exact .inl ⟨rfl, rfl⟩
  | cons last _ => exact .inr ⟨_, _, rfl, rfl, last⟩

end List.Forall₂
