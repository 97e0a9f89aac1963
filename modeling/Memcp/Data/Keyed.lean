import Mathlib.Data.List.Find
import Mathlib.Data.List.Nodup

/-! Lists whose elements are told apart by a key. -/

namespace List

variable {α κ : Type} [DecidableEq κ] {f : α → κ} {items : List α}

theorem find?_key_of_mem (distinct : (items.map f).Nodup) {item : α}
    (member : item ∈ items) : items.find? (fun other => f other = f item) = some item := by
  cases found : items.find? (fun other => f other = f item) with
  | none =>
      exact absurd (decide_eq_true rfl) (find?_eq_none.mp found item member)
  | some other =>
      have same : f other = f item := by simpa using find?_some found
      rw [inj_on_of_nodup_map distinct (mem_of_find?_eq_some found) member same]

theorem find?_key_eq_some (distinct : (items.map f).Nodup) {key : κ} {item : α} :
    items.find? (fun other => f other = key) = some item ↔ item ∈ items ∧ f item = key := by
  constructor
  · intro found
    exact ⟨mem_of_find?_eq_some found, by simpa using find?_some found⟩
  · rintro ⟨member, rfl⟩
    exact find?_key_of_mem distinct member

/-- Lists that agree on the elements with some keys find the same ones by these. -/
theorem find?_key_congr {others : List α} {chosen : κ → Prop} [DecidablePred chosen]
    (same : (items.filter fun item => chosen (f item)) =
      others.filter fun item => chosen (f item)) {key : κ} (choose : chosen key) :
    items.find? (fun item => f item = key) = others.find? fun item => f item = key := by
  have within : ∀ some : List α, (some.filter fun item => chosen (f item)).find?
      (fun item => f item = key) = some.find? fun item => f item = key := by
    intro some
    rw [find?_filter]
    apply find?_congr
    intro item _
    by_cases named : f item = key
    · simp [named, choose]
    · simp [named]
  rw [← within items, same, within others]

end List
