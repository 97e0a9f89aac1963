import Mathlib.Data.List.Sort
import Mathlib.Algebra.Order.Ring.Rat

/-! Lists ranked by score, and what a bound on the scores does to their starts. -/

namespace Memcp

variable {α β : Type}

/-- `sort(key=.., reverse=True)`: by score, ties in the order given. -/
def ranked (scored : List (ℚ × α)) : List (ℚ × α) :=
  scored.insertionSort fun first second => second.1 ≤ first.1

theorem ranked_map (f : α → β) (scored : List (ℚ × α)) :
    ranked (scored.map fun entry => (entry.1, f entry.2)) =
      (ranked scored).map fun entry => (entry.1, f entry.2) :=
  (List.map_insertionSort (fun first second : ℚ × α => second.1 ≤ first.1)
    (fun first second : ℚ × β => second.1 ≤ first.1) _ scored
    fun _ _ _ _ => Iff.rfl).symm

theorem ranked_perm (scored : List (ℚ × α)) : (ranked scored).Perm scored :=
  List.perm_insertionSort _ scored

theorem mem_ranked {scored : List (ℚ × α)} {hit : ℚ × α} :
    hit ∈ ranked scored ↔ hit ∈ scored :=
  (ranked_perm scored).mem_iff

end Memcp
