import Memcp.Policy.Alone

/-!
The score threshold of a search.  Policy checks it and hands it to the backend,
which ranks every memory the query hits and cuts the list at the limit; no
layer drops a hit for its score.
-/

namespace Memcp

open Python Interaction

variable {unicode : Unicode} {store : Store}

/-- The memories a backend selects by a scope hold what was requested. -/
theorem inScope_of_selected {scope : Option (Dict String Json)}
    {memories : List Memory} {items : List Item}
    (selected : ∀ memory ∈ memories, ∃ item ∈ Space.selected unicode scope items,
      ∃ partition score, memory = item.memory partition score) :
    inScope unicode memories scope = memories := by
  cases scope with
  | none => rfl
  | some scope =>
      refine List.filter_eq_self.mpr fun memory member => ?_
      obtain ⟨item, itemMember, _, _, rfl⟩ := selected memory member
      have holds := (List.mem_filter.mp itemMember).2
      simp only [Option.getD_some, storedHolds, List.all_eq_true,
        decide_eq_true_eq] at holds
      simp only [scopeHolds, Item.memory, List.all_eq_true]
      intro entry requested
      rw [get?_textScope, holds entry requested]
      simp [matchesText]

variable (representation : Representation unicode store)
  {state : store.machine.State} {supply : Nat → Fresh} {asked : Nat} {key : Key}

/-- The spaces of an `in_memory` backend that holds one memory. -/
def holdingAlpha : (InMemory.store .ascii).machine.State :=
  ((InMemory.store .ascii).perform ⟨"a", "t"⟩
    (.add "s" "alpha" none none false (some (systemFor "s" "ann" (some "ann"))))
    {}).2

end Memcp
