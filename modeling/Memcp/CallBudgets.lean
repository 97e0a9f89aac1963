import Memcp.LocalAnswers
import Memcp.Policy.Budget

/-!
How much work a tool call is.  Whatever its backend replies and whatever other calls come in
between, a tool call ends after a number of its own steps that its arguments and the limits
fix.  On a local backend no step waits for another call, and a whole space is one page.
-/

namespace Memcp

open Python Interaction

/-- An add reports at most `items` memories.  A page of a whole space that leaves a cursor is
empty, or holds `page` memories when as many were asked for. -/
def Batched (items page : Nat) : Event effects → Prop
  | ⟨.backend (.add ..), .ok result⟩ => result.items.length ≤ items
  | ⟨.backend (.listMemories _ none limit _), .ok found⟩ =>
      found.nextCursor ≠ none → found.memories ≠ [] →
        min limit (page : Int) ≤ found.memories.length
  | _ => True

section Reads

variable {items page : Nat}

theorem batched_adds : AddsAtMost (Batched items page) items :=
  fun _ _ _ _ _ _ _ => id

/-- Each turn of the loop but the last reads `page` memories. -/
theorem listAllFrom_costs (positive : 0 < page) (space : String) (limit : Nat)
    (memories : List Memory) (incomplete : Bool) (cursor : Option String)
    (room : memories.length ≤ limit) :
    Fallible.Costs (Batched items page) (fun _ => True)
      (listAllFrom space limit memories incomplete cursor)
      ((limit - memories.length) / page + 1) := by
  induction rest : limit - memories.length using Nat.strongRecOn
    generalizing memories incomplete cursor with
  | ind left induction =>
      rw [listAllFrom_eq, Nat.add_comm (left / page)]
      refine .bind (Action.costs_backend fun _ full => full) fun found full => ?_
      split
      case isFalse => exact .throw _
      split
      case isTrue => exact .pure trivial
      case isTrue.isFalse goes =>
        obtain ⟨more, some, within⟩ : found.nextCursor ≠ none ∧ found.memories ≠ [] ∧
            (memories ++ found.memories).length ≤ limit := by
          simpa [not_or] using goes
        have read := full more some
        rw [List.length_append] at within
        have enough : page ≤ found.memories.length := by omega
        have fewer : limit - (memories ++ found.memories).length < left := by
          rw [List.length_append]
          omega
        have further := induction _ fewer (memories ++ found.memories)
          (incomplete || found.incomplete) found.nextCursor
          (by rw [List.length_append]; exact within) rfl
        refine further.mono (fun _ => id) ?_
        rw [Nat.div_eq_sub_div positive (show page ≤ left by omega), List.length_append]
        exact Nat.succ_le_succ (Nat.div_le_div_right (by omega))

theorem listAll_costs (positive : 0 < page) (space : String) (limit : Nat) :
    Fallible.Costs (Batched items page) (fun _ => True) (listAll space limit)
      (limit / page + 1) :=
  listAllFrom_costs positive space limit [] false none (Nat.zero_le _)

end Reads

/-- On any backend and under any schedule, a tool call makes at most its budget of calls, and
has answered after as many turns of its own. -/
theorem tool_calls_stay_in_budget {Task Supply : Type} [DecidableEq Task] {policy : Policy}
    {context : Task → Context} {request : Task → Request} {machine : Machine effects Supply}
    {supply : Task → Nat → Supply} {state : machine.State} {schedule : List Task}
    {items page : Nat} {task : Task} (positive : 0 < page)
    (batched : ∀ fresh effect state,
      Batched items page ⟨effect, (machine.perform fresh effect state).1⟩) :
    let pool := Pool.run machine supply (Pool.start state fun task =>
      policy.callTool (context task) (request task)) schedule
    let budget := (request task).budget items (maxExport / page + 1)
    (pool.past task).length ≤ budget ∧
      (budget ≤ schedule.count task → ∃ answer, pool.program task = .done answer) := by
  have costs : Program.Costs (Batched items page) (fun _ => True)
      (policy.callTool (context task) (request task))
      ((request task).budget items (maxExport / page + 1)) := by
    refine Program.Costs.bindFree (perform_costs batched_adds
      (fun space => listAll_costs positive space maxExport) _) fun _ _ => ?_
    exact trivial
  exact @Pool.stops_within effects _ Task Supply _ machine supply task (Batched items page)
    _ _ state (fun task => policy.callTool (context task) (request task)) costs schedule
    (Pool.run_replies batched schedule task)

/-- A backend that extracts two memories from whatever is added. -/
def extracting : Machine effects Unit where
  State := Unit
  perform
    | _, .audit _, _ => ((), ())
    | _, .backend (.add ..), _ => (.ok (.many [{ id := "a" }, { id := "b" }]), ())
    | _, .backend (.get partition memoryId), _ =>
        (.ok (some
          { id := memoryId, content := "tea", partition
            system := { space := some (.str partition) } }), ())
    | _, .backend _, _ => (.error (.memoryAPIError 500 ""), ())

theorem tool_calls_stay_in_budget_extracting :
    let policy := localPolicy .ascii
    let request : Request := .add "tea" .null none true
    let pool := @Pool.run effects Unit Unit _ _ extracting (fun _ _ => ())
      (Pool.start () fun _ => policy.callTool (some ⟨"ann", ⟨"s", .writer⟩⟩) request)
      [(), (), (), ()]
    (pool.past ()).length ≤ 4 ∧ (4 ≤ 4 → ∃ answer, pool.program () = .done answer) := by
  refine @tool_calls_stay_in_budget Unit Unit _ (localPolicy .ascii)
    (fun _ => some ⟨"ann", ⟨"s", .writer⟩⟩) (fun _ => .add "tea" .null none true) extracting
    (fun _ _ => ()) () [(), (), (), ()] 2 1 () (by decide) ?_
  intro fresh effect state
  cases effect with
  | audit entry => exact trivial
  | backend call =>
      cases call with
      | add => exact Nat.le_refl 2
      | listMemories partition scope =>
          cases scope with
          | none => exact trivial
          | some scope => exact trivial
      | _ => exact trivial

end Memcp
