import Memcp.Interaction.Budget
import Memcp.Policy.Operations

/-!
How many calls each operation makes.  Two things depend on the backend: how many memories an
add reports, since each is read back, and how many pages a whole space takes to read.
-/

namespace Memcp

open Python Interaction

/-- The calls a request makes at most, its audit record included, when an add reports at most
`items` memories and a whole space is read in `pages` pages. -/
def Request.budget (items pages : Nat) : Request → Nat
  | .add .. => 1 + items + 1
  | .search .. | .get _ | .deleteAll _ | .listMemories .. | .entities .. => 1 + 1
  | .update .. | .delete _ | .history _ => 1 + 1 + 1
  | .exportMemories => pages + 1
  | .importMemories entries _ =>
      1 + (pages + min entries.length maxImport * (1 + items)) + 1

/-- An add reports at most `items` memories. -/
def AddsAtMost (assumed : Event effects → Prop) (items : Nat) : Prop :=
  ∀ partition content scope metadata infer system result,
    assumed ⟨.backend (.add partition content scope metadata infer system), .ok result⟩ →
      result.items.length ≤ items

section Rules

variable {α β : Type} {assumed : Event effects → Prop} {post : α → Prop}
  {post' : β → Prop} {most more : Nat}

theorem Action.costs_backend {call : BackendCall} {post : call.Result → Prop}
    (holds : ∀ value, assumed ⟨.backend call, .ok value⟩ → post value) :
    Fallible.Costs assumed post (Action.backend call) 1 := by
  intro reply kept value returned
  subst returned
  exact holds value kept

theorem Action.costs_attempt {action : Action α}
    (costs : Fallible.Costs assumed post action most) :
    Fallible.Costs assumed (fun result => ∀ value, result = .ok value → post value)
      action.attempt most := by
  refine Program.Costs.bindFree costs fun outcome holds => ?_
  rcases outcome with error | value
  · cases error with
    | memoryAPIError status body => exact fun _ same => by cases same; exact nofun
    | _ => exact nofun
  · intro result same other returned
    cases same
    exact holds other (congrArg Except.ok (Except.ok.inj returned))

/-- `operation` makes at most `most` calls, whatever its audit entry. -/
def Operation.Costs (assumed : Event effects → Prop) (post : α → Prop)
    (operation : Operation α) (most : Nat) : Prop :=
  ∀ entry, Program.Costs assumed (fun outcome => ∀ value, outcome.1 = .ok value → post value)
    (operation entry) most

namespace Operation.Costs

theorem pure {value : α} (holds : post value) :
    Operation.Costs assumed post (Pure.pure value) most := by
  rintro _ _ ⟨⟩
  exact holds

theorem throw (error : Exc) :
    Operation.Costs assumed post (MonadExcept.throw error : Operation α) most := by
  rintro _ _ ⟨⟩

theorem lift {outcome : Except Exc α} (holds : ∀ value, outcome = .ok value → post value) :
    Operation.Costs assumed post (liftM outcome : Operation α) most :=
  fun _ => holds

theorem action {action : Action α} (costs : Fallible.Costs assumed post action most) :
    Operation.Costs assumed post (liftM action : Operation α) most :=
  fun _ => Program.Costs.bindFree costs fun _ holds => holds

theorem mono (fewer : most ≤ more) {operation : Operation α}
    (costs : Operation.Costs assumed post operation most) :
    Operation.Costs assumed post operation more :=
  fun entry => (costs entry).mono (fun _ => id) fewer

theorem bind {operation : Operation α} {rest : α → Operation β}
    (first : Operation.Costs assumed post operation most)
    (second : ∀ value, post value → Operation.Costs assumed post' (rest value) more) :
    Operation.Costs assumed post' (operation >>= rest) (most + more) := by
  intro entry
  refine Program.Costs.bind (first entry) ?_
  rintro ⟨outcome, entry⟩ holds
  cases outcome with
  | ok value => exact second value (holds value rfl) entry
  | error error => exact Costs.throw error entry

theorem bindFree {operation : Operation α} {rest : α → Operation β}
    (first : Operation.Costs assumed post operation most)
    (second : ∀ value, post value → Operation.Costs assumed post' (rest value) 0) :
    Operation.Costs assumed post' (operation >>= rest) most :=
  bind first second

theorem check {outcome : Except Exc α} {rest : α → Operation β}
    (second : ∀ value, outcome = .ok value →
      Operation.Costs assumed post' (rest value) most) :
    Operation.Costs assumed post' (liftM outcome >>= rest) most := by
  intro entry
  cases outcome with
  | ok value => exact second value rfl entry
  | error error => exact Costs.throw error entry

theorem recording {f : AuditEntry → AuditEntry} {rest : Unit → Operation β}
    (second : Operation.Costs assumed post' (rest ()) most) :
    Operation.Costs assumed post' (Operation.record f >>= rest) most :=
  fun entry => second (f entry)

end Operation.Costs

/-- The record is one more call. -/
theorem Action.costs_audited {name : String} {context : Context} {respond : α → β}
    {body : Operation α} (costs : Operation.Costs assumed (fun _ => True) body most) :
    Fallible.Costs assumed (fun _ => True) (respond <$> audited name context body)
      (most + 1) :=
  .map (Program.Costs.bind (costs _) fun _ _ _ _ _ _ => trivial)

end Rules

/-! One lemma for each operation. -/

section Operations

variable {assumed : Event effects → Prop} {items pages : Nat} {policy : Policy}
  {context : Context}

abbrev Request.Costs (assumed : Event effects → Prop) (policy : Policy) (context : Context)
    (request : Request) (most : Nat) : Prop :=
  Fallible.Costs assumed (fun _ => True) (policy.perform context request) most

/-- A call of which nothing is used but that it is one. -/
theorem Action.costs_call (call : BackendCall) :
    Fallible.Costs assumed (fun _ => True) (Action.backend call) 1 :=
  costs_backend fun _ _ => trivial

theorem read_costs (partition memoryId : String) :
    Fallible.Costs assumed (fun _ => True) (Policy.read partition memoryId) 1 := by
  refine .check fun _ _ => ?_
  refine .bindFree (.mapError (Action.costs_call _)) fun found _ => ?_
  cases found with
  | none => exact .throw _
  | some memory => exact .lift fun _ _ => trivial

theorem checkAdded_costs (partition : String) (added : List AddResult) :
    Operation.Costs assumed (fun _ => True) (Policy.checkAdded partition added)
      added.length := by
  induction added with
  | nil => exact .pure trivial
  | cons head tail induction =>
      unfold Policy.checkAdded
      split
      · exact induction.mono (Nat.le_succ _)
      · rw [List.length_cons, Nat.add_comm]
        exact .bind (.action (Action.costs_call _)) fun _ _ => .check fun _ _ => induction

theorem add_costs (adds : AddsAtMost assumed items)
    (content : String) (scope : Json) (metadata : Option (Dict String Json)) (infer : Bool) :
    (Request.add content scope metadata infer).Costs assumed policy context
      (1 + items + 1) := by
  refine Action.costs_audited (.check fun actor _ => .check fun _ _ =>
    .check fun cleaned _ => .recording ?_)
  refine .bind (.action (Action.costs_backend fun result => adds _ _ _ _ _ _ result))
    fun result few => .recording ?_
  exact .bindFree ((checkAdded_costs _ _).mono few) fun _ _ => .pure trivial

theorem search_costs (query : String) (scope : Json) (limit : Int) (threshold : ℚ) :
    (Request.search query scope limit threshold).Costs assumed policy context (1 + 1) := by
  refine Action.costs_audited (.check fun actor _ => .check fun _ _ =>
    .check fun cleaned _ => .recording ?_)
  exact .bindFree (.action (Action.costs_call _)) fun _ _ => .check fun _ _ =>
    .recording (.pure trivial)

theorem get_costs (memoryId : String) :
    (Request.get memoryId).Costs assumed policy context (1 + 1) :=
  Action.costs_audited (.recording (.check fun _ _ => .action (read_costs _ _)))

theorem update_costs (memoryId : String) (content : Option String)
    (metadata : Option (Dict String Json)) :
    (Request.update memoryId content metadata).Costs assumed policy context (1 + 1 + 1) := by
  refine Action.costs_audited (.recording (.check fun actor _ => .check fun _ _ => ?_))
  refine .bind (.action (read_costs _ _)) fun existing _ => .check fun _ _ => ?_
  exact .bindFree (.action (.mapError (Action.costs_call _))) fun _ _ => .lift fun _ _ => trivial

theorem delete_costs (memoryId : String) :
    (Request.delete memoryId).Costs assumed policy context (1 + 1 + 1) := by
  refine Action.costs_audited (.recording (.check fun actor _ => ?_))
  exact .bind (.action (read_costs _ _)) fun _ _ => .action (.mapError (Action.costs_call _))

theorem deleteAll_costs (scope : Json) :
    (Request.deleteAll scope).Costs assumed policy context (1 + 1) := by
  refine Action.costs_audited (.check fun actor _ => .check fun cleaned _ => .recording ?_)
  split
  · exact .throw _
  · exact .bindFree (.action (Action.costs_call _)) fun _ _ => .recording (.pure trivial)

theorem listMemories_costs (scope : Json) (limit : Int) (cursor : Option String) :
    (Request.listMemories scope limit cursor).Costs assumed policy context (1 + 1) := by
  refine Action.costs_audited (.check fun actor _ => .check fun _ _ =>
    .check fun cleaned _ => .recording ?_)
  exact .bindFree (.action (.mapError (Action.costs_call _))) fun _ _ => .check fun _ _ =>
    .recording (.pure trivial)

theorem history_costs (memoryId : String) :
    (Request.history memoryId).Costs assumed policy context (1 + 1 + 1) := by
  refine Action.costs_audited (.recording (.check fun actor _ => ?_))
  exact .bind (.action (read_costs _ _)) fun _ _ => .action (.mapError (Action.costs_call _))

theorem entities_costs (scope : Json) (limit : Int) :
    (Request.entities scope limit).Costs assumed policy context (1 + 1) := by
  refine Action.costs_audited (.check fun actor _ => .check fun _ _ =>
    .check fun cleaned _ => .recording ?_)
  exact .bindFree (.action (Action.costs_call _)) fun _ _ => .recording (.pure trivial)

/-! Whole reads. -/

theorem exportMemories_costs
    (reads : ∀ space, Fallible.Costs assumed (fun _ => True) (listAll space maxExport) pages) :
    Request.exportMemories.Costs assumed policy context (pages + 1) := by
  have exported : ∀ space, Fallible.Costs assumed (fun _ => True)
      (exportPayload space maxExport) pages :=
    fun space => .bindFree (reads space) fun _ _ => .pure trivial
  refine Action.costs_audited (.check fun actor _ => ?_)
  exact .bindFree (.action (exported _)) fun _ _ => .recording (.pure trivial)

/-! Imports. -/

section Import

variable {unicode : Unicode} {options : ImportOptions} {index : Nat}

theorem importOverwrite_costs (item : ImportItem) (key : DedupKey) (dup : Memory)
    (state : ImportState) :
    Fallible.Costs assumed (fun _ => True)
      (importOverwrite options index item key dup state) 1 := by
  refine .bindFree (Action.costs_attempt (Action.costs_call _)) fun result _ => ?_
  cases result with
  | error status => exact .pure trivial
  | ok updated => exact .check fun _ _ => .pure trivial

theorem importReadBack_costs (key : DedupKey) (added : List AddResult)
    (state : ImportState) :
    Fallible.Costs assumed (fun _ => True)
      (importReadBack options index key added state) added.length := by
  induction added generalizing state with
  | nil => exact .pure trivial
  | cons head tail induction =>
      unfold importReadBack
      rw [List.length_cons, Nat.add_comm]
      refine .bind (Action.costs_attempt (Action.costs_call _)) fun result _ => ?_
      cases result with
      | error status => exact induction _
      | ok stored => exact .check fun _ _ => induction _

theorem importCreate_costs (adds : AddsAtMost assumed items) (item : ImportItem)
    (key : DedupKey) (state : ImportState) :
    Fallible.Costs assumed (fun _ => True)
      (importCreate options index item key state) (1 + items) := by
  refine .bind (Action.costs_attempt (Action.costs_backend fun result =>
    adds _ _ _ _ _ _ result)) fun result few => ?_
  split
  · exact .pure trivial
  · exact .pure trivial
  · exact (importReadBack_costs _ _ _).mono (fun _ => id) (few _ rfl)

theorem importEntry_costs (adds : AddsAtMost assumed items) (entry : Dict String Json)
    (state : ImportState) :
    Fallible.Costs assumed (fun _ => True)
      (importEntry unicode options index entry state) (1 + items) := by
  unfold importEntry
  split
  · exact .pure trivial
  · exact .throw _
  dsimp only
  split
  · exact .pure trivial
  · exact (importOverwrite_costs _ _ _ _).mono (fun _ => id) (Nat.le_add_right _ _)
  · exact importCreate_costs adds _ _ _

theorem importEntries_costs (adds : AddsAtMost assumed items)
    (entries : List (Dict String Json)) (state : ImportState) :
    Fallible.Costs assumed (fun _ => True)
      (importEntries unicode options index entries state)
      (entries.length * (1 + items)) := by
  induction entries generalizing index state with
  | nil => exact .pure trivial
  | cons entry entries induction =>
      rw [List.length_cons, Nat.succ_mul, Nat.add_comm]
      exact .bind (importEntry_costs adds entry state) fun state _ => induction state

theorem importPayload_costs (adds : AddsAtMost assumed items)
    (entries : List (Dict String Json)) {limit : Nat}
    (reads : Fallible.Costs assumed (fun _ => True) (listAll options.userId limit) pages) :
    Fallible.Costs assumed (fun _ => True)
      (importPayload unicode options entries limit)
      (1 + (pages + entries.length * (1 + items))) := by
  have conflict : Fallible.Costs assumed (fun _ => True)
      (refuseOnConflict options.onConflict) 1 := by
    unfold refuseOnConflict
    split
    · refine .bindFree (Action.costs_call _) fun declared _ => ?_
      split
      · exact .throw _
      · exact .pure trivial
    · exact .pure trivial
  have goes : ∀ known incomplete, Fallible.Costs assumed (fun _ => True) (do
      let state ← importEntries unicode options 0 entries
        { existing := known, outcome := { dedupIncomplete := incomplete } }
      return state.outcome) (entries.length * (1 + items)) := fun known incomplete =>
    .bindFree (importEntries_costs adds entries _) fun _ _ => .pure trivial
  refine .bind conflict fun _ _ => ?_
  dsimp only
  split
  · exact (goes _ _).mono (fun _ => id) (Nat.le_add_left _ _)
  · have indexed : Fallible.Costs assumed (fun _ => True)
        (buildDedupIndex unicode options.userId limit) pages :=
      .bindFree reads fun _ _ => .pure trivial
    exact .bind indexed fun _ _ => goes _ _

theorem length_le_of_checkImportArguments {entries : List (Dict String Json)}
    {onConflict : String} {mode : OnConflict}
    (checked : policy.checkImportArguments entries onConflict = .ok mode) :
    entries.length ≤ maxImport := by
  refine Nat.le_of_not_lt fun many => ?_
  unfold Policy.checkImportArguments at checked
  dsimp only at checked
  rw [if_pos many] at checked
  split at checked
  · cases checked
  · cases checked

theorem importMemories_costs (adds : AddsAtMost assumed items)
    (entries : List (Dict String Json)) (onConflict : String)
    (reads : ∀ space, Fallible.Costs assumed (fun _ => True) (listAll space maxExport) pages) :
    (Request.importMemories entries onConflict).Costs assumed policy context
      (1 + (pages + min entries.length maxImport * (1 + items)) + 1) := by
  refine Action.costs_audited (.check fun actor _ => .check fun mode checked => ?_)
  rw [Nat.min_eq_left (length_le_of_checkImportArguments checked)]
  exact .bindFree (.action (importPayload_costs adds entries (reads _))) fun _ _ =>
    .recording (.pure trivial)

end Import

/-- Every request keeps within its budget. -/
theorem perform_costs (adds : AddsAtMost assumed items)
    (reads : ∀ space, Fallible.Costs assumed (fun _ => True) (listAll space maxExport) pages)
    (request : Request) :
    request.Costs assumed policy context (request.budget items pages) := by
  cases request with
  | add => exact add_costs adds _ _ _ _
  | search => exact search_costs _ _ _ _
  | get => exact get_costs _
  | update => exact update_costs _ _ _
  | delete => exact delete_costs _
  | deleteAll => exact deleteAll_costs _
  | listMemories => exact listMemories_costs _ _ _
  | history => exact history_costs _
  | entities => exact entities_costs _ _
  | exportMemories => exact exportMemories_costs reads
  | importMemories => exact importMemories_costs adds _ _ reads

end Operations

end Memcp
