import Memcp.Policy.Guarantees
import Memcp.Tools.Shared
import Mathlib.Data.List.Dedup

/-!
The tools: which are registered for a backend, and what a call of one answers.  A tool is
registered when the backend declares what the tool needs of it, and then calls nothing the
backend doesn't declare.
-/

namespace Memcp

open Python Interaction

/-- The capability that gates a backend method. -/
def BackendCall.capability? : BackendCall → Option String
  | .update .. => some "update"
  | .listMemories .. => some "list"
  | .history .. => some "history"
  | .entities .. => some "entities"
  | .add .. | .search .. | .get .. | .delete .. | .deleteAll .. | .capabilities => none

namespace Request

/-- The tool that makes a request. -/
def tool : Request → String
  | .add .. => "add_memory"
  | .search .. => "search_memory"
  | .get _ => "get_memory"
  | .update .. => "update_memory"
  | .delete _ => "delete_memory"
  | .deleteAll _ => "delete_all_memories"
  | .listMemories .. => "list_memories"
  | .history _ => "memory_history"
  | .entities .. => "memory_entities"
  | .exportMemories => "export_memories"
  | .importMemories .. => "import_memories"

/-- The capability a request's tool is registered for. -/
def capability? : Request → Option String
  | .update .. => some "update"
  | .listMemories .. | .exportMemories | .importMemories .. => some "list"
  | .history _ => some "history"
  | .entities .. => some "entities"
  | .add .. | .search .. | .get _ | .delete _ | .deleteAll _ => none

end Request

/-- Tools that are registered for a capability only. -/
def toolsFor (capabilities : List String) (capability : String) (tools : List String) :
    List String :=
  if capability ∈ capabilities then tools else []

namespace Tools

/-- `memories.register`. -/
def memories (capabilities : List String) : List String :=
  ["add_memory", "search_memory", "delete_memory", "get_memory"] ++
    toolsFor capabilities "update" ["update_memory"]

/-- `bulk.register`. -/
def bulk (capabilities : List String) : List String :=
  "delete_all_memories" :: toolsFor capabilities "list" ["list_memories"]

/-- `transfer.register`. -/
def transfer (capabilities : List String) : List String :=
  toolsFor capabilities "list" ["export_memories", "import_memories"]

/-- `insight.register`. -/
def insight (capabilities : List String) : List String :=
  "memory_status" :: toolsFor capabilities "history" ["memory_history"] ++
    toolsFor capabilities "entities" ["memory_entities"]

end Tools

/-- The tools a server exposes, in the order they are registered. -/
def registerTools (capabilities : List String) : List String :=
  Tools.memories capabilities ++ Tools.bulk capabilities ++ Tools.transfer capabilities ++
    Tools.insight capabilities

/-- `_TOOL_FOR`. -/
def toolFor : String → Option String
  | "update" => some "update_memory"
  | "list" => some "list_memories"
  | "history" => some "memory_history"
  | "entities" => some "memory_entities"
  | _ => none

/-- The capabilities `memory_status` answers. -/
def statusCapabilities (capabilities : List String) : List String :=
  sorted ("get_memory" :: capabilities.filterMap toolFor).dedup

theorem mem_toolsFor {capabilities tools : List String} {capability tool : String} :
    tool ∈ toolsFor capabilities capability tools ↔
      capability ∈ capabilities ∧ tool ∈ tools := by
  unfold toolsFor
  split
  case isTrue declared => exact ⟨fun member => ⟨declared, member⟩, And.right⟩
  case isFalse absent => exact ⟨nofun, fun held => absurd held.1 absent⟩

theorem registered_iff {capabilities : List String} {request : Request} :
    request.tool ∈ registerTools capabilities ↔
      ∀ capability, request.capability? = some capability →
        capability ∈ capabilities := by
  cases request <;>
    simp [registerTools, Tools.memories, Tools.bulk, Tools.transfer, Tools.insight,
      mem_toolsFor, Request.tool, Request.capability?]

/-! What a tool answers. -/

/-- The result of a tool, by the shape it has. -/
inductive ToolResult where
  | text (message : String)
  | result (added : AddResult)
  | added (results : List AddResult)
  | found (results : List SerializedMemory)
  | memory (memory : SerializedMemory)
  | deleted (deleted : Bool)
  | deletedCount (count : Option Nat)
  | page (memories : List SerializedMemory) (nextCursor : Option String)
      (incomplete : Bool)
  | history (entries : List HistoryEntry)
  | entities (result : EntitiesResult)
  | exported (payload : ExportPayload)
  | imported (imported skipped : Nat) (outcome : ImportOutcome)
  deriving DecidableEq

def nothingStoredMsg : String :=
  "No durable fact was extracted, so nothing was stored. If you intended " ++
    "to store this exactly as written, call add_memory again with infer=false."

/-- What the tools make of what policy returns. -/
def Response.toolResult : Response → ToolResult
  | .added (.many []) => .text nothingStoredMsg
  | .added (.many results) => .added results
  | .added (.one result) => .result result
  | .found memories => .found (memories.map serializeMemory)
  | .memory stored => .memory (serializeMemory stored)
  | .deleted gone => .deleted gone
  | .count many => .deletedCount many
  | .page listed =>
      .page (listed.memories.map serializeMemory) listed.nextCursor listed.incomplete
  | .history entries => .history entries
  | .entities result => .entities result
  | .exported payload => .exported payload
  | .imported outcome => .imported outcome.imported.length outcome.skipped.length outcome

/-- What a client of a tool is answered, when nothing escapes the tool. -/
abbrev ToolAnswer := ToolResult ⊕ CanonicalError

/-- A tool's answer to what policy returns or raises. -/
def toolAnswer (outcome : Except Exc Response) : Except Exc ToolAnswer :=
  translateErrors (outcome.map Response.toolResult)

/-- A registered tool called as `context`. -/
def Policy.callTool (policy : Policy) (context : Context) (request : Request) :
    Action ToolAnswer :=
  @Program.bind effects _ _ (policy.perform context request) fun outcome =>
    .done (toolAnswer outcome)

/-- The calls of tools that clients make, each as the key its request came with. -/
abbrev toolCalls : Signature where
  Call := Key × Request
  Reply _ := Except Exc ToolAnswer

/-- Clients served by the tools, one request after the other. -/
def Policy.serve {α : Type} (policy : Policy) (clients : Program toolCalls α) :
    Program effects α :=
  @Program.interpret toolCalls effects _
    (fun call => policy.callTool (some call.1) call.2) clients

/-! The calls a tool makes. -/

/-- The backend declares what the call needs. -/
def Declared (capabilities : List String) (effect : Effect) : Prop :=
  ∀ call, effect = .backend call → ∀ capability, call.capability? = some capability →
    capability ∈ capabilities

section Declared

variable {policy : Policy} {key : Key} {past : Trace effects}

/-- Code that calls nothing the backend doesn't declare. -/
abbrev Action.Declared {α : Type} (capabilities : List String) (action : Action α)
    (past : Trace effects) : Prop :=
  Fallible.Keeps (fun _ => Memcp.Declared capabilities) (fun _ _ => True) action past

abbrev Operation.Declared {α : Type} (capabilities : List String)
    (operation : Operation α) (past : Trace effects) : Prop :=
  Operation.Keeps (fun _ => Memcp.Declared capabilities) (fun _ _ => True) operation past

variable {capabilities : List String}

theorem backend_declared {call : BackendCall}
    (declares : ∀ capability, call.capability? = some capability →
      capability ∈ capabilities) :
    Action.Declared capabilities (Action.backend call) past := by
  refine Action.keeps_backend ?_ fun _ => trivial
  rintro _ ⟨⟩
  exact declares

/-- A call every backend answers. -/
theorem required_declared {call : BackendCall} (required : call.capability? = none) :
    Action.Declared capabilities (Action.backend call) past :=
  backend_declared fun _ gated => nomatch required.symm.trans gated

theorem declared_bind {α β : Type} {operation : Operation α} {rest : α → Operation β}
    (first : Operation.Declared capabilities operation past)
    (second : ∀ later value, Operation.Declared capabilities (rest value) later) :
    Operation.Declared capabilities (operation >>= rest) past :=
  .bind first fun later value _ _ => second later value

theorem action_declared_bind {α β : Type} {action : Action α} {rest : α → Action β}
    (first : Action.Declared capabilities action past)
    (second : ∀ later value, Action.Declared capabilities (rest value) later) :
    Action.Declared capabilities (action >>= rest) past :=
  .bind first fun later value _ _ => second later value

theorem audited_declared {α : Type} {name : String} {context : Context}
    {respond : α → Response} {body : Operation α}
    (declared : Operation.Declared capabilities body past) :
    Action.Declared capabilities (respond <$> audited name context body) past :=
  .map (Action.keeps_audited (fun _ _ _ => nofun) (fun _ _ _ _ => trivial) declared)

theorem read_declared (partition memoryId : String) :
    Action.Declared capabilities (Policy.read partition memoryId) past := by
  refine .check fun _ _ => ?_
  refine action_declared_bind (required_declared rfl).mapError fun later found => ?_
  cases found with
  | none => exact .throw _
  | some memory => exact .lift fun _ _ => trivial

theorem checkAdded_declared (partition : String) (items : List AddResult) :
    Operation.Declared capabilities (Policy.checkAdded partition items) past := by
  induction items generalizing past with
  | nil => exact .pure trivial
  | cons head tail induction =>
      unfold Policy.checkAdded
      split
      case isTrue => exact induction
      case isFalse =>
        exact declared_bind (.action (required_declared rfl)) fun _ _ =>
          .check fun _ _ => induction

theorem listAllFrom_declared (declares : "list" ∈ capabilities) (partition : String)
    (limit : Nat) (memories : List Memory) (incomplete : Bool) (cursor : Option String) :
    Action.Declared capabilities
      (listAllFrom partition limit memories incomplete cursor) past := by
  induction left : limit + 1 - memories.length using Nat.strong_induction_on
    generalizing memories incomplete cursor past with
  | _ turns induction =>
    rw [listAllFrom_eq]
    have listed : ∀ count, Action.Declared capabilities (Action.backend
        (.listMemories partition none count cursor)) past := by
      refine fun count => backend_declared ?_
      rintro _ ⟨⟩
      exact declares
    refine action_declared_bind (listed _) fun later page => ?_
    split
    case isFalse => exact .throw _
    case isTrue =>
      split
      case isTrue => exact .pure trivial
      case isFalse unfinished =>
        simp only [not_or, List.length_append] at unfinished
        have added := List.length_pos_iff.mpr unfinished.2.1
        refine induction _ ?_ _ _ _ rfl
        simp only [List.length_append]
        omega

/-! Imports. -/

theorem attempt_declared {α : Type} {action : Action α}
    (declared : Action.Declared capabilities action past) :
    Action.Declared capabilities action.attempt past :=
  (Action.keeps_attempt declared).mono fun _ _ _ _ => trivial

theorem importReadBack_declared (options : ImportOptions) (index : Nat)
    (identity : DedupKey) (items : List AddResult) (state : ImportState) :
    Action.Declared capabilities (importReadBack options index identity items state)
      past := by
  induction items generalizing past state with
  | nil => exact .pure trivial
  | cons head tail induction =>
      refine action_declared_bind (attempt_declared (required_declared rfl))
        fun later result => ?_
      cases result with
      | error status => exact induction _
      | ok stored => exact .check fun _ _ => induction _

theorem importEntry_declared {options : ImportOptions}
    (overwrites : options.onConflict = .overwrite → "update" ∈ capabilities)
    (index : Nat) (entry : Dict String Json) (state : ImportState) :
    Action.Declared capabilities
      (importEntry policy.unicode options index entry state) past := by
  have creates : ∀ item identity, Action.Declared capabilities
      (importCreate options index item identity state) past := by
    refine fun item identity => action_declared_bind
      (attempt_declared (required_declared rfl)) fun later result => ?_
    cases result with
    | error status => exact .pure trivial
    | ok result =>
        rcases result with item | (_ | ⟨head, tail⟩)
        · exact importReadBack_declared _ _ _ _ _
        · exact .pure trivial
        · exact importReadBack_declared _ _ _ _ _
  unfold importEntry
  split
  · exact .pure trivial
  · exact .throw _
  case h_3 item read =>
    simp only
    split
    case h_1 => exact .pure trivial
    case h_2 dup found overwrite =>
      refine action_declared_bind (attempt_declared (backend_declared ?_))
        fun later result => ?_
      · rintro _ ⟨⟩
        exact overwrites overwrite
      cases result with
      | error status => exact .pure trivial
      | ok updated => exact .check fun _ _ => .pure trivial
    case h_3 => exact creates _ _

theorem importEntries_declared {options : ImportOptions}
    (overwrites : options.onConflict = .overwrite → "update" ∈ capabilities)
    (index : Nat) (entries : List (Dict String Json)) (state : ImportState) :
    Action.Declared capabilities
      (importEntries policy.unicode options index entries state) past := by
  induction entries generalizing index past state with
  | nil => exact .pure trivial
  | cons entry entries induction =>
      exact action_declared_bind (importEntry_declared overwrites index entry state)
        fun _ state => induction (index + 1) state

theorem importPayload_declared {options : ImportOptions}
    (declares : "list" ∈ capabilities)
    (overwrites : options.onConflict = .overwrite → "update" ∈ capabilities)
    (entries : List (Dict String Json)) (limit : Nat) :
    Action.Declared capabilities
      (importPayload policy.unicode options entries limit) past := by
  have conflict : Action.Declared capabilities (refuseOnConflict options.onConflict)
      past := by
    unfold refuseOnConflict
    split
    · refine action_declared_bind (required_declared rfl) fun later declared => ?_
      split
      · exact .throw _
      · exact .pure trivial
    · exact .pure trivial
  have goes : ∀ later state, Action.Declared capabilities (do
      let state ← importEntries policy.unicode options 0 entries state
      return state.outcome) later := fun _ state =>
    action_declared_bind (importEntries_declared overwrites 0 entries state)
      fun _ _ => .pure trivial
  refine action_declared_bind conflict fun later _ => ?_
  simp only
  split
  · exact goes _ _
  · exact action_declared_bind (action_declared_bind
      (listAllFrom_declared declares _ _ _ _ _) fun _ _ => .pure trivial)
      fun _ _ => goes _ _

end Declared

/-- An import that may overwrite runs on a backend that declares `update`. -/
theorem checkImportArguments_overwrite {policy : Policy}
    {entries : List (Dict String Json)} {onConflict : String}
    (checked : policy.checkImportArguments entries onConflict = .ok .overwrite) :
    "update" ∈ policy.capabilities := by
  unfold Policy.checkImportArguments at checked
  simp only [bind, Except.bind, pure, Except.pure] at checked
  split at checked
  · cases checked
  · split at checked
    · cases checked
    · split at checked
      · cases checked
      · by_contra absent
        split at checked
        · cases checked
        · rename_i able
          cases checked
          exact able ⟨rfl, absent⟩

/-- Whatever the backend answers, a registered tool calls nothing it doesn't declare. -/
theorem perform_declared {policy : Policy} {key : Key} {request : Request}
    {past : Trace effects}
    (registered : request.tool ∈ registerTools policy.capabilities) :
    Action.Declared policy.capabilities (policy.perform (some key) request) past := by
  have declares := registered_iff.mp registered
  have gated : ∀ {call : BackendCall} {past}, call.capability? = request.capability? →
      Action.Declared policy.capabilities (Action.backend call) past :=
    fun same => backend_declared fun capability needs =>
      declares capability (same.symm.trans needs)
  cases request with
  | add content scope metadata infer =>
      exact audited_declared <| .check fun _ _ => .check fun _ _ => .check fun _ _ =>
        .recording <| declared_bind (.action (required_declared rfl)) fun _ _ =>
        .recording <| declared_bind (checkAdded_declared _ _) fun _ _ => .pure trivial
  | search query scope limit threshold =>
      exact audited_declared <| .check fun _ _ => .check fun _ _ => .check fun _ _ =>
        .recording <| declared_bind (.action (required_declared rfl)) fun _ _ =>
        .check fun _ _ => .recording <| .pure trivial
  | get memoryId =>
      exact audited_declared <| .recording <| .check fun _ _ =>
        .action (read_declared _ _)
  | update memoryId content metadata =>
      exact audited_declared <| .recording <| .check fun _ _ => .check fun _ _ =>
        declared_bind (.action (read_declared _ _)) fun _ _ => .check fun _ _ =>
        declared_bind (.action (gated rfl).mapError) fun _ _ => .lift fun _ _ => trivial
  | delete memoryId =>
      exact audited_declared <| .recording <| .check fun _ _ =>
        declared_bind (.action (read_declared _ _)) fun _ _ =>
        .action (required_declared rfl).mapError
  | deleteAll scope =>
      refine audited_declared <| .check fun _ _ => .check fun cleaned _ => .recording ?_
      split
      · exact .throw _
      · exact declared_bind (.action (required_declared rfl)) fun _ _ =>
          .recording <| .pure trivial
  | listMemories scope limit cursor =>
      exact audited_declared <| .check fun _ _ => .check fun _ _ => .check fun _ _ =>
        .recording <| declared_bind (.action (gated rfl).mapError) fun _ _ =>
        .check fun _ _ => .recording <| .pure trivial
  | history memoryId =>
      exact audited_declared <| .recording <| .check fun _ _ =>
        declared_bind (.action (read_declared _ _)) fun _ _ =>
        .action (gated rfl).mapError
  | entities scope limit =>
      exact audited_declared <| .check fun _ _ => .check fun _ _ => .check fun _ _ =>
        .recording <| declared_bind (.action (gated rfl)) fun _ _ =>
        .recording <| .pure trivial
  | exportMemories =>
      have listed := declares "list" rfl
      exact audited_declared <| .check fun _ _ => declared_bind
        (.action (action_declared_bind (listAllFrom_declared listed _ _ _ _ _)
          fun _ _ => .pure trivial)) fun _ _ => .recording <| .pure trivial
  | importMemories entries onConflict =>
      have listed := declares "list" rfl
      refine audited_declared <| .check fun _ _ => .check fun mode checked => ?_
      refine declared_bind (.action (importPayload_declared listed ?_ entries maxExport))
        fun _ _ => .recording <| .pure trivial
      rintro rfl
      exact checkImportArguments_overwrite checked

theorem registered_tools_call_declared (policy : Policy) (environment : Environment)
    (key : Key) (request : Request)
    (registered : request.tool ∈ registerTools policy.capabilities) :
    (∀ event ∈ (policy.runAgainst environment key request).1,
      Declared policy.capabilities event.call) ∧
    ∀ tool ∈ statusCapabilities policy.capabilities,
      tool ∈ registerTools policy.capabilities := by
  constructor
  · intro event member
    obtain ⟨before, after, split⟩ := List.append_of_mem member
    exact Safe.guard_of_against (perform_declared registered) environment split
  · intro tool listed
    have member := List.mem_dedup.mp ((List.mem_insertionSort _).mp listed)
    rcases List.mem_cons.mp member with rfl | gated
    · simp [registerTools, Tools.memories]
    · obtain ⟨capability, declared, named⟩ := List.mem_filterMap.mp gated
      unfold toolFor at named
      split at named <;> cases named
      all_goals
        simp [registerTools, Tools.memories, Tools.bulk, Tools.insight, mem_toolsFor,
          declared]

/-- A backend that declares only `list`, asked to import. -/
theorem registered_tools_call_declared_import :
    let policy : Policy := { localPolicy .ascii with capabilities := ["list"] }
    let request : Request := .importMemories
      [Dict.ofList [("content", .str "tea")]] "skip"
    let environment := answering "a" { id := "a", content := "tea", partition := "s" }
    (∀ event ∈ (policy.runAgainst environment ⟨"ann", ⟨"s", .writer⟩⟩ request).1,
      Declared ["list"] event.call) ∧
    ∀ tool ∈ statusCapabilities ["list"], tool ∈ registerTools ["list"] :=
  registered_tools_call_declared _ _ _ _ (by decide)

end Memcp
