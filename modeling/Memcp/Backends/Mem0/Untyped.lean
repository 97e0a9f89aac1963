import Memcp.Backends.Mem0.Adapter
import Memcp.Interaction.Pool

/-!
The methods of the mem0 backend on responses of any shape.  What they return has
the fields of the declared types, each with whatever value the response holds.
-/

namespace Memcp.Mem0

open Python Interaction

structure RawAddResult where
  id : Json
  createdAt : Json
  event : AddEvent

structure RawListResult where
  memories : List RawMemory
  nextCursor : Option String
  incomplete : Bool

structure RawHistoryEntry where
  action : String
  timestamp : Json
  contentBefore : Json
  contentAfter : Json

/-- What a method returns, its fields of any type. -/
@[reducible] def RawResult : BackendCall → Type
  | .add .. => List RawAddResult
  | .search .. => List RawMemory
  | .get .. => Option RawMemory
  | .update .. => RawMemory
  | .delete .. => Bool
  | .deleteAll .. => Option Nat
  | .listMemories .. => RawListResult
  | .history .. => List RawHistoryEntry
  | .entities .. => EntitiesResult
  | .capabilities => List String

namespace Untyped

variable (unicode : Unicode)

/-! Entities. -/

/-- The (type, id) group a memory counts in by a key of its scope. -/
def entityGroup (scope : Dict String Json) (entityType key : String) :
    Option (String × String) :=
  match scope.get? key with
  | some value => if value.truthy then some (entityType, value.text unicode) else none
  | none => none

def entityGroups (scope : Dict String Json) : List (String × String) :=
  [("agent", "agent_id"), ("run", "run_id")].filterMap fun (entityType, key) =>
    entityGroup unicode scope entityType key

/-- The text `datetime.fromisoformat(value or "")` is given, which raises on
anything else. -/
def isoText (value : Json) : Except Exc (Option String) :=
  match orElse value (.str "") with
  | .str text => .ok (some text)
  | _ => .error (.other "TypeError")

def entityRow (timestamps : Timestamps) (groups : Dict (String × String) (List RawMemory))
    (key : String × String) : Except Exc (Dict String Json) := do
  let group := (groups.get? key).getD []
  let created := (earliestAndLatest timestamps
    (← group.mapM fun memory => isoText memory.createdAt)).1
  let updated := (earliestAndLatest timestamps
    (← group.mapM fun memory => isoText (orElse memory.updatedAt memory.createdAt))).2
  return Dict.ofList [
    ("id", .str key.2),
    ("type", .str key.1),
    ("total_memories", .int group.length),
    ("created_at", created.elim .null .str),
    ("updated_at", updated.elim .null .str)]

def entityRows (timestamps : Timestamps) (memories : List RawMemory) :
    Except Exc (List (Dict String Json)) :=
  let groups : Dict (String × String) (List RawMemory) :=
    memories.foldl (fun groups memory =>
      (entityGroups unicode memory.scope).foldl (fun groups key =>
        groups.set key (((groups.get? key).getD []) ++ [memory])) groups) ∅
  let sortedKeys := groups.keys.insertionSort fun left right => toLex left ≤ toLex right
  sortedKeys.mapM (entityRow timestamps groups)

/-! The methods. -/

def addResult (result : Json) : Except Exc (Option RawAddResult) := do
  let fields ← attributes result
  let event := upper ((orElse (getOr fields "event" .null) (.str "ADD")).text unicode)
  if event ∈ noChangeEvents then return none
  match fields.get? "id" with
  | none => throw (.other "KeyError")
  | some id =>
      return some {
        id
        createdAt := getOr fields "created_at" (.str "")
        event := (addEvents.get? event).getD .add }

def addResults (result : Json) : Except Exc (List RawAddResult) :=
  match result.dict? with
  | none => .ok []
  | some fields => do
      let results ← items (orElse (getOr fields "results" .null) (.list []))
      return (← results.mapM (addResult unicode)).filterMap id

def add (partition content : String) (scope metadata : Option (Dict String Json))
    (infer : Bool) (system : Option System) : Http (List RawAddResult) := do
  refusePartition unicode partition
  let payload ← withScope unicode (Dict.ofList [
    ("messages", .list [.obj [("role", .str "user"), ("content", .str content)]]),
    ("user_id", .str partition),
    ("infer", .bool infer)]) scope
  refuseReservedMetadata unicode (metadata.getD ∅).keys
  let stored := storedMetadata metadata system
  let payload :=
    if stored.isEmpty then payload else payload.set "metadata" (Json.ofDict stored)
  let result ← request (.postMemories payload)
  addResults unicode result

def searchResults (result : Json) : Except Exc (List RawMemory) := do
  (← items (rawResults result)).mapM fun raw => do
    let fields ← attributes raw
    parseRaw raw (getOr fields "score" .null)

def search (partition query : String) (scope : Option (Dict String Json))
    (limit : Int) (threshold : ℚ) : Http (List RawMemory) := do
  refusePartition unicode partition
  let filters ← buildSearchFilters unicode partition scope
  let result ← request (.postSearch { query, filters, topK := limit, threshold })
  searchResults result

def ownedMemory (partition : String) (result : Json) : Except Exc (Option RawMemory) :=
  if result = .null then .ok none
  else do
    let fields ← attributes result
    if getOr fields "user_id" .null ≠ .str partition then return none
    return some (← parseRaw result .null)

def get (partition memoryId : String) : Http (Option RawMemory) := do
  refusePartition unicode partition
  let result ← request (.getMemory memoryId)
  ownedMemory partition result

def delete (partition memoryId : String) : Http Bool := do
  refusePartition unicode partition
  match ← get unicode partition memoryId with
  | none => throw notFound
  | some _ =>
      let _ ← request (.deleteMemory memoryId)
      return true

/-- The JSON of a `PUT` for a memory that holds `existing` as metadata. -/
def updateBody (existing : Dict String Json) (content : Option String)
    (patch : Option MetadataPatch) (system : Option System) : Dict String Json :=
  let body := (∅ : Dict String Json).setSome "text" (content.map .str)
  let metadata := sentMetadata existing patch system
  if metadata.isEmpty then body else body.set "metadata" (Json.ofDict metadata)

def update (partition memoryId : String) (content : Option String)
    (patch : Option MetadataPatch) (system : Option System) : Http RawMemory := do
  refusePartition unicode partition
  refuseReservedMetadata unicode (patch.elim [] MetadataPatch.keys)
  match ← get unicode partition memoryId with
  | none => throw (.memoryAPIError 404 "Memory not found")
  | some existing =>
      let body := updateBody existing.metadata content patch system
      if body.isEmpty then return existing
      let _ ← request (.putMemory memoryId body)
      match ← get unicode partition memoryId with
      | none => throw (.memoryAPIError 503 "Update succeeded but read-back failed")
      | some updated => return updated

def listPage (limit : Int) (cursor : Option String) (result : Json) :
    Except Exc RawListResult := do
  let raw ← rawList result
  let atCeiling := listCeiling ≤ (← length raw)
  let memories ← (← items raw).mapM fun raw => parseRaw raw .null
  let start ← cursorStart unicode cursor
  return {
    memories := slice memories start (start + limit)
    nextCursor :=
      if start + limit < memories.length then some (toString (start + limit)) else none
    incomplete := atCeiling }

def listMemories (partition : String) (scope : Option (Dict String Json))
    (limit : Int) (cursor : Option String) : Http RawListResult := do
  refusePartition unicode partition
  let params ← buildIdentifierParams unicode partition scope
  let result ← request (.getMemories (params.set "top_k" (.int listCeiling)))
  listPage unicode limit cursor result

def historyEntry (entry : Json) : Except Exc RawHistoryEntry := do
  let fields ← attributes entry
  match getOr fields "event" (.str "unknown") with
  | .str event =>
      return {
        action := String.ofList (unicode.lower event.toList)
        timestamp := getOr fields "created_at" (.str "")
        contentBefore := getOr fields "old_memory" .null
        contentAfter := getOr fields "new_memory" .null }
  | _ => throw (.other "AttributeError")

def historyEntries (result : Json) : Except Exc (List RawHistoryEntry) := do
  if !result.truthy then return []
  (← items result).mapM (historyEntry unicode)

def history (partition memoryId : String) : Http (List RawHistoryEntry) := do
  refusePartition unicode partition
  match ← get unicode partition memoryId with
  | none => throw notFound
  | some _ =>
      let result ← request (.getHistory memoryId)
      historyEntries unicode result

def entities (timestamps : Timestamps) (partition : String)
    (scope : Option (Dict String Json)) (limit : Int) : Http EntitiesResult := do
  refusePartition unicode partition
  let listed ← listMemories unicode partition scope listCeiling none
  let rows ← entityRows unicode timestamps listed.memories
  return {
    entities := slice rows 0 limit
    incomplete := listed.incomplete }

def method (timestamps : Timestamps) : (call : BackendCall) → Http (RawResult call)
  | .add partition content scope metadata infer system =>
      add unicode partition content scope metadata infer system
  | .search partition query scope limit threshold =>
      search unicode partition query scope limit threshold
  | .get partition memoryId => get unicode partition memoryId
  | .update partition memoryId content patch system =>
      update unicode partition memoryId content patch system
  | .delete partition memoryId => delete unicode partition memoryId
  | .deleteAll partition scope => deleteAll unicode partition scope
  | .listMemories partition scope limit cursor =>
      listMemories unicode partition scope limit cursor
  | .history partition memoryId => history unicode partition memoryId
  | .entities partition scope limit =>
      entities unicode timestamps partition scope limit
  | .capabilities => return mem0Capabilities

end Untyped

end Memcp.Mem0
