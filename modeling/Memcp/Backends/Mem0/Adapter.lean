import Memcp.Backends.Mem0.Client
import Mathlib.Data.Prod.Lex
import Mathlib.Order.Lattice

/-!
The mem0 backend: the calls of the contract as requests to a mem0 server, and
the responses as what the calls return.
-/

namespace Memcp.Mem0

open Python Interaction

/-- The most memories one `GET /memories` returns. -/
def listCeiling : Nat := 1000

def mem0Capabilities : List String := ["update", "list", "history", "entities"]

def mem0ScopeKeys : List String := ["agent_id", "run_id"]

/-- `datetime.fromisoformat`, with a time that names no zone taken as UTC. -/
structure Timestamps where
  Time : Type
  order : LinearOrder Time
  parse : String → Option Time

instance (timestamps : Timestamps) : LinearOrder timestamps.Time := timestamps.order

/-! Reading JSON of any shape. -/

/-- A value that `get` or another attribute is asked of. -/
def attributes (value : Json) : Except Exc (Dict String Json) :=
  match value.dict? with
  | some fields => .ok fields
  | none => .error (.other "AttributeError")

/-- `fields.get(key, default)`. -/
def getOr (fields : Dict String Json) (key : String) (default : Json) : Json :=
  (fields.get? key).getD default

/-- `value or default`. -/
def orElse (value default : Json) : Json :=
  if value.truthy then value else default

/-- The values `for item in value` goes through. -/
def items : Json → Except Exc (List Json)
  | .list items => .ok items
  | .str text => .ok (text.toList.map fun c => .str c.toString)
  | .obj fields => .ok ((Dict.ofList fields).keys.map .str)
  | _ => .error (.other "TypeError")

/-! A value of another type than the declared one is not followed any further:
it ends the call. -/

def undeclared : Exc := .other "undeclared type"

def declaredText : Json → Except Exc String
  | .str text => .ok text
  | _ => .error undeclared

theorem declaredText_eq_ok {value : Json} {text : String} :
    declaredText value = .ok text ↔ value = .str text := by
  cases value <;> simp [declaredText]

def declaredOptional : Json → Except Exc (Option String)
  | .null => .ok none
  | value => some <$> declaredText value

/-- The number a finite decimal stands for. -/
def decimalValue (value : Decimal) : ℚ :=
  (if value.negative then -1 else 1) * value.digits *
    10 ^ (value.point - value.digitChars.length)

def declaredScore : Json → Except Exc (Option ℚ)
  | .null => .ok none
  | .bool value => .ok (some (if value then 1 else 0))
  | .int value => .ok (some value)
  | .float (.finite value) => .ok (some (decimalValue value))
  | _ => .error undeclared

/-! Scopes. -/

/-- Refuse a value mem0 would read as "any". -/
def concrete (value : Json) : Except Exc Json :=
  if isWildcard value then
    .error (.memoryAPIError 400 "scope values must not be empty, '*' or null")
  else .ok value

theorem concrete_eq_ok {value read : Json} :
    concrete value = .ok read ↔ isWildcard value = false ∧ value = read := by
  unfold concrete
  cases isWildcard value <;> simp

variable (unicode : Unicode)

/-- A scope's keys and values minus user_id, which comes from the token. -/
def scopeItems (scope : Dict String Json) : Except Exc (List (String × Json)) := do
  rejectNestedFilters unicode scope
  return scope.entries.filter fun entry => entry.1 ≠ "user_id"

/-- `target` with each item of a scope that is given, its value as text. -/
def withScope (target : Dict String Json) (scope : Option (Dict String Json)) :
    Except Exc (Dict String Json) :=
  match Dict.given scope with
  | none => .ok target
  | some scope => do
      let entries ← scopeItems unicode scope
      entries.foldlM (fun target entry => do
        let value ← concrete entry.2
        return target.set entry.1 (.str (scopeText unicode value))) target

variable {unicode}

theorem foldlM_concrete {entries : List (String × Json)} {target params : Dict String Json} :
    entries.foldlM (fun target entry => do
        let value ← concrete entry.2
        return target.set entry.1 (.str (scopeText unicode value))) target = .ok params ↔
      (∀ entry ∈ entries, isWildcard entry.2 = false) ∧
        (entries.map fun entry =>
          (entry.1, Json.str (scopeText unicode entry.2))).foldl
            (fun target entry => target.set entry.1 entry.2) target = params := by
  induction entries generalizing target with
  | nil => simp [pure, Except.pure]
  | cons entry entries induction =>
      rw [List.foldlM_cons, List.forall_mem_cons, List.map_cons, List.foldl_cons, and_assoc,
        ← induction]
      constructor
      · intro built
        obtain ⟨next, set, built⟩ := bind_eq_ok.mp built
        obtain ⟨value, read, ⟨⟩⟩ := bind_eq_ok.mp set
        obtain ⟨plain, rfl⟩ := concrete_eq_ok.mp read
        exact ⟨plain, built⟩
      · rintro ⟨plain, built⟩
        have read := concrete_eq_ok.mpr ⟨plain, rfl⟩
        exact bind_eq_ok.mpr ⟨_, bind_eq_ok.mpr ⟨_, read, rfl⟩, built⟩

/-- A scope adds its keys and leaves the others alone, `user_id` with them. -/
theorem withScope_get? {target params : Dict String Json}
    {scope : Option (Dict String Json)} {key : String}
    (other : key = "user_id" ∨ key ∉ scope.getD ∅)
    (built : withScope unicode target scope = .ok params) :
    params.get? key = target.get? key := by
  unfold withScope at built
  cases given : Dict.given scope with
  | none =>
      rw [given] at built
      cases built
      rfl
  | some held =>
      rw [given] at built
      obtain ⟨entries, read, built⟩ := bind_eq_ok.mp built
      obtain ⟨-, -, ⟨⟩⟩ := bind_eq_ok.mp read
      obtain ⟨-, rfl⟩ := foldlM_concrete.mp built
      apply Dict.get?_foldl_set_of_not_mem
      simp only [List.map_map, List.mem_map, Function.comp_apply]
      rintro ⟨entry, member, rfl⟩
      obtain ⟨listed, distinct⟩ := List.mem_filter.mp member
      rcases other with user | absent
      · simp [user] at distinct
      · rw [(Dict.given_eq_some_iff.mp given).1] at absent
        exact absent (Dict.mem_iff_exists.mpr ⟨entry.2, listed⟩)

variable (unicode)

def buildSearchFilters (partition : String) (scope : Option (Dict String Json)) :
    Except Exc (Dict String Json) :=
  withScope unicode (Dict.ofList [("user_id", .str partition)]) scope

def buildIdentifierParams (partition : String) (scope : Option (Dict String Json)) :
    Except Exc (Dict String Json) :=
  withScope unicode (Dict.ofList [("user_id", .str partition)]) scope

/-! Memories. -/

/-- The system fields kept under `systemMetadataKey`, and the rest without
`_memcp_` keys and without nulls. -/
def splitSystem (stored : Dict String Json) : System × Dict String Json :=
  let fields : Dict String Json :=
    match stored.get? systemMetadataKey with
    | none | some .null => ∅
    | some raw =>
        -- A malformed value is kept as the space, so that the space check fails.
        match raw.dict? with
        | some fields => fields
        | none => Dict.ofList [("space", raw)]
  (System.ofDict fields,
    (stripReservedMetadata stored).filter fun _ value => value ≠ .null)

/-- A memory as a response describes it, its fields of any type. -/
structure RawMemory where
  id : Json
  content : Json
  score : Json
  scope : Dict String Json
  metadata : Dict String Json
  createdAt : Json
  updatedAt : Json
  partition : Json
  system : System

def parseRaw (raw score : Json) : Except Exc RawMemory := do
  let fields ← attributes raw
  let stored ← attributes (orElse (getOr fields "metadata" .null) (.obj []))
  let (system, metadata) := splitSystem stored
  return {
    id := getOr fields "id" (.str "")
    content := getOr fields "memory" (getOr fields "text" (.str ""))
    score := if score ≠ .null then score else getOr fields "score" .null
    scope := fields.filter fun key value =>
      key ∈ ["agent_id", "run_id"] && value ≠ .null
    metadata
    createdAt := getOr fields "created_at" (.str "")
    updatedAt := getOr fields "updated_at" .null
    partition := orElse (getOr fields "user_id" .null) (.str "")
    system }

def RawMemory.declared (raw : RawMemory) : Except Exc Memory := do
  return {
    id := ← declaredText raw.id
    content := ← declaredText raw.content
    score := ← declaredScore raw.score
    scope := raw.scope
    metadata := raw.metadata
    createdAt := ← declaredText raw.createdAt
    updatedAt := ← declaredOptional raw.updatedAt
    partition := ← declaredText raw.partition
    system := raw.system }

/-- The fields of `raw` are of the declared types, with the values of `memory`. -/
structure RawMemory.Tells (raw : RawMemory) (memory : Memory) : Prop where
  id : raw.id = .str memory.id
  content : raw.content = .str memory.content
  score : declaredScore raw.score = .ok memory.score
  scope : raw.scope = memory.scope
  metadata : raw.metadata = memory.metadata
  createdAt : raw.createdAt = .str memory.createdAt
  updatedAt : declaredOptional raw.updatedAt = .ok memory.updatedAt
  partition : raw.partition = .str memory.partition
  system : raw.system = memory.system

theorem RawMemory.tells {raw : RawMemory} {memory : Memory}
    (declared : raw.declared = .ok memory) : raw.Tells memory := by
  obtain ⟨id, readId, declared⟩ := bind_eq_ok.mp declared
  obtain ⟨content, readContent, declared⟩ := bind_eq_ok.mp declared
  obtain ⟨score, readScore, declared⟩ := bind_eq_ok.mp declared
  obtain ⟨createdAt, readCreatedAt, declared⟩ := bind_eq_ok.mp declared
  obtain ⟨updatedAt, readUpdatedAt, declared⟩ := bind_eq_ok.mp declared
  obtain ⟨partition, readPartition, same⟩ := bind_eq_ok.mp declared
  cases same
  exact {
    id := declaredText_eq_ok.mp readId
    content := declaredText_eq_ok.mp readContent
    score := readScore
    scope := rfl
    metadata := rfl
    createdAt := declaredText_eq_ok.mp readCreatedAt
    updatedAt := readUpdatedAt
    partition := declaredText_eq_ok.mp readPartition
    system := rfl }

/-- `_parse_memory(raw, score=score)`, where the score given may be `None`. -/
def parseMemory (raw score : Json) : Except Exc Memory := do
  (← parseRaw raw score).declared

/-! Entities. -/

/-- The earliest and latest of some timestamps, skipping missing or invalid
ones. -/
def earliestAndLatest (timestamps : Timestamps) (values : List (Option String)) :
    Option String × Option String :=
  let dated : List (timestamps.Time ×ₗ String) := values.filterMap fun value =>
    (timestamps.parse (value.getD "")).map fun time => toLex (time, value.getD "")
  (dated.min?.map fun first => (ofLex first).2,
    dated.max?.map fun last => (ofLex last).2)

/-- The (type, id) groups a memory counts in. -/
def entityGroups (memory : Memory) : List (String × String) :=
  [("agent", "agent_id"), ("run", "run_id")].filterMap fun (entityType, key) =>
    match memory.scope.get? key with
    | some value =>
        if value.truthy then some (entityType, value.text unicode) else none
    | none => none

/-- Count memories per agent and run, in mem0's entity row shape. -/
def entityRows (timestamps : Timestamps) (memories : List Memory) :
    List (Dict String Json) :=
  let groups : Dict (String × String) (List Memory) :=
    memories.foldl (fun groups memory =>
      (entityGroups unicode memory).foldl (fun groups key =>
        groups.set key (((groups.get? key).getD []) ++ [memory])) groups) ∅
  let sortedKeys := groups.keys.insertionSort fun left right => toLex left ≤ toLex right
  sortedKeys.map fun (entityType, entityId) =>
    let group := (groups.get? (entityType, entityId)).getD []
    let created := (earliestAndLatest timestamps
      (group.map fun memory => some memory.createdAt)).1
    let updated := (earliestAndLatest timestamps
      (group.map fun memory =>
        match memory.updatedAt with
        | none | some "" => some memory.createdAt
        | some text => some text)).2
    Dict.ofList [
      ("id", .str entityId),
      ("type", .str entityType),
      ("total_memories", .int group.length),
      ("created_at", created.elim .null .str),
      ("updated_at", updated.elim .null .str)]

/-! The methods. -/

/-- `refuse_partition(self, partition)`. -/
def refusePartition (partition : String) : Except Exc Unit :=
  if partition = "" ∨ partition = "*" ∨ partition ≠ strip partition then
    .error (.memoryAPIError 400
      ("mem0 can't match the partition " ++ repr unicode partition ++ " exactly"))
  else .ok ()

/-- `str.upper` as far as it matters here: no character outside ASCII has an
upper case that is part of an event's name. -/
def upper (text : String) : String := String.ofList (text.toList.map Char.toUpper)

def addEvents : Dict String AddEvent :=
  Dict.ofList [("ADD", .add), ("UPDATE", .update), ("DELETE", .delete)]

def noChangeEvents : List String := ["NONE", "NOOP"]

/-- An item of `results`, unless it reports no change. -/
def addResult (result : Json) : Except Exc (Option AddResult) := do
  let fields ← attributes result
  let event := upper ((orElse (getOr fields "event" .null) (.str "ADD")).text unicode)
  if event ∈ noChangeEvents then return none
  match fields.get? "id" with
  | none => throw (.other "KeyError")
  | some id =>
      return some {
        id := ← declaredText id
        createdAt := ← declaredText (getOr fields "created_at" (.str ""))
        -- An unknown event is kept as an add, so policy fetches and space-checks it.
        event := (addEvents.get? event).getD .add }

def addResults (result : Json) : Except Exc (List AddResult) :=
  match result.dict? with
  | none => .ok []
  | some fields => do
      let results ← items (orElse (getOr fields "results" .null) (.list []))
      return (← results.mapM (addResult unicode)).filterMap id

/-- The metadata an add stores: the client's, and the system fields if any. -/
def storedMetadata (metadata : Option (Dict String Json)) (system : Option System) :
    Dict String Json :=
  let stored := metadata.getD ∅
  match Dict.given (system.map System.toDict) with
  | none => stored
  | some system => stored.set systemMetadataKey (Json.ofDict system)

def add (partition content : String) (scope metadata : Option (Dict String Json))
    (infer : Bool) (system : Option System) : Http AddReturn := do
  refusePartition unicode partition
  let payload ← withScope unicode (Dict.ofList [
    ("messages", .list [.obj [("role", .str "user"), ("content", .str content)]]),
    ("user_id", .str partition),
    ("infer", .bool infer)]) scope
  refuseReservedMetadata unicode (metadata.getD ∅).keys
  let stored := storedMetadata metadata system
  let payload :=
    if stored.isEmpty then payload else payload.set "metadata" (Json.ofDict stored)
  let result ← request (.postMemories payload)
  return .many (← addResults unicode result)

/-- `raw_results` of a search. -/
def rawResults (result : Json) : Json :=
  match result.dict? with
  | none => .list []
  | some fields => getOr fields "results" (.list [])

def searchResults (result : Json) : Except Exc (List Memory) := do
  (← items (rawResults result)).mapM fun raw => do
    let fields ← attributes raw
    parseMemory raw (getOr fields "score" .null)

def search (partition query : String) (scope : Option (Dict String Json))
    (limit : Int) (threshold : ℚ) : Http (List Memory) := do
  refusePartition unicode partition
  let filters ← buildSearchFilters unicode partition scope
  let result ← request (.postSearch { query, filters, topK := limit, threshold })
  searchResults result

/-- The memory in the response of a get, when it is of the partition. -/
def ownedMemory (partition : String) (result : Json) : Except Exc (Option Memory) :=
  if result = .null then .ok none
  else do
    let fields ← attributes result
    if getOr fields "user_id" .null ≠ .str partition then return none
    return some (← parseMemory result .null)

def get (partition memoryId : String) : Http (Option Memory) := do
  refusePartition unicode partition
  let result ← request (.getMemory memoryId)
  ownedMemory partition result

def delete (partition memoryId : String) : Http Bool := do
  refusePartition unicode partition
  -- mem0 DELETE is global, so check ownership first.
  let existing ← get unicode partition memoryId
  match existing with
  | none => throw notFound
  | some _ =>
      let _ ← request (.deleteMemory memoryId)
      return true

/-- Whether `delete_all` takes a scope value. -/
def isIdentifier : Json → Bool
  | .str _ | .int _ | .float _ | .bool _ => true
  | .null | .list _ | .obj _ => false

def deleteAll (partition : String) (scope : Dict String Json) : Http (Option Nat) := do
  refusePartition unicode partition
  if scope.entries.any fun entry =>
      entry.1 ∉ mem0ScopeKeys || !isIdentifier entry.2 then
    throw (.memoryAPIError 400 ("delete_all scope keys must be among " ++
      reprList unicode mem0ScopeKeys ++ ", each with one string or number value"))
  let params ← buildIdentifierParams unicode partition (some scope)
  let _ ← request (.deleteMemories params)
  return none

/-- The metadata a `PUT` sends: mem0 merges it and can't delete a key, so a
removed key is sent as null, and only when it is stored. -/
def sentMetadata (existing : Dict String Json) (patch : Option MetadataPatch)
    (system : Option System) : Dict String Json :=
  let metadata := match patch with
    | none => ∅
    | some patch => (patch.remove.filter fun key => key ∈ existing).foldl
        (fun metadata key => metadata.set key .null) patch.set
  match system with
  | none => metadata
  | some system => metadata.set systemMetadataKey (Json.ofDict system.toDict)

/-- The JSON of a `PUT`, empty when there is nothing to change. -/
def updateBody (existing : Memory) (content : Option String)
    (patch : Option MetadataPatch) (system : Option System) : Dict String Json :=
  let body := (∅ : Dict String Json).setSome "text" (content.map .str)
  let metadata := sentMetadata existing.metadata patch system
  if metadata.isEmpty then body else body.set "metadata" (Json.ofDict metadata)

def update (partition memoryId : String) (content : Option String)
    (patch : Option MetadataPatch) (system : Option System) : Http Memory := do
  refusePartition unicode partition
  refuseReservedMetadata unicode (patch.elim [] MetadataPatch.keys)
  let existing ← get unicode partition memoryId
  match existing with
  | none => throw (.memoryAPIError 404 "Memory not found")
  | some existing =>
      let body := updateBody existing content patch system
      if body.isEmpty then return existing
      let _ ← request (.putMemory memoryId body)
      let updated ← get unicode partition memoryId
      match updated with
      | none => throw (.memoryAPIError 503 "Update succeeded but read-back failed")
      | some updated => return updated

/-- `len(value)`. -/
def length : Json → Except Exc Nat
  | .list items => .ok items.length
  | .str text => .ok text.length
  | .obj fields => .ok (Dict.ofList fields).keys.length
  | _ => .error (.other "TypeError")

/-- `raw` of a list. -/
def rawList : Json → Except Exc Json
  | .list items => .ok (.list items)
  | result => do
      let fields ← attributes (orElse result (.obj []))
      return getOr fields "results" (.list [])

def listPage (limit : Int) (cursor : Option String) (result : Json) :
    Except Exc ListResult := do
  let raw ← rawList result
  -- A full response can't tell the ceiling from more, so it counts as incomplete.
  let atCeiling := listCeiling ≤ (← length raw)
  let memories ← (← items raw).mapM fun raw => parseMemory raw .null
  let page ← paginate unicode memories cursor limit
  return { page with incomplete := atCeiling }

def listMemories (partition : String) (scope : Option (Dict String Json))
    (limit : Int) (cursor : Option String) : Http ListResult := do
  refusePartition unicode partition
  let params ← buildIdentifierParams unicode partition scope
  let result ← request (.getMemories (params.set "top_k" (.int listCeiling)))
  listPage unicode limit cursor result

def historyEntry (entry : Json) : Except Exc HistoryEntry := do
  let fields ← attributes entry
  match getOr fields "event" (.str "unknown") with
  | .str event =>
      return {
        action := String.ofList (unicode.lower event.toList)
        timestamp := ← declaredText (getOr fields "created_at" (.str ""))
        contentBefore := ← declaredOptional (getOr fields "old_memory" .null)
        contentAfter := ← declaredOptional (getOr fields "new_memory" .null)
        author := none }
  | _ => throw (.other "AttributeError")

def historyEntries (result : Json) : Except Exc (List HistoryEntry) := do
  if !result.truthy then return []
  (← items result).mapM (historyEntry unicode)

def history (partition memoryId : String) : Http (List HistoryEntry) := do
  refusePartition unicode partition
  -- mem0's history endpoint is global too.
  let existing ← get unicode partition memoryId
  match existing with
  | none => throw notFound
  | some _ =>
      let result ← request (.getHistory memoryId)
      historyEntries unicode result

/-- Not mem0's `GET /entities`, which counts every tenant's values together. -/
def entities (timestamps : Timestamps) (partition : String)
    (scope : Option (Dict String Json)) (limit : Int) : Http EntitiesResult := do
  refusePartition unicode partition
  let listed ← listMemories unicode partition scope listCeiling none
  return {
    entities := slice (entityRows unicode timestamps listed.memories) 0 limit
    incomplete := listed.incomplete }

def method (timestamps : Timestamps) : (call : BackendCall) → Http call.Result
  | .add partition content scope metadata infer system =>
      add unicode partition content scope metadata infer system
  | .search partition query scope limit threshold =>
      search unicode partition query scope limit threshold
  | .get partition memoryId => get unicode partition memoryId
  | .update partition memoryId content patch system =>
      update unicode partition memoryId content patch system
  | .delete partition memoryId => delete unicode partition memoryId
  | .deleteAll partition scope => deleteAll unicode partition scope
  | .listMemories partition scope limit cursor =>
      listMemories unicode partition scope limit cursor
  | .history partition memoryId => history unicode partition memoryId
  | .entities partition scope limit =>
      entities unicode timestamps partition scope limit
  | .capabilities => return mem0Capabilities

end Memcp.Mem0
