import Memcp.Policy.Transfer

/-!
The policy layer: every decision about what is accepted and returned.  Each
data operation checks the current key's relation, validates its arguments,
calls the backend in the key's space and checks what comes back.
-/

namespace Memcp

open Python Interaction

/-- What a policy object holds: the tables of the running Python, and what its
backend declared when the object was built. -/
structure Policy where
  unicode : Unicode
  capabilities : List String
  scopeKeys : List String

/-- Whether a returned value is the requested one, compared as stored text. -/
def matchesText (unicode : Unicode) (stored requested : Json) : Bool :=
  scopeText unicode stored = scopeText unicode requested

def scopeHolds (unicode : Unicode) (stored requested : Dict String Json) : Bool :=
  requested.entries.all fun entry =>
    match stored.get? entry.1 with
    | some value => matchesText unicode value entry.2
    | none => false

/-- Drop any memory a backend returned outside the requested scope. -/
def inScope (unicode : Unicode) (memories : List Memory)
    (scope : Option (Dict String Json)) : List Memory :=
  match scope with
  | none => memories
  | some scope => memories.filter fun memory =>
      scopeHolds unicode memory.scope scope

/-- The id to audit, if it is a valid id. -/
def recordable (memoryId : String) : Option (List String) :=
  if validMemoryId memoryId then some [memoryId] else none

namespace Policy

variable (policy : Policy) (context : Context)

/-- Fetch and space-check each memory an add reported. -/
def checkAdded (partition : String) : List AddResult → Operation Unit
  | [] => return ()
  | item :: items => do
      if item.event = .delete then
        -- The store removed it; nothing is left to check.
        checkAdded partition items
      else
        let stored ← Action.backend (.get partition item.id)
        let _ ← checkSpace stored partition
        checkAdded partition items

def checkAddArguments (content : String) (metadata : Option (Dict String Json)) :
    Except Exc Unit := do
  validateContent content
  match metadata with
  | none => pure ()
  | some metadata =>
      validateMetadata policy.unicode metadata false
      checkMetadataSize metadata none

def add (content : String) (scope : Json) (metadata : Option (Dict String Json))
    (infer : Bool) : Action AddReturn :=
  audited "add" context do
    let key ← require context .writer
    let partition := key.grant.space
    validation (policy.checkAddArguments content metadata)
    let scope ← validateScope policy.unicode scope policy.scopeKeys
    Operation.record fun entry => { entry with scope := scope }
    let result ← Action.backend (.add partition content scope metadata infer
      (some (systemFor partition key.name (some key.name))))
    Operation.record fun entry =>
      { entry with ids := some (result.items.map AddResult.id) }
    checkAdded partition result.items
    return result

def checkSearchArguments (query : String) (limit : Int) (threshold : ℚ) :
    Except Exc Unit := do
  validateQuery query
  validateLimit limit
  if ¬ (0 ≤ threshold ∧ threshold ≤ 1) then
    throw (.valueError "threshold must be between 0.0 and 1.0")

def search (query : String) (scope : Json) (limit : Int) (threshold : ℚ) :
    Action (List Memory) :=
  audited "search" context do
    let key ← require context .reader
    let partition := key.grant.space
    validation (checkSearchArguments query limit threshold)
    let scope ← validateScope policy.unicode scope policy.scopeKeys
    Operation.record fun entry => { entry with scope := scope }
    let found ← Action.backend (.search partition query scope limit threshold)
    let checked ← checkSpaces found partition
    let kept := inScope policy.unicode checked scope
    Operation.record fun entry => { entry with count := some kept.length }
    return kept

def read (partition memoryId : String) : Action Memory := do
  let _ ← validation (validateMemoryId memoryId)
  let result ← (Action.backend (.get partition memoryId)).mapError asNotFound
  match result with
  | none => throw (.policyError .notFound notFoundMsg)
  | some memory => checkSpace (some memory) partition

def get (memoryId : String) : Action Memory :=
  audited "get" context do
    Operation.record fun entry => { entry with ids := recordable memoryId }
    let key ← require context .reader
    read key.grant.space memoryId

def checkUpdateArguments (content : Option String)
    (metadata : Option (Dict String Json)) : Except Exc Unit := do
  if content = none ∧ Dict.given metadata = none then
    throw (.valueError "update_memory needs content, or metadata to change")
  match content with
  | none => pure ()
  | some content => validateContent content
  match Dict.given metadata with
  | none => pure ()
  | some metadata => validateMetadata policy.unicode metadata true

def checkPatchSize (existing : Memory) (patch : Option MetadataPatch) :
    Except Exc Unit :=
  match patch with
  | none => .ok ()
  | some patch =>
      checkMetadataSize (patched existing.metadata patch) (some existing.metadata)

def update (memoryId : String) (content : Option String)
    (metadata : Option (Dict String Json)) : Action Memory :=
  audited "update" context do
    Operation.record fun entry => { entry with ids := recordable memoryId }
    let key ← require context .writer
    let partition := key.grant.space
    validation (policy.checkUpdateArguments content metadata)
    let existing ← read partition memoryId
    let patch := (Dict.given metadata).map asPatch
    -- Checked against the read above, not inside the write.
    validation (checkPatchSize existing patch)
    let system := systemFor partition key.name existing.system.createdBy
    let updated ← (Action.backend
      (.update partition memoryId content patch (some system))).mapError asNotFound
    checkSpace (some updated) partition

def delete (memoryId : String) : Action Bool :=
  audited "delete" context do
    Operation.record fun entry => { entry with ids := recordable memoryId }
    let key ← require context .writer
    let partition := key.grant.space
    let _ ← read partition memoryId
    (Action.backend (.delete partition memoryId)).mapError asNotFound

def deleteAll (scope : Json) : Action (Option Nat) :=
  audited "delete_all" context do
    let key ← require context .writer
    let partition := key.grant.space
    let cleaned ← validateScope policy.unicode scope policy.scopeKeys
    Operation.record fun entry => { entry with scope := cleaned }
    match Dict.given cleaned with
    | none => throw (.policyError .scopeRequired
        "delete_all_memories requires at least one scope key.")
    | some cleaned =>
        let count ← Action.backend (.deleteAll partition cleaned)
        Operation.record fun entry => { entry with count := count }
        return count

def listMemories (scope : Json) (limit : Int) (cursor : Option String) :
    Action ListResult :=
  audited "list_memories" context do
    let key ← require context .reader
    let partition := key.grant.space
    validation (validateLimit limit)
    let scope ← validateScope policy.unicode scope policy.scopeKeys
    Operation.record fun entry => { entry with scope := scope }
    -- A backend raises ValueError for a cursor it can't read.
    let page ← (Action.backend
      (.listMemories partition scope limit cursor)).mapError asValidationError
    let checked ← checkSpaces page.memories partition
    let kept := inScope policy.unicode checked scope
    Operation.record fun entry => { entry with count := some kept.length }
    return { page with memories := kept }

def history (memoryId : String) : Action (List HistoryEntry) :=
  audited "history" context do
    Operation.record fun entry => { entry with ids := recordable memoryId }
    let key ← require context .reader
    let partition := key.grant.space
    let _ ← read partition memoryId
    (Action.backend (.history partition memoryId)).mapError asNotFound

def entities (scope : Json) (limit : Int) : Action EntitiesResult :=
  audited "entities" context do
    let key ← require context .reader
    let partition := key.grant.space
    validation (validateLimit limit)
    let scope ← validateScope policy.unicode scope policy.scopeKeys
    Operation.record fun entry => { entry with scope := scope }
    let result ← Action.backend (.entities partition scope limit)
    Operation.record fun entry => { entry with count := some result.entities.length }
    return result

def exportMemories : Action ExportPayload :=
  audited "export_memories" context do
    let key ← require context .reader
    let payload ← exportPayload key.grant.space maxExport
    Operation.record fun entry => { entry with count := some payload.count }
    return payload

/-- The system fields an import writes: the acting key as author, and as
creator of a memory it creates. -/
def stamp (partition : String) (key : Key) (stored : Option System) : System :=
  systemFor partition key.name (match stored with
    | none => some key.name
    | some stored => stored.createdBy)

/-- `validate_scope` with a refusal as the `ValueError` import lists. -/
def validateEntryScope (scope : Json) : Except Exc (Option (Dict String Json)) :=
  match validateScope policy.unicode scope policy.scopeKeys with
  | .error (.policyError _ message) => .error (.valueError message)
  | outcome => outcome

def importOptions (key : Key) (onConflict : OnConflict) : ImportOptions where
  userId := key.grant.space
  onConflict := onConflict
  scopeValidator := some policy.validateEntryScope
  stamp := some fun _ stored => stamp key.grant.space key stored

def checkImportArguments (memories : List (Dict String Json))
    (onConflict : String) : Except Exc OnConflict := do
  if memories.isEmpty then
    throw (.policyError .validationError "memories array must not be empty")
  if maxImport < memories.length then
    throw (.policyError .validationError
      ("Too many memories to import (limit " ++ toString maxImport ++ ")"))
  match OnConflict.ofText onConflict with
  | none => throw (.policyError .validationError
      "on_conflict must be 'skip', 'overwrite', or 'duplicate'")
  | some onConflict =>
      if onConflict = .overwrite ∧ "update" ∉ policy.capabilities then
        throw (.policyError .notSupported
          "on_conflict='overwrite' requires the backend's update capability")
      return onConflict

def importMemories (memories : List (Dict String Json)) (onConflict : String) :
    Action ImportOutcome :=
  audited "import_memories" context do
    let key ← require context .writer
    let onConflict ← policy.checkImportArguments memories onConflict
    let outcome ← importPayload policy.unicode (policy.importOptions key onConflict)
      memories maxExport
    Operation.record fun entry => { entry with count := some outcome.imported.length }
    return outcome

end Policy

/-! Every data operation as one type. -/

inductive Request where
  | add (content : String) (scope : Json) (metadata : Option (Dict String Json))
      (infer : Bool)
  | search (query : String) (scope : Json) (limit : Int) (threshold : ℚ)
  | get (memoryId : String)
  | update (memoryId : String) (content : Option String)
      (metadata : Option (Dict String Json))
  | delete (memoryId : String)
  | deleteAll (scope : Json)
  | listMemories (scope : Json) (limit : Int) (cursor : Option String)
  | history (memoryId : String)
  | entities (scope : Json) (limit : Int)
  | exportMemories
  | importMemories (memories : List (Dict String Json)) (onConflict : String)

inductive Response where
  | added (result : AddReturn)
  | found (memories : List Memory)
  | memory (memory : Memory)
  | deleted (result : Bool)
  | count (count : Option Nat)
  | page (page : ListResult)
  | history (entries : List HistoryEntry)
  | entities (result : EntitiesResult)
  | exported (payload : ExportPayload)
  | imported (outcome : ImportOutcome)
  deriving DecidableEq

namespace Policy

def perform (policy : Policy) (context : Context) : Request → Action Response
  | .add content scope metadata infer =>
      Response.added <$> policy.add context content scope metadata infer
  | .search query scope limit threshold =>
      Response.found <$> policy.search context query scope limit threshold
  | .get memoryId => Response.memory <$> get context memoryId
  | .update memoryId content metadata =>
      Response.memory <$> policy.update context memoryId content metadata
  | .delete memoryId => Response.deleted <$> delete context memoryId
  | .deleteAll scope => Response.count <$> policy.deleteAll context scope
  | .listMemories scope limit cursor =>
      Response.page <$> policy.listMemories context scope limit cursor
  | .history memoryId => Response.history <$> history context memoryId
  | .entities scope limit =>
      Response.entities <$> policy.entities context scope limit
  | .exportMemories => Response.exported <$> exportMemories context
  | .importMemories memories onConflict =>
      Response.imported <$> policy.importMemories context memories onConflict

end Policy

end Memcp
