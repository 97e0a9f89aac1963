import Memcp.Policy.Metadata
import Memcp.Policy.Scope

/-!
Export and import.  Both read a space page by page; an import stores its
entries one by one, deduplicated on content and scope, and reports each.
-/

namespace Memcp

open Python Interaction

/-! The identity that decides whether an imported memory already exists. -/

abbrev ScopeKey := List (String × String)

abbrev DedupKey := String × ScopeKey

/-- The order `sorted` gives to pairs of strings. -/
def pairLe (left right : String × String) : Bool :=
  left.1 < right.1 || (left.1 = right.1 && left.2 ≤ right.2)

/-- Order-independent scope identity, values as stored text; a null value is
absent. -/
def scopeKey (unicode : Unicode) (scope : Option (Dict String Json)) : ScopeKey :=
  match scope with
  | none => []
  | some scope =>
      ((scope.filter fun _ value => value ≠ .null).entries.map fun entry =>
        (entry.1, scopeText unicode entry.2)).insertionSort
          fun left right => pairLe left right

def dedupKey (unicode : Unicode) (content : String)
    (scope : Option (Dict String Json)) : DedupKey :=
  (content, scopeKey unicode scope)

structure ExportPayload where
  memories : List SerializedMemory := []
  count : Nat := 0
  truncated : Bool := false
  deriving DecidableEq

inductive ImportAction where
  | created
  | updated
  deriving DecidableEq

structure Imported where
  id : String
  index : Nat
  action : ImportAction
  deriving DecidableEq

structure Skipped where
  index : Nat
  existingId : String
  deriving DecidableEq

structure ImportError where
  index : Nat
  error : String
  deriving DecidableEq

structure ImportOutcome where
  imported : List Imported := []
  skipped : List Skipped := []
  errors : List ImportError := []
  dedupIncomplete : Bool := false
  deriving DecidableEq

/-! Reading every page. -/

/-- The loop of `_list_all`, with the memories read so far.  Each turn adds a
memory or ends, so it turns at most `limit + 1` times. -/
def listAllFrom (userId : String) (limit : Nat) (memories : List Memory)
    (incomplete : Bool) (cursor : Option String) :
    Action (List Memory × Bool) := do
  let page ← Action.backend
    (.listMemories userId none ((limit + 1 - memories.length : Nat) : Int) cursor)
  match _passed : checkSpaces page.memories userId with
  | .error error => throw error
  | .ok checked =>
      let memories' := memories ++ checked
      let incomplete' := incomplete || page.incomplete
      if page.nextCursor = none ∨ page.memories = [] ∨ limit < memories'.length then
        return (memories'.take limit,
          incomplete' || limit < memories'.length || page.nextCursor.isSome)
      else listAllFrom userId limit memories' incomplete' page.nextCursor
termination_by limit + 1 - memories.length
decreasing_by
  obtain ⟨same, -⟩ := checkSpaces_eq_ok.mp _passed
  rename_i unfinished
  have some : 0 < checked.length := by
    rw [← same, List.length_pos_iff]
    exact fun empty => unfinished (.inr (.inl empty))
  have room : ¬ limit < (memories ++ checked).length :=
    fun full => unfinished (.inr (.inr full))
  simp only [List.length_append] at room ⊢
  omega

/-- One turn of the loop. -/
theorem listAllFrom_eq (space : String) (limit : Nat) (memories : List Memory)
    (incomplete : Bool) (cursor : Option String) :
    listAllFrom space limit memories incomplete cursor = (do
      let page ← Action.backend (.listMemories space none
        ((limit + 1 - memories.length : Nat) : Int) cursor)
      if page.memories.all (·.inSpace space) then
        if page.nextCursor = none ∨ page.memories = [] ∨
            limit < (memories ++ page.memories).length then
          return ((memories ++ page.memories).take limit,
            incomplete || page.incomplete ||
              limit < (memories ++ page.memories).length || page.nextCursor.isSome)
        else
          listAllFrom space limit (memories ++ page.memories)
            (incomplete || page.incomplete) page.nextCursor
      else throw (.policyError .internalError internalErrorMsg)) := by
  rw [listAllFrom]
  congr 1
  funext page
  split
  case h_1 error fails =>
    rw [checkSpaces_eq] at fails
    split at fails
    case isTrue => cases fails
    case isFalse outside =>
      cases fails
      exact (if_neg outside).symm
  case h_2 checked passes =>
    obtain ⟨rfl, inSpace⟩ := checkSpaces_eq_ok.mp passes
    rw [if_pos (List.all_eq_true.mpr inSpace)]

/-- Up to `limit` space-checked memories of a tenant, and whether any were
missed. -/
def listAll (userId : String) (limit : Nat) : Action (List Memory × Bool) :=
  listAllFrom userId limit [] false none

def exportPayload (userId : String) (limit : Nat) : Action ExportPayload := do
  let (memories, truncated) ← listAll userId limit
  return {
    memories := memories.map serializeMemory
    count := memories.length
    truncated }

def buildDedupIndex (unicode : Unicode) (userId : String) (limit : Nat) :
    Action (Dict DedupKey Memory × Bool) := do
  let (memories, incomplete) ← listAll userId limit
  return (Dict.ofList (memories.map fun memory =>
    (dedupKey unicode memory.content (some memory.scope), memory)), incomplete)

/-! Importing. -/

inductive OnConflict where
  | skip
  | overwrite
  | duplicate
  deriving DecidableEq

def OnConflict.ofText : String → Option OnConflict
  | "skip" => some .skip
  | "overwrite" => some .overwrite
  | "duplicate" => some .duplicate
  | _ => none

/-- What an import is told besides its entries.  `stamp index stored` gives the
system fields to write for an entry. -/
structure ImportOptions where
  userId : String
  onConflict : OnConflict
  scopeValidator : Option (Json → Except Exc (Option (Dict String Json)))
  stamp : Option (Nat → Option System → System)

/-- An entry that passed the checks made before any conflict is looked for. -/
structure ImportItem where
  content : String
  scope : Option (Dict String Json)
  metadata : Option (Dict String Json)
  deriving DecidableEq

def refused {α : Type} (message : String) : Except Exc α :=
  .error (.valueError message)

/-- `entry.get(key)`. -/
def entryGet (entry : Dict String Json) (key : String) : Json :=
  (entry.get? key).getD .null

def readContent (entry : Dict String Json) : Except Exc String :=
  match entryGet entry "content" with
  | .str content => do
      validateContent content
      return content
  | _ => refused "missing or invalid content"

def readScope (validate : Json → Except Exc (Option (Dict String Json)))
    (entry : Dict String Json) : Except Exc (Option (Dict String Json)) :=
  match entryGet entry "scope" with
  | .null => .ok none
  | scope => validate scope

/-- The scope of an entry no validator sees, as its identity reads it. -/
def plainScope (entry : Dict String Json) : Except Exc (Option (Dict String Json)) :=
  let scope := entryGet entry "scope"
  match scope.dict? with
  | some scope => .ok (some scope)
  | none => if scope.truthy then .error (.other "AttributeError") else .ok none

def readMetadata (unicode : Unicode) (entry : Dict String Json) :
    Except Exc (Option (Dict String Json)) :=
  match entryGet entry "metadata" with
  | .null => .ok none
  | metadata =>
      match metadata.dict? with
      | none => refused "metadata must be an object"
      | some metadata => do
          validateMetadata unicode metadata false
          checkMetadataSize metadata none
          return some metadata

/-- The checks on one entry; a `ValueError` is what `errors` lists for it. -/
def readEntry (unicode : Unicode) (options : ImportOptions)
    (entry : Dict String Json) : Except Exc ImportItem := do
  let content ← readContent entry
  match options.scopeValidator with
  | some validate => do
      let scope ← readScope validate entry
      let metadata ← readMetadata unicode entry
      return { content, scope, metadata }
  | none => do
      let metadata ← readMetadata unicode entry
      let scope ← plainScope entry
      return { content, scope, metadata }

/-- The memories known by identity, and what became of the entries so far. -/
structure ImportState where
  existing : Dict DedupKey Memory := ∅
  outcome : ImportOutcome := {}

namespace ImportState

def addError (state : ImportState) (index : Nat) (error : String) : ImportState :=
  { state with outcome :=
    { state.outcome with errors := state.outcome.errors ++ [{ index, error }] } }

def addSkipped (state : ImportState) (index : Nat) (existingId : String) :
    ImportState :=
  { state with outcome :=
    { state.outcome with
      skipped := state.outcome.skipped ++ [{ index, existingId }] } }

/-- Remember a memory read back after a write, and report its entry. -/
def addImported (state : ImportState) (key : DedupKey) (memory : Memory)
    (id : String) (index : Nat) (action : ImportAction) : ImportState :=
  { existing := state.existing.set key memory
    outcome := { state.outcome with
      imported := state.outcome.imported ++ [{ id, index, action }] } }

end ImportState

/-- The outcome of `action`, a `MemoryAPIError` as its status. -/
def Action.attempt {α : Type} (action : Action α) : Action (Except Int α) :=
  @Program.bind effects _ _ action fun
    | .ok value => .done (.ok (.ok value))
    | .error (.memoryAPIError status _) => .done (.ok (.error status))
    | .error error => .done (.error error)

/-- The patch with which an entry's metadata replaces that of `dup`: reserved
keys stay, since no client can remove them. -/
def overwritePatch (metadata : Dict String Json) (dup : Memory) :
    MetadataPatch where
  set := metadata
  remove := dup.metadata.keys.filter fun key =>
    key ∉ metadata && !isReservedMetadataKey key
  disjoint := by
    intro key removed
    simpa using And.left (by simpa using (List.mem_filter.mp removed).2)

def importOverwrite (options : ImportOptions) (index : Nat) (item : ImportItem)
    (key : DedupKey) (dup : Memory) (state : ImportState) :
    Action ImportState := do
  let result ← (Action.backend (.update options.userId dup.id (some item.content)
    (item.metadata.map fun metadata => overwritePatch metadata dup)
    (options.stamp.map fun stamp => stamp index (some dup.system)))).attempt
  match result with
  | .error status => return state.addError index (clientMessage status)
  | .ok updated =>
      let checked ← checkSpace (some updated) options.userId
      return state.addImported key checked dup.id index .updated

/-- Read back each memory an add reported. -/
def importReadBack (options : ImportOptions) (index : Nat) (key : DedupKey) :
    List AddResult → ImportState → Action ImportState
  | [], state => return state
  | item :: items, state => do
      let result ← (Action.backend (.get options.userId item.id)).attempt
      match result with
      | .error status =>
          importReadBack options index key items
            (state.addError index (clientMessage status))
      | .ok stored =>
          let checked ← checkSpace stored options.userId
          importReadBack options index key items
            (state.addImported key checked item.id index .created)

def importCreate (options : ImportOptions) (index : Nat) (item : ImportItem)
    (key : DedupKey) (state : ImportState) : Action ImportState := do
  let result ← (Action.backend (.add options.userId item.content item.scope
    item.metadata false (options.stamp.map fun stamp => stamp index none))).attempt
  match result with
  | .error status => return state.addError index (clientMessage status)
  | .ok (.many []) => return state.addError index "stored nothing"
  | .ok result => importReadBack options index key result.items state

def importEntry (unicode : Unicode) (options : ImportOptions) (index : Nat)
    (entry : Dict String Json) (state : ImportState) : Action ImportState :=
  match readEntry unicode options entry with
  | .error (.valueError message) => return state.addError index message
  | .error error => throw error
  | .ok item =>
      let key := dedupKey unicode item.content item.scope
      match state.existing.get? key, options.onConflict with
      | some dup, .skip => return state.addSkipped index dup.id
      | some dup, .overwrite => importOverwrite options index item key dup state
      | _, _ => importCreate options index item key state

def importEntries (unicode : Unicode) (options : ImportOptions) :
    (index : Nat) → List (Dict String Json) → ImportState → Action ImportState
  | _, [], state => return state
  | index, entry :: entries, state => do
      let state ← importEntry unicode options index entry state
      importEntries unicode options (index + 1) entries state

/-- Refuse an `on_conflict` the backend can't carry out. -/
def refuseOnConflict (onConflict : OnConflict) : Action Unit := do
  if onConflict = .overwrite then
    let capabilities ← Action.backend .capabilities
    if "update" ∉ capabilities then
      throw (.valueError
        "on_conflict='overwrite' requires the backend's update capability")

def importPayload (unicode : Unicode) (options : ImportOptions)
    (memories : List (Dict String Json)) (dedupLimit : Nat) :
    Action ImportOutcome := do
  refuseOnConflict options.onConflict
  let (existing, incomplete) ←
    if options.onConflict = .duplicate then pure (∅, false)
    else buildDedupIndex unicode options.userId dedupLimit
  let state ← importEntries unicode options 0 memories
    { existing, outcome := { dedupIncomplete := incomplete } }
  return state.outcome

end Memcp
