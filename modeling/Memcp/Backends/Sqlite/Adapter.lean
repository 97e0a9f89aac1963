import Memcp.Backends.Sqlite.Database
import Memcp.Backends.Spaces

/-!
The SQLite backend.  Each method checks its arguments, then hands an `op` to
the connection; an `op` is a program of statements.
-/

namespace Memcp.Sqlite

open Python Interaction

variable {codec : JsonCodec}

def rowToMemory (score : Option ℚ) (row : Row codec) : Memory where
  id := row.id
  content := row.content
  score := score
  scope := codec.loads row.scope
  metadata := codec.loads row.metadata
  createdAt := row.createdAt
  updatedAt := row.updatedAt
  partition := row.userId
  system := System.ofDict (codec.loads row.system)

def ownedRow (partition memoryId : String) : Sql codec (Option (Row codec)) :=
  execute (.selectOwned memoryId partition)

def scopeMatches (unicode : Unicode) (stored wanted : Dict String Json) : Bool :=
  wanted.entries.all fun entry =>
    match stored.get? entry.1 with
    | none => false
    | some value => scopeText unicode value = scopeText unicode entry.2

/-- `not scope or _scope_matches(json.loads(row["scope"]), scope)`. -/
def inScope (unicode : Unicode) (scope : Option (Dict String Json))
    (row : Row codec) : Bool :=
  match Dict.given scope with
  | none => true
  | some scope => scopeMatches unicode (codec.loads row.scope) scope

/-! Each method up to `self._run(op)`: it refuses, or has an `op` to run. -/

variable (unicode : Unicode)

def add (fresh : Fresh) (partition content : String)
    (scope metadata : Option (Dict String Json)) (system : Option System) :
    Except Exc (Sql codec AddReturn) := do
  refuseNestedFilters unicode scope
  refuseReservedMetadata unicode (metadata.getD ∅).keys
  let storedSystem := system.getD {}
  return do
    transaction do
      execute (.insertMemory fresh.id partition content
        (codec.dumps (textScope (scopeAsText unicode (scope.getD ∅))))
        (codec.dumps (metadata.getD ∅)) (codec.dumps storedSystem.toDict)
        fresh.now)
      execute (.insertHistory fresh.id "created" fresh.now none (some content)
        storedSystem.author)
    return .many [{ id := fresh.id, status := "ready", createdAt := fresh.now }]

def search (partition query : String) (scope : Option (Dict String Json))
    (limit : Int) : Except Exc (Sql codec (List Memory)) := do
  refuseNestedFilters unicode scope
  return do
    let rows ← execute (.selectPartition partition)
    let scored := (rows.filter (inScope unicode scope)).filterMap fun row =>
      (Keyword.score unicode query row.content).map fun score => (score, row)
    return (slice (ranked scored) 0 limit).map fun (score, row) =>
      rowToMemory (some score) row

def delete (partition memoryId : String) : Except Exc (Sql codec Bool) :=
  return do
    match ← ownedRow partition memoryId with
    | none => throw notFound
    | some _ =>
        transaction do
          execute (.deleteMemories [memoryId])
          execute (.deleteHistory [memoryId])
        return true

def deleteAll (partition : String) (scope : Dict String Json) :
    Except Exc (Sql codec (Option Nat)) := do
  rejectNestedFilters unicode scope
  return do
    let rows ← execute (.selectPartition partition)
    let doomed := (rows.filter fun row =>
      scopeMatches unicode (codec.loads row.scope) scope).map Row.id
    if doomed = [] then return some 0
    transaction do
      execute (.deleteMemories doomed)
      execute (.deleteHistory doomed)
    return some doomed.length

def get (partition memoryId : String) : Except Exc (Sql codec (Option Memory)) :=
  return do
    let row ← ownedRow partition memoryId
    return row.map (rowToMemory none)

def update (now partition memoryId : String) (content : Option String)
    (patch : Option MetadataPatch) (system : Option System) :
    Except Exc (Sql codec Memory) := do
  refuseReservedMetadata unicode (patch.elim [] MetadataPatch.keys)
  return do
    match ← ownedRow partition memoryId with
    | none => throw notFound
    | some row =>
        -- Read, merge and write in one op.
        let stored := codec.loads row.metadata
        let metadata := patch.elim stored fun patch => patch.apply stored
        let newContent := content.getD row.content
        let newSystem := system.getD (System.ofDict (codec.loads row.system))
        transaction do
          execute (.updateMemory newContent now (codec.dumps metadata)
            (codec.dumps newSystem.toDict) memoryId)
          execute (.insertHistory memoryId "updated" now (some row.content)
            (some newContent) newSystem.author)
        match ← ownedRow partition memoryId with
        | none => throw notFound
        | some updated => return rowToMemory none updated

def listMemories (partition : String) (scope : Option (Dict String Json))
    (limit : Int) (cursor : Option String) : Except Exc (Sql codec ListResult) :=
  return do
    let rows ← execute (.selectPartition partition)
    -- Paged after the op, outside the lock.
    paginate unicode ((rows.filter (inScope unicode scope)).map
      (rowToMemory none)) cursor limit

def historyEntry (row : HistoryRow) : HistoryEntry where
  action := row.action
  timestamp := row.timestamp
  contentBefore := row.contentBefore
  contentAfter := row.contentAfter
  author := row.author

def history (partition memoryId : String) : Except Exc (Sql codec (List HistoryEntry)) :=
  return do
    match ← ownedRow partition memoryId with
    | none => throw notFound
    | some _ =>
        let rows ← execute (.selectHistory memoryId)
        return rows.map historyEntry

/-- `refuse_partition` comes first in each method and refuses nothing here. -/
def method (fresh : Fresh) : (call : BackendCall) → Except Exc (Sql codec call.Result)
  | .add partition content scope metadata _ system =>
      add unicode fresh partition content scope metadata system
  | .search partition query scope limit _ =>
      search unicode partition query scope limit
  | .get partition memoryId => get partition memoryId
  | .update partition memoryId content patch system =>
      update unicode fresh.now partition memoryId content patch system
  | .delete partition memoryId => delete partition memoryId
  | .deleteAll partition scope => deleteAll unicode partition scope
  | .listMemories partition scope limit cursor =>
      listMemories unicode partition scope limit cursor
  | .history partition memoryId => history partition memoryId
  | .entities .. => .error (.other "NotImplementedError")
  | .capabilities => .ok (return localCapabilities)

/-- A call whose `op` runs with no other code's statements in between. -/
def perform (fresh : Fresh) (call : BackendCall) (database : Database codec) :
    Except Exc call.Result × Database codec :=
  match method unicode fresh call with
  | .error error => (.error error, database)
  | .ok op => op.run database

def store (codec : JsonCodec) : Store where
  State := Database codec
  initial := {}
  perform := perform unicode

end Memcp.Sqlite
