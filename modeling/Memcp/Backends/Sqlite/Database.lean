import Memcp.Backends.Base
import Memcp.Interaction.Fallible

/-!
The SQLite connection: its two tables, the statements run on it, and the
transaction that a write opens and a commit or rollback ends.
-/

namespace Memcp.Sqlite

open Python Interaction

/-- `json.dumps` and `json.loads` of the objects kept in text columns. -/
structure JsonCodec where
  Text : Type
  dumps : Dict String Json → Text
  loads : Text → Dict String Json
  loads_dumps : ∀ value, loads (dumps value) = value

attribute [simp] JsonCodec.loads_dumps

/-- Columns that hold the objects themselves. -/
def JsonCodec.identity : JsonCodec where
  Text := Dict String Json
  dumps := id
  loads := id
  loads_dumps _ := rfl

/-- A row of `memories`. -/
structure Row (codec : JsonCodec) where
  rowid : Nat
  id : String
  userId : String
  content : String
  scope : codec.Text
  metadata : codec.Text
  system : codec.Text
  createdAt : String
  updatedAt : Option String

/-- A row of `history`. -/
structure HistoryRow where
  seq : Nat
  memoryId : String
  action : String
  timestamp : String
  contentBefore : Option String
  contentAfter : Option String
  author : Option String

structure Tables (codec : JsonCodec) where
  memories : List (Row codec) := []
  history : List HistoryRow := []
  /-- The largest `seq` ever given, which AUTOINCREMENT never reuses. -/
  lastSeq : Nat := 0

/-- The connection: what is committed, and what an open transaction has made
of it. -/
structure Database (codec : JsonCodec) where
  committed : Tables codec := {}
  pending : Option (Tables codec) := none

inductive Statement (codec : JsonCodec) where
  | insertMemory (id userId content : String) (scope metadata system : codec.Text)
      (createdAt : String)
  | insertHistory (memoryId action timestamp : String)
      (contentBefore contentAfter author : Option String)
  | selectOwned (id userId : String)
  | selectPartition (userId : String)
  | selectHistory (memoryId : String)
  | updateMemory (content updatedAt : String) (metadata system : codec.Text)
      (id : String)
  | deleteMemories (ids : List String)
  | deleteHistory (memoryIds : List String)
  | commit
  | rollback

@[reducible] def Statement.Result {codec : JsonCodec} : Statement codec → Type
  | .selectOwned .. => Option (Row codec)
  | .selectPartition .. => List (Row codec)
  | .selectHistory .. => List HistoryRow
  | _ => Unit

variable {codec : JsonCodec}

namespace Tables

/-- The rowid of a new row: the largest in use and one. -/
def nextRowid (tables : Tables codec) : Nat :=
  (tables.memories.map Row.rowid).foldr max 0 + 1

def insertMemory (tables : Tables codec) (id userId content : String)
    (scope metadata system : codec.Text) (createdAt : String) : Tables codec :=
  { tables with memories := tables.memories ++ [{
      rowid := tables.nextRowid
      id, userId, content, scope, metadata, system, createdAt
      updatedAt := none }] }

def insertHistory (tables : Tables codec) (memoryId action timestamp : String)
    (contentBefore contentAfter author : Option String) : Tables codec :=
  { tables with
    history := tables.history ++ [{
      seq := tables.lastSeq + 1
      memoryId, action, timestamp, contentBefore, contentAfter, author }]
    lastSeq := tables.lastSeq + 1 }

def updateMemory (tables : Tables codec) (content updatedAt : String)
    (metadata system : codec.Text) (id : String) : Tables codec :=
  { tables with memories := tables.memories.map fun row =>
      if row.id = id then
        { row with content, updatedAt := some updatedAt, metadata, system }
      else row }

def deleteMemories (tables : Tables codec) (ids : List String) : Tables codec :=
  { tables with memories := tables.memories.filter fun row => row.id ∉ ids }

def deleteHistory (tables : Tables codec) (memoryIds : List String) :
    Tables codec :=
  { tables with history := tables.history.filter fun row =>
      row.memoryId ∉ memoryIds }

/-- The rows of a query, in rowid order. -/
def select (tables : Tables codec) (test : Row codec → Bool) :
    List (Row codec) :=
  (tables.memories.filter test).insertionSort fun first second =>
    first.rowid ≤ second.rowid

def selectHistory (tables : Tables codec) (memoryId : String) :
    List HistoryRow :=
  (tables.history.filter fun row => row.memoryId = memoryId).insertionSort
    fun first second => first.seq ≤ second.seq

end Tables

namespace Database

/-- What the connection reads. -/
def visible (database : Database codec) : Tables codec :=
  database.pending.getD database.committed

/-- A write, which opens a transaction if none is open. -/
def write (database : Database codec) (f : Tables codec → Tables codec) :
    Database codec :=
  { database with pending := some (f database.visible) }

def commit (database : Database codec) : Database codec :=
  { committed := database.visible, pending := none }

def rollback (database : Database codec) : Database codec :=
  { database with pending := none }

/-- One statement on the connection. -/
def execute : (statement : Statement codec) → Database codec →
    Except Exc statement.Result × Database codec
  | .insertMemory id userId content scope metadata system createdAt, database =>
      if database.visible.memories.any fun row => row.id = id then
        (.error (.other "IntegrityError"), database.write fun tables => tables)
      else (.ok (), database.write fun tables =>
        tables.insertMemory id userId content scope metadata system createdAt)
  | .insertHistory memoryId action timestamp before after author, database =>
      (.ok (), database.write fun tables =>
        tables.insertHistory memoryId action timestamp before after author)
  | .selectOwned id userId, database =>
      (.ok (database.visible.select fun row =>
        row.id = id && row.userId = userId).head?, database)
  | .selectPartition userId, database =>
      (.ok (database.visible.select fun row => row.userId = userId), database)
  | .selectHistory memoryId, database =>
      (.ok (database.visible.selectHistory memoryId), database)
  | .updateMemory content updatedAt metadata system id, database =>
      (.ok (), database.write fun tables =>
        tables.updateMemory content updatedAt metadata system id)
  | .deleteMemories ids, database =>
      (.ok (), database.write fun tables => tables.deleteMemories ids)
  | .deleteHistory memoryIds, database =>
      (.ok (), database.write fun tables => tables.deleteHistory memoryIds)
  | .commit, database => (.ok (), database.commit)
  | .rollback, database => (.ok (), database.rollback)

end Database

/-- Code on the connection: statements, each of which returns or raises. -/
abbrev sql (codec : JsonCodec) : Signature where
  Call := Statement codec
  Reply statement := Except Exc statement.Result

abbrev Sql (codec : JsonCodec) := Fallible (sql codec) Exc

def execute (statement : Statement codec) : Sql codec statement.Result :=
  @Program.call (sql codec) statement

/-- `with self._conn:`, which commits `body`, or rolls back when it raises. -/
def transaction {α : Type} (body : Sql codec α) : Sql codec α :=
  body.either
    (fun value => do
      execute .commit
      return value)
    fun error => do
      execute .rollback
      throw error

/-! Code run with no other code's statements in between. -/

namespace Sql

variable {α β : Type}

def run (code : Sql codec α) (database : Database codec) :
    Except Exc α × Database codec :=
  @Program.eval (sql codec) _ _ Database.execute code database

@[simp] theorem run_pure (value : α) (database : Database codec) :
    (pure value : Sql codec α).run database = (.ok value, database) := rfl

@[simp] theorem run_throw (error : Exc) (database : Database codec) :
    (throw error : Sql codec α).run database = (.error error, database) := rfl

@[simp] theorem run_lift (outcome : Except Exc α) (database : Database codec) :
    (liftM outcome : Sql codec α).run database = (outcome, database) := rfl

@[simp] theorem run_execute (statement : Statement codec)
    (database : Database codec) :
    (execute statement).run database = database.execute statement := rfl

theorem run_either (code : Sql codec α) (returned : α → Sql codec β)
    (raised : Exc → Sql codec β) (database : Database codec) :
    Sql.run (code.either returned raised) database =
      match code.run database with
      | (.ok value, later) => (returned value).run later
      | (.error error, later) => (raised error).run later := by
  have split := @Fallible.eval_either (sql codec) Exc α β _ Database.execute code
    returned raised database
  rcases ended : code.run database with ⟨outcome, later⟩
  unfold run at ended ⊢
  rw [split, ended]
  cases outcome with
  | ok value => rfl
  | error error => rfl

theorem run_bind (code : Sql codec α) (rest : α → Sql codec β)
    (database : Database codec) :
    (code >>= rest).run database =
      match code.run database with
      | (.ok value, later) => (rest value).run later
      | (.error error, later) => (.error error, later) :=
  run_either code rest throw database

theorem run_transaction (body : Sql codec α) (database : Database codec) :
    (transaction body).run database =
      match body.run database with
      | (.ok value, later) => (.ok value, later.commit)
      | (.error error, later) => (.error error, later.rollback) := by
  rw [transaction, run_either]
  rcases body.run database with ⟨outcome, later⟩
  cases outcome with
  | ok value => rfl
  | error error => rfl

end Sql

end Memcp.Sqlite
