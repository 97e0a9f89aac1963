import Memcp.Policy.OneSpace

/-!
`migrate`: one partition's memories copied from one backend into another.  The
two backends may be the same one.
-/

namespace Memcp

open Python Interaction

inductive Side where
  | source
  | target
  deriving DecidableEq

/-- What a migration does besides computing: calls on either backend, and one
audit record. -/
inductive Crossing where
  | call (side : Side) (call : BackendCall)
  | audit (entry : AuditEntry)

@[reducible] def Crossing.Reply : Crossing → Type
  | .call _ request => Except Exc request.Result
  | .audit _ => Unit

abbrev crossings : Signature where
  Call := Crossing
  Reply := Crossing.Reply

/-- An action on one of the two backends. -/
def Action.on {α : Type} (side : Side) (action : Action α) :
    Fallible crossings Exc α :=
  @Program.interpret effects crossings _ (fun
    | .backend call => .ask (.call side call) .done
    | .audit entry => .ask (.audit entry) .done) action

/-- A memory on the wire as an import entry.  The score, which no listed memory
has, is left out. -/
def SerializedMemory.entry (memory : SerializedMemory) : Dict String Json :=
  Dict.ofList [
    ("id", .str memory.id),
    ("content", .str memory.content),
    ("scope", .ofDict memory.scope),
    ("metadata", .ofDict memory.metadata),
    ("created_at", .str memory.createdAt),
    ("updated_at", memory.updatedAt.elim .null .str),
    ("author", memory.author.elim .null .str)]

/-! What an import reads of a memory on the wire. -/

namespace SerializedMemory

variable {memory : SerializedMemory}

theorem readContent_entry (valid : validateContent memory.content = .ok ()) :
    readContent memory.entry = .ok memory.content := by
  have held : entryGet memory.entry "content" = .str memory.content := by
    simp [entry, entryGet, Dict.get?_ofList]
  unfold readContent
  rw [held]
  simp only [valid]
  rfl

theorem readMetadata_entry {unicode : Unicode}
    (valid : validateMetadata unicode memory.metadata false = .ok ())
    (size : checkMetadataSize memory.metadata none = .ok ()) :
    readMetadata unicode memory.entry = .ok (some memory.metadata) := by
  have held : entryGet memory.entry "metadata" = .ofDict memory.metadata := by
    simp [entry, entryGet, Dict.get?_ofList]
  have object : Json.ofDict memory.metadata = .obj memory.metadata.entries := rfl
  unfold readMetadata
  rw [held, object]
  simp only [← object, Json.dict?_ofDict, valid, size]
  rfl

@[simp] theorem entryGet_scope :
    entryGet memory.entry "scope" = .ofDict memory.scope := by
  simp [entry, entryGet, Dict.get?_ofList]

@[simp] theorem plainScope_entry : plainScope memory.entry = .ok (some memory.scope) := by
  unfold plainScope
  simp only [entryGet_scope, Json.dict?_ofDict]

@[simp] theorem readScope_entry
    (validate : Json → Except Exc (Option (Dict String Json))) :
    readScope validate memory.entry = validate (.ofDict memory.scope) := by
  unfold readScope
  rw [entryGet_scope]
  rfl

end SerializedMemory

/-- The arguments of `migrate`.  `limit` is a count: with a negative one no read
is complete. -/
structure Migration where
  partition : String
  operator : String
  targetPartition : Option String := none
  onConflict : String := "skip"
  limit : Nat := maxExport
  sourceName : String := "source"
  targetName : String := "target"
  scopeValidator : Option (Json → Except Exc (Option (Dict String Json))) := none

structure MigrationReport where
  source : String
  target : String
  exported : Nat := 0
  truncated : Bool := false
  imported : Nat := 0
  skipped : Nat := 0
  errors : List ImportError := []
  dedupIncomplete : Bool := false
  deriving DecidableEq

/-- Refuse a partition no space may use: empty, `*`, or one the backend can't
match exactly. -/
def refuseUnusablePartition (unicode : Unicode)
    (validatePartition : String → Except Exc Unit) (partition : String) :
    Except Exc Unit := do
  if isWildcard (.str partition) then
    throw (.valueError ("partition " ++ repr unicode partition ++
      " is empty or a wildcard"))
  validatePartition partition

namespace Migration

variable (migration : Migration)

/-- Where the memories land. -/
def landing : String := migration.targetPartition.getD migration.partition

/-- The system fields of the memory an entry was made from, in the space it
lands in. -/
def copySystem (memories : List Memory) (index : Nat) (_ : Option System) : System :=
  { (memories[index]?.map Memory.system).getD {} with
    space := some (.str migration.landing) }

def importOptions (mode : OnConflict) (memories : List Memory) : ImportOptions where
  userId := migration.landing
  onConflict := mode
  scopeValidator := migration.scopeValidator
  stamp := some (migration.copySystem memories)

def entries (memories : List Memory) : List (Dict String Json) :=
  memories.map fun memory => (serializeMemory memory).entry

def report (memories : List Memory) (truncated : Bool) (outcome : ImportOutcome) :
    MigrationReport where
  source := migration.sourceName
  target := migration.targetName
  exported := memories.length
  truncated := truncated
  imported := outcome.imported.length
  skipped := outcome.skipped.length
  errors := outcome.errors
  dedupIncomplete := outcome.dedupIncomplete

/-- The refusals made before anything is read. -/
def refusals (unicode : Unicode) (validatePartition : Side → String → Except Exc Unit) :
    Fallible crossings Exc OnConflict := do
  refuseUnusablePartition unicode (validatePartition .source) migration.partition
  refuseUnusablePartition unicode (validatePartition .target) migration.landing
  match OnConflict.ofText migration.onConflict with
  | none => throw (.valueError
      "on_conflict must be one of ('skip', 'overwrite', 'duplicate')")
  | some mode => do
      (refuseOnConflict mode).on .target
      return mode

/-- The read of the source and the import into the target. -/
def copy (unicode : Unicode) (mode : OnConflict) :
    Fallible crossings Exc MigrationReport := do
  let (memories, truncated) ←
    (listAll migration.partition migration.limit).on .source
  let outcome ← (importPayload unicode (migration.importOptions mode memories)
    (entries memories) migration.limit).on .target
  return migration.report memories truncated outcome

/-- What is done under the audit record, with the record as it is left. -/
def body (unicode : Unicode) (validatePartition : Side → String → Except Exc Unit)
    (entry : AuditEntry) :
    Program crossings (Except Exc MigrationReport × AuditEntry) :=
  @Program.bind crossings _ _ (migration.refusals unicode validatePartition) fun
    | .error (.valueError message) =>
        .done (.error (.valueError message), { entry with outcome := "validation_error" })
    | .error error => .done (.error error, entry)
    | .ok mode => @Program.bind crossings _ _ (migration.copy unicode mode) fun
        | .error error => .done (.error error, entry)
        | .ok report => .done (.ok report, { entry with count := some report.imported })

end Migration

/-- `migrate`.  `canRecord` tells whether a handler would write the audit
record. -/
def migrate (unicode : Unicode) (canRecord : Bool)
    (validatePartition : Side → String → Except Exc Unit) (migration : Migration) :
    Fallible crossings Exc MigrationReport := do
  if strip migration.operator = "" then
    throw (.valueError "migrate needs an operator: the name of who runs it")
  if !canRecord then
    throw (.valueError
      ("migrate writes an audit record to the logger memcp.audit at INFO, and no handler " ++
      "would write it (the logger is disabled, below INFO, or has no handler at INFO): " ++
      "configure logging first, for example with memcp.http.logging.setup_logging()"))
  let entry : AuditEntry :=
    { operation := "migrate"
      key := some migration.operator
      space := some migration.landing
      relation := none
      sourceSpace := some migration.partition }
  @Program.bind crossings _ _ (migration.body unicode validatePartition entry) fun
    | (result, entry) => .ask (.audit (entry.finish result)) fun _ => .done result

/-! Migrations between local backends. -/

section Backends

variable {unicode : Unicode} {ι : Type} [DecidableEq ι] {α : Type}

/-- Backends, each with a store of its own. -/
abbrev LocalBackends (ι : Type) := ι → LocalBackend

namespace LocalBackends

abbrev State (unicode : Unicode) (backends : LocalBackends ι) :=
  (place : ι) → ((backends place).store unicode).State

/-- The backends answering a migration between two of them, or between one and
itself. -/
abbrev machine (unicode : Unicode) (backends : LocalBackends ι) (place : Side → ι) :
    Machine crossings Fresh where
  State := backends.State unicode
  perform
    | fresh, .call side call, state =>
        let answer := ((backends (place side)).store unicode).perform fresh call
          (state (place side))
        (answer.1, Function.update state (place side) answer.2)
    | _, .audit _, state => ((), state)

/-- The memories the backends hold. -/
def spaces (backends : LocalBackends ι) (state : backends.State unicode) (place : ι) :
    Spaces :=
  ((backends place).representation unicode).spaces (state place)

def Stands (backends : LocalBackends ι) (fresh : FreshIds) (asked : Nat)
    (state : backends.State unicode) : Prop :=
  ∀ place, ((backends place).representation unicode).Stands fresh asked (state place)

/-- A migration between local backends, with no other call in between. -/
def migrate (unicode : Unicode) (backends : LocalBackends ι) (place : Side → ι)
    (supply : Nat → Fresh) (canRecord : Bool) (migration : Migration) (asked : Nat)
    (state : backends.State unicode) :
    Except Exc MigrationReport × Nat × backends.State unicode :=
  Fallible.exec (backends.machine unicode place) supply
    (Memcp.migrate unicode canRecord (fun _ _ => .ok ()) migration) asked state

variable {backends : LocalBackends ι} {place : Side → ι} {fresh : FreshIds}
  {asked : Nat} {state : backends.State unicode}

/-- An action on one side runs on the backend of that side. -/
theorem exec_on (side : Side) (action : Action α) :
    let ran := Fallible.exec ((backends (place side)).store unicode).machine
      fresh.supply action asked (state (place side))
    Fallible.exec (backends.machine unicode place) fresh.supply (action.on side) asked
        state = (ran.1, ran.2.1, Function.update state (place side) ran.2.2) := by
  unfold Action.on
  induction action generalizing asked state with
  | done value =>
      exact congrArg (fun later => (value, asked, later))
        (Function.update_eq_self _ _).symm
  | ask effect next induction =>
      cases effect with
      | audit entry => exact induction ()
      | backend call =>
          refine (induction _).trans ?_
          simp only [Function.update_self, Function.update_idem]
          rfl

end LocalBackends

end Backends

end Memcp
