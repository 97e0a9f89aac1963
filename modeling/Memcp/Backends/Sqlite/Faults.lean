import Memcp.Backends.Sqlite.Refinement

/-!
A connection on which any statement may fail.  Every write is inside a `with`
block, so a call leaves the tables as they were or makes one whole change.
-/

namespace Memcp.Sqlite

open Python Interaction

variable {codec : JsonCodec} {unicode : Unicode} {fresh : Fresh}
  {tables later : Tables codec} {database : Database codec}
  {fails : Nat → Bool} {asked : Nat}

def operationalError : Exc := .other "OperationalError"

/-- The connection after a statement that failed: a write has opened the
transaction and changed nothing in it, and the `with` block rolls back after a
commit. -/
def Statement.undone : Statement codec → Database codec → Database codec
  | .insertMemory .., database | .insertHistory .., database
  | .updateMemory .., database | .deleteMemories .., database
  | .deleteHistory .., database => database.write fun tables => tables
  | .selectOwned .., database | .selectPartition .., database
  | .selectHistory .., database => database
  | .commit, database | .rollback, database => database.rollback

/-- One statement, which fails or is executed; a rollback does not fail. -/
def Database.attempt : Bool → (statement : Statement codec) → Database codec →
    Except Exc statement.Result × Database codec
  | false, statement, database => database.execute statement
  | true, .rollback, database => database.execute .rollback
  | true, statement, database =>
      (.error operationalError, statement.undone database)

/-- The connection as a machine; a supply says whether a statement fails. -/
abbrev connection (codec : JsonCodec) : Machine (sql codec) Bool where
  State := Database codec
  perform := Database.attempt

/-- A call whose `op` runs with no other code's statements in between, its
`n`-th statement failing when `fails n`. -/
def performFailing (unicode : Unicode) (fails : Nat → Bool) (fresh : Fresh)
    (call : BackendCall) (database : Database codec) :
    Except Exc call.Result × Database codec :=
  match method unicode fresh call with
  | .error error => (.error error, database)
  | .ok op =>
      let ran := Fallible.exec (connection codec) fails op 0 database
      (ran.1, ran.2.2)

theorem performFailing_never (call : BackendCall) (database : Database codec) :
    performFailing unicode (fun _ => false) fresh call database =
      perform unicode fresh call database := by
  have same : ∀ {α : Type} (program : Program (sql codec) α) (asked : Nat)
      (database : Database codec),
      ((program.exec (connection codec) (fun _ => false) asked database).1,
        (program.exec (connection codec) (fun _ => false) asked database).2.2) =
        program.eval Database.execute database := by
    intro α program
    induction program with
    | done value => intro _ _; rfl
    | ask statement next induction => exact fun asked database => induction _ _ _
  unfold performFailing perform
  cases method unicode fresh call with
  | error error => rfl
  | ok op => exact same op 0 database

/-! Statements that may fail. -/

abbrev EndsIn {α : Type} (fails : Nat → Bool)
    (post : Except Exc α → Database codec → Prop) (code : Sql codec α)
    (asked : Nat) (database : Database codec) : Prop :=
  Fallible.Ends (connection codec) fails (fun outcome _ later => post outcome later)
    code asked database

theorem ends_execute {statement : Statement codec}
    {post : Except Exc statement.Result → Database codec → Prop}
    (runs : post (database.execute statement).1 (database.execute statement).2)
    (raises : post (.error operationalError) (statement.undone database)) :
    EndsIn fails post (execute statement) asked database := by
  change post (Database.attempt (fails asked) statement database).1
    (Database.attempt (fails asked) statement database).2
  cases fails asked with
  | false => exact runs
  | true =>
      cases statement with
      | rollback => exact runs
      | _ => exact raises

/-- Code that commits nothing, and that has changed what the connection reads
by `makes` if it returns. -/
def Makes {α : Type} (fails : Nat → Bool) (makes : Tables codec → Tables codec → Prop)
    (code : Sql codec α) : Prop :=
  ∀ asked database, EndsIn fails (fun outcome later =>
    later.committed = database.committed ∧
      ∀ value, outcome = .ok value → makes database.visible later.visible)
    code asked database

theorem Makes.bind {α β : Type} {first second : Tables codec → Tables codec → Prop}
    {code : Sql codec α} {rest : α → Sql codec β} (one : Makes fails first code)
    (other : ∀ value, Makes fails second (rest value)) :
    Makes fails (fun before after => ∃ middle, first before middle ∧
      second middle after) (code >>= rest) := by
  intro asked database
  refine Fallible.Ends.bind (one asked database) ?_ ?_
  · rintro error asked later ⟨kept, -⟩
    exact ⟨kept, nofun⟩
  · rintro value asked middle ⟨kept, made⟩
    refine (other value asked middle).mono ?_
    rintro outcome asked later ⟨still, further⟩
    exact ⟨still.trans kept, fun last returned =>
      ⟨_, made value rfl, further last returned⟩⟩

theorem makes_insertMemory (id userId content : String)
    (scope metadata system : codec.Text) (createdAt : String) :
    Makes fails (fun before after => id ∉ before.memories.map Row.id ∧
        after = before.insertMemory id userId content scope metadata system createdAt)
      (execute (.insertMemory id userId content scope metadata system createdAt)) := by
  intro asked database
  refine ends_execute ?_ ⟨rfl, fun _ returned => by cases returned⟩
  simp only [Database.execute]
  split
  · exact ⟨rfl, fun _ returned => by cases returned⟩
  · rename_i free
    refine ⟨rfl, fun value returned => ⟨?_, rfl⟩⟩
    simpa using free

theorem makes_insertHistory (memoryId action timestamp : String)
    (before after author : Option String) :
    Makes fails (fun (tables later : Tables codec) => later =
        tables.insertHistory memoryId action timestamp before after author)
      (execute (.insertHistory memoryId action timestamp before after author)) :=
  fun _ _ => ends_execute ⟨rfl, fun _ _ => rfl⟩ ⟨rfl, nofun⟩

theorem makes_updateMemory (content updatedAt : String)
    (metadata system : codec.Text) (id : String) :
    Makes fails (fun tables later => later =
        tables.updateMemory content updatedAt metadata system id)
      (execute (.updateMemory content updatedAt metadata system id)) :=
  fun _ _ => ends_execute ⟨rfl, fun _ _ => rfl⟩ ⟨rfl, nofun⟩

theorem makes_deleteMemories (ids : List String) :
    Makes fails (fun (tables later : Tables codec) => later = tables.deleteMemories ids)
      (execute (.deleteMemories ids)) :=
  fun _ _ => ends_execute ⟨rfl, fun _ _ => rfl⟩ ⟨rfl, nofun⟩

theorem makes_deleteHistory (ids : List String) :
    Makes fails (fun (tables later : Tables codec) => later = tables.deleteHistory ids)
      (execute (.deleteHistory ids)) :=
  fun _ _ => ends_execute ⟨rfl, fun _ _ => rfl⟩ ⟨rfl, nofun⟩

/-! What a call may leave committed. -/

/-- The author recorded of a row's memory. -/
def Row.author (row : Row codec) : Option String :=
  (System.ofDict (codec.loads row.system)).author

inductive Tables.Change (tables : Tables codec) : Tables codec → Prop
  | none : Change tables tables
  | added {id userId content now : String} {scope : Dict String String}
      {metadata : codec.Text} {system : System}
      (absent : id ∉ tables.memories.map Row.id) :
      Change tables ((tables.insertMemory id userId content
        (codec.dumps (textScope scope)) metadata (codec.dumps system.toDict)
        now).insertHistory id "created" now .none (some content) system.author)
  | updated {row : Row codec} {content now : String} {metadata : codec.Text}
      {system : System} (member : row ∈ tables.memories) :
      Change tables ((tables.updateMemory content now metadata
        (codec.dumps system.toDict) row.id).insertHistory row.id "updated" now
        (some row.content) (some content) system.author)
  | dropped {ids : List String} :
      Change tables ((tables.deleteMemories ids).deleteHistory ids)

theorem Tables.Change.valid (change : tables.Change later) (valid : tables.Valid) :
    later.Valid := by
  cases change with
  | none => exact valid
  | added absent =>
      apply (valid.insertMemory absent _ _ _ _ _ _).insertHistory
      simp [Tables.insertMemory]
  | updated member =>
      apply (valid.updateMemory _ _ _ _ _).insertHistory
      rw [Tables.ids_updateMemory]
      exact List.mem_map_of_mem member
  | dropped => exact valid.drop _

/-- No transaction is open, and what is committed is a change of `tables`. -/
def Settled (tables : Tables codec) (database : Database codec) : Prop :=
  database.pending = none ∧ tables.Change database.committed

theorem Settled.refl (idle : database.pending = none) :
    Settled database.committed database := ⟨idle, .none⟩

/-- A transaction commits what its body made of the tables, or nothing. -/
theorem ends_transaction {α : Type} {makes : Tables codec → Tables codec → Prop}
    {body : Sql codec α} (made : Makes fails makes body)
    (idle : database.pending = none)
    (changes : ∀ later, makes database.committed later →
      database.committed.Change later) :
    EndsIn fails (fun _ later => Settled database.committed later)
      (transaction body) asked database := by
  have visible : database.visible = database.committed := by
    simp [Database.visible, idle]
  refine Fallible.Ends.either (made asked database) ?_ ?_
  · rintro value asked middle ⟨kept, made⟩
    rw [visible] at made
    have committed : EndsIn fails (fun _ later => Settled database.committed later)
        (execute .commit) asked middle :=
      ends_execute ⟨rfl, changes _ (made value rfl)⟩ ⟨rfl, kept ▸ .none⟩
    exact committed.bind (fun _ _ _ settled => settled)
      fun _ _ _ settled => .pure settled
  · rintro error asked middle ⟨kept, -⟩
    have rolledBack : EndsIn fails (fun _ later => Settled database.committed later)
        (execute .rollback) asked middle :=
      ends_execute ⟨rfl, kept ▸ .none⟩ ⟨rfl, kept ▸ .none⟩
    exact rolledBack.bind (fun _ _ _ settled => settled)
      fun _ _ _ settled => .throw settled

theorem ends_drop (ids : List String) (idle : database.pending = none) :
    EndsIn fails (fun _ later => Settled database.committed later)
      (transaction do
        execute (.deleteMemories ids)
        execute (.deleteHistory ids)) asked database := by
  refine ends_transaction ((makes_deleteMemories ids).bind
    fun _ => makes_deleteHistory ids) idle ?_
  rintro later ⟨middle, rfl, rfl⟩
  exact .dropped

theorem ends_ownedRow (valid : Valid database) (partition memoryId : String) :
    EndsIn fails (fun outcome later => later = database ∧
      ∀ row, outcome = .ok (some row) →
        row ∈ database.committed.memories ∧ row.id = memoryId)
      (ownedRow partition memoryId) asked database := by
  refine @ends_execute _ _ _ _ (.selectOwned memoryId partition) _ ⟨rfl, ?_⟩
    ⟨rfl, nofun⟩
  intro row returned
  have read := run_ownedRow valid partition memoryId
  have found := (congrArg Prod.fst read).symm.trans returned
  have passes := List.find?_some (Except.ok.inj found)
  simp only [Bool.and_eq_true, decide_eq_true_eq] at passes
  exact ⟨List.mem_of_find?_eq_some (Except.ok.inj found), passes.1⟩

/-! Each call, whichever of its statements fail. -/

/-- Code that ends with no transaction open and at most one change made. -/
abbrev Settles {α : Type} (fails : Nat → Bool) (code : Sql codec α)
    (database : Database codec) : Prop :=
  ∀ asked, EndsIn fails (fun _ later => Settled database.committed later) code asked
    database

theorem Settles.after_ownedRow {α : Type} {partition memoryId : String}
    {rest : Option (Row codec) → Sql codec α} (valid : Valid database)
    (missing : Settles fails (rest none) database)
    (found : ∀ row ∈ database.committed.memories, row.id = memoryId →
      Settles fails (rest (some row)) database) :
    Settles fails (ownedRow partition memoryId >>= rest) database := by
  intro asked
  refine (ends_ownedRow valid partition memoryId).bind ?_ ?_
  · rintro error asked later ⟨rfl, -⟩
    exact .refl valid.idle
  · rintro read asked later ⟨rfl, owned⟩
    cases read with
    | none => exact missing asked
    | some row =>
        obtain ⟨member, same⟩ := owned row rfl
        exact found row member same asked

theorem Settles.after_select {α : Type} {statement : Statement codec}
    {rest : statement.Result → Sql codec α} (idle : database.pending = none)
    (reads : (database.execute statement).2 = database)
    (undone : statement.undone database = database)
    (each : ∀ value, Settles fails (rest value) database) :
    Settles fails (execute statement >>= rest) database := by
  intro asked
  have unchanged : EndsIn fails (fun _ later => later = database)
      (execute statement) asked database := ends_execute reads undone
  refine unchanged.bind ?_ ?_
  · rintro error asked later rfl
    exact .refl idle
  · rintro value asked later rfl
    exact each value asked

theorem settles_add (content : String) (scope metadata : Option (Dict String Json))
    (system : Option System) (idle : database.pending = none) {partition : String}
    {op : Sql codec AddReturn}
    (ready : add unicode fresh partition content scope metadata system = .ok op) :
    Settles fails op database := by
  unfold add at ready
  cases nested : refuseNestedFilters unicode scope with
  | error error =>
      rw [nested] at ready
      cases ready
  | ok =>
      cases reserved : refuseReservedMetadata unicode (metadata.getD ∅).keys with
      | error error =>
          rw [nested, reserved] at ready
          cases ready
      | ok =>
          rw [nested, reserved] at ready
          cases ready
          intro asked
          refine (ends_transaction ((makes_insertMemory _ _ _ _ _ _ _).bind
            fun _ => makes_insertHistory _ _ _ _ _ _) idle ?_).bind ?_ ?_
          · rintro later ⟨middle, ⟨absent, rfl⟩, rfl⟩
            exact .added absent
          · exact fun _ _ _ settled => settled
          · exact fun _ _ _ settled => .pure settled

theorem settles_update (content : Option String) (patch : Option MetadataPatch)
    (system : Option System) (valid : Valid database) {now partition memoryId : String}
    {op : Sql codec Memory}
    (ready : update unicode now partition memoryId content patch system = .ok op) :
    Settles fails op database := by
  unfold update at ready
  cases reserved : refuseReservedMetadata unicode
      (patch.elim [] MetadataPatch.keys) with
  | error error =>
      rw [reserved] at ready
      cases ready
  | ok =>
      rw [reserved] at ready
      cases ready
      refine .after_ownedRow valid (fun _ => .throw (.refl valid.idle)) ?_
      rintro row member rfl asked
      refine (ends_transaction ((makes_updateMemory _ _ _ _ _).bind
        fun _ => makes_insertHistory _ _ _ _ _ _) valid.idle ?_).bind ?_ ?_
      · rintro later ⟨middle, rfl, rfl⟩
        exact .updated member
      · exact fun _ _ _ settled => settled
      · intro _ asked middle settled
        -- The read back changes nothing, whether or not it fails.
        have readBack : EndsIn fails (fun _ later => later = middle)
            (ownedRow partition row.id) asked middle :=
          @ends_execute _ _ _ _ (.selectOwned row.id partition) _ rfl rfl
        refine readBack.bind ?_ ?_
        · rintro error asked later rfl
          exact settled
        · rintro found asked later rfl
          cases found with
          | none => exact .throw settled
          | some changed => exact .pure settled

theorem settles_delete (valid : Valid database) {partition memoryId : String}
    {op : Sql codec Bool} (ready : delete partition memoryId = .ok op) :
    Settles fails op database := by
  cases ready
  refine .after_ownedRow valid (fun _ => .throw (.refl valid.idle)) ?_
  rintro row - - asked
  exact (ends_drop [memoryId] valid.idle).bind (fun _ _ _ settled => settled)
    fun _ _ _ settled => .pure settled

theorem settles_deleteAll (scope : Dict String Json)
    (idle : database.pending = none) {partition : String}
    {op : Sql codec (Option Nat)}
    (ready : deleteAll unicode partition scope = .ok op) :
    Settles fails op database := by
  unfold deleteAll at ready
  cases nested : rejectNestedFilters unicode scope with
  | error error =>
      rw [nested] at ready
      cases ready
  | ok =>
      rw [nested] at ready
      cases ready
      refine .after_select idle rfl rfl fun rows asked => ?_
      dsimp only
      split
      · exact .pure (.refl idle)
      · exact (ends_drop _ idle).bind (fun _ _ _ settled => settled)
          fun _ _ _ settled => .pure settled

theorem performFailing_change (valid : Valid database) (call : BackendCall) :
    Settled database.committed
      (performFailing unicode fails fresh call database).2 := by
  have idle := valid.idle
  unfold performFailing
  cases ready : method unicode fresh call with
  | error error => exact .refl idle
  | ok op =>
      change EndsIn fails (fun _ later => Settled database.committed later) op 0 database
      cases call with
      | add partition content scope metadata infer system =>
          exact settles_add content scope metadata system idle ready 0
      | update partition memoryId content patch system =>
          exact settles_update content patch system valid ready 0
      | delete partition memoryId => exact settles_delete valid ready 0
      | deleteAll partition scope => exact settles_deleteAll scope idle ready 0
      | search partition query scope limit threshold =>
          simp only [method, search] at ready
          cases nested : refuseNestedFilters unicode scope with
          | error error =>
              rw [nested] at ready
              cases ready
          | ok =>
              rw [nested] at ready
              cases ready
              exact Settles.after_select idle rfl rfl
                (fun rows asked => .pure (.refl idle)) 0
      | get partition memoryId =>
          cases ready
          have read : ∀ value : Option (Row codec), Settles fails
              (pure (Option.map (rowToMemory none) value) : Sql codec (Option Memory))
              database := fun _ _ => .pure (.refl idle)
          exact @Settles.after_select _ _ _ _ (.selectOwned memoryId partition) _ idle
            rfl rfl read 0
      | listMemories partition scope limit cursor =>
          cases ready
          exact Settles.after_select idle rfl rfl
            (fun rows asked => .lift (.refl idle)) 0
      | history partition memoryId =>
          cases ready
          exact Settles.after_ownedRow valid (fun _ => .throw (.refl idle))
            (fun _ _ _ => .after_select idle rfl rfl
              fun rows asked => .pure (.refl idle)) 0
      | entities partition scope limit => cases ready
      | capabilities =>
          cases ready
          exact .refl idle

/-- Calls, one after the other, each with the statements that fail in it. -/
structure Attempt where
  fresh : Fresh
  call : BackendCall
  fails : Nat → Bool

/-- The database after some calls on a new one. -/
def attempted (unicode : Unicode) (codec : JsonCodec) (attempts : List Attempt) :
    Database codec :=
  attempts.foldl (fun database attempt =>
    (performFailing unicode attempt.fails attempt.fresh attempt.call database).2) {}

theorem attempted_valid (unicode : Unicode) (codec : JsonCodec)
    (attempts : List Attempt) : Valid (attempted unicode codec attempts) := by
  induction attempts using List.reverseRecOn with
  | nil => exact (representation unicode codec).valid_initial
  | append_singleton attempts attempt valid =>
      simp only [attempted, List.foldl_append]
      obtain ⟨idle, change⟩ := performFailing_change valid attempt.call
      exact ⟨idle, change.valid valid.tables⟩

/-- What holds of empty tables and is kept by every change holds of the tables
after any calls. -/
theorem attempted_holds {holds : Tables codec → Prop} (empty : holds {})
    (step : ∀ tables later : Tables codec, tables.Valid → tables.Change later →
      holds tables → holds later)
    (attempts : List Attempt) :
    holds (attempted unicode codec attempts).committed := by
  induction attempts using List.reverseRecOn with
  | nil => exact empty
  | append_singleton attempts attempt induction =>
      have valid := attempted_valid unicode codec attempts
      simp only [attempted, List.foldl_append]
      exact step _ _ valid.tables (performFailing_change valid attempt.call).2 induction

end Memcp.Sqlite
