import Memcp.Backends.Sqlite.Faults
import Memcp.BulkDelete

/-!
A build of SQLite refuses a statement that binds more than a fixed number of
parameters.  `delete_all` binds one for each memory it deletes.
-/

namespace Memcp

open Python Interaction

namespace Sqlite

variable {codec : JsonCodec} {unicode : Unicode} {limit : Nat} {fresh : Fresh}
  {partition : String} {scope : Dict String Json} {database : Database codec}

/-- How many `?` a statement has. -/
def Statement.parameters : Statement codec → Nat
  | .insertMemory .. => 7
  -- A memory just created has no content before.
  | .insertHistory _ _ _ none _ _ => 4
  | .insertHistory _ _ _ (some _) _ _ => 5
  | .selectOwned .. => 2
  | .selectPartition .. => 1
  | .selectHistory .. => 1
  | .updateMemory .. => 5
  | .deleteMemories ids => ids.length
  | .deleteHistory memoryIds => memoryIds.length
  | .commit => 0
  | .rollback => 0

/-- One statement, refused before it runs if it binds too many parameters. -/
def Database.executeWithin (limit : Nat) (statement : Statement codec)
    (database : Database codec) : Except Exc statement.Result × Database codec :=
  if statement.parameters ≤ limit then database.execute statement
  else (.error operationalError, database)

abbrev limited (codec : JsonCodec) : Machine (sql codec) Nat where
  State := Database codec
  perform := Database.executeWithin

/-- A call on a build whose statements bind at most `limit` parameters. -/
def performWithin (unicode : Unicode) (limit : Nat) (fresh : Fresh)
    (call : BackendCall) (database : Database codec) :
    Except Exc call.Result × Database codec :=
  match method unicode fresh call with
  | .error error => (.error error, database)
  | .ok op =>
      let ran := Fallible.exec (limited codec) (fun _ => limit) op 0 database
      (ran.1, ran.2.2)

section Exec

variable {statement : Statement codec} {asked : Nat}

theorem exec_within (within : statement.parameters ≤ limit) :
    Fallible.exec (limited codec) (fun _ => limit) (execute statement) asked database =
      ((database.execute statement).1, asked + 1, (database.execute statement).2) := by
  change ((database.executeWithin limit statement).1, asked + 1,
    (database.executeWithin limit statement).2) = _
  rw [Database.executeWithin, if_pos within]

theorem exec_refused (refused : ¬ statement.parameters ≤ limit) :
    Fallible.exec (limited codec) (fun _ => limit) (execute statement) asked database =
      (.error operationalError, asked + 1, database) := by
  change ((database.executeWithin limit statement).1, asked + 1,
    (database.executeWithin limit statement).2) = _
  rw [Database.executeWithin, if_neg refused]

/-- A transaction whose first statement is refused leaves what there was. -/
theorem exec_transaction_refused {rest : statement.Result → Sql codec Unit}
    (idle : database.pending = none) (refused : ¬ statement.parameters ≤ limit) :
    Fallible.exec (limited codec) (fun _ => limit)
      (transaction (execute statement >>= rest)) asked database =
        (.error operationalError, asked + 2, database) := by
  have unopened : database.rollback = database := by
    obtain ⟨committed, pending⟩ := database
    cases idle
    rfl
  have rolledBack : Fallible.exec (limited codec) (fun _ => limit)
      (execute .rollback) (asked + 1) database = (.ok (), asked + 2, database) := by
    rw [exec_within (Nat.zero_le limit), Database.execute, unopened]
  rw [transaction, Fallible.exec_either, Fallible.exec_bind_error (exec_refused refused)]
  exact Fallible.exec_bind_ok rolledBack

end Exec

/-! Code none of whose statements can bind too many parameters. -/

def Bounded {α : Type} (limit : Nat) (code : Sql codec α) : Prop :=
  ∀ past, Safe (fun _ (statement : Statement codec) => statement.parameters ≤ limit)
    (fun _ _ => True) code past

namespace Bounded

variable {α β : Type}

theorem pure (value : α) : Bounded limit (Pure.pure value : Sql codec α) :=
  fun _ => trivial

theorem throw (error : Exc) : Bounded limit (throw error : Sql codec α) :=
  fun _ => trivial

theorem lift (outcome : Except Exc α) : Bounded limit (liftM outcome : Sql codec α) :=
  fun _ => trivial

theorem execute {statement : Statement codec} (within : statement.parameters ≤ limit) :
    Bounded limit (execute statement) :=
  fun _ => ⟨within, fun _ => trivial⟩

theorem bind {code : Sql codec α} {rest : α → Sql codec β} (first : Bounded limit code)
    (each : ∀ value, Bounded limit (rest value)) : Bounded limit (code >>= rest) :=
  fun past => Fallible.safe_bind (first past) (fun _ _ _ => trivial)
    fun later value _ => each value later

theorem transaction {body : Sql codec α} (bounded : Bounded limit body) :
    Bounded limit (transaction body) := by
  intro past
  refine Safe.bind (bounded past) fun later outcome _ => ?_
  cases outcome with
  | ok value =>
      exact bind (execute (Nat.zero_le limit)) (fun _ => pure value) later
  | error error =>
      exact bind (execute (Nat.zero_le limit)) (fun _ => throw error) later

theorem mono {limit' : Nat} {code : Sql codec α} (bounded : Bounded limit code)
    (within : limit ≤ limit') : Bounded limit' code :=
  fun past => (bounded past).mono (fun _ _ inside => inside.trans within)
    fun _ _ holds => holds

theorem exec {code : Sql codec α} (bounded : Bounded limit code) (asked : Nat)
    (database : Database codec) :
    let ran := Fallible.exec (limited codec) (fun _ => limit) code asked database
    (ran.1, ran.2.2) = code.run database := by
  have safe := bounded []
  generalize ([] : Trace (sql codec)) = past at safe
  clear bounded
  induction code generalizing past asked database with
  | done outcome => rfl
  | ask statement next induction =>
      have executed : database.executeWithin limit statement =
          database.execute statement := if_pos safe.1
      have tail := induction (database.execute statement).1 (asked + 1)
        (database.execute statement).2 _ (safe.2 _)
      rw [← executed] at tail
      refine tail.trans ?_
      rw [executed]
      rfl

end Bounded

/-- No other method has a statement that grows with what is stored. -/
theorem method_bounded {call : BackendCall} {op : Sql codec call.Result}
    (other : ∀ partition scope, call ≠ .deleteAll partition scope)
    (ready : method unicode fresh call = .ok op) : Bounded 7 op := by
  have owned : ∀ partition memoryId,
      Bounded 7 (ownedRow partition memoryId : Sql codec (Option (Row codec))) :=
    fun partition memoryId => @Bounded.execute _ _ (.selectOwned memoryId partition)
      (show 2 ≤ 7 by decide)
  cases call with
  | add partition content scope metadata infer system =>
      obtain ⟨-, -, ready⟩ := bind_eq_ok.mp ready
      obtain ⟨-, -, ready⟩ := bind_eq_ok.mp ready
      cases ready
      exact .bind (.transaction (.bind (.execute (Nat.le_refl 7))
        fun _ => .execute (show 4 ≤ 7 by decide))) fun _ => .pure _
  | search partition query scope limit threshold =>
      obtain ⟨-, -, ready⟩ := bind_eq_ok.mp ready
      cases ready
      exact .bind (@Bounded.execute _ _ (.selectPartition partition)
        (show 1 ≤ 7 by decide))
        fun _ => .pure _
  | get partition memoryId =>
      cases ready
      exact .bind (owned partition memoryId) fun _ => .pure _
  | update partition memoryId content patch system =>
      obtain ⟨-, -, ready⟩ := bind_eq_ok.mp ready
      cases ready
      refine .bind (owned partition memoryId) fun row => ?_
      cases row with
      | none => exact .throw _
      | some row =>
          refine .bind (.transaction (.bind (.execute (show 5 ≤ 7 by decide))
            fun _ => .execute (show 5 ≤ 7 by decide))) fun _ => ?_
          refine .bind (owned partition memoryId) fun updated => ?_
          cases updated with
          | none => exact .throw _
          | some updated => exact .pure _
  | delete partition memoryId =>
      cases ready
      refine .bind (owned partition memoryId) fun row => ?_
      cases row with
      | none => exact .throw _
      | some row =>
          exact .bind (.transaction (.bind (.execute (show 1 ≤ 7 by decide))
            fun _ => .execute (show 1 ≤ 7 by decide))) fun _ => .pure _
  | deleteAll partition scope => exact absurd rfl (other partition scope)
  | listMemories partition scope limit cursor =>
      cases ready
      exact .bind (@Bounded.execute _ _ (.selectPartition partition)
        (show 1 ≤ 7 by decide))
        fun _ => .lift _
  | history partition memoryId =>
      cases ready
      refine .bind (owned partition memoryId) fun row => ?_
      cases row with
      | none => exact .throw _
      | some row =>
          exact .bind (@Bounded.execute _ _ (.selectHistory memoryId)
            (show 1 ≤ 7 by decide))
            fun _ => .pure _
  | entities partition scope limit => cases ready
  | capabilities =>
      cases ready
      exact .pure _

/-- So the limit, once it lets memories be added, is met by no other call. -/
theorem performWithin_eq {call : BackendCall} (enough : 7 ≤ limit)
    (other : ∀ partition scope, call ≠ .deleteAll partition scope)
    (database : Database codec) :
    performWithin unicode limit fresh call database =
      perform unicode fresh call database := by
  unfold performWithin perform
  cases ready : method unicode fresh call with
  | error error => rfl
  | ok op => exact ((method_bounded other ready).mono enough).exec 0 database

/-- What `delete_all` does with the ids of those rows. -/
def deleteDoomed (doomed : List String) : Sql codec (Option Nat) := do
  if doomed = [] then return some 0
  transaction do
    execute (.deleteMemories doomed)
    execute (.deleteHistory doomed)
  return some doomed.length

theorem deleteDoomed_within {doomed : List String} (idle : database.pending = none)
    (asked : Nat) :
    let ran := Fallible.exec (limited codec) (fun _ => limit) (deleteDoomed doomed) asked
      database
    (ran.1, ran.2.2) = if doomed.length ≤ limit then (deleteDoomed doomed).run database
      else (.error operationalError, database) := by
  intro ran
  split
  case isTrue within =>
    have bounded : Bounded limit (deleteDoomed doomed : Sql codec (Option Nat)) := by
      unfold deleteDoomed
      split
      · exact .pure _
      · exact .bind (.transaction (.bind (.execute within) fun _ => .execute within))
          fun _ => .pure _
    exact bounded.exec asked database
  case isFalse exceeds =>
    have nonempty : doomed ≠ [] := by
      rintro rfl
      exact exceeds (Nat.zero_le limit)
    simp only [ran, deleteDoomed]
    rw [if_neg nonempty, Fallible.exec_bind_error (exec_transaction_refused idle exceeds)]

theorem deleteAll_within (valid : Valid database)
    (flat : rejectNestedFilters unicode scope = .ok ()) :
    performWithin unicode limit fresh (.deleteAll partition scope) database =
      if 0 < limit ∧ (Space.selected unicode (some scope)
          (spaces database partition)).length ≤ limit then
        perform unicode fresh (.deleteAll partition scope) database
      else (.error operationalError, database) := by
  have read := run_selectPartition valid partition
  have op : deleteAll unicode partition scope = .ok (do
      let rows ← execute (.selectPartition partition)
      deleteDoomed ((rows.filter fun (row : Row codec) =>
        scopeMatches unicode (codec.loads row.scope) scope).map Row.id)) := by
    simp only [deleteAll, flat]
    rfl
  simp only [performWithin, perform, method, op]
  rcases Nat.eq_zero_or_pos limit with rfl | positive
  · rw [if_neg fun both => Nat.lt_irrefl 0 both.1,
      Fallible.exec_bind_error (exec_refused (Nat.not_succ_le_zero 0))]
  · rw [Sql.run_bind, read, Fallible.exec_bind_ok ((exec_within positive).trans
      (congrArg (fun ran => (ran.1, 1, ran.2)) read))]
    refine (deleteDoomed_within valid.idle 1).trans ?_
    rw [selected_matching valid]
    simp only [positive, true_and, List.length_map, matching]

/-- The database after `count` memories were added to the space `s`. -/
def filled (codec : JsonCodec) (count : Nat) : Database codec where
  committed := {
    memories := (List.range count).map fun index => {
      rowid := index, id := String.ofList (List.replicate index 'a'), userId := "s"
      content := "x", scope := codec.dumps ∅, metadata := codec.dumps ∅
      system := codec.dumps ∅, createdAt := "", updatedAt := none } }

theorem valid_filled (codec : JsonCodec) (count : Nat) : Valid (filled codec count) where
  idle := rfl
  tables := {
    ids := by
      simp only [filled, List.map_map]
      refine List.Nodup.map (fun first second same => ?_) List.nodup_range
      simpa using congrArg String.length same
    rowids := by
      simp only [filled, List.pairwise_map]
      exact List.pairwise_lt_range
    seqs := .nil
    lastSeq := nofun
    logged := nofun
    scopes := by
      intro row member
      obtain ⟨index, -, rfl⟩ := List.mem_map.mp member
      rw [codec.loads_dumps]
      rfl }

theorem length_spaces_filled (codec : JsonCodec) (count : Nat) :
    (spaces (filled codec count) "s").length = count := by
  have own : (filled codec count).committed.memories.filter
      (fun row => row.userId = "s") = (filled codec count).committed.memories := by
    apply List.filter_eq_self.mpr
    intro row member
    obtain ⟨index, -, rfl⟩ := List.mem_map.mp member
    rfl
  rw [spaces, spacesOf, own]
  simp [filled]

end Sqlite

section DeleteAll

variable {unicode : Unicode} {partition : String} {scope : Dict String Json}

open Sqlite in
/-- On sqlite `delete_all` does what it is for when every id it selects fits in
one statement, and otherwise raises and changes nothing. -/
theorem delete_all_at_any_size_iff {limit : Nat} {fresh : Fresh} {codec : JsonCodec}
    (flat : rejectNestedFilters unicode scope = .ok ())
    {database : Database codec} (valid : Valid database)
    {state : InMemory.State} (validInMemory : InMemory.Valid state) :
    let ran := performWithin unicode limit fresh (.deleteAll partition scope) database
    let doomed := (spaces database partition).filter fun item =>
      storedHolds unicode item.scope scope
    let twin := InMemory.perform unicode fresh (.deleteAll partition scope) state
    (DeletesAll unicode partition scope ran.1 (spaces database) (spaces ran.2)
        database.committed.log ran.2.committed.log ↔
      0 < limit ∧ doomed.length ≤ limit) ∧
    (¬ (0 < limit ∧ doomed.length ≤ limit) → ran = (.error operationalError, database)) ∧
    DeletesAll unicode partition scope twin.1 (InMemory.spaces state)
      (InMemory.spaces twin.2) state.log twin.2.log := by
  intro ran doomed twin
  have within : ran = if 0 < limit ∧ doomed.length ≤ limit then
      perform unicode fresh (.deleteAll partition scope) database
    else (.error operationalError, database) := deleteAll_within valid flat
  have onSqlite := @(LocalBackend.sqlite codec).deletesAll unicode database valid fresh
    partition scope flat
  refine ⟨⟨fun deletes => ?_, fun fits => ?_⟩, fun exceeds => ?_, ?_⟩
  · by_contra exceeds
    have replied := deletes.1
    rw [within, if_neg exceeds] at replied
    cases replied
  · rw [if_pos fits] at within
    rw [within]
    exact onSqlite
  · rw [within, if_neg exceeds]
  · exact LocalBackend.inMemory.deletesAll validInMemory fresh flat

end DeleteAll

/-! A build that binds at most 32766 parameters, and as many memories and one. -/

open Sqlite in
theorem delete_all_at_any_size_iff_full :
    let database := filled .identity 32766
    let ran := performWithin .ascii 32766 ⟨"", ""⟩ (.deleteAll "s" ∅) database
    DeletesAll .ascii "s" ∅ ran.1 (spaces database) (spaces ran.2)
      database.committed.log ran.2.committed.log := by
  intro database ran
  have fits : ((spaces database "s").filter fun item =>
      storedHolds .ascii item.scope ∅).length ≤ 32766 := by
    rw [← length_spaces_filled .identity 32766]
    exact List.length_filter_le _ _
  exact (@delete_all_at_any_size_iff .ascii "s" ∅ 32766 ⟨"", ""⟩ .identity rfl database
    (valid_filled .identity 32766) {} (InMemory.representation .ascii).valid_initial).1.mpr
      ⟨by decide, fits⟩

open Sqlite in
/-- One memory more, and none of them is deleted. -/
theorem delete_all_refused_by_size :
    let database := filled .identity 32767
    let ran := performWithin .ascii 32766 ⟨"", ""⟩ (.deleteAll "s" ∅) database
    (spaces database "s").length = 32767 ∧ ran = (.error operationalError, database) ∧
      ¬ DeletesAll .ascii "s" ∅ ran.1 (spaces database) (spaces ran.2)
        database.committed.log ran.2.committed.log := by
  intro database ran
  have many : (Space.selected .ascii (some ∅) (spaces database "s")).length = 32767 := by
    refine (congrArg List.length (List.filter_eq_self.mpr fun item _ => rfl)).trans ?_
    exact length_spaces_filled .identity 32767
  have refused : ran = (.error operationalError, database) := by
    refine (deleteAll_within (valid_filled .identity 32767) rfl).trans (if_neg ?_)
    rw [many]
    exact fun fits => absurd fits.2 (by decide)
  refine ⟨length_spaces_filled .identity 32767, refused, fun deletes => ?_⟩
  have replied := deletes.1
  rw [refused] at replied
  cases replied

end Memcp
