import Memcp.Backends.Sqlite.Adapter

/-! The SQLite backend represents the spaces. -/

namespace Memcp.Sqlite

open Python Interaction

variable {codec : JsonCodec} {unicode : Unicode} {fresh : Fresh}
  {tables : Tables codec} {database : Database codec}
  {partition memoryId : String}

/-- The texts of a scope read back from its column. -/
def textsOf (scope : Dict String Json) : Dict String String :=
  scope.map fun _ value => value.str?.getD ""

@[simp] theorem textsOf_textScope (scope : Dict String String) :
    textsOf (textScope scope) = scope := by
  simp [textsOf, textScope, Dict.map_map, Json.str?]

/-! What the tables satisfy between ops. -/

structure Tables.Valid (tables : Tables codec) : Prop where
  ids : (tables.memories.map Row.id).Nodup
  rowids : tables.memories.Pairwise fun first second => first.rowid < second.rowid
  seqs : tables.history.Pairwise fun first second => first.seq < second.seq
  lastSeq : ∀ row ∈ tables.history, row.seq ≤ tables.lastSeq
  logged : ∀ row ∈ tables.history, row.memoryId ∈ tables.memories.map Row.id
  scopes : ∀ row ∈ tables.memories,
    textScope (textsOf (codec.loads row.scope)) = codec.loads row.scope

structure Valid (database : Database codec) : Prop where
  idle : database.pending = none
  tables : database.committed.Valid

def item (history : List HistoryRow) (row : Row codec) : Item where
  id := row.id
  content := row.content
  scope := textsOf (codec.loads row.scope)
  metadata := codec.loads row.metadata
  system := System.ofDict (codec.loads row.system)
  createdAt := row.createdAt
  updatedAt := row.updatedAt
  log := (history.filter fun entry => entry.memoryId = row.id).map historyEntry

def spaces (database : Database codec) : Spaces :=
  spacesOf Row.userId (item database.committed.history)
    database.committed.memories

/-! Reads. -/

theorem Valid.visible (valid : Valid database) :
    database.visible = database.committed := by
  simp [Database.visible, valid.idle]

theorem Tables.Valid.select_eq (valid : tables.Valid) (test : Row codec → Bool) :
    tables.select test = tables.memories.filter test :=
  List.Pairwise.insertionSort_eq
    ((valid.rowids.filter test).imp fun less => Nat.le_of_lt less)

theorem Tables.Valid.selectHistory_eq (valid : tables.Valid) (memoryId : String) :
    tables.selectHistory memoryId =
      tables.history.filter fun row => row.memoryId = memoryId :=
  List.Pairwise.insertionSort_eq
    ((valid.seqs.filter _).imp fun less => Nat.le_of_lt less)

theorem find_spaces (database : Database codec) (partition memoryId : String) :
    Space.find memoryId (spaces database partition) =
      (database.committed.memories.find? fun row =>
        row.id = memoryId && row.userId = partition).map
          (item database.committed.history) := by
  rw [spaces, find_spacesOf]
  simp only [item, Bool.and_comm]
  rfl

theorem run_ownedRow (valid : Valid database) (partition memoryId : String) :
    (ownedRow partition memoryId).run database =
      (.ok (database.committed.memories.find? fun row =>
        row.id = memoryId && row.userId = partition), database) := by
  rw [ownedRow, Sql.run_execute, Database.execute, valid.visible,
    valid.tables.select_eq, List.head?_filter]

theorem owned_cases (valid : Valid database) (partition memoryId : String) :
    ((ownedRow partition memoryId).run database = (.ok none, database) ∧
      Space.find memoryId (spaces database partition) = none) ∨
    ∃ row ∈ database.committed.memories, row.id = memoryId ∧
      row.userId = partition ∧
      (ownedRow partition memoryId).run database = (.ok (some row), database) ∧
      Space.find memoryId (spaces database partition) =
        some (item database.committed.history row) := by
  rw [find_spaces, run_ownedRow valid]
  cases found : database.committed.memories.find? fun row =>
      row.id = memoryId && row.userId = partition with
  | none => exact .inl ⟨rfl, rfl⟩
  | some row =>
      have passes := List.find?_some found
      simp only [Bool.and_eq_true, decide_eq_true_eq] at passes
      exact .inr ⟨row, List.mem_of_find?_eq_some found, passes.1, passes.2,
        rfl, rfl⟩

theorem memory_item (valid : tables.Valid) {row : Row codec}
    (member : row ∈ tables.memories) (score : Option ℚ)
    (history : List HistoryRow) :
    (item history row).memory row.userId score = rowToMemory score row := by
  simp [Item.memory, rowToMemory, item, valid.scopes row member]

theorem scopeMatches_textScope (unicode : Unicode) (stored : Dict String String)
    (scope : Dict String Json) :
    scopeMatches unicode (textScope stored) scope =
      storedHolds unicode stored scope := by
  unfold scopeMatches storedHolds
  refine congrArg _ (funext fun entry => ?_)
  rw [get?_textScope]
  cases stored.get? entry.1 with
  | none => simp
  | some text => exact decide_eq_decide.mpr (by simp)

theorem scopeMatches_row (valid : tables.Valid) {row : Row codec}
    (member : row ∈ tables.memories) (history : List HistoryRow)
    (scope : Dict String Json) :
    scopeMatches unicode (codec.loads row.scope) scope =
      storedHolds unicode (item history row).scope scope := by
  rw [← valid.scopes row member, scopeMatches_textScope]
  rfl

theorem inScope_row (valid : tables.Valid) {row : Row codec}
    (member : row ∈ tables.memories) (history : List HistoryRow)
    (scope : Option (Dict String Json)) :
    inScope unicode scope row =
      storedHolds unicode (item history row).scope (scope.getD ∅) := by
  unfold inScope
  cases given : Dict.given scope with
  | none => simp [Dict.getD_of_given_eq_none given, storedHolds]
  | some requested =>
      obtain ⟨rfl, -⟩ := Dict.given_eq_some_iff.mp given
      exact scopeMatches_row valid member history requested

/-- The rows a scoped read goes through are those of the selected memories. -/
theorem selected_spaces (valid : Valid database) (partition : String)
    (scope : Option (Dict String Json)) :
    Space.selected unicode scope (spaces database partition) =
      ((database.committed.memories.filter fun row => row.userId = partition).filter
        (inScope unicode scope)).map (item database.committed.history) := by
  rw [List.filter_filter]
  refine (selected_spacesOf fun row member _ =>
    inScope_row valid.tables member database.committed.history scope).trans ?_
  simp only [Bool.and_comm]

theorem run_selectPartition (valid : Valid database) (partition : String) :
    (execute (.selectPartition partition)).run database =
      (.ok (database.committed.memories.filter fun row =>
        row.userId = partition), database) := by
  rw [Sql.run_execute, Database.execute, valid.visible, valid.tables.select_eq]

/-! Each call does what the call on the spaces does. -/

theorem search_simulates (query : String) (scope : Option (Dict String Json))
    (limit : Int) (threshold : ℚ) (valid : Valid database) :
    Simulates unicode (store unicode codec) Valid spaces fresh
      (.search partition query scope limit threshold) database := by
  refine .of_read rfl rfl ?_ valid
  cases nested : refuseNestedFilters unicode scope with
  | error error =>
      simp only [store, perform, method, search, Space.search, nested]
      rfl
  | ok =>
      have hits : (slice (ranked (((database.committed.memories.filter
          fun row => row.userId = partition).filter
            (inScope unicode scope)).filterMap fun row =>
              (Keyword.score unicode query row.content).map fun score =>
                (score, row))) 0 limit).map
          (fun hit => rowToMemory (some hit.1) hit.2) =
          (slice (ranked (Space.hits unicode query (Space.selected unicode scope
            (spaces database partition)))) 0 limit).map
            fun hit => hit.2.memory partition (some hit.1) := by
        rw [selected_spaces valid, hits_map, ranked_map, slice_map, List.map_map]
        refine List.map_congr_left fun hit member => ?_
        obtain ⟨row, selected, scored⟩ :=
          List.mem_filterMap.mp (mem_ranked.mp (mem_of_mem_slice member))
        obtain ⟨score, -, rfl⟩ := Option.map_eq_some_iff.mp scored
        obtain ⟨rowMember, owner⟩ :=
          List.mem_filter.mp (List.mem_filter.mp selected).1
        obtain rfl : row.userId = partition := by simpa using owner
        exact (memory_item valid.tables rowMember (some score) _).symm
      simp only [store, perform, method, search, Space.search, nested]
      change Sql.run _ database = _
      rw [Sql.run_bind, run_selectPartition valid]
      simp only [Sql.run_pure, hits]
      rfl

theorem get_simulates (valid : Valid database) :
    Simulates unicode (store unicode codec) Valid spaces fresh
      (.get partition memoryId) database := by
  refine .of_read rfl rfl ?_ valid
  simp only [store, perform, method, get]
  change Sql.run _ database = _
  rw [Sql.run_bind]
  rcases owned_cases valid partition memoryId with
    ⟨missing, absent⟩ | ⟨row, member, rfl, rfl, read, found⟩
  · rw [absent, missing]
    rfl
  · rw [found, read]
    simp [memory_item valid.tables member]

theorem listMemories_simulates (scope : Option (Dict String Json)) (limit : Int)
    (cursor : Option String) (valid : Valid database) :
    Simulates unicode (store unicode codec) Valid spaces fresh
      (.listMemories partition scope limit cursor) database := by
  refine .of_read rfl rfl ?_ valid
  have same : ((database.committed.memories.filter
      fun row => row.userId = partition).filter (inScope unicode scope)).map
        (rowToMemory none) =
      (Space.selected unicode scope (spaces database partition)).map
        (Item.memory partition none) := by
    rw [selected_spaces valid, List.map_map]
    refine List.map_congr_left fun row selected => ?_
    obtain ⟨rowMember, owner⟩ :=
      List.mem_filter.mp (List.mem_filter.mp selected).1
    obtain rfl : row.userId = partition := by simpa using owner
    exact (memory_item valid.tables rowMember none _).symm
  simp only [store, perform, method, listMemories]
  change Sql.run _ database = _
  rw [Sql.run_bind, run_selectPartition valid]
  simp only [Sql.run_lift, same]

theorem history_simulates (valid : Valid database) :
    Simulates unicode (store unicode codec) Valid spaces fresh
      (.history partition memoryId) database := by
  refine .of_read rfl rfl ?_ valid
  simp only [store, perform, method, history, Space.history]
  change Sql.run _ database = _
  rw [Sql.run_bind]
  rcases owned_cases valid partition memoryId with
    ⟨missing, absent⟩ | ⟨row, member, rfl, rfl, read, found⟩
  · rw [absent, missing]
    rfl
  · rw [found, read]
    change Sql.run _ database = _
    rw [Sql.run_bind, Sql.run_execute, Database.execute, valid.visible,
      valid.tables.selectHistory_eq]
    rfl

/-! Writes.  A memory's log is the history rows that name it, so a row added
or dropped under another id leaves it alone. -/

theorem item_append {history : List HistoryRow} {entry : HistoryRow}
    {row : Row codec} (distinct : row.id ≠ entry.memoryId) :
    item (history ++ [entry]) row = item history row := by
  simp [item, List.filter_append, Ne.symm distinct]

theorem Tables.rowid_lt_next {row : Row codec} (member : row ∈ tables.memories) :
    row.rowid < tables.nextRowid := by
  have bounded : ∀ (rowids : List Nat), ∀ rowid ∈ rowids,
      rowid ≤ rowids.foldr max 0 := by
    intro rowids
    induction rowids with
    | nil => simp
    | cons head tail induction =>
        intro rowid listed
        cases listed with
        | head => exact Nat.le_max_left _ _
        | tail _ listed =>
            exact Nat.le_trans (induction rowid listed) (Nat.le_max_right _ _)
  exact Nat.lt_succ_of_le (bounded _ row.rowid (List.mem_map_of_mem member))

theorem Tables.Valid.insertMemory (valid : tables.Valid) {id : String}
    (absent : id ∉ tables.memories.map Row.id) (userId content : String)
    (scope : Dict String String) (metadata system : codec.Text)
    (createdAt : String) :
    (tables.insertMemory id userId content (codec.dumps (textScope scope))
      metadata system createdAt).Valid where
  ids := by
    simp only [Tables.insertMemory, List.map_append, List.map_cons, List.map_nil]
    exact List.nodup_append.mpr
      ⟨valid.ids, by simp, fun left member right listed same =>
        absent (by simpa [← List.mem_singleton.mp listed, ← same] using member)⟩
  rowids := by
    refine List.pairwise_append.mpr ⟨valid.rowids, by simp, ?_⟩
    intro first member second listed
    rw [List.mem_singleton.mp listed]
    exact Tables.rowid_lt_next member
  seqs := valid.seqs
  lastSeq := valid.lastSeq
  logged row member := by
    simp only [Tables.insertMemory, List.map_append, List.mem_append]
    exact .inl (valid.logged row member)
  scopes row member := by
    rcases List.mem_append.mp member with old | new
    · exact valid.scopes row old
    · rw [List.mem_singleton.mp new]
      simp

theorem Tables.Valid.insertHistory (valid : tables.Valid) {memoryId : String}
    (stored : memoryId ∈ tables.memories.map Row.id) (action timestamp : String)
    (before after author : Option String) :
    (tables.insertHistory memoryId action timestamp before after author).Valid where
  ids := valid.ids
  rowids := valid.rowids
  seqs := by
    refine List.pairwise_append.mpr ⟨valid.seqs, by simp, ?_⟩
    intro first member second listed
    rw [List.mem_singleton.mp listed]
    exact Nat.lt_succ_of_le (valid.lastSeq first member)
  lastSeq row member := by
    rcases List.mem_append.mp member with old | new
    · exact Nat.le_succ_of_le (valid.lastSeq row old)
    · rw [List.mem_singleton.mp new]
      exact Nat.le_refl _
  logged row member := by
    rcases List.mem_append.mp member with old | new
    · exact valid.logged row old
    · rw [List.mem_singleton.mp new]
      exact stored
  scopes := valid.scopes

theorem Tables.Valid.drop (valid : tables.Valid) (ids : List String) :
    ((tables.deleteMemories ids).deleteHistory ids).Valid where
  ids := (List.filter_sublist.map Row.id).nodup valid.ids
  rowids := valid.rowids.filter _
  seqs := valid.seqs.filter _
  lastSeq row member := valid.lastSeq row (List.mem_of_mem_filter member)
  logged row member := by
    obtain ⟨listed, kept⟩ := List.mem_filter.mp member
    obtain ⟨memory, memoryMember, same⟩ :=
      List.mem_map.mp (valid.logged row listed)
    refine List.mem_map.mpr ⟨memory, List.mem_filter.mpr ⟨memoryMember, ?_⟩, same⟩
    simpa [same] using kept
  scopes row member := valid.scopes row (List.mem_of_mem_filter member)

theorem Tables.ids_updateMemory (content updatedAt : String)
    (metadata system : codec.Text) (id : String) :
    (tables.updateMemory content updatedAt metadata system id).memories.map Row.id =
      tables.memories.map Row.id := by
  simp only [Tables.updateMemory, List.map_map]
  refine List.map_congr_left fun row _ => ?_
  simp only [Function.comp_apply]
  split <;> rfl

theorem Tables.Valid.updateMemory (valid : tables.Valid)
    (content updatedAt : String) (metadata system : codec.Text) (id : String) :
    (tables.updateMemory content updatedAt metadata system id).Valid where
  ids := by
    rw [Tables.ids_updateMemory]
    exact valid.ids
  rowids := by
    refine List.pairwise_map.mpr (valid.rowids.imp fun {first second} less => ?_)
    split <;> split <;> exact less
  seqs := valid.seqs
  lastSeq := valid.lastSeq
  logged row member := by
    rw [Tables.ids_updateMemory]
    exact valid.logged row member
  scopes row member := by
    obtain ⟨memory, memoryMember, rfl⟩ := List.mem_map.mp member
    split <;> exact valid.scopes memory memoryMember

theorem absent_of_unused (unused : (spaces database).Unused memoryId) :
    memoryId ∉ database.committed.memories.map Row.id := by
  intro listed
  obtain ⟨row, member, same⟩ := List.mem_map.mp listed
  exact unused row.userId _ (mem_spacesOf.mpr ⟨row, member, rfl, rfl⟩) same

theorem add_simulates (content : String)
    (scope metadata : Option (Dict String Json)) (infer : Bool)
    (system : Option System) (valid : Valid database)
    (unused : (spaces database).Unused fresh.id) :
    Simulates unicode (store unicode codec) Valid spaces fresh
      (.add partition content scope metadata infer system) database := by
  cases nested : refuseNestedFilters unicode scope with
  | error error =>
      have abstract : Space.perform unicode fresh
          (.add partition content scope metadata infer system)
          (spaces database partition) =
          (.error error, spaces database partition) := by
        simp only [Space.perform, Space.add, nested]
      refine .of_read rfl abstract ?_ valid
      simp only [store, perform, method, add, nested]
      rfl
  | ok =>
      cases reserved : refuseReservedMetadata unicode (metadata.getD ∅).keys with
      | error error =>
          have abstract : Space.perform unicode fresh
              (.add partition content scope metadata infer system)
              (spaces database partition) =
              (.error error, spaces database partition) := by
            simp only [Space.perform, Space.add, nested, reserved]
          refine .of_read rfl abstract ?_ valid
          simp only [store, perform, method, add, nested, reserved]
          rfl
      | ok =>
          have absent := absent_of_unused unused
          let inserted := database.committed.insertMemory fresh.id partition content
            (codec.dumps (textScope (scopeAsText unicode (scope.getD ∅))))
            (codec.dumps (metadata.getD ∅)) (codec.dumps (system.getD {}).toDict)
            fresh.now
          let logged := inserted.insertHistory fresh.id "created" fresh.now none
            (some content) (system.getD {}).author
          have abstract : Space.perform unicode fresh
              (.add partition content scope metadata infer system)
              (spaces database partition) =
              (.ok (.many [{ id := fresh.id, createdAt := fresh.now }]),
                spaces database partition ++
                  [Item.added unicode fresh content scope metadata system]) := by
            simp only [Space.perform, Space.add, nested, reserved]
          have concrete : (store unicode codec).perform fresh
              (.add partition content scope metadata infer system) database =
              (.ok (.many [{ id := fresh.id, createdAt := fresh.now }]),
                { committed := logged }) := by
            have free : (database.committed.memories.any fun row =>
                row.id = fresh.id) = false := by
              simpa using absent
            simp only [store, perform, method, add, nested, reserved]
            change Sql.run _ database = _
            rw [Sql.run_bind, Sql.run_transaction, Sql.run_bind, Sql.run_execute]
            simp only [Database.execute, Database.write, valid.visible, free,
              Bool.false_eq_true, if_false]
            rfl
          have insertedValid : inserted.Valid :=
            valid.tables.insertMemory absent partition content _ _ _ fresh.now
          refine .of_step rfl abstract concrete ⟨rfl, ?_⟩ ?_
          · exact insertedValid.insertHistory (by simp [inserted, Tables.insertMemory])
              _ _ _ _ _
          · change spacesOf Row.userId (item (database.committed.history ++ [_]))
              (database.committed.memories ++ [_]) = _
            rw [spacesOf_append]
            have kept : ∀ entry : HistoryRow, entry.memoryId = fresh.id →
                spacesOf Row.userId
                  (item (database.committed.history ++ [entry]))
                  database.committed.memories = spaces database := by
              intro entry names
              refine spacesOf_congr fun row member => item_append ?_
              rw [names]
              exact fun same => absent (List.mem_map.mpr ⟨row, member, same⟩)
            have unlogged : (database.committed.history.filter fun entry =>
                entry.memoryId = fresh.id) = [] := by
              refine List.filter_eq_nil_iff.mpr fun entry member names => ?_
              exact absent (by
                simpa [of_decide_eq_true names] using
                  valid.tables.logged entry member)
            rw [kept _ rfl]
            simp [item, Item.added, List.filter_append, unlogged, historyEntry,
              HistoryEntry.created]

/-- Dropping memories of one partition, with their logs. -/
theorem spaces_of_dropped {ids : List String} {keepItem : Item → Bool}
    (others : ∀ row ∈ database.committed.memories, row.userId ≠ partition →
      row.id ∉ ids)
    (own : ∀ row ∈ database.committed.memories, row.userId = partition →
      decide (row.id ∉ ids) = keepItem (item database.committed.history row)) :
    spaces { committed :=
        (database.committed.deleteMemories ids).deleteHistory ids } =
      Function.update (spaces database) partition
        ((spaces database partition).filter keepItem) := by
  have logs : ∀ row : Row codec, row.id ∉ ids →
      item (database.committed.history.filter fun entry => entry.memoryId ∉ ids)
        row = item database.committed.history row := by
    intro row kept
    simp only [item, List.filter_filter]
    have same : (database.committed.history.filter fun entry =>
        decide (entry.memoryId = row.id) && decide (entry.memoryId ∉ ids)) =
        database.committed.history.filter fun entry => entry.memoryId = row.id := by
      refine List.filter_congr fun entry _ => ?_
      rcases eq_or_ne entry.memoryId row.id with names | differs
      · simp [names, kept]
      · simp [differs]
    rw [same]
  change spacesOf Row.userId (item (database.committed.history.filter
    fun entry => entry.memoryId ∉ ids)) (database.committed.memories.filter
      fun row => row.id ∉ ids) = _
  have same : spacesOf Row.userId (item (database.committed.history.filter
      fun entry => entry.memoryId ∉ ids)) (database.committed.memories.filter
        fun row => row.id ∉ ids) =
      spacesOf Row.userId (item database.committed.history)
        (database.committed.memories.filter fun row => row.id ∉ ids) :=
    spacesOf_congr fun row member =>
      logs row (by simpa using (List.mem_filter.mp member).2)
  rw [same]
  exact spacesOf_filter
    (fun row member foreign => decide_eq_true (others row member foreign)) own

theorem row_unique (valid : tables.Valid) {left right : Row codec}
    (leftMember : left ∈ tables.memories) (rightMember : right ∈ tables.memories)
    (same : left.id = right.id) : left = right :=
  List.inj_on_of_nodup_map valid.ids leftMember rightMember same

theorem find_of_mem (valid : tables.Valid) {row : Row codec}
    (member : row ∈ tables.memories) :
    (tables.memories.find? fun other =>
      other.id = row.id && other.userId = row.userId) = some row := by
  have found : (tables.memories.find? fun other =>
      other.id = row.id && other.userId = row.userId).isSome = true := by
    rw [List.find?_isSome]
    exact ⟨row, member, by simp⟩
  obtain ⟨first, found⟩ := Option.isSome_iff_exists.mp found
  have passes := List.find?_some found
  simp only [Bool.and_eq_true, decide_eq_true_eq] at passes
  rw [found, row_unique valid (List.mem_of_find?_eq_some found) member passes.1]

theorem delete_simulates (valid : Valid database) :
    Simulates unicode (store unicode codec) Valid spaces fresh
      (.delete partition memoryId) database := by
  rcases owned_cases valid partition memoryId with
    ⟨missing, absent⟩ | ⟨row, member, rfl, rfl, read, found⟩
  · have abstract : Space.perform unicode fresh (.delete partition memoryId)
        (spaces database partition) =
        (.error notFound, spaces database partition) := by
      simp only [Space.perform, Space.delete, absent]
    refine .of_read rfl abstract ?_ valid
    simp only [store, perform, method, delete]
    change Sql.run _ database = _
    rw [Sql.run_bind, missing]
    rfl
  · have abstract : Space.perform unicode fresh (.delete row.userId row.id)
        (spaces database row.userId) =
        (.ok true, (spaces database row.userId).filter
          fun item => item.id ≠ row.id) := by
      simp only [Space.perform, Space.delete, found]
    have concrete : (store unicode codec).perform fresh
        (.delete row.userId row.id) database =
        (.ok true, { committed :=
          (database.committed.deleteMemories [row.id]).deleteHistory [row.id] }) := by
      simp only [store, perform, method, delete]
      change Sql.run _ database = _
      rw [Sql.run_bind, read]
      simp only
      rw [Sql.run_bind, Sql.run_transaction, Sql.run_bind, Sql.run_execute]
      simp only [Database.execute, Database.write, valid.visible]
      rfl
    refine .of_step rfl abstract concrete ⟨rfl, valid.tables.drop _⟩ ?_
    refine spaces_of_dropped ?_ fun other _ _ =>
      decide_eq_decide.mpr (by simp [item])
    intro other otherMember foreign listed
    have same := row_unique valid.tables otherMember member
      (List.mem_singleton.mp listed)
    exact foreign (by rw [same])

/-- The rows a `delete_all` selects. -/
def matching (unicode : Unicode) (partition : String) (scope : Dict String Json)
    (database : Database codec) : List (Row codec) :=
  (database.committed.memories.filter fun row => row.userId = partition).filter
    fun row => scopeMatches unicode (codec.loads row.scope) scope

theorem selected_matching (valid : Valid database) (scope : Dict String Json) :
    Space.selected unicode (some scope) (spaces database partition) =
      (matching unicode partition scope database).map
        (item database.committed.history) := by
  rw [matching, List.filter_filter]
  refine (selected_spacesOf fun row member _ =>
    scopeMatches_row valid.tables member database.committed.history scope).trans ?_
  simp only [Bool.and_comm]

theorem deleteAll_simulates (scope : Dict String Json) (valid : Valid database) :
    Simulates unicode (store unicode codec) Valid spaces fresh
      (.deleteAll partition scope) database := by
  cases nested : rejectNestedFilters unicode scope with
  | error error =>
      have abstract : Space.perform unicode fresh (.deleteAll partition scope)
          (spaces database partition) =
          (.error error, spaces database partition) := by
        simp only [Space.perform, Space.deleteAll, nested]
      refine .of_read rfl abstract ?_ valid
      simp only [store, perform, method, deleteAll, nested]
      rfl
  | ok =>
      let doomed := (matching unicode partition scope database).map Row.id
      have count : (Space.selected unicode (some scope)
          (spaces database partition)).length = doomed.length := by
        simp [selected_matching valid, doomed]
      have abstract : Space.perform unicode fresh (.deleteAll partition scope)
          (spaces database partition) = (.ok (some doomed.length),
            (spaces database partition).filter fun item =>
              !storedHolds unicode item.scope scope) := by
        simp only [Space.perform, Space.deleteAll, nested, count]
      have ofDoomed : ∀ row ∈ database.committed.memories, row.id ∈ doomed →
          row.userId = partition ∧
            scopeMatches unicode (codec.loads row.scope) scope = true := by
        intro row member listed
        obtain ⟨other, picked, same⟩ := List.mem_map.mp listed
        obtain ⟨owned, test⟩ := List.mem_filter.mp picked
        obtain ⟨otherMember, owner⟩ := List.mem_filter.mp owned
        obtain rfl := row_unique valid.tables otherMember member same
        exact ⟨by simpa using owner, test⟩
      have dropped : spaces { committed :=
            (database.committed.deleteMemories doomed).deleteHistory doomed } =
          Function.update (spaces database) partition
            ((spaces database partition).filter fun item =>
              !storedHolds unicode item.scope scope) := by
        refine spaces_of_dropped
          (fun row member foreign listed => foreign (ofDoomed row member listed).1)
          fun row member own => ?_
        have listed : row.id ∈ doomed ↔
            scopeMatches unicode (codec.loads row.scope) scope = true := by
          refine ⟨fun listed => (ofDoomed row member listed).2, fun holds => ?_⟩
          exact List.mem_map.mpr ⟨row, List.mem_filter.mpr
            ⟨List.mem_filter.mpr ⟨member, by simpa using own⟩, holds⟩, rfl⟩
        rw [← scopeMatches_row valid.tables member]
        simp [listed]
      rcases eq_or_ne doomed [] with empty | nonempty
      · have concrete : (store unicode codec).perform fresh
            (.deleteAll partition scope) database =
            (.ok (some doomed.length), database) := by
          simp only [store, perform, method, deleteAll, nested]
          change Sql.run _ database = _
          rw [Sql.run_bind, run_selectPartition valid]
          change Sql.run (if doomed = [] then _ else _) database = _
          rw [if_pos empty, empty]
          rfl
        have untouched : spaces { committed :=
            (database.committed.deleteMemories doomed).deleteHistory doomed } =
            spaces database := by
          simp [spaces, Tables.deleteMemories, Tables.deleteHistory, empty]
        exact .of_step rfl abstract concrete valid (untouched ▸ dropped)
      · have concrete : (store unicode codec).perform fresh
            (.deleteAll partition scope) database =
            (.ok (some doomed.length), { committed :=
              (database.committed.deleteMemories doomed).deleteHistory doomed }) := by
          simp only [store, perform, method, deleteAll, nested]
          change Sql.run _ database = _
          rw [Sql.run_bind, run_selectPartition valid]
          change Sql.run (if doomed = [] then _ else _) database = _
          rw [if_neg nonempty, Sql.run_bind, Sql.run_transaction, Sql.run_bind,
            Sql.run_execute]
          simp only [Database.execute, Database.write, valid.visible]
          rfl
        exact .of_step rfl abstract concrete ⟨rfl, valid.tables.drop _⟩ dropped

theorem update_simulates (content : Option String) (patch : Option MetadataPatch)
    (system : Option System) (valid : Valid database) :
    Simulates unicode (store unicode codec) Valid spaces fresh
      (.update partition memoryId content patch system) database := by
  cases reserved : refuseReservedMetadata unicode
      (patch.elim [] MetadataPatch.keys) with
  | error error =>
      have abstract : Space.perform unicode fresh
          (.update partition memoryId content patch system)
          (spaces database partition) =
          (.error error, spaces database partition) := by
        simp only [Space.perform, Space.update, reserved]
      refine .of_read rfl abstract ?_ valid
      simp only [store, perform, method, update, reserved]
      rfl
  | ok =>
      rcases owned_cases valid partition memoryId with
        ⟨missing, absent⟩ | ⟨row, member, rfl, rfl, read, found⟩
      · have abstract : Space.perform unicode fresh
            (.update partition memoryId content patch system)
            (spaces database partition) =
            (.error notFound, spaces database partition) := by
          simp only [Space.perform, Space.update, reserved, absent]
        refine .of_read rfl abstract ?_ valid
        simp only [store, perform, method, update, reserved]
        change Sql.run _ database = _
        rw [Sql.run_bind, missing]
        rfl
      · let newContent := content.getD row.content
        let newSystem := system.getD (System.ofDict (codec.loads row.system))
        let metadata := patch.elim (codec.loads row.metadata) fun patch =>
          patch.apply (codec.loads row.metadata)
        let changedRow : Row codec := { row with
          content := newContent
          updatedAt := some fresh.now
          metadata := codec.dumps metadata
          system := codec.dumps newSystem.toDict }
        let changed := (item database.committed.history row).changed fresh.now
          content patch system
        let updated := database.committed.updateMemory newContent fresh.now
          (codec.dumps metadata) (codec.dumps newSystem.toDict) row.id
        let logged := updated.insertHistory row.id "updated" fresh.now
          (some row.content) (some newContent) newSystem.author
        have abstract : Space.perform unicode fresh
            (.update row.userId row.id content patch system)
            (spaces database row.userId) =
            (.ok (changed.memory row.userId none),
              (spaces database row.userId).map fun other =>
                if other.id = row.id then changed else other) := by
          simp only [Space.perform, Space.update, reserved, found]
          rfl
        have updatedValid : updated.Valid := valid.tables.updateMemory _ _ _ _ _
        have stillStored : row.id ∈ updated.memories.map Row.id := by
          rw [Tables.ids_updateMemory]
          exact List.mem_map_of_mem member
        have loggedValid : logged.Valid :=
          updatedValid.insertHistory stillStored _ _ _ _ _
        have changedMember : changedRow ∈ logged.memories :=
          List.mem_map.mpr ⟨row, member, if_pos rfl⟩
        have stands : item logged.history changedRow = changed := by
          simp [item, changed, Item.changed, changedRow, logged, updated,
            Tables.insertHistory, Tables.updateMemory, newContent, newSystem,
            metadata, historyEntry, HistoryEntry.updated, List.filter_append]
        have readBack : (ownedRow row.userId row.id).run { committed := logged } =
            (.ok (some changedRow), { committed := logged }) := by
          rw [run_ownedRow ⟨rfl, loggedValid⟩]
          exact congrArg (fun found => (Except.ok found, _))
            (find_of_mem loggedValid changedMember)
        have concrete : (store unicode codec).perform fresh
            (.update row.userId row.id content patch system) database =
            (.ok (rowToMemory none changedRow), { committed := logged }) := by
          simp only [store, perform, method, update, reserved]
          change Sql.run _ database = _
          rw [Sql.run_bind, read]
          simp only
          rw [Sql.run_bind, Sql.run_transaction, Sql.run_bind, Sql.run_execute]
          simp only [Database.execute, Database.write, valid.visible]
          change Sql.run _ { committed := logged } = _
          rw [Sql.run_bind, readBack]
          rfl
        rw [← memory_item loggedValid changedMember none logged.history, stands]
          at concrete
        refine .of_step rfl abstract concrete ⟨rfl, loggedValid⟩ ?_
        refine spacesOf_map ?_ ?_ ?_
        · intro other _
          split <;> rfl
        · intro other otherMember foreign
          have distinct : other.id ≠ row.id := fun same =>
            foreign (by rw [row_unique valid.tables otherMember member same])
          rw [if_neg distinct]
          exact item_append distinct
        · intro other otherMember own
          rcases eq_or_ne other.id row.id with same | distinct
          · rw [row_unique valid.tables otherMember member same, if_pos rfl,
              if_pos (by rfl)]
            exact stands
          · rw [if_neg distinct, if_neg (by exact distinct)]
            exact item_append distinct

/-- The SQLite backend represents the spaces. -/
def representation (unicode : Unicode) (codec : JsonCodec) :
    Representation unicode (store unicode codec) where
  valid := Valid
  spaces := spaces
  valid_initial := ⟨rfl, ⟨List.nodup_nil, .nil, .nil, nofun, nofun, nofun⟩⟩
  spaces_initial := rfl
  step fresh call state valid unused := by
    cases call with
    | add partition content scope metadata infer system =>
        exact add_simulates content scope metadata infer system valid (unused rfl)
    | search partition query scope limit threshold =>
        exact search_simulates query scope limit threshold valid
    | get partition memoryId => exact get_simulates valid
    | update partition memoryId content patch system =>
        exact update_simulates content patch system valid
    | delete partition memoryId => exact delete_simulates valid
    | deleteAll partition scope => exact deleteAll_simulates scope valid
    | listMemories partition scope limit cursor =>
        exact listMemories_simulates scope limit cursor valid
    | history partition memoryId => exact history_simulates valid
    | entities partition scope limit => exact .of_read rfl rfl rfl valid
    | capabilities => exact ⟨rfl, valid, rfl⟩

end Memcp.Sqlite
