import Memcp.Backends.Spaces

/-!
The in-memory backend: memories in one dictionary over all partitions, and
their change logs in another.
-/

namespace Memcp

open Python

namespace InMemory

/-- A value of `_store`; its key is the memory's id. -/
structure Entry where
  userId : String
  content : String
  scope : Dict String String
  metadata : Dict String Json
  system : System
  createdAt : String
  updatedAt : Option String

structure State where
  store : Dict String Entry := ∅
  history : Dict String (List HistoryEntry) := ∅

def entryToMemory (score : Option ℚ) (mid : String) (entry : Entry) : Memory where
  id := mid
  content := entry.content
  score := score
  scope := textScope entry.scope
  metadata := entry.metadata
  createdAt := entry.createdAt
  updatedAt := entry.updatedAt
  partition := entry.userId
  system := entry.system

/-- `all(entry_scope.get(k) == scope_text(v) for k, v in scope.items())`. -/
def scopeMatches (unicode : Unicode) (entryScope : Dict String String)
    (scope : Dict String Json) : Bool :=
  scope.entries.all fun entry =>
    entryScope.get? entry.1 = some (scopeText unicode entry.2)

/-- The entries of a partition, in scope when a scope is given. -/
def selected (unicode : Unicode) (partition : String)
    (scope : Option (Dict String Json)) (state : State) : List (String × Entry) :=
  state.store.entries.filter fun (_, entry) =>
    entry.userId = partition &&
      match Dict.given scope with
      | none => true
      | some scope => scopeMatches unicode entry.scope scope

/-- The entry of a memory of the partition, if there is one. -/
def owned (partition memoryId : String) (state : State) : Except Exc Entry :=
  match state.store.get? memoryId with
  | none => .error notFound
  | some entry =>
      if entry.userId = partition then .ok entry else .error notFound

variable (unicode : Unicode)

def newEntry (fresh : Fresh) (partition content : String)
    (scope metadata : Option (Dict String Json)) (system : Option System) :
    Entry where
  userId := partition
  content := content
  scope := scopeAsText unicode (scope.getD ∅)
  metadata := metadata.getD ∅
  system := system.getD {}
  createdAt := fresh.now
  updatedAt := none

def add (fresh : Fresh) (partition content : String)
    (scope metadata : Option (Dict String Json)) (system : Option System)
    (state : State) : Except Exc (AddReturn × State) := do
  refuseNestedFilters unicode scope
  refuseReservedMetadata unicode (metadata.getD ∅).keys
  return (.many [{ id := fresh.id, status := "ready", createdAt := fresh.now }],
    { store := state.store.set fresh.id
        (newEntry unicode fresh partition content scope metadata system)
      history := state.history.set fresh.id
        [.created fresh.now content (system.getD {}).author] })

def search (partition query : String) (scope : Option (Dict String Json))
    (limit : Int) (state : State) : Except Exc (List Memory) := do
  refuseNestedFilters unicode scope
  let results := (selected unicode partition scope state).filterMap
    fun (mid, entry) =>
      (Keyword.score unicode query entry.content).map fun relevance =>
        (relevance, mid, entry)
  return (slice (ranked results) 0 limit).map fun (score, mid, entry) =>
    entryToMemory (some score) mid entry

def delete (partition memoryId : String) (state : State) :
    Except Exc (Bool × State) := do
  let _ ← owned partition memoryId state
  return (true, { store := state.store.erase memoryId
                  history := state.history.erase memoryId })

def deleteAll (partition : String) (scope : Dict String Json) (state : State) :
    Except Exc (Option Nat × State) := do
  rejectNestedFilters unicode scope
  let toDelete := (state.store.entries.filter fun (_, entry) =>
    entry.userId = partition && scopeMatches unicode entry.scope scope).map Prod.fst
  return (some toDelete.length,
    { store := toDelete.foldl Dict.erase state.store
      history := toDelete.foldl Dict.erase state.history })

def get (partition memoryId : String) (state : State) : Option Memory :=
  match state.store.get? memoryId with
  | none => none
  | some entry =>
      if entry.userId = partition then some (entryToMemory none memoryId entry)
      else none

def changedEntry (now : String) (content : Option String)
    (patch : Option MetadataPatch) (system : Option System) (entry : Entry) :
    Entry :=
  { entry with
    content := content.getD entry.content
    updatedAt := some now
    metadata := patch.elim entry.metadata fun patch => patch.apply entry.metadata
    system := system.getD entry.system }

/-- Append to the change log of a memory that has one. -/
def logUpdate (memoryId : String) (event : HistoryEntry)
    (history : Dict String (List HistoryEntry)) : Dict String (List HistoryEntry) :=
  match history.get? memoryId with
  | none => history
  | some log => history.set memoryId (log ++ [event])

def update (now partition memoryId : String) (content : Option String)
    (patch : Option MetadataPatch) (system : Option System) (state : State) :
    Except Exc (Memory × State) := do
  refuseReservedMetadata unicode (patch.elim [] MetadataPatch.keys)
  let entry ← owned partition memoryId state
  let changed := changedEntry now content patch system entry
  return (entryToMemory none memoryId changed,
    { store := state.store.set memoryId changed
      history := logUpdate memoryId (.updated now entry.content changed.content
        changed.system.author) state.history })

def listMemories (partition : String) (scope : Option (Dict String Json))
    (limit : Int) (cursor : Option String) (state : State) :
    Except Exc ListResult :=
  paginate unicode ((selected unicode partition scope state).map
    fun (mid, entry) => entryToMemory none mid entry) cursor limit

def history (partition memoryId : String) (state : State) :
    Except Exc (List HistoryEntry) := do
  let _ ← owned partition memoryId state
  return (state.history.get? memoryId).getD []

/-- The outcome of a call; one that raises leaves the state as it was. -/
def outcome {α : Type} (state : State) (result : Except Exc (α × State)) :
    Except Exc α × State :=
  match result with
  | .ok (value, later) => (.ok value, later)
  | .error error => (.error error, state)

/-- `refuse_partition` comes first in each method and refuses nothing here. -/
def perform (fresh : Fresh) : (call : BackendCall) → State →
    Except Exc call.Result × State
  | .add partition content scope metadata _ system, state =>
      outcome state (add unicode fresh partition content scope metadata system state)
  | .search partition query scope limit _, state =>
      (search unicode partition query scope limit state, state)
  | .get partition memoryId, state => (.ok (get partition memoryId state), state)
  | .update partition memoryId content patch system, state =>
      outcome state
        (update unicode fresh.now partition memoryId content patch system state)
  | .delete partition memoryId, state =>
      outcome state (delete partition memoryId state)
  | .deleteAll partition scope, state =>
      outcome state (deleteAll unicode partition scope state)
  | .listMemories partition scope limit cursor, state =>
      (listMemories unicode partition scope limit cursor state, state)
  | .history partition memoryId, state =>
      (history partition memoryId state, state)
  | .entities .., state => (.error (.other "NotImplementedError"), state)
  | .capabilities, state => (.ok localCapabilities, state)

def store : Store where
  State := State
  initial := {}
  perform := perform unicode

/-! The spaces a state stands for. -/

def item (history : Dict String (List HistoryEntry)) (row : String × Entry) :
    Item where
  id := row.1
  content := row.2.content
  scope := row.2.scope
  metadata := row.2.metadata
  system := row.2.system
  createdAt := row.2.createdAt
  updatedAt := row.2.updatedAt
  log := (history.get? row.1).getD []

def spaces (state : State) : Spaces :=
  spacesOf (fun row => row.2.userId) (item state.history) state.store.entries

/-- The memories with a change log are the stored ones. -/
def Valid (state : State) : Prop :=
  ∀ memoryId, memoryId ∈ state.history ↔ memoryId ∈ state.store

variable {unicode : Unicode} {state : State} {fresh : Fresh}
  {partition memoryId : String}

theorem absent_of_unused (unused : (spaces state).Unused fresh.id) :
    fresh.id ∉ state.store := by
  intro member
  obtain ⟨entry, stored⟩ := Dict.mem_iff_exists.mp member
  exact unused entry.userId _ (mem_spacesOf.mpr ⟨_, stored, rfl, rfl⟩) rfl

theorem item_congr {left right : Dict String (List HistoryEntry)}
    {row : String × Entry} (same : left.get? row.1 = right.get? row.1) :
    item left row = item right row := by
  simp [item, same]

theorem find_spaces (state : State) (partition memoryId : String) :
    Space.find memoryId (spaces state partition) =
      ((state.store.get? memoryId).filter fun entry =>
        entry.userId = partition).map fun entry =>
          item state.history (memoryId, entry) := by
  have found := state.store.find?_entries
    (fun _ entry => entry.userId = partition) memoryId
  rw [spaces, find_spacesOf]
  exact (congrArg (Option.map (item state.history)) found).trans
    (Option.map_map ..)

theorem owned_cases (state : State) (partition memoryId : String) :
    (owned partition memoryId state = .error notFound ∧
      get partition memoryId state = none ∧
      Space.find memoryId (spaces state partition) = none) ∨
    ∃ entry, state.store.get? memoryId = some entry ∧
      entry.userId = partition ∧
      owned partition memoryId state = .ok entry ∧
      get partition memoryId state = some (entryToMemory none memoryId entry) ∧
      Space.find memoryId (spaces state partition) =
        some (item state.history (memoryId, entry)) := by
  rw [find_spaces]
  unfold owned get
  cases stored : state.store.get? memoryId with
  | none => exact .inl ⟨rfl, rfl, rfl⟩
  | some entry =>
      rcases eq_or_ne entry.userId partition with same | differ
      · exact .inr ⟨entry, by simp [same]⟩
      · exact .inl (by simp [differ])

theorem selected_spaces (state : State) (partition : String)
    (scope : Option (Dict String Json)) :
    Space.selected unicode scope (spaces state partition) =
      (selected unicode partition scope state).map (item state.history) := by
  refine selected_spacesOf fun row _ _ => ?_
  cases given : Dict.given scope with
  | none => simp [Dict.getD_of_given_eq_none given, storedHolds]
  | some requested =>
      obtain ⟨rfl, -⟩ := Dict.given_eq_some_iff.mp given
      rfl

/-- Dropping memories of one partition, with their logs. -/
theorem spaces_of_dropped {later : State} (keep : String → Bool)
    {keepItem : Item → Bool}
    (rows : later.store.entries = state.store.entries.filter fun row => keep row.1)
    (logs : ∀ memoryId, keep memoryId = true →
      later.history.get? memoryId = state.history.get? memoryId)
    (others : ∀ row ∈ state.store.entries, row.2.userId ≠ partition →
      keep row.1 = true)
    (own : ∀ row ∈ state.store.entries, row.2.userId = partition →
      keep row.1 = keepItem (item state.history row)) :
    spaces later =
      Function.update (spaces state) partition
        ((spaces state partition).filter keepItem) := by
  unfold spaces
  rw [rows]
  have same : spacesOf (fun row => row.2.userId) (item later.history)
      (state.store.entries.filter fun row => keep row.1) =
      spacesOf (fun row => row.2.userId) (item state.history)
        (state.store.entries.filter fun row => keep row.1) :=
    spacesOf_congr fun row member =>
      item_congr (logs row.1 (List.mem_filter.mp member).2)
  rw [same]
  exact spacesOf_filter others own

/-! Each call does what the call on the spaces does. -/

/-- A selected row is shown as a memory of the partition it was selected in. -/
theorem memory_item {scope : Option (Dict String Json)} {row : String × Entry}
    (member : row ∈ selected unicode partition scope state)
    (score : Option ℚ) :
    (item state.history row).memory partition score =
      entryToMemory score row.1 row.2 := by
  have owner := (List.mem_filter.mp member).2
  simp only [Bool.and_eq_true, decide_eq_true_eq] at owner
  obtain ⟨rfl, -⟩ := owner
  rfl

theorem add_simulates (content : String)
    (scope metadata : Option (Dict String Json)) (infer : Bool)
    (system : Option System) (valid : Valid state)
    (unused : (spaces state).Unused fresh.id) :
    Simulates unicode (store unicode) Valid spaces fresh
      (.add partition content scope metadata infer system) state := by
  have absent := absent_of_unused unused
  cases nested : refuseNestedFilters unicode scope with
  | error error =>
      have abstract : Space.perform unicode fresh
          (.add partition content scope metadata infer system)
          (spaces state partition) = (.error error, spaces state partition) := by
        simp only [Space.perform, Space.add, nested]
      refine .of_read rfl abstract ?_ valid
      simp only [store, perform, add, nested]
      rfl
  | ok =>
      cases reserved : refuseReservedMetadata unicode (metadata.getD ∅).keys with
      | error error =>
          have abstract : Space.perform unicode fresh
              (.add partition content scope metadata infer system)
              (spaces state partition) = (.error error, spaces state partition) := by
            simp only [Space.perform, Space.add, nested, reserved]
          refine .of_read rfl abstract ?_ valid
          simp only [store, perform, add, nested, reserved]
          rfl
      | ok =>
          have abstract : Space.perform unicode fresh
              (.add partition content scope metadata infer system)
              (spaces state partition) =
              (.ok (.many [{ id := fresh.id, createdAt := fresh.now }]),
                spaces state partition ++
                  [Item.added unicode fresh content scope metadata system]) := by
            simp only [Space.perform, Space.add, nested, reserved]
          have concrete : (store unicode).perform fresh
              (.add partition content scope metadata infer system) state =
              (.ok (.many [{ id := fresh.id, createdAt := fresh.now }]),
                { store := state.store.set fresh.id
                    (newEntry unicode fresh partition content scope metadata system)
                  history := state.history.set fresh.id
                    [.created fresh.now content (system.getD {}).author] }) := by
            simp only [store, perform, add, nested, reserved]
            rfl
          refine .of_step rfl abstract concrete ?_ ?_
          · intro memoryId
            simp [valid memoryId]
          · simp only [spaces, Dict.entries_set_of_not_mem absent]
            rw [spacesOf_append]
            have kept : spacesOf (fun row => row.2.userId)
                (item (state.history.set fresh.id
                  [.created fresh.now content (system.getD {}).author]))
                state.store.entries = spaces state := by
              refine spacesOf_congr fun row member => item_congr ?_
              have distinct : row.1 ≠ fresh.id := fun same =>
                absent (same ▸ Dict.mem_iff_exists.mpr ⟨row.2, member⟩)
              simp [Dict.get?_set, distinct]
            have last : item (state.history.set fresh.id
                [.created fresh.now content (system.getD {}).author])
                (fresh.id,
                  newEntry unicode fresh partition content scope metadata system) =
                Item.added unicode fresh content scope metadata system := by
              simp [newEntry, item, Item.added]
            rw [kept, last]
            rfl

theorem search_simulates (query : String) (scope : Option (Dict String Json))
    (limit : Int) (threshold : ℚ) (valid : Valid state) :
    Simulates unicode (store unicode) Valid spaces fresh
      (.search partition query scope limit threshold) state := by
  refine .of_read rfl rfl ?_ valid
  have same : search unicode partition query scope limit state =
      Space.search unicode partition query scope limit (spaces state partition) := by
    unfold search Space.search
    cases refuseNestedFilters unicode scope with
    | error error => rfl
    | ok =>
        rw [selected_spaces, hits_map, ranked_map, slice_map]
        refine congrArg Except.ok ?_
        rw [List.map_map]
        refine List.map_congr_left fun hit member => ?_
        obtain ⟨row, selected, scored⟩ :=
          List.mem_filterMap.mp (mem_ranked.mp (mem_of_mem_slice member))
        obtain ⟨score, -, rfl⟩ := Option.map_eq_some_iff.mp scored
        exact (memory_item selected (some score)).symm
  simp only [store, perform, same]

theorem get_simulates (valid : Valid state) :
    Simulates unicode (store unicode) Valid spaces fresh
      (.get partition memoryId) state := by
  refine .of_read rfl rfl ?_ valid
  have same : get partition memoryId state =
      (Space.find memoryId (spaces state partition)).map
        (Item.memory partition none) := by
    rcases owned_cases state partition memoryId with
      ⟨-, missing, absent⟩ | ⟨entry, stored, rfl, -, read, found⟩
    · rw [missing, absent]
      rfl
    · rw [read, found]
      rfl
  simp only [store, perform, same]

theorem listMemories_simulates (scope : Option (Dict String Json)) (limit : Int)
    (cursor : Option String) (valid : Valid state) :
    Simulates unicode (store unicode) Valid spaces fresh
      (.listMemories partition scope limit cursor) state := by
  refine .of_read rfl rfl ?_ valid
  have same : (selected unicode partition scope state).map
      (fun row => entryToMemory none row.1 row.2) =
      (Space.selected unicode scope (spaces state partition)).map
        (Item.memory partition none) := by
    rw [selected_spaces, List.map_map]
    exact List.map_congr_left fun row member =>
      (memory_item member none).symm
  simp only [store, perform, listMemories, same]

theorem history_simulates (valid : Valid state) :
    Simulates unicode (store unicode) Valid spaces fresh
      (.history partition memoryId) state := by
  refine .of_read rfl rfl ?_ valid
  have same : history partition memoryId state =
      Space.history memoryId (spaces state partition) := by
    unfold history Space.history
    rcases owned_cases state partition memoryId with
      ⟨missing, -, absent⟩ | ⟨entry, stored, rfl, read, -, found⟩
    · rw [missing, absent]
      rfl
    · rw [read, found]
      rfl
  simp only [store, perform, same]

theorem delete_simulates (valid : Valid state) :
    Simulates unicode (store unicode) Valid spaces fresh
      (.delete partition memoryId) state := by
  rcases owned_cases state partition memoryId with
    ⟨missing, -, absent⟩ | ⟨entry, stored, rfl, read, -, found⟩
  · have abstract : Space.perform unicode fresh (.delete partition memoryId)
        (spaces state partition) =
        (.error notFound, spaces state partition) := by
      simp only [Space.perform, Space.delete, absent]
    refine .of_read rfl abstract ?_ valid
    simp only [store, perform, delete, missing]
    rfl
  · have abstract : Space.perform unicode fresh (.delete entry.userId memoryId)
        (spaces state entry.userId) =
        (.ok true, (spaces state entry.userId).filter
          fun item => item.id ≠ memoryId) := by
      simp only [Space.perform, Space.delete, found]
    have concrete : (store unicode).perform fresh (.delete entry.userId memoryId)
        state = (.ok true, { store := state.store.erase memoryId
                             history := state.history.erase memoryId }) := by
      simp only [store, perform, delete, read]
      rfl
    refine .of_step rfl abstract concrete ?_ ?_
    · intro other
      simp [valid other]
    · refine spaces_of_dropped (fun other => other ≠ memoryId) rfl ?_ ?_
        (fun _ _ _ => rfl)
      · intro other kept
        simp only [ne_eq, decide_eq_true_eq] at kept
        simp [Dict.get?_erase, kept]
      · intro row member foreign
        simp only [ne_eq, decide_eq_true_eq]
        intro same
        have here := Dict.get?_eq_some_iff.mpr member
        rw [same, stored] at here
        exact foreign (by rw [← Option.some.inj here])

theorem deleteAll_simulates (scope : Dict String Json) (valid : Valid state) :
    Simulates unicode (store unicode) Valid spaces fresh
      (.deleteAll partition scope) state := by
  cases nested : rejectNestedFilters unicode scope with
  | error error =>
      have abstract : Space.perform unicode fresh (.deleteAll partition scope)
          (spaces state partition) = (.error error, spaces state partition) := by
        simp only [Space.perform, Space.deleteAll, nested]
      refine .of_read rfl abstract ?_ valid
      simp only [store, perform, deleteAll, nested]
      rfl
  | ok =>
      let doomed := (state.store.entries.filter fun row =>
        row.2.userId = partition && scopeMatches unicode row.2.scope scope).map
          Prod.fst
      have count : (Space.selected unicode (some scope)
          (spaces state partition)).length = doomed.length := by
        have picked : Space.selected unicode (some scope) (spaces state partition) =
            (state.store.entries.filter fun row => row.2.userId = partition &&
              scopeMatches unicode row.2.scope scope).map (item state.history) :=
          selected_spacesOf fun _ _ _ => rfl
        simp [picked, doomed]
      have abstract : Space.perform unicode fresh (.deleteAll partition scope)
          (spaces state partition) = (.ok (some doomed.length),
            (spaces state partition).filter fun item =>
              !storedHolds unicode item.scope scope) := by
        simp only [Space.perform, Space.deleteAll, nested, count]
      have concrete : (store unicode).perform fresh (.deleteAll partition scope)
          state = (.ok (some doomed.length),
            { store := doomed.foldl Dict.erase state.store
              history := doomed.foldl Dict.erase state.history }) := by
        simp only [store, perform, deleteAll, nested]
        rfl
      have ofDoomed : ∀ row ∈ state.store.entries, row.1 ∈ doomed →
          row.2.userId = partition ∧
            scopeMatches unicode row.2.scope scope = true := by
        intro row member listed
        obtain ⟨other, picked, same⟩ := List.mem_map.mp listed
        obtain ⟨otherMember, test⟩ := List.mem_filter.mp picked
        obtain rfl := Dict.entry_unique otherMember member same
        simpa using test
      refine .of_step rfl abstract concrete ?_ ?_
      · intro memoryId
        rw [← Dict.get?_isSome_iff, ← Dict.get?_isSome_iff,
          Dict.get?_foldl_erase, Dict.get?_foldl_erase]
        split
        · simp
        · rw [Dict.get?_isSome_iff, Dict.get?_isSome_iff]
          exact valid memoryId
      · refine spaces_of_dropped (fun memoryId => memoryId ∉ doomed)
          (Dict.entries_foldl_erase _ _) ?_ ?_ ?_
        · intro memoryId kept
          simp only [decide_eq_true_eq] at kept
          rw [Dict.get?_foldl_erase, if_neg kept]
        · intro row member foreign
          simp only [decide_eq_true_eq]
          exact fun listed => foreign (ofDoomed row member listed).1
        · intro row member own
          have listed : row.1 ∈ doomed ↔
              scopeMatches unicode row.2.scope scope = true := by
            refine ⟨fun listed => (ofDoomed row member listed).2, fun holds => ?_⟩
            exact List.mem_map.mpr
              ⟨row, List.mem_filter.mpr ⟨member, by simp [own, holds]⟩, rfl⟩
          change decide (row.1 ∉ doomed) = !scopeMatches unicode row.2.scope scope
          simp [listed]

theorem update_simulates (content : Option String) (patch : Option MetadataPatch)
    (system : Option System) (valid : Valid state) :
    Simulates unicode (store unicode) Valid spaces fresh
      (.update partition memoryId content patch system) state := by
  cases reserved : refuseReservedMetadata unicode
      (patch.elim [] MetadataPatch.keys) with
  | error error =>
      have abstract : Space.perform unicode fresh
          (.update partition memoryId content patch system)
          (spaces state partition) = (.error error, spaces state partition) := by
        simp only [Space.perform, Space.update, reserved]
      refine .of_read rfl abstract ?_ valid
      simp only [store, perform, update, reserved]
      rfl
  | ok =>
      rcases owned_cases state partition memoryId with
        ⟨missing, -, absent⟩ | ⟨entry, stored, rfl, read, -, found⟩
      · have abstract : Space.perform unicode fresh
            (.update partition memoryId content patch system)
            (spaces state partition) =
            (.error notFound, spaces state partition) := by
          simp only [Space.perform, Space.update, reserved, absent]
        refine .of_read rfl abstract ?_ valid
        simp only [store, perform, update, reserved, missing]
        rfl
      · let changed := changedEntry fresh.now content patch system entry
        let changedItem := (item state.history (memoryId, entry)).changed fresh.now
          content patch system
        have abstract : Space.perform unicode fresh
            (.update entry.userId memoryId content patch system)
            (spaces state entry.userId) =
            (.ok (changedItem.memory entry.userId none),
              (spaces state entry.userId).map fun other =>
                if other.id = memoryId then changedItem else other) := by
          simp only [Space.perform, Space.update, reserved, found]
          rfl
        have concrete : (store unicode).perform fresh
            (.update entry.userId memoryId content patch system) state =
            (.ok (entryToMemory none memoryId changed),
              { store := state.store.set memoryId changed
                history := logUpdate memoryId (.updated fresh.now entry.content
                  changed.content changed.system.author) state.history }) := by
          simp only [store, perform, update, reserved, read]
          rfl
        have member : memoryId ∈ state.store := Dict.mem_of_get? stored
        have ofId : ∀ row ∈ state.store.entries, row.1 = memoryId →
            row.2 = entry := by
          intro row rowMember same
          have here := Dict.get?_eq_some_iff.mpr rowMember
          rw [same, stored] at here
          exact (Option.some.inj here).symm
        obtain ⟨log, logged⟩ := Dict.exists_of_mem ((valid memoryId).mpr member)
        refine .of_step rfl abstract concrete ?_ ?_
        · intro other
          simp only [logUpdate, logged, Dict.mem_set, valid other]
        · simp only [spaces, logUpdate, logged, Dict.set_of_mem member,
            Dict.entries_map]
          refine spacesOf_map ?_ ?_ ?_
          · intro row rowMember
            split
            case isTrue same =>
              have owners : row.2.userId = entry.userId :=
                congrArg Entry.userId (ofId row rowMember same)
              exact owners.symm
            case isFalse => rfl
          · intro row rowMember foreign
            have distinct : row.1 ≠ memoryId := fun same =>
              foreign (by rw [ofId row rowMember same])
            rw [if_neg distinct]
            exact item_congr (by simp [Dict.get?_set, distinct])
          · intro row rowMember own
            rcases eq_or_ne row.1 memoryId with same | distinct
            · have here : row = (memoryId, entry) :=
                Prod.ext same (ofId row rowMember same)
              subst here
              simp [item, changed, changedItem, changedEntry, Item.changed, logged]
            · rw [if_neg distinct, if_neg (by exact distinct)]
              exact item_congr (by simp [Dict.get?_set, distinct])

/-- The in-memory backend represents the spaces. -/
def representation (unicode : Unicode) : Representation unicode (store unicode) where
  valid := Valid
  spaces := spaces
  valid_initial _ := Iff.rfl
  spaces_initial := rfl
  step fresh call state valid unused := by
    cases call with
    | add partition content scope metadata infer system =>
        exact add_simulates content scope metadata infer system valid (unused rfl)
    | search partition query scope limit threshold =>
        exact search_simulates query scope limit threshold valid
    | get partition memoryId => exact get_simulates valid
    | update partition memoryId content patch system =>
        exact update_simulates content patch system valid
    | delete partition memoryId => exact delete_simulates valid
    | deleteAll partition scope => exact deleteAll_simulates scope valid
    | listMemories partition scope limit cursor =>
        exact listMemories_simulates scope limit cursor valid
    | history partition memoryId => exact history_simulates valid
    | entities partition scope limit => exact .of_read rfl rfl rfl valid
    | capabilities => exact ⟨rfl, valid, rfl⟩

end InMemory

end Memcp
