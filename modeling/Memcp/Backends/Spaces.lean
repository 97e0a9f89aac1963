import Memcp.Backends.Base
import Memcp.Backends.Keyword
import Memcp.Data.Ranked

/-!
What the local backends are for: each partition is a list of memories in the
order they were added, and a call reads and changes the list of the partition
it names.
-/

namespace Memcp

open Python

/-- A stored memory with its change log. -/
structure Item where
  id : String
  content : String
  scope : Dict String String
  metadata : Dict String Json
  system : System
  createdAt : String
  updatedAt : Option String
  log : List HistoryEntry

namespace Item

def memory (partition : String) (score : Option ℚ) (item : Item) : Memory where
  id := item.id
  content := item.content
  score := score
  scope := textScope item.scope
  metadata := item.metadata
  createdAt := item.createdAt
  updatedAt := item.updatedAt
  partition := partition
  system := item.system

/-- The memory an add stores. -/
def added (unicode : Unicode) (fresh : Fresh) (content : String)
    (scope metadata : Option (Dict String Json)) (system : Option System) :
    Item where
  id := fresh.id
  content := content
  scope := scopeAsText unicode (scope.getD ∅)
  metadata := metadata.getD ∅
  system := system.getD {}
  createdAt := fresh.now
  updatedAt := none
  log := [.created fresh.now content (system.getD {}).author]

/-- The memory after an update at `now`. -/
def changed (now : String) (content : Option String)
    (patch : Option MetadataPatch) (system : Option System) (item : Item) :
    Item where
  id := item.id
  content := content.getD item.content
  scope := item.scope
  metadata := patch.elim item.metadata fun patch => patch.apply item.metadata
  system := system.getD item.system
  createdAt := item.createdAt
  updatedAt := some now
  log := item.log ++ [.updated now item.content (content.getD item.content)
    (system.getD item.system).author]

end Item

/-- Whether a stored scope holds every key requested with the text of the
value requested. -/
def storedHolds (unicode : Unicode) (stored : Dict String String)
    (scope : Dict String Json) : Bool :=
  scope.entries.all fun entry =>
    stored.get? entry.1 = some (scopeText unicode entry.2)

/-- The lists of all partitions. -/
abbrev Spaces := String → List Item

namespace Space

variable (unicode : Unicode)

def selected (scope : Option (Dict String Json)) (items : List Item) :
    List Item :=
  items.filter fun item => storedHolds unicode item.scope (scope.getD ∅)

/-- The memories a query hits, with their scores. -/
def hits (query : String) (items : List Item) : List (ℚ × Item) :=
  items.filterMap fun item =>
    (Keyword.score unicode query item.content).map fun score => (score, item)

def find (memoryId : String) (items : List Item) : Option Item :=
  items.find? fun item => item.id = memoryId

def add (fresh : Fresh) (content : String)
    (scope metadata : Option (Dict String Json)) (system : Option System)
    (items : List Item) : Except Exc AddReturn × List Item :=
  match refuseNestedFilters unicode scope,
      refuseReservedMetadata unicode (metadata.getD ∅).keys with
  | .error error, _ => (.error error, items)
  | _, .error error => (.error error, items)
  | .ok _, .ok _ => (.ok (.many [{ id := fresh.id, createdAt := fresh.now }]),
      items ++ [Item.added unicode fresh content scope metadata system])

def search (partition query : String) (scope : Option (Dict String Json))
    (limit : Int) (items : List Item) : Except Exc (List Memory) :=
  (refuseNestedFilters unicode scope).map fun _ =>
    (slice (ranked (hits unicode query (selected unicode scope items))) 0 limit).map
      fun hit => hit.2.memory partition (some hit.1)

def update (partition memoryId : String) (now : String) (content : Option String)
    (patch : Option MetadataPatch) (system : Option System)
    (items : List Item) : Except Exc Memory × List Item :=
  match refuseReservedMetadata unicode (patch.elim [] MetadataPatch.keys),
      find memoryId items with
  | .error error, _ => (.error error, items)
  | .ok _, none => (.error notFound, items)
  | .ok _, some item =>
      let changed := item.changed now content patch system
      (.ok (changed.memory partition none),
        items.map fun other => if other.id = memoryId then changed else other)

def delete (memoryId : String) (items : List Item) :
    Except Exc Bool × List Item :=
  match find memoryId items with
  | none => (.error notFound, items)
  | some _ => (.ok true, items.filter fun item => item.id ≠ memoryId)

def deleteAll (scope : Dict String Json) (items : List Item) :
    Except Exc (Option Nat) × List Item :=
  match rejectNestedFilters unicode scope with
  | .error error => (.error error, items)
  | .ok _ => (.ok (some (selected unicode (some scope) items).length),
      items.filter fun item => !storedHolds unicode item.scope scope)

def history (memoryId : String) (items : List Item) :
    Except Exc (List HistoryEntry) :=
  match find memoryId items with
  | none => .error notFound
  | some item => .ok item.log

/-- One call on the partition it names. -/
def perform (fresh : Fresh) : (call : BackendCall) → List Item →
    Except Exc call.Result × List Item
  | .add _ content scope metadata _ system, items =>
      add unicode fresh content scope metadata system items
  | .search partition query scope limit _, items =>
      (search unicode partition query scope limit items, items)
  | .get partition memoryId, items =>
      (.ok ((find memoryId items).map (Item.memory partition none)), items)
  | .update partition memoryId content patch system, items =>
      update unicode partition memoryId fresh.now content patch system items
  | .delete _ memoryId, items => delete memoryId items
  | .deleteAll _ scope, items => deleteAll unicode scope items
  | .listMemories partition scope limit cursor, items =>
      (paginate unicode ((selected unicode scope items).map
        (Item.memory partition none)) cursor limit, items)
  | .history _ memoryId, items => (history memoryId items, items)
  | .entities .., items => (.error (.other "NotImplementedError"), items)
  | .capabilities, items => (.ok localCapabilities, items)

end Space

namespace Spaces

def perform (unicode : Unicode) (fresh : Fresh) (call : BackendCall)
    (spaces : Spaces) : Except Exc call.Result × Spaces :=
  match call.partition? with
  | none => ((Space.perform unicode fresh call []).1, spaces)
  | some partition =>
      let answer := Space.perform unicode fresh call (spaces partition)
      (answer.1, Function.update spaces partition answer.2)

def store (unicode : Unicode) : Store where
  State := Spaces
  initial := fun _ => []
  perform := perform unicode

end Spaces

/-! What a call leaves in a space. -/

section Changes

variable {unicode : Unicode} {fresh : Fresh} {call : BackendCall}
  {items : List Item} {item : Item}

/-- The ids of the memories a call added or changed, by its reply. -/
def BackendCall.written : (call : BackendCall) → Except Exc call.Result →
    List String
  | .add .., .ok result => result.items.map AddResult.id
  | .update _ memoryId .., .ok _ => [memoryId]
  | _, _ => []

/-- What one call does to a space: it adds a memory, changes one, or writes
none. -/
inductive Space.Step (unicode : Unicode) (fresh : Fresh) (items : List Item) :
    (call : BackendCall) → Except Exc call.Result × List Item → Prop
  | added {partition content : String}
      {scope metadata : Option (Dict String Json)} {infer : Bool}
      {system : Option System} :
      Step unicode fresh items
        (.add partition content scope metadata infer system)
        (.ok (.many [{ id := fresh.id, createdAt := fresh.now }]),
          items ++ [Item.added unicode fresh content scope metadata system])
  | changed {partition memoryId : String} {content : Option String}
      {patch : Option MetadataPatch} {system : Option System} {old : Item}
      (found : Space.find memoryId items = some old) :
      Step unicode fresh items (.update partition memoryId content patch system)
        (.ok ((old.changed fresh.now content patch system).memory partition none),
          items.map fun other =>
            if other.id = memoryId then
              old.changed fresh.now content patch system
            else other)
  | wroteNone {call : BackendCall} {reply : Except Exc call.Result}
      {kept : List Item} (silent : call.written reply = [])
      (fewer : kept ⊆ items) : Step unicode fresh items call (reply, kept)

theorem Space.step (unicode : Unicode) (fresh : Fresh) (call : BackendCall)
    (items : List Item) :
    Space.Step unicode fresh items call (Space.perform unicode fresh call items) := by
  cases call with
  | add partition content scope metadata infer system =>
      simp only [Space.perform, Space.add]
      split
      · exact .wroteNone rfl (List.Subset.refl _)
      · exact .wroteNone rfl (List.Subset.refl _)
      · exact .added
  | update partition memoryId content patch system =>
      simp only [Space.perform, Space.update]
      split
      · exact .wroteNone rfl (List.Subset.refl _)
      · exact .wroteNone rfl (List.Subset.refl _)
      · rename_i found
        exact .changed found
  | delete partition memoryId =>
      simp only [Space.perform, Space.delete]
      split
      · exact .wroteNone rfl (List.Subset.refl _)
      · exact .wroteNone rfl (List.filter_subset_self _)
  | deleteAll partition scope =>
      simp only [Space.perform, Space.deleteAll]
      split
      · exact .wroteNone rfl (List.Subset.refl _)
      · exact .wroteNone rfl (List.filter_subset_self _)
  | search | get | listMemories | history | entities | capabilities =>
      exact .wroteNone rfl (List.Subset.refl _)

theorem Space.mem_of_find {memoryId : String}
    (found : Space.find memoryId items = some item) :
    item ∈ items ∧ item.id = memoryId :=
  ⟨List.mem_of_find?_eq_some found, by simpa using List.find?_some found⟩

/-- Where a memory comes from that is there after a call. -/
inductive Space.Source (unicode : Unicode) (fresh : Fresh) (items : List Item)
    (item : Item) : BackendCall → Prop
  | kept {call : BackendCall} (member : item ∈ items) :
      Source unicode fresh items item call
  | added {partition content : String}
      {scope metadata : Option (Dict String Json)} {infer : Bool}
      {system : Option System}
      (same : item = Item.added unicode fresh content scope metadata system) :
      Source unicode fresh items item
        (.add partition content scope metadata infer system)
  | changed {partition memoryId : String} {content : Option String}
      {patch : Option MetadataPatch} {system : Option System} {old : Item}
      (found : Space.find memoryId items = some old)
      (same : item = old.changed fresh.now content patch system) :
      Source unicode fresh items item
        (.update partition memoryId content patch system)

theorem Space.source (member : item ∈ (Space.perform unicode fresh call items).2) :
    Space.Source unicode fresh items item call := by
  have step := Space.step unicode fresh call items
  generalize Space.perform unicode fresh call items = answer at member step
  cases step with
  | added =>
      rcases List.mem_append.mp member with old | new
      · exact .kept old
      · exact .added (List.mem_singleton.mp new)
  | changed found =>
      obtain ⟨other, otherMember, same⟩ := List.mem_map.mp member
      split at same
      · exact .changed found same.symm
      · exact .kept (same ▸ otherMember)
  | wroteNone silent fewer => exact .kept (fewer member)

theorem Spaces.perform_named {spaces : Spaces} {partition : String}
    (names : call.partition? = some partition) :
    Spaces.perform unicode fresh call spaces =
      ((Space.perform unicode fresh call (spaces partition)).1,
        Function.update spaces partition
          (Space.perform unicode fresh call (spaces partition)).2) := by
  simp only [Spaces.perform, names]

theorem Spaces.perform_self {spaces : Spaces} {partition : String}
    (names : call.partition? = some partition) :
    (Spaces.perform unicode fresh call spaces).2 partition =
      (Space.perform unicode fresh call (spaces partition)).2 := by
  rw [Spaces.perform_named names]
  exact Function.update_self ..

theorem Spaces.perform_of_ne {spaces : Spaces} {partition : String}
    (other : call.partition? ≠ some partition) :
    (Spaces.perform unicode fresh call spaces).2 partition = spaces partition := by
  cases names : call.partition? with
  | none => simp only [Spaces.perform, names]
  | some named =>
      rw [Spaces.perform_named names]
      refine Function.update_of_ne (fun same => other ?_) _ _
      rw [names, same]

/-- A property of memories that adds and updates establish holds of every
memory after a call. -/
theorem Spaces.forall_perform {spaces : Spaces}
    {holds : String → Item → Prop}
    (before : ∀ partition, ∀ item ∈ spaces partition, holds partition item)
    (added : ∀ partition content scope metadata infer system,
      call = .add partition content scope metadata infer system →
        holds partition (Item.added unicode fresh content scope metadata system))
    (changed : ∀ partition memoryId content patch system old,
      call = .update partition memoryId content patch system →
      old ∈ spaces partition → old.id = memoryId →
        holds partition (old.changed fresh.now content patch system))
    (partition : String) (item : Item)
    (member : item ∈ (Spaces.perform unicode fresh call spaces).2 partition) :
    holds partition item := by
  rcases eq_or_ne call.partition? (some partition) with names | other
  · rw [Spaces.perform_self names] at member
    cases Space.source member with
    | kept old => exact before partition item old
    | added same =>
        cases names
        exact same ▸ added _ _ _ _ _ _ rfl
    | changed found same =>
        cases names
        obtain ⟨oldMember, oldId⟩ := Space.mem_of_find found
        exact same ▸ changed _ _ _ _ _ _ rfl oldMember oldId
  · rw [Spaces.perform_of_ne other] at member
    exact before partition item member

end Changes

/-!
A store represents the spaces when its state stands for them and each of its
calls answers and changes them as the call on the spaces does, provided the
fresh id is new to the store.
-/

def Spaces.Unused (spaces : Spaces) (id : String) : Prop :=
  ∀ partition, ∀ item ∈ spaces partition, item.id ≠ id

/-- A call adds at most the id it was given. -/
theorem Spaces.Unused.perform {unicode : Unicode} {spaces : Spaces} {id : String}
    (unused : spaces.Unused id) {fresh : Fresh} (distinct : fresh.id ≠ id)
    (call : BackendCall) :
    (Spaces.perform unicode fresh call spaces).2.Unused id :=
  Spaces.forall_perform unused (fun _ _ _ _ _ _ _ => distinct)
    fun partition _ _ _ _ old _ member _ => unused partition old member

/-- A call on the store does what the call on the spaces does. -/
structure Simulates (unicode : Unicode) (store : Store)
    (valid : store.State → Prop) (spaces : store.State → Spaces) (fresh : Fresh)
    (call : BackendCall) (state : store.State) : Prop where
  reply : (store.perform fresh call state).1 =
    (Spaces.perform unicode fresh call (spaces state)).1
  valid : valid (store.perform fresh call state).2
  spaces : spaces (store.perform fresh call state).2 =
    (Spaces.perform unicode fresh call (spaces state)).2

structure Representation (unicode : Unicode) (store : Store) where
  valid : store.State → Prop
  spaces : store.State → Spaces
  valid_initial : valid store.initial
  spaces_initial : spaces store.initial = fun _ => []
  step : ∀ fresh call state, valid state →
    (call.isAdd = true → (spaces state).Unused fresh.id) →
    Simulates unicode store valid spaces fresh call state

/-- A call that adds nothing needs no fresh id. -/
theorem Representation.simulates {unicode : Unicode} {store : Store}
    (representation : Representation unicode store)
    {state : store.State} (valid : representation.valid state) (fresh : Fresh)
    {call : BackendCall} (addsNone : call.isAdd = false) :
    Simulates unicode store representation.valid representation.spaces fresh call
      state :=
  representation.step fresh call state valid fun adds => by simp [addsNone] at adds

section Simulates

variable {unicode : Unicode} {store : Store} {valid : store.State → Prop}
  {spaces : store.State → Spaces} {fresh : Fresh} {call : BackendCall}
  {state later : store.State} {partition : String}
  {reply : Except Exc call.Result} {items : List Item}

theorem Simulates.of_step (names : call.partition? = some partition)
    (abstract : Space.perform unicode fresh call (spaces state partition) =
      (reply, items))
    (concrete : store.perform fresh call state = (reply, later))
    (kept : valid later)
    (stands : spaces later = Function.update (spaces state) partition items) :
    Simulates unicode store valid spaces fresh call state := by
  constructor
  · simp only [concrete, Spaces.perform, names, abstract]
  · simpa only [concrete] using kept
  · simp only [concrete, Spaces.perform, names, abstract, stands]

theorem Simulates.of_read (names : call.partition? = some partition)
    (abstract : Space.perform unicode fresh call (spaces state partition) =
      (reply, spaces state partition))
    (concrete : store.perform fresh call state = (reply, state))
    (kept : valid state) :
    Simulates unicode store valid spaces fresh call state :=
  .of_step names abstract concrete kept (Function.update_eq_self _ _).symm

end Simulates

/-! Spaces read off a list of rows, each owned by a partition. -/

section Rows

variable {ρ : Type} {owner : ρ → String} {item item' : ρ → Item}
  {rows : List ρ} {partition : String}

def spacesOf (owner : ρ → String) (item : ρ → Item) (rows : List ρ) : Spaces :=
  fun partition => (rows.filter fun row => owner row = partition).map item

theorem mem_spacesOf {stored : Item} :
    stored ∈ spacesOf owner item rows partition ↔
      ∃ row ∈ rows, owner row = partition ∧ item row = stored := by
  simp [spacesOf, and_assoc]

theorem spacesOf_congr (same : ∀ row ∈ rows, item row = item' row) :
    spacesOf owner item rows = spacesOf owner item' rows := by
  funext partition
  exact List.map_congr_left fun row member =>
    same row (List.mem_of_mem_filter member)

theorem spacesOf_append (row : ρ) :
    spacesOf owner item (rows ++ [row]) =
      Function.update (spacesOf owner item rows) (owner row)
        (spacesOf owner item rows (owner row) ++ [item row]) := by
  funext partition
  rcases eq_or_ne partition (owner row) with rfl | distinct
  · simp [spacesOf]
  · simp [spacesOf, Function.update_of_ne distinct, Ne.symm distinct]

theorem spacesOf_filter {keep : ρ → Bool} {keepItem : Item → Bool}
    (others : ∀ row ∈ rows, owner row ≠ partition → keep row = true)
    (own : ∀ row ∈ rows, owner row = partition →
      keep row = keepItem (item row)) :
    spacesOf owner item (rows.filter keep) =
      Function.update (spacesOf owner item rows) partition
        ((spacesOf owner item rows partition).filter keepItem) := by
  funext viewed
  rcases eq_or_ne viewed partition with rfl | distinct
  · simp only [spacesOf, Function.update_self, List.filter_map,
      List.filter_filter]
    refine congrArg _ (List.filter_congr fun row member => ?_)
    rcases eq_or_ne (owner row) viewed with same | differ
    · simp [same, own row member same]
    · simp [differ]
  · simp only [spacesOf, Function.update_of_ne distinct, List.filter_filter]
    refine congrArg _ (List.filter_congr fun row member => ?_)
    rcases eq_or_ne (owner row) viewed with same | differ
    · simp [same, others row member (same ▸ distinct)]
    · simp [differ]

theorem spacesOf_map {f : ρ → ρ} {g : Item → Item}
    (owners : ∀ row ∈ rows, owner (f row) = owner row)
    (others : ∀ row ∈ rows, owner row ≠ partition → item' (f row) = item row)
    (own : ∀ row ∈ rows, owner row = partition →
      item' (f row) = g (item row)) :
    spacesOf owner item' (rows.map f) =
      Function.update (spacesOf owner item rows) partition
        ((spacesOf owner item rows partition).map g) := by
  funext viewed
  have filtered : (rows.map f).filter (fun row => owner row = viewed) =
      (rows.filter fun row => owner row = viewed).map f := by
    rw [List.filter_map]
    refine congrArg _ (List.filter_congr fun row member => ?_)
    simp [owners row member]
  rcases eq_or_ne viewed partition with rfl | distinct
  · simp only [spacesOf, filtered, Function.update_self, List.map_map]
    refine List.map_congr_left fun row member => ?_
    obtain ⟨member, same⟩ := List.mem_filter.mp member
    exact own row member (by simpa using same)
  · simp only [spacesOf, filtered, Function.update_of_ne distinct, List.map_map]
    refine List.map_congr_left fun row member => ?_
    obtain ⟨member, same⟩ := List.mem_filter.mp member
    exact others row member ((of_decide_eq_true same) ▸ distinct)

theorem ids_spacesOf (ids : (rows.map fun row => (item row).id).Nodup) :
    ((spacesOf owner item rows partition).map Item.id).Nodup := by
  rw [spacesOf, List.map_map]
  exact ids.sublist (List.filter_sublist.map _)

theorem find_spacesOf (memoryId : String) :
    Space.find memoryId (spacesOf owner item rows partition) =
      (rows.find? fun row =>
        owner row = partition && (item row).id = memoryId).map item := by
  simp only [Space.find, spacesOf, List.find?_map, List.find?_filter,
    Function.comp_def, Bool.decide_and, Bool.decide_eq_true]

theorem selected_spacesOf {unicode : Unicode}
    {scope : Option (Dict String Json)} {test : ρ → Bool}
    (agrees : ∀ row ∈ rows, owner row = partition →
      test row = storedHolds unicode (item row).scope (scope.getD ∅)) :
    Space.selected unicode scope (spacesOf owner item rows partition) =
      (rows.filter fun row => owner row = partition && test row).map item := by
  simp only [Space.selected, spacesOf, List.filter_map, List.filter_filter]
  refine congrArg _ (List.filter_congr fun row member => ?_)
  rcases eq_or_ne (owner row) partition with same | differ
  · simp [same, agrees row member same]
  · simp [differ]

end Rows

theorem slice_map {α β : Type} (f : α → β) (items : List α) (start stop : Int) :
    slice (items.map f) start stop = (slice items start stop).map f := by
  simp [slice]

theorem slice_zero {α : Type} {items : List α} {stop : Int} (upward : 0 ≤ stop) :
    slice items 0 stop = items.take stop.toNat := by
  have bounds : ¬ stop < 0 := by omega
  simp [slice, sliceBound, bounds]

theorem mem_of_mem_slice {α : Type} {items : List α} {start stop : Int}
    {a : α} (member : a ∈ slice items start stop) : a ∈ items :=
  List.mem_of_mem_drop (List.mem_of_mem_take member)

theorem mem_of_paginate {unicode : Unicode} {memories : List Memory}
    {cursor : Option String} {limit : Int} {page : ListResult}
    (paged : paginate unicode memories cursor limit = .ok page)
    {memory : Memory} (member : memory ∈ page.memories) : memory ∈ memories := by
  obtain ⟨start, -, sliced⟩ := bind_eq_ok.mp paged
  cases sliced
  exact mem_of_mem_slice member

theorem hits_map {ρ : Type} (unicode : Unicode) (query : String)
    (item : ρ → Item) (rows : List ρ) :
    Space.hits unicode query (rows.map item) =
      (rows.filterMap fun row =>
        (Keyword.score unicode query (item row).content).map fun score =>
          (score, row)).map fun hit => (hit.1, item hit.2) := by
  simp only [Space.hits, List.filterMap_map, List.map_filterMap,
    Option.map_map, Function.comp_def]

/-- The memories a reply holds are among those the call leaves. -/
theorem Space.mem_of_reply {unicode : Unicode} {fresh : Fresh}
    {call : BackendCall} {items : List Item} {value : call.Result}
    (replied : (Space.perform unicode fresh call items).1 = .ok value)
    {memory : Memory} (member : memory ∈ call.memories value) :
    ∃ item ∈ (Space.perform unicode fresh call items).2,
      ∃ partition score, memory = item.memory partition score := by
  cases call with
  | search partition query scope limit threshold =>
      obtain ⟨_, -, rfl⟩ := map_eq_ok.mp replied
      obtain ⟨hit, hitMember, rfl⟩ := List.mem_map.mp member
      have hitMember := mem_ranked.mp (mem_of_mem_slice hitMember)
      obtain ⟨item, itemMember, scored⟩ := List.mem_filterMap.mp hitMember
      obtain ⟨score, -, rfl⟩ := Option.map_eq_some_iff.mp scored
      exact ⟨item, List.mem_of_mem_filter itemMember, _, _, rfl⟩
  | get partition memoryId =>
      cases replied
      obtain ⟨item, found, rfl⟩ := Option.map_eq_some_iff.mp
        (Option.mem_toList.mp member)
      exact ⟨item, (Space.mem_of_find found).1, _, _, rfl⟩
  | update partition memoryId content patch system =>
      have step := Space.step unicode fresh
        (.update partition memoryId content patch system) items
      generalize Space.perform unicode fresh
        (.update partition memoryId content patch system) items = answer
        at replied step
      cases step with
      | changed found =>
          cases replied
          obtain ⟨oldMember, oldId⟩ := Space.mem_of_find found
          obtain rfl := List.mem_singleton.mp member
          refine ⟨_, List.mem_map.mpr ⟨_, oldMember, if_pos oldId⟩, _, _, rfl⟩
      | wroteNone silent fewer =>
          cases replied
          cases silent
  | listMemories partition scope limit cursor =>
      obtain ⟨item, itemMember, rfl⟩ :=
        List.mem_map.mp (mem_of_paginate replied member)
      exact ⟨item, List.mem_of_mem_filter itemMember, _, _, rfl⟩
  | add | delete | deleteAll | history | entities | capabilities =>
      cases member

end Memcp
