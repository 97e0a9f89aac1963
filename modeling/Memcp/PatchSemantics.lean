import Memcp.Backends.Local
import Memcp.Backends.Mem0.Updates
import Memcp.Policy.Patching
import Memcp.Policy.Requests

/-!
One meaning of updates on three backends.  What a memory holds is changed by an
update as policy predicts it, and each backend refines that: the local ones keep
the metadata itself, mem0 a map in which a removed key is null.
-/

namespace Memcp

open Python Interaction

/-- A store that is a mem0 server behind the adapter, with no request failing. -/
def Mem0.store (unicode : Unicode) (timestamps : Mem0.Timestamps) : Store where
  State := Mem0.State
  initial := .empty
  perform fresh call state :=
    let ran := Fallible.exec Mem0.calm (fun _ => { id := fresh.id, now := fresh.now })
      (Mem0.method unicode timestamps call) 0 state
    (ran.1, ran.2.2)

inductive Backend where
  | stored (backend : LocalBackend)
  | mem0 (timestamps : Mem0.Timestamps)

def Backend.store (unicode : Unicode) : Backend → Store
  | .stored backend => backend.store unicode
  | .mem0 timestamps => Mem0.store unicode timestamps

/-! What a memory holds. -/

/-- What a read shows of a memory besides its scope and times. -/
structure Holding where
  content : String
  metadata : Dict String Json
  system : System

namespace Holding

/-- After an update: the metadata is what policy checked the size of. -/
def changed (change : Change) (kept : Holding) : Holding where
  content := change.content.getD kept.content
  metadata := change.patch.elim kept.metadata (patched kept.metadata)
  system := change.system.getD kept.system

def after (kept : Holding) (changes : List Change) : Holding :=
  changes.foldl (fun kept change => kept.changed change) kept

structure Shows (kept : Holding) (memory : Memory) : Prop where
  content : memory.content = kept.content
  metadata : memory.metadata.Same kept.metadata
  system : memory.system = kept.system

theorem get?_changed (change : Change) (kept : Holding) (key : String) :
    (kept.changed change).metadata.get? key =
      if key ∈ change.removed then none
      else (change.value? key).or (kept.metadata.get? key) := by
  obtain ⟨content, patch, system⟩ := change
  cases patch with
  | none => simp [changed, Change.removed, Change.value?]
  | some patch =>
      change (patched kept.metadata patch).get? key = _
      rw [← MetadataPatch.apply_eq_patched, MetadataPatch.get?_apply]
      rfl

end Holding

/-- No reserved key, and no null set, which `MetadataValue` has not. -/
structure Change.Clean (change : Change) : Prop where
  free : change.Free
  nonnull : ∀ key, change.value? key ≠ some .null

@[reducible] def Change.call (partition memoryId : String) (change : Change) :
    BackendCall :=
  .update partition memoryId change.content change.patch change.system

/-! Backends that keep a memory. -/

/-- The memory `memoryId` of a store changes as `Holding` does. -/
structure Refinement (store : Store) (partition memoryId : String) where
  holds : Holding → store.State → Prop
  get : ∀ {kept state}, holds kept state → ∀ fresh, ∃ memory,
    (store.perform fresh (.get partition memoryId) state).1 = .ok (some memory) ∧
      kept.Shows memory
  update : ∀ {kept state}, holds kept state → ∀ fresh change, change.Clean →
    holds (kept.changed change)
      (store.perform fresh (change.call partition memoryId) state).2

/-- The state after updates of a memory, one after the other. -/
def Store.updated (store : Store) (partition memoryId : String)
    (changes : List (Fresh × Change)) (state : store.State) : store.State :=
  changes.foldl (fun state entry =>
    (store.perform entry.1 (entry.2.call partition memoryId) state).2) state

theorem Refinement.updated {store : Store} {partition memoryId : String}
    (refinement : Refinement store partition memoryId) {kept : Holding}
    {state : store.State} (holds : refinement.holds kept state)
    {changes : List (Fresh × Change)} (clean : ∀ entry ∈ changes, entry.2.Clean) :
    refinement.holds (kept.after (changes.map Prod.snd))
      (store.updated partition memoryId changes state) := by
  induction changes generalizing kept state with
  | nil => exact holds
  | cons entry changes induction =>
      apply induction
      · exact refinement.update holds entry.1 entry.2 (clean entry List.mem_cons_self)
      · exact fun other member => clean other (List.mem_cons_of_mem _ member)

/-! The local backends. -/

section Local

variable {unicode : Unicode} {store : Store}
  (representation : Representation unicode store) (partition memoryId : String)

theorem Item.changed_holding (item : Item) (now : String) (change : Change) :
    let later := item.changed now change.content change.patch change.system
    Holding.mk later.content later.metadata later.system =
      (Holding.mk item.content item.metadata item.system).changed change := by
  obtain ⟨content, patch, system⟩ := change
  cases patch with
  | none => rfl
  | some patch =>
      simp only [Item.changed, Holding.changed, Option.elim_some,
        MetadataPatch.apply_eq_patched]

def Representation.refinement : Refinement store partition memoryId where
  holds kept state := representation.valid state ∧ ∃ item,
    Space.find memoryId (representation.spaces state partition) = some item ∧
      Holding.mk item.content item.metadata item.system = kept
  get := by
    rintro kept state ⟨valid, item, found, rfl⟩ fresh
    have reply := (representation.simulates valid fresh
      (show (BackendCall.get partition memoryId).isAdd = false from rfl)).reply
    rw [Spaces.perform_named rfl] at reply
    refine ⟨item.memory partition none, reply.trans ?_, rfl, Dict.Same.refl _, rfl⟩
    simp only [Space.perform, found, Option.map_some]
  update := by
    rintro kept state ⟨valid, item, found, rfl⟩ fresh change clean
    have simulates := representation.simulates valid fresh
      (show (change.call partition memoryId).isAdd = false from rfl)
    refine ⟨simulates.valid, item.changed fresh.now change.content change.patch
      change.system, ?_, item.changed_holding fresh.now change⟩
    rw [simulates.spaces, Spaces.perform_self rfl]
    simp only [Space.perform, Space.update, refuseReservedMetadata_eq_ok.mpr clean.free,
      found]
    exact Space.find_changeOf found (Space.mem_of_find found).2

/-- An add of a local backend, under an id that is new to it. -/
theorem Representation.holds_added {state : store.State} {fresh : Fresh} {content : String}
    {scope metadata : Option (Dict String Json)} {infer : Bool}
    {system : Option System} {result : AddReturn}
    (valid : representation.valid state)
    (unused : (representation.spaces state).Unused fresh.id)
    (adds : (store.perform fresh
      (.add partition content scope metadata infer system) state).1 = .ok result) :
    result.items.map AddResult.id = [fresh.id] ∧
      (representation.refinement partition fresh.id).holds
        ⟨content, metadata.getD ∅, system.getD {}⟩
        (store.perform fresh
          (.add partition content scope metadata infer system) state).2 := by
  have simulates := representation.step fresh
    (.add partition content scope metadata infer system) state valid fun _ => unused
  have replied := simulates.reply.symm.trans adds
  have spaces := simulates.spaces
  rw [Spaces.perform_named rfl] at replied
  let item := Item.added unicode fresh content scope metadata system
  have performed : Space.perform unicode fresh
      (.add partition content scope metadata infer system)
      (representation.spaces state partition) =
        (.ok (.many [{ id := fresh.id, createdAt := fresh.now }]),
          representation.spaces state partition ++ [item]) := by
    simp only [Space.perform, Space.add] at replied ⊢
    split at replied
    · cases replied
    · cases replied
    · rfl
  rw [performed] at replied
  cases replied
  refine ⟨rfl, simulates.valid, item, ?_, rfl⟩
  rw [spaces, Spaces.perform_self rfl, performed, Space.find, List.find?_append,
    List.find?_eq_none.mpr fun other member => by
      simpa using unused partition other member]
  simp [item, Item.added]

end Local

/-! The mem0 backend. -/

namespace Mem0

variable {unicode : Unicode} {timestamps : Timestamps} {partition memoryId : String}

theorem shows_changed {holding : Holding} {record record' : Record} {change : Change}
    (shows : holding.Shows (record.memory memoryId)) (clean : change.Clean)
    (written : record'.undated = record.changed change (record.memory memoryId)) :
    (holding.changed change).Shows (record'.memory memoryId) := by
  constructor
  · have text : record'.undated.text = (record.changed change (record.memory memoryId)).text :=
      congrArg Record.text written
    rw [Record.changed_text] at text
    exact text.trans (congrArg change.content.getD shows.content)
  · intro key
    have shown : record'.undated.shown.get? key =
        (record.changed change (record.memory memoryId)).shown.get? key :=
      congrArg (fun record => (Record.shown record).get? key) written
    rw [Record.get?_shown_changed clean.free] at shown
    refine shown.trans ?_
    rw [Holding.get?_changed, ← shows.metadata key]
    change _ = if _ then none else (change.value? key).or (record.shown.get? key)
    by_cases removes : key ∈ change.removed
    · rw [if_pos removes, Change.value?_of_removed removes, Option.elim_none]
      split
      · rfl
      · rename_i absent
        exact Dict.get?_eq_none_iff.mpr fun present => absent ⟨removes, present⟩
    · rw [if_neg removes, if_neg fun both => removes both.1]
      cases sets : change.value? key with
      | none => rfl
      | some value =>
          have nonnull : value ≠ .null := fun null => clean.nonnull key (null ▸ sets)
          simp [nonnull]
  · have system : (splitSystem record'.undated.metadata).1 =
        (splitSystem (record.changed change (record.memory memoryId)).metadata).1 :=
      congrArg (fun record => (splitSystem (Record.metadata record)).1) written
    rw [Record.system_changed clean.free] at system
    exact system.trans (congrArg change.system.getD shows.system)

def refinement : Refinement (store unicode timestamps) partition memoryId where
  holds holding state := refusePartition unicode partition = .ok () ∧
    ∃ record, state.records.get? memoryId = some record ∧ record.userId = partition ∧
      holding.Shows (record.memory memoryId)
  get := by
    rintro holding state ⟨allowed, record, found, own, shows⟩ fresh
    refine ⟨record.memory memoryId, ?_, shows⟩
    have read := @exec_get unicode partition memoryId
      (fun _ => { id := fresh.id, now := fresh.now }) 0 state allowed
    rw [found, Option.filter_some, if_pos (decide_eq_true own)] at read
    exact congrArg Prod.fst read
  update := by
    rintro holding state ⟨allowed, record, found, own, shows⟩ fresh change clean
    obtain ⟨later, record', ran, stored, written⟩ := @exec_update unicode partition memoryId
      change (fun _ => { id := fresh.id, now := fresh.now }) 0 state record allowed
      clean.free found own
    have kept : record'.undated.userId =
        (record.changed change (record.memory memoryId)).userId :=
      congrArg Record.userId written
    have reached : ((store unicode timestamps).perform fresh
        (change.call partition memoryId) state).2 = later.2 :=
      congrArg (fun ran => ran.2.2) ran
    rw [reached]
    exact ⟨allowed, record', stored, kept.trans own, shows_changed shows clean written⟩

/-- An add that extracts nothing, under an id that was never given. -/
theorem holds_added {state : State} {fresh : Fresh} {content : String}
    {scope metadata : Option (Dict String Json)} {system : Option System}
    {result : AddReturn} (known : ∀ key ∈ scope.getD ∅, key ∈ mem0ScopeKeys)
    (nonnull : ∀ key, (metadata.getD ∅).get? key ≠ some .null)
    (unused : fresh.id ∉ state.owners)
    (adds : ((store unicode timestamps).perform fresh
      (.add partition content scope metadata false system) state).1 = .ok result) :
    result.items.map AddResult.id = [fresh.id] ∧
      (@refinement unicode timestamps partition fresh.id).holds
        ⟨content, metadata.getD ∅, system.getD {}⟩
        ((store unicode timestamps).perform fresh
          (.add partition content scope metadata false system) state).2 := by
  obtain ⟨allowed, free, rfl, record, found, own, text, held⟩ :=
    @exec_add unicode partition (fun _ => { id := fresh.id, now := fresh.now }) 0 state
      content scope metadata system result _ known unused (Prod.ext adds rfl)
  refine ⟨rfl, allowed, record, found, own, text, fun key => ?_, ?_⟩
  · have shown := get?_storedMetadata free system key
    rw [← held] at shown
    refine shown.trans ?_
    cases given : (metadata.getD ∅).get? key with
    | none => rfl
    | some value =>
        have set : value ≠ .null := fun null => nonnull key (null ▸ given)
        simp [set, Option.filter_some]
  · have system := system_storedMetadata free system
    rw [← held] at system
    exact system

end Mem0

/-! All three. -/

/-- An add of a memory. -/
structure Addition where
  partition : String
  content : String
  scope : Option (Dict String Json) := none
  metadata : Option (Dict String Json) := none
  infer : Bool := false
  system : Option System := none

namespace Addition

variable (addition : Addition)

@[reducible] def call : BackendCall :=
  .add addition.partition addition.content addition.scope addition.metadata
    addition.infer addition.system

def holding : Holding where
  content := addition.content
  metadata := addition.metadata.getD ∅
  system := addition.system.getD {}

end Addition

namespace Backend

variable (unicode : Unicode)

/-- A state that stands for some memories, none of which has the id. -/
def Ready : (backend : Backend) → String → (backend.store unicode).State → Prop
  | .stored backend, id, state =>
      (backend.representation unicode).valid state ∧
        ((backend.representation unicode).spaces state).Unused id
  | .mem0 _, id, state => id ∉ Mem0.State.owners state

/-- Whether the backend stores what it is given: mem0 unless it is to extract facts,
or a scope names a field of the request. -/
def StoresAsGiven (addition : Addition) : Backend → Prop
  | .stored _ => True
  | .mem0 _ => addition.infer = false ∧
      ∀ key ∈ addition.scope.getD ∅, key ∈ Mem0.mem0ScopeKeys

/-- `state` is one in which an add has just returned `memoryId`. -/
def Added (backend : Backend) (addition : Addition) (memoryId : String)
    (state : (backend.store unicode).State) : Prop :=
  backend.StoresAsGiven addition ∧ ∃ before fresh result,
    backend.Ready unicode fresh.id before ∧
    (backend.store unicode).perform fresh addition.call before = (.ok result, state) ∧
    memoryId ∈ result.items.map AddResult.id

def read (backend : Backend) (partition memoryId : String)
    (state : (backend.store unicode).State) : Except Exc (Option Memory) :=
  ((backend.store unicode).perform ⟨"", ""⟩ (.get partition memoryId) state).1

def refinement (partition memoryId : String) : (backend : Backend) →
    Refinement (backend.store unicode) partition memoryId
  | .stored backend => (backend.representation unicode).refinement partition memoryId
  | .mem0 _ => Mem0.refinement

variable {unicode} {backend : Backend} {addition : Addition} {memoryId : String}
  {state : (backend.store unicode).State}

theorem Added.holds (nonnull : ∀ key, (addition.metadata.getD ∅).get? key ≠ some .null)
    (added : backend.Added unicode addition memoryId state) :
    (backend.refinement unicode addition.partition memoryId).holds addition.holding
      state := by
  obtain ⟨asGiven, before, fresh, result, ready, adds, reported⟩ := added
  have replied : ((backend.store unicode).perform fresh addition.call before).1 =
      .ok result := congrArg Prod.fst adds
  have reached : ((backend.store unicode).perform fresh addition.call before).2 = state :=
    congrArg Prod.snd adds
  obtain ⟨partition, content, scope, metadata, infer, system⟩ := addition
  cases backend with
  | stored backend =>
      obtain ⟨ids, holds⟩ := (backend.representation unicode).holds_added partition
        ready.1 ready.2 replied
      rw [ids, List.mem_singleton] at reported
      rw [← reached, reported]
      exact holds
  | mem0 timestamps =>
      obtain ⟨verbatim, known⟩ := asGiven
      cases verbatim
      obtain ⟨ids, holds⟩ := Mem0.holds_added known nonnull ready replied
      rw [ids, List.mem_singleton] at reported
      rw [← reached, reported]
      exact holds

end Backend

namespace Backend

variable (unicode : Unicode) (backend : Backend)

/-- What a get shows of a memory after updates of it. -/
def readAfter (partition memoryId : String) (steps : List (Fresh × Change))
    (state : (backend.store unicode).State) : Except Exc (Option Memory) :=
  backend.read unicode partition memoryId
    ((backend.store unicode).updated partition memoryId steps state)

variable {unicode backend} {addition : Addition} {memoryId : String}
  {state : (backend.store unicode).State}

theorem Added.readAfter (nonnull : ∀ key, (addition.metadata.getD ∅).get? key ≠ some .null)
    (added : backend.Added unicode addition memoryId state)
    {steps : List (Fresh × Change)} (clean : ∀ step ∈ steps, step.2.Clean) :
    ∃ memory, backend.readAfter unicode addition.partition memoryId steps state =
        .ok (some memory) ∧
      (addition.holding.after (steps.map Prod.snd)).Shows memory :=
  (backend.refinement unicode addition.partition memoryId).get
    (Refinement.updated _ (added.holds nonnull) clean) ⟨"", ""⟩

end Backend

def oneKey (value : Json) : Addition where
  partition := "s"
  content := "x"
  metadata := some (Dict.ofList [("a", value)])

/-- Where an add under the id "m" leaves an empty backend. -/
def Backend.holdingOne (backend : Backend) (value : Json) :
    (backend.store .ascii).State :=
  ((backend.store .ascii).perform ⟨"m", "t"⟩ (oneKey value).call
    (backend.store .ascii).initial).2

end Memcp
