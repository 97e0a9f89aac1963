import Memcp.Policy.Finding
import Memcp.Policy.Migrating

/-!
The identity of an entry's scope is that of the scope its memory is stored with, so a
memory that is stored by one import is found by the next.
-/

namespace Memcp

open Python Interaction

variable {unicode : Unicode}

/-! The identity of a scope and of its text. -/

theorem same_textScope {left right : Dict String String} :
    (textScope left).Same (textScope right) ↔ left.Same right := by
  refine forall_congr' fun key => ?_
  rw [textScope, textScope, Dict.get?_map, Dict.get?_map]
  constructor
  · intro same
    cases first : left.get? key with
    | none =>
        cases second : right.get? key with
        | none => rfl
        | some value => simp [first, second] at same
    | some value =>
        cases second : right.get? key with
        | none => simp [first, second] at same
        | some other => simpa [first, second] using same
  · intro same
    rw [same]

/-- A null value is stored as text, and its identity leaves the key out. -/
theorem scopeKey_eq_textKey_iff {scope : Option (Dict String Json)} :
    scopeKey unicode scope = textKey (scopeAsText unicode (scope.getD ∅)) ↔
      Concrete scope := by
  refine ⟨fun same => ?_, scopeKey_of_concrete⟩
  rintro held rfl
  have counts := congrArg List.length same
  simp only [scopeKey, textKey, scopeAsText, Option.getD_some, List.length_insertionSort,
    List.length_map, Dict.entries_map] at counts
  have kept := (List.length_filter_eq_length_iff).mp counts
  exact fun entry member => of_decide_eq_true (kept entry member)

/-! The memory an add stores. -/

/-- An add a local backend accepted. -/
structure AcceptedAdd (unicode : Unicode) where
  backend : LocalBackend
  fresh : FreshIds
  asked : Nat
  state : (backend.store unicode).State
  stands : (backend.representation unicode).Stands fresh asked state
  partition : String
  content : String
  scope : Option (Dict String Json)
  metadata : Option (Dict String Json)
  infer : Bool
  system : Option System
  reply : AddReturn
  accepted : ((backend.store unicode).perform (fresh.supply asked)
    (.add partition content scope metadata infer system) state).1 = .ok reply

namespace AcceptedAdd

variable (add other : AcceptedAdd unicode)

def later : (add.backend.store unicode).State :=
  ((add.backend.store unicode).perform (add.fresh.supply add.asked)
    (.add add.partition add.content add.scope add.metadata add.infer add.system)
    add.state).2

/-- What a get reads. -/
def Gets (memory : Memory) : Prop :=
  ∃ given, ((add.backend.store unicode).perform given (.get add.partition memory.id)
    add.later).1 = .ok (some memory)

/-- What a page of a list reads. -/
def Lists (memory : Memory) : Prop :=
  ∃ given filter limit cursor page,
    ((add.backend.store unicode).perform given
      (.listMemories add.partition filter limit cursor) add.later).1 = .ok page ∧
    memory ∈ page.memories

/-- A memory the add reports, as get and list read it back. -/
structure ReadsBack (memory : Memory) : Prop where
  reported : ∃ added ∈ add.reply.items, added.id = memory.id
  read : add.Gets memory ∨ add.Lists memory

/-- The memory the add stores. -/
def stored : Item :=
  Item.added unicode (add.fresh.supply add.asked) add.content add.scope add.metadata
    add.system

theorem performed :
    add.reply = .many [{ id := add.stored.id, createdAt := add.stored.createdAt }] ∧
      (add.backend.representation unicode).spaces add.later add.partition =
        (add.backend.representation unicode).spaces add.state add.partition ++
          [add.stored] := by
  have accepted := add.accepted
  have simulates := (add.backend.representation unicode).step
    (add.fresh.supply add.asked) (.add add.partition add.content add.scope add.metadata
      add.infer add.system) add.state add.stands.valid
    fun _ => add.stands.unused add.asked (Nat.le_refl _)
  have left := simulates.spaces
  rw [simulates.reply] at accepted
  rw [Spaces.perform_named rfl] at accepted left
  simp only [Space.perform, Space.add] at accepted left
  split at accepted
  · cases accepted
  · cases accepted
  · rename_i flat free
    refine ⟨(Except.ok.inj accepted).symm, (congrFun left add.partition).trans ?_⟩
    rw [flat, free, Function.update_self]
    rfl

theorem valid_later : (add.backend.representation unicode).valid add.later :=
  ((add.backend.representation unicode).step _ _ _ add.stands.valid
    fun _ => add.stands.unused add.asked (Nat.le_refl _)).valid

/-- A read after the add is the read of the partition. -/
theorem read_later (given : Fresh) {call : BackendCall} (addsNone : call.isAdd = false)
    (names : call.partition? = some add.partition) :
    ((add.backend.store unicode).perform given call add.later).1 =
      (Space.perform unicode given call
        ((add.backend.representation unicode).spaces add.later add.partition)).1 := by
  rw [((add.backend.representation unicode).simulates add.valid_later given addsNone).reply,
    Spaces.perform_named names]

theorem eq_stored {item : Item} (id : item.id = add.stored.id)
    (member : item ∈ (add.backend.representation unicode).spaces add.later
      add.partition) : item = add.stored := by
  rw [add.performed.2] at member
  rcases List.mem_append.mp member with old | new
  · exact absurd id (add.stands.unused add.asked (Nat.le_refl _) _ _ old)
  · exact List.mem_singleton.mp new

theorem reads_stored :
    let memory := add.stored.memory add.partition none
    add.ReadsBack memory ∧ add.Gets memory ∧ add.Lists memory := by
  intro memory
  have unused := add.stands.unused add.asked (Nat.le_refl _) add.partition
  have reported : ∃ added ∈ add.reply.items, added.id = memory.id := by
    rw [add.performed.1]
    exact ⟨_, List.mem_singleton_self _, rfl⟩
  have gets : add.Gets memory := by
    refine ⟨⟨"", ""⟩, ?_⟩
    have found : Space.find memory.id _ = some add.stored :=
      @Import.find_append_self _ add.stored unused
    rw [add.read_later _ rfl rfl, add.performed.2]
    simp only [Space.perform, found, Option.map_some]
    rfl
  have lists : add.Lists memory := by
    let items := (add.backend.representation unicode).spaces add.later add.partition
    have page := @Import.firstPage unicode ⟨"", ""⟩ add.partition items.length items
    refine ⟨⟨"", ""⟩, none, (items.length : Int), none, _,
      (add.read_later _ rfl rfl).trans (congrArg Prod.fst page), ?_⟩
    rw [List.take_length]
    refine List.mem_map_of_mem ?_
    simp only [items, add.performed.2]
    exact List.mem_append_right _ (List.mem_singleton_self _)
  exact ⟨⟨reported, .inl gets⟩, gets, lists⟩

theorem ReadsBack.eq {memory : Memory} (reads : add.ReadsBack memory) :
    memory = add.stored.memory add.partition none := by
  obtain ⟨added, member, same⟩ := reads.reported
  rw [add.performed.1] at member
  obtain rfl := List.mem_singleton.mp member
  rcases reads.read with ⟨given, got⟩ | ⟨given, filter, limit, cursor, page, paged, within⟩
  · rw [add.read_later _ rfl rfl] at got
    obtain ⟨item, found, rfl⟩ := Option.map_eq_some_iff.mp (Except.ok.inj got)
    rw [add.eq_stored same.symm (Space.mem_of_find found).1]
  · rw [add.read_later _ rfl rfl] at paged
    obtain ⟨item, selected, rfl⟩ := List.mem_map.mp (mem_of_paginate paged within)
    rw [add.eq_stored same.symm (List.mem_filter.mp selected).1]

end AcceptedAdd

/-! An import and a later one. -/

namespace LocalBackend

/-- `import_payload` on a backend, with no other call in between. -/
def importRun (backend : LocalBackend) (unicode : Unicode) (supply : Nat → Fresh)
    (options : ImportOptions) (entries : List (Dict String Json)) (limit asked : Nat)
    (state : (backend.store unicode).State) :
    Except Exc ImportOutcome × Nat × (backend.store unicode).State :=
  Fallible.exec (backend.store unicode).machine supply
    (importPayload unicode options entries limit) asked state

theorem importRun_alone {backend : LocalBackend} {fresh : FreshIds} {asked : Nat}
    {state : (backend.store unicode).State}
    (stands : (backend.representation unicode).Stands fresh asked state)
    (options : ImportOptions) (entries : List (Dict String Json)) (limit : Nat) :
    let ran := backend.importRun unicode fresh.supply options entries limit asked state
    let alone := Fallible.exec (Space.store unicode).machine fresh.supply
      (importPayload unicode options entries limit) asked
      ((backend.representation unicode).spaces state options.userId)
    ran.1 = alone.1 ∧
      (backend.representation unicode).spaces ran.2.2 options.userId = alone.2.2 ∧
      (backend.representation unicode).Stands fresh ran.2.1 ran.2.2 := by
  have confined : Safe (fun _ => Effect.within options.userId) (fun _ _ => True)
      (importPayload unicode options entries limit) [] :=
    Safe.mono (Action.Within.importPayload options entries limit [])
      (fun _ _ allowed => allowed) fun _ _ _ => trivial
  obtain ⟨outcome, -, stands, spaces⟩ := Representation.exec_alone confined stands
  exact ⟨outcome, (congrFun spaces options.userId).trans (Function.update_self _ _ _), stands⟩

end LocalBackend

/-- A memory an import created. -/
def Created (before after : List Item) (made : Item) : Prop :=
  made ∈ after ∧ ∀ old ∈ before, old.id ≠ made.id

/-- The identity of a scope without null values is that of the scope its memory is
stored with, and an import that reads the whole space finds a memory by it. -/
theorem dedup_identity_is_stored_identity (unicode : Unicode) :
    (∀ add : AcceptedAdd unicode, ∃ memory,
      add.ReadsBack memory ∧ add.Gets memory ∧ add.Lists memory) ∧
    (∀ (add : AcceptedAdd unicode) (memory : Memory), add.ReadsBack memory →
      (scopeKey unicode add.scope = scopeKey unicode (some memory.scope) ↔
        Concrete add.scope)) ∧
    (∀ (add other : AcceptedAdd unicode) (memory memory' : Memory),
      add.ReadsBack memory → other.ReadsBack memory' →
      Concrete add.scope → Concrete other.scope →
      (scopeKey unicode add.scope = scopeKey unicode other.scope ↔
        memory.scope.Same memory'.scope)) ∧
    ∀ (backend : LocalBackend) (fresh fresh' : FreshIds) (asked asked' : Nat)
        (state state' : (backend.store unicode).State) (options again : ImportOptions)
        (entries entries' : List (Dict String Json)) (limit limit' : Nat) (made : Item),
      (backend.representation unicode).Stands fresh asked state →
      (backend.representation unicode).Stands fresh' asked' state' →
      let spaces := (backend.representation unicode).spaces
      let first := backend.importRun unicode fresh.supply options entries limit asked state
      let later := backend.importRun unicode fresh'.supply again entries' limit' asked' state'
      Created (spaces state options.userId) (spaces first.2.2 options.userId) made →
      (∃ entry ∈ entries, ∃ item, readEntry unicode options entry = .ok item ∧
        made.Holds unicode item) ∧
      ((∃ kept ∈ spaces state' options.userId, made.Keeps kept) →
        again.userId = options.userId → again.onConflict ≠ .duplicate →
        ∀ outcome, later.1 = .ok outcome → outcome.dedupIncomplete = false →
          ∀ (index : Nat) (entry : Dict String Json) (item : ImportItem),
            entries'[index]? = some entry → readEntry unicode again entry = .ok item →
            Concrete item.scope → item.content = made.content →
            (scopeAsText unicode (item.scope.getD ∅)).Same made.scope →
            ∃ found ∈ spaces state' options.userId, found.content = made.content ∧
              found.scope.Same made.scope ∧ outcome.Finds index found.id) := by
  refine ⟨fun add => ⟨_, add.reads_stored⟩, ?_, ?_, ?_⟩
  · intro add memory reads
    obtain rfl := reads.eq
    rw [← scopeKey_eq_textKey_iff]
    exact Eq.congr_right (scopeKey_textScope unicode add.stored.scope)
  · intro add other memory memory' reads reads' concrete concrete'
    obtain rfl := reads.eq
    obtain rfl := reads'.eq
    rw [scopeKey_of_concrete concrete, scopeKey_of_concrete concrete', textKey_eq_iff]
    exact same_textScope.symm
  · intro backend fresh fresh' asked asked' state state' options again entries entries'
      limit limit' made stands stands' spaces first later createdNow
    constructor
    · obtain ⟨-, left, -⟩ := LocalBackend.importRun_alone stands options entries limit
      have member : made ∈ spaces first.2.2 options.userId := createdNow.1
      simp only [spaces, first, left] at member
      rcases Space.import_holds (LocalBackend.stands stands options.userId) made member with
        ⟨old, oldMember, keeps⟩ | fromEntry
      · exact absurd keeps.id.symm (createdNow.2 old oldMember)
      · exact fromEntry
    · rintro ⟨kept, member, keeps⟩ user mode outcome returned complete index entry item at_
        read concrete content scope
      obtain ⟨reply, -⟩ := LocalBackend.importRun_alone stands' again entries' limit'
      rw [← user] at member ⊢
      rw [← keeps.content] at content ⊢
      rw [← keeps.scope] at scope ⊢
      exact Space.import_finds (LocalBackend.stands stands' again.userId) mode
        (reply.symm.trans returned) complete member at_ read concrete content scope

/-- An import that skips and has no validator. -/
def skipOptions : ImportOptions :=
  { userId := "s", onConflict := .skip, scopeValidator := none, stamp := none }

def skipRun (entries : List (Dict String Json)) (limit asked : Nat)
    (state : InMemory.State) : Except Exc ImportOutcome × Nat × InMemory.State :=
  LocalBackend.inMemory.importRun .ascii FreshIds.tally.supply skipOptions entries limit
    asked state

def noteEntry (content : String) (scope : Json) : Dict String Json :=
  Dict.ofList [("content", .str content), ("scope", scope)]

/-- A memory stored with a number is found by its text. -/
theorem dedup_identity_is_stored_identity_number :
    let first := skipRun [noteEntry "note" (.obj [("run_id", .int 7)])] 10 0
      (LocalBackend.inMemory.store .ascii).initial
    let later := skipRun [noteEntry "note" (.obj [("run_id", .str "7")])] 10 first.2.1
      first.2.2
    let outcome : ImportOutcome := { skipped := [{ index := 0, existingId := "aa" }] }
    later.1 = .ok outcome ∧
      ∃ found ∈ (LocalBackend.inMemory.representation .ascii).spaces first.2.2 "s",
        found.content = "note" ∧ outcome.Finds 0 found.id := by
  intro first later outcome
  have stands := (LocalBackend.inMemory.representation .ascii).stands_initial FreshIds.tally
  obtain ⟨-, -, stands'⟩ := LocalBackend.importRun_alone stands skipOptions
    [noteEntry "note" (.obj [("run_id", .int 7)])] 10
  have shape : ((LocalBackend.inMemory.representation .ascii).spaces first.2.2 "s").map
      (fun item => (item.content, item.scope)) =
        [("note", Dict.ofList [("run_id", "7")])] := by decide +kernel
  obtain ⟨made, landed, fields⟩ := List.map_eq_singleton_iff.mp shape
  obtain ⟨content, scope⟩ := Prod.mk.inj fields
  have member : made ∈ (LocalBackend.inMemory.representation .ascii).spaces first.2.2 "s" := by
    rw [landed]
    exact List.mem_singleton_self _
  have returned : later.1 = .ok outcome := by decide +kernel
  obtain ⟨-, finds⟩ := (dedup_identity_is_stored_identity .ascii).2.2.2 .inMemory .tally
    .tally 0 first.2.1 _ first.2.2 skipOptions skipOptions _
    [noteEntry "note" (.obj [("run_id", .str "7")])] 10 10 made stands stands'
    ⟨member, nofun⟩
  obtain ⟨found, held, same, -, finds⟩ := finds ⟨made, member, .rfl⟩ rfl (by decide) outcome
    returned rfl 0 (noteEntry "note" (.obj [("run_id", .str "7")]))
    ⟨"note", some (Dict.ofList [("run_id", .str "7")]), none⟩ rfl (by decide +kernel)
    (concrete_textScope (Dict.ofList [("run_id", "7")])) content.symm
    (scope ▸ fun _ => rfl)
  exact ⟨returned, found, held, same.trans content, finds⟩

/-- A null value is stored as text and left out of the identity, so its memory is stored
again; and so is one that a read up to its limit misses. -/
theorem null_scopes_are_stored_again :
    let scope : Dict String Json := Dict.ofList [("run_id", .null)]
    let store := LocalBackend.inMemory.store .ascii
    let added := store.perform ⟨"m", "now"⟩
      (.add "s" "note" (some scope) none false none) store.initial
    let nulled := [noteEntry "note" (.obj [("run_id", .null)])]
    let notes := [noteEntry "one" .null, noteEntry "two" .null]
    let first := skipRun nulled 10 0 store.initial
    let capped := skipRun notes 1 0 store.initial
    ((store.perform ⟨"n", "now"⟩ (.get "s" "m") added.2).1.toOption.map
        (Option.map Memory.scope) =
          some (some (Dict.ofList [("run_id", .str "None")])) ∧
      scopeKey .ascii (some scope) ≠
        scopeKey .ascii (some (Dict.ofList [("run_id", .str "None")]))) ∧
    (first.1 = .ok { imported := [{ id := "aa", index := 0, action := .created }] } ∧
      (skipRun nulled 10 first.2.1 first.2.2).1 =
        .ok { imported := [{ id := "aaaaa", index := 0, action := .created }] }) ∧
    capped.1 = .ok {
        imported := [{ id := "aa", index := 0, action := .created },
          { id := "aaaa", index := 1, action := .created }] } ∧
      (skipRun notes 1 capped.2.1 capped.2.2).1 = .ok {
        imported := [{ id := "aaaaaaa", index := 1, action := .created }]
        skipped := [{ index := 0, existingId := "aa" }]
        dedupIncomplete := true } := by
  decide +kernel

end Memcp
