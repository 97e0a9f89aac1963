import Memcp.Policy.Repeats
import Memcp.StoredMetadata

/-!
Imports that overwrite.  After one, a memory of each identity named by the batch
holds the metadata last given for it, and no other memory has changed.
-/

namespace Memcp

open Python Interaction

/-- What a memory holds once metadata is written over what it held: the metadata,
and the reserved keys that were there. -/
def WrittenOver (given : Option (Dict String Json)) (before after : Dict String Json) :
    Prop :=
  match given with
  | none => after = before
  | some metadata => ∀ key, after.get? key =
      if key ∈ metadata then metadata.get? key
      else if isReservedMetadataKey key then before.get? key
      else none

/-- No client names a reserved key. -/
def Unreserved (given : Option (Dict String Json)) : Prop :=
  ∀ metadata, given = some metadata → ∀ key ∈ metadata, isReservedMetadataKey key = false

theorem WrittenOver.trans {first second : Option (Dict String Json)}
    {before middle after : Dict String Json} (one : WrittenOver first before middle)
    (two : WrittenOver second middle after) (free : Unreserved first) :
    WrittenOver (second.or first) before after := by
  cases second with
  | none =>
      obtain rfl : after = middle := two
      exact one
  | some metadata =>
      intro key
      rw [two key]
      split
      · rfl
      · split
        case isFalse => rfl
        case isTrue reserved =>
          cases first with
          | none =>
              obtain rfl : middle = before := one
              rfl
          | some earlier =>
              have unnamed : key ∉ earlier := by
                intro named
                rw [free earlier rfl key named] at reserved
                cases reserved
              rw [one key, if_neg unnamed, if_pos reserved]

namespace Import

variable {unicode : Unicode} {options : ImportOptions} {index : Nat}
  {entry : Dict String Json} {entries : List (Dict String Json)}
  {before after : Progress} {report : Report} {reports : List Report} {key : DedupKey}

/-! What the valid entries of a batch give. -/

/-- The identity a valid entry names. -/
def names (unicode : Unicode) (options : ImportOptions) (entry : Dict String Json) :
    Option DedupKey :=
  match readEntry unicode options entry with
  | .ok item => some (dedupKey unicode item.content item.scope)
  | .error _ => none

/-- The identities named by a batch. -/
def named (unicode : Unicode) (options : ImportOptions)
    (entries : List (Dict String Json)) : List DedupKey :=
  entries.filterMap (names unicode options)

/-- The metadata a valid entry gives a memory of the identity `key`. -/
def gives (unicode : Unicode) (options : ImportOptions) (key : DedupKey)
    (entry : Dict String Json) : Option (Dict String Json) :=
  match readEntry unicode options entry with
  | .ok item => if dedupKey unicode item.content item.scope = key then item.metadata else none
  | .error _ => none

/-- The metadata of the last entry that gives any. -/
def lastGiven (unicode : Unicode) (options : ImportOptions) (key : DedupKey)
    (entries : List (Dict String Json)) : Option (Dict String Json) :=
  (entries.filterMap (gives unicode options key)).getLast?

theorem named_append (first second : List (Dict String Json)) :
    named unicode options (first ++ second) =
      named unicode options first ++ named unicode options second :=
  List.filterMap_append

theorem lastGiven_append (first second : List (Dict String Json)) :
    lastGiven unicode options key (first ++ second) =
      (lastGiven unicode options key second).or (lastGiven unicode options key first) := by
  rw [lastGiven, List.filterMap_append, List.getLast?_append]
  rfl

theorem unreserved_lastGiven : Unreserved (lastGiven unicode options key entries) := by
  intro metadata last name member
  obtain ⟨entry, -, gave⟩ := List.mem_filterMap.mp (List.mem_of_getLast? last)
  unfold gives at gave
  split at gave
  case h_2 => cases gave
  case h_1 item read =>
    split at gave
    case isFalse => cases gave
    case isTrue =>
      have accepted := readMetadata_eq_ok (readEntry_parts read).2.1 metadata gave
      exact not_reserved_of_valid accepted.1 (Dict.mem_iff_keys.mp member)

theorem lastGiven_of_unnamed (unnamed : key ∉ named unicode options entries) :
    lastGiven unicode options key entries = none := by
  rw [lastGiven, List.getLast?_eq_none_iff, List.filterMap_eq_nil_iff]
  intro entry member
  unfold gives
  split
  case h_2 => rfl
  case h_1 item read =>
    split
    case isFalse => rfl
    case isTrue same =>
      have listed : key ∈ named unicode options entries := by
        refine List.mem_filterMap.mpr ⟨entry, member, ?_⟩
        rw [names, read, ← same]
      exact absurd listed unnamed

/-! What a batch makes of a space. -/

/-- What a batch that gave metadata leaves of the memory stored under an
identity, and what it leaves of one that it stored. -/
def Replaced (given : Option (Dict String Json)) : Option Item → Item → Prop
  | none, later => WrittenOver given ∅ later.metadata
  | some old, later =>
      later.id = old.id ∧ later.content = old.content ∧ later.scope = old.scope ∧
        later.createdAt = old.createdAt ∧
        later.system.createdBy = old.system.createdBy ∧
        WrittenOver given old.metadata later.metadata

theorem Replaced.trans {first second : Option (Dict String Json)} {stored : Option Item}
    {middle later : Item} (one : Replaced first stored middle)
    (two : Replaced second (some middle) later) (free : Unreserved first) :
    Replaced (second.or first) stored later := by
  obtain ⟨id, content, scope, createdAt, createdBy, written⟩ := two
  cases stored with
  | none => exact WrittenOver.trans one written free
  | some old =>
      obtain ⟨id₁, content₁, scope₁, createdAt₁, createdBy₁, written₁⟩ := one
      exact ⟨id.trans id₁, content.trans content₁, scope.trans scope₁,
        createdAt.trans createdAt₁, createdBy.trans createdBy₁, written₁.trans written free⟩

structure Replaces (unicode : Unicode) (options : ImportOptions)
    (entries : List (Dict String Json)) (items later : List Item) : Prop where
  distinct : (later.map (Item.identity unicode)).Nodup
  others : (later.filter fun item =>
      item.identity unicode ∉ named unicode options entries) =
    items.filter fun item => item.identity unicode ∉ named unicode options entries
  written : ∀ key ∈ named unicode options entries,
    ∃ item ∈ later, item.identity unicode = key ∧
      Replaced (lastGiven unicode options key entries)
        (items.find? fun item => item.identity unicode = key) item

namespace Replaces

variable {first second : List (Dict String Json)} {items middle later : List Item}

theorem others_trans (one : Replaces unicode options first items middle)
    (two : Replaces unicode options second middle later) :
    (later.filter fun item =>
        item.identity unicode ∉ named unicode options (first ++ second)) =
      items.filter fun item =>
        item.identity unicode ∉ named unicode options (first ++ second) := by
  have apart : ∀ some : List Item, (some.filter fun item =>
        item.identity unicode ∉ named unicode options (first ++ second)) =
      (some.filter fun item => item.identity unicode ∉ named unicode options second).filter
        fun item => item.identity unicode ∉ named unicode options first := by
    intro some
    rw [List.filter_filter]
    refine List.filter_congr fun item _ => ?_
    simp [named_append]
  have swapped : ∀ some : List Item,
      ((some.filter fun item => item.identity unicode ∉ named unicode options first).filter
        fun item => item.identity unicode ∉ named unicode options second) =
      (some.filter fun item => item.identity unicode ∉ named unicode options second).filter
        fun item => item.identity unicode ∉ named unicode options first :=
    fun some => List.filter_comm _ _ some
  rw [apart later, two.others, ← swapped middle, one.others, swapped items, ← apart items]

theorem trans (one : Replaces unicode options first items middle)
    (two : Replaces unicode options second middle later) :
    Replaces unicode options (first ++ second) items later := by
  refine ⟨two.distinct, others_trans one two, fun key names => ?_⟩
  rw [lastGiven_append]
  by_cases again : key ∈ named unicode options second
  · obtain ⟨new, member, identity, replaced⟩ := two.written key again
    refine ⟨new, member, identity, ?_⟩
    by_cases before : key ∈ named unicode options first
    · obtain ⟨held, heldMember, heldIdentity, heldReplaced⟩ := one.written key before
      rw [(List.find?_key_eq_some one.distinct).mpr ⟨heldMember, heldIdentity⟩] at replaced
      exact heldReplaced.trans replaced unreserved_lastGiven
    · have same := @List.find?_key_congr _ _ _ (Item.identity unicode) middle items
        (fun key => key ∉ named unicode options first) _ one.others key before
      rw [same] at replaced
      rw [lastGiven_of_unnamed before, Option.or_none]
      exact replaced
  · have before : key ∈ named unicode options first := by
      rw [named_append, List.mem_append] at names
      exact names.resolve_right again
    obtain ⟨held, heldMember, rfl, heldReplaced⟩ := one.written key before
    have kept : held ∈ later := by
      have chosen : held ∈ middle.filter fun item =>
          item.identity unicode ∉ named unicode options second :=
        List.mem_filter.mpr ⟨heldMember, decide_eq_true again⟩
      rw [← two.others] at chosen
      exact (List.mem_filter.mp chosen).1
    refine ⟨held, kept, rfl, ?_⟩
    rw [lastGiven_of_unnamed again, Option.none_or]
    exact heldReplaced

end Replaces

/-! One entry and all of them. -/

/-- The stamp of an overwritten memory keeps its creator. -/
def KeepsCreator (options : ImportOptions) : Prop :=
  ∀ stamp, options.stamp = some stamp →
    ∀ index stored, (stamp index (some stored)).createdBy = stored.createdBy

theorem named_single {item : ImportItem} (read : readEntry unicode options entry = .ok item) :
    named unicode options [entry] = [dedupKey unicode item.content item.scope] := by
  simp [named, names, read]

theorem lastGiven_single {item : ImportItem}
    (read : readEntry unicode options entry = .ok item) :
    lastGiven unicode options (dedupKey unicode item.content item.scope) [entry] =
      item.metadata := by
  cases given : item.metadata with
  | none => simp [lastGiven, gives, read, given]
  | some metadata => simp [lastGiven, gives, read, given]

theorem replaced_overwritten {item : ImportItem} (keeps : KeepsCreator options)
    (now : String) (old : Item) (same : old.content = item.content) :
    Replaced item.metadata (some old)
      (overwritten options index item now (old.memory options.userId none) old) := by
  refine ⟨rfl, same.symm, rfl, rfl, ?_, ?_⟩
  · cases stamped : options.stamp with
    | none => simp [overwritten, Item.changed, stamped]
    | some stamp =>
        simp only [overwritten, Item.changed, stamped, Option.map_some, Option.getD_some]
        exact keeps stamp stamped index old.system
  · cases given : item.metadata with
    | none => simp [WrittenOver, overwritten, Item.changed, given]
    | some metadata =>
        intro key
        simp only [overwritten, Item.changed, given, Option.map_some, Option.elim_some]
        exact get?_overwrite metadata (old.memory options.userId none) key

theorem replaced_created {item : ImportItem} (given : Fresh) :
    Replaced item.metadata none (Import.created unicode options index item given) := by
  cases metadata : item.metadata with
  | none => simp [Replaced, WrittenOver, Import.created, Item.added, metadata]
  | some held =>
      intro key
      simp only [Import.created, Item.added, metadata, Option.getD_some, Dict.get?_empty,
        ite_self]
      split
      · rfl
      · rename_i absent
        exact Dict.get?_eq_none_iff.mpr absent

theorem filter_unnamed {item : ImportItem} (items : List Item)
    (read : readEntry unicode options entry = .ok item) :
    (items.filter fun other => other.identity unicode ∉ named unicode options [entry]) =
      items.filter fun other =>
        other.identity unicode ≠ dedupKey unicode item.content item.scope := by
  simp [named_single read]

theorem Step.replaces (step : Step unicode options index entry before report after)
    (mode : options.onConflict = .overwrite) (keeps : KeepsCreator options)
    (exact : Exact unicode options.userId before)
    (ids : (before.items.map Item.id).Nodup)
    (distinct : (before.items.map (Item.identity unicode)).Nodup)
    (concrete : ∀ item, readEntry unicode options entry = .ok item →
      Concrete item.scope) :
    Replaces unicode options [entry] before.items after.items := by
  cases step with
  | failed read =>
      refine ⟨distinct, rfl, fun key listed => ?_⟩
      simp [named, names, read] at listed
  | skipped read known skips => rw [mode] at skips; cases skips
  | @updated item dup old now read known overwrites found =>
      obtain ⟨rfl, member, identity, -⟩ := exact.held ids known found
      have content : old.content = item.content := congrArg Prod.fst identity
      let changed := overwritten options index item now (old.memory options.userId none) old
      let write := fun other : Item => if other.id = old.id then changed else other
      have kept : ∀ other ∈ before.items,
          (write other).identity unicode = other.identity unicode :=
        identity_kept ids member content
      change Replaces unicode options [entry] before.items (before.items.map write)
      refine ⟨?_, ?_, ?_⟩
      · have same : before.items.map (Item.identity unicode ∘ write) =
            before.items.map (Item.identity unicode) := List.map_congr_left kept
        rw [List.map_map, same]
        exact distinct
      · rw [filter_unnamed _ read, filter_unnamed _ read, List.filter_map]
        have others : before.items.filter ((fun other : Item =>
              decide (other.identity unicode ≠
                dedupKey unicode item.content item.scope)) ∘ write) =
            before.items.filter fun other =>
              other.identity unicode ≠ dedupKey unicode item.content item.scope :=
          List.filter_congr fun other otherMember => by
            rw [Function.comp_apply, kept other otherMember]
        rw [others]
        refine (List.map_congr_left fun other chosen => ?_).trans (List.map_id _)
        obtain ⟨otherMember, apart⟩ := List.mem_filter.mp chosen
        have differ : other.id ≠ old.id := by
          intro same
          rw [List.inj_on_of_nodup_map ids otherMember member same] at apart
          exact of_decide_eq_true apart identity
        exact if_neg differ
      · intro key listed
        rw [named_single read, List.mem_singleton] at listed
        subst listed
        refine ⟨changed, List.mem_map.mpr ⟨old, member, if_pos rfl⟩, ?_, ?_⟩
        · exact (identity_overwritten content).trans identity
        · rw [lastGiven_single read,
            (List.find?_key_eq_some distinct).mpr ⟨member, identity⟩]
          exact replaced_overwritten keeps now old content
  | @created item given read unknown flat unused =>
      have unnamed := exact.unknown (unknown (by rw [mode]; exact nofun))
      have identity := @identity_created unicode options index item (concrete item read)
        given
      refine ⟨?_, ?_, ?_⟩
      · rw [List.map_append]
        refine List.nodup_append.mpr ⟨distinct, List.nodup_singleton _, ?_⟩
        intro first firstMember second secondMember same
        obtain ⟨other, otherMember, rfl⟩ := List.mem_map.mp firstMember
        rw [List.mem_singleton.mp secondMember, identity] at same
        exact unnamed other otherMember same
      · rw [filter_unnamed _ read, filter_unnamed _ read, List.filter_append]
        simp [identity]
      · intro key listed
        rw [named_single read, List.mem_singleton] at listed
        subst listed
        refine ⟨_, List.mem_append_right _ List.mem_cons_self, identity, ?_⟩
        have absent : before.items.find? (fun other =>
            other.identity unicode = dedupKey unicode item.content item.scope) = none := by
          rw [List.find?_eq_none]
          exact fun other member => by simpa using unnamed other member
        rw [lastGiven_single read, absent]
        exact replaced_created given

theorem Run.replaces (run : Run unicode options index entries before reports after)
    (mode : options.onConflict = .overwrite) (keeps : KeepsCreator options)
    (exact : Exact unicode options.userId before)
    (ids : (before.items.map Item.id).Nodup)
    (distinct : (before.items.map (Item.identity unicode)).Nodup)
    (concrete : ReadsConcrete unicode options entries) :
    Replaces unicode options entries before.items after.items := by
  induction run with
  | nil progress => exact ⟨distinct, rfl, nofun⟩
  | @cons index entry entries before middle after report reports step rest induction =>
      have first := concrete entry List.mem_cons_self
      have one := step.replaces mode keeps exact ids distinct first
      refine one.trans (induction (exact.step ids step first) (step.ids ids) one.distinct ?_)
      exact fun other member => concrete other (List.mem_cons_of_mem _ member)

end Import

open Import

section Policy

variable {unicode : Unicode} {key : Key} {fresh : FreshIds} {asked : Nat}
  {entries : List (Dict String Json)}

theorem keepsCreator (mode : OnConflict) :
    KeepsCreator ((localPolicy unicode).importOptions key mode) := by
  rintro _ ⟨⟩ index stored
  rfl

theorem Space.import_overwrites {items : List Item} {outcome : ImportOutcome}
    (stands : Space.Stands fresh asked items)
    (distinct : (items.map (Item.identity unicode)).Nodup) :
    let call := (Space.store unicode).request unicode fresh.supply key
      (.importMemories entries "overwrite") asked items
    call.1 = .ok (.imported outcome) → outcome.dedupIncomplete = false →
      Replaces unicode ((localPolicy unicode).importOptions key .overwrite) entries items
        call.2.2 := by
  intro call returned complete
  obtain ⟨mode, reports, after, checked, read, run, rfl, left⟩ :=
    Space.import_returned stands returned
  obtain ⟨-, -, named⟩ := checkImportArguments_eq_ok.mp checked
  obtain rfl : OnConflict.overwrite = mode := Option.some.inj named
  let options := (localPolicy unicode).importOptions key .overwrite
  have indexes : options.onConflict ≠ .duplicate := by
    intro impossible
    cases impossible
  have whole : items.length ≤ maxExport := by
    rw [ImportOutcome.reports_eq] at complete
    have bounded : ¬ options.onConflict = .duplicate → items.length ≤ maxExport := by
      simpa [unread] using complete
    exact bounded indexes
  have exact : Exact unicode options.userId (start unicode options maxExport items) :=
    exact_start indexes whole
  have replaces := run.replaces rfl (keepsCreator .overwrite) exact stands.ids distinct
    (readsConcrete_policy unicode key .overwrite entries)
  rw [left]
  exact replaces

end Policy

/-- An import that overwrites replaces the metadata of the memories its entries name
and changes no other memory. -/
theorem overwrite_replaces (unicode : Unicode) (backend : LocalBackend) (fresh : FreshIds)
    {asked : Nat} {state : (backend.store unicode).State}
    (stands : (backend.representation unicode).Stands fresh asked state) (key : Key)
    (entries : List (Dict String Json)) {outcome : ImportOutcome} :
    let spaces := (backend.representation unicode).spaces
    let space := key.grant.space
    let call := (backend.store unicode).request unicode fresh.supply key
      (.importMemories entries "overwrite") asked state
    ((spaces state space).map (Item.identity unicode)).Nodup →
      call.1 = .ok (.imported outcome) → outcome.dedupIncomplete = false →
        Replaces unicode ((localPolicy unicode).importOptions key .overwrite) entries
          (spaces state space) (spaces call.2.2 space) ∧
        ∀ other, other ≠ space → spaces call.2.2 other = spaces state other := by
  intro spaces space call distinct returned complete
  obtain ⟨same, others⟩ := Representation.request_alone stands key
    (.importMemories entries "overwrite")
  have replaces := @Space.import_overwrites unicode key fresh asked entries
    (spaces state space) outcome (LocalBackend.stands stands space) distinct
  simp only at replaces
  rw [← same] at replaces
  exact ⟨replaces returned complete, others⟩

/-! A memory with a reserved key, overwritten twice, and one stored beside it. -/

def rewriting : List (Dict String Json) :=
  [Dict.ofList [("content", .str "x"), ("metadata", .obj [("k", .int 1)])], Dict.ofList [],
    Dict.ofList [("content", .str "y")], Dict.ofList [("content", .str "x")]]

theorem overwrite_replaces_reserved :
    let backend := LocalBackend.inMemory
    let spaces := (backend.representation .ascii).spaces
    let key : Key := ⟨"ann", ⟨"s", .writer⟩⟩
    let state := InMemory.State.single {
      userId := "s", content := "x", scope := ∅
      metadata := Dict.ofList [("user_id", .str "bob"), ("old", .int 0)]
      system := { space := some (.str "s") }, createdAt := "", updatedAt := none }
    let call := (backend.store .ascii).request .ascii FreshIds.tally.supply key
      (.importMemories rewriting "overwrite") 0 state
    Replaces .ascii ((localPolicy .ascii).importOptions key .overwrite) rewriting
        (spaces state "s") (spaces call.2.2 "s") ∧
      ∀ other, other ≠ "s" → spaces call.2.2 other = spaces state other :=
  @overwrite_replaces .ascii .inMemory FreshIds.tally 0 _ (InMemory.stands_single _)
    ⟨"ann", ⟨"s", .writer⟩⟩ rewriting
    { imported := [⟨"m", 0, .updated⟩, ⟨"aaaa", 2, .created⟩, ⟨"m", 3, .updated⟩]
      errors := [⟨1, "missing or invalid content"⟩] }
    (by decide +kernel) (by decide +kernel) rfl

end Memcp
