import Memcp.StoredMetadata

/-!
How large the metadata of a written memory can become, whatever was stored
before.  An update is measured as it will be stored.  An overwrite measures the
entry alone and keeps the reserved keys it finds, so it can pass the cap.
-/

namespace Memcp

open Python Interaction Import

variable {unicode : Unicode} {fresh : FreshIds} {asked : Nat} {items : List Item}
  {key : Key}

/-- A write leaves metadata within the cap, or no larger than it was. -/
def Within (before after : Dict String Json) : Prop :=
  metadataSize after ≤ maxMetadataBytes ∨ metadataSize after ≤ metadataSize before

/-- The reserved keys of stored metadata, which an overwrite keeps. -/
def reservedPart (stored : Dict String Json) : Dict String Json :=
  stored.filter fun key _ => isReservedMetadataKey key

/-- An entry's metadata and the reserved keys stored, written as one map, are
within the cap or no larger than what is stored. -/
def Fits (metadata stored : Dict String Json) : Prop :=
  2 + (entriesSize metadata + entriesSize (reservedPart stored) - 1) ≤
    max maxMetadataBytes (metadataSize stored)

instance (metadata stored : Dict String Json) : Decidable (Fits metadata stored) :=
  inferInstanceAs (Decidable (_ ≤ _))

theorem entriesSize_overwrite {metadata : Dict String Json} {dup : Memory}
    (valid : validateMetadata unicode metadata false = .ok ()) :
    entriesSize ((overwritePatch metadata dup).apply dup.metadata) =
      entriesSize metadata + entriesSize (reservedPart dup.metadata) := by
  have apart : ∀ key, key ∈ metadata → key ∉ reservedPart dup.metadata := by
    intro key given kept
    obtain ⟨value, found⟩ := Dict.exists_of_mem kept
    rw [reservedPart, Dict.get?_filter, Option.filter_eq_some_iff] at found
    rw [not_reserved_of_valid valid (Dict.mem_iff_keys.mp given)] at found
    cases found.2
  have nodup : (metadata.entries ++ (reservedPart dup.metadata).entries).Nodup := by
    rw [List.nodup_append]
    refine ⟨metadata.nodup.of_map, (reservedPart dup.metadata).nodup.of_map, ?_⟩
    rintro entry given _ kept rfl
    exact apart entry.1 (List.mem_map_of_mem given) (List.mem_map_of_mem kept)
  have perm : ((overwritePatch metadata dup).apply dup.metadata).entries.Perm
      (metadata.entries ++ (reservedPart dup.metadata).entries) := by
    rw [List.perm_ext_iff_of_nodup (Dict.nodup _).of_map nodup]
    rintro ⟨key, value⟩
    rw [List.mem_append, ← Dict.get?_eq_some_iff, ← Dict.get?_eq_some_iff,
      ← Dict.get?_eq_some_iff, get?_overwrite, reservedPart, Dict.get?_filter,
      Option.filter_eq_some_iff]
    by_cases given : key ∈ metadata
    · have free := not_reserved_of_valid valid (Dict.mem_iff_keys.mp given)
      simp [given, free]
    · simp [given, Dict.get?_eq_none_iff.mpr given, and_comm]
  have sums := (perm.map entrySize).sum_nat
  rwa [List.map_append, List.sum_append] at sums

/-- An overwrite is within the cap exactly when the entry fits. -/
theorem within_overwrite {metadata : Dict String Json} {dup : Memory}
    (valid : validateMetadata unicode metadata false = .ok ()) :
    Within dup.metadata ((overwritePatch metadata dup).apply dup.metadata) ↔
      Fits metadata dup.metadata := by
  rw [Within, Fits, metadataSize_eq ((overwritePatch metadata dup).apply _),
    entriesSize_overwrite valid]
  exact le_max_iff.symm

theorem readMetadata_dict {entry : Dict String Json}
    {metadata : Option (Dict String Json)}
    (read : readMetadata unicode entry = .ok metadata) :
    metadata = (entryGet entry "metadata").dict? := by
  unfold readMetadata at read
  split at read
  · rename_i null
    cases read
    rw [null]
    rfl
  · split at read
    · cases read
    · obtain ⟨_, -, read⟩ := bind_eq_ok.mp read
      obtain ⟨_, -, same⟩ := bind_eq_ok.mp read
      cases same
      exact Eq.symm ‹_›

/-! The two writes. -/

theorem Space.update_within (stands : Space.Stands fresh asked items)
    {memoryId : String} {content : Option String}
    {metadata : Option (Dict String Json)} {memory : Memory}
    (returned : ((Space.store unicode).request unicode fresh.supply key
      (.update memoryId content metadata) asked items).1 = .ok (.memory memory)) :
    ∃ old new, Space.find memoryId items = some old ∧
      Space.find memoryId ((Space.store unicode).request unicode fresh.supply key
        (.update memoryId content metadata) asked items).2.2 = some new ∧
      Within old.metadata new.metadata := by
  have comes := @Space.request_comes unicode key fresh asked items stands
    (.update memoryId content metadata)
  generalize (Space.store unicode).request unicode fresh.supply key
    (.update memoryId content metadata) asked items = ran at returned comes
  obtain ⟨reply, count, later⟩ := ran
  obtain ⟨did, -⟩ := comes
  cases did with
  | kept raised =>
      obtain ⟨error, failed⟩ := raised rfl
      cases returned.symm.trans failed
  | @updated _ _ _ old now found validText validMetadata size =>
      refine ⟨old, old.updatedBy key now content metadata, found,
        Space.find_changeOf found (Space.mem_of_find found).2, ?_⟩
      unfold Item.updatedBy Item.changed
      cases given : Dict.given metadata with
      | none => exact .inr (Nat.le_refl _)
      | some held =>
          simp only [Option.map_some, Option.elim_some]
          rw [MetadataPatch.apply_eq_patched]
          rcases checkMetadataSize_eq_ok.mp (size held given) with small | noLarger
          · exact .inl small
          · obtain ⟨_, ⟨⟩, noLarger⟩ := noLarger
            exact .inr noLarger

theorem Space.overwrite_within (stands : Space.Stands fresh asked items)
    {entries : List (Dict String Json)} {onConflict : String} {outcome : ImportOutcome}
    (returned : ((Space.store unicode).request unicode fresh.supply key
      (.importMemories entries onConflict) asked items).1 = .ok (.imported outcome))
    {written : Imported} (listed : written ∈ outcome.imported)
    (wrote : written.action = .updated) :
    let after := Space.imported unicode fresh key onConflict asked items
    ∃ entry old new, entries[written.index]? = some entry ∧
      Space.find written.id (after (entries.take written.index)) = some old ∧
      Space.find written.id (after (entries.take (written.index + 1))) = some new ∧
      (Within old.metadata new.metadata ↔
        ∀ metadata, (entryGet entry "metadata").dict? = some metadata →
          Fits metadata old.metadata) := by
  intro after
  have short := (Space.listed_short stands returned).2 written listed
  obtain ⟨mode, before, report, later, reports, -, left, reached, ids, known, step,
    reported, rfl⟩ := Space.import_at stands returned short
  obtain ⟨place, id, rfl, there⟩ : ∃ place id, written = ⟨id, place, .updated⟩ ∧
      reports[place]? = some (.updated id) := by
    rw [ImportOutcome.reports_eq] at listed
    obtain ⟨place, found, there, same⟩ := mem_listed.mp listed
    cases found with
    | failed | skipped => cases same
    | created =>
        cases same
        cases wrote
    | updated id =>
        cases same
        exact ⟨place, id, by rw [Nat.zero_add], there⟩
  cases there.symm.trans reported
  generalize entry_eq : entries[place] = entry at step
  cases step with
  | @updated item dup old now read held _ oldFound =>
      obtain rfl := known.stored_eq ids held oldFound
      refine ⟨entry, old, _, List.getElem?_eq_some_iff.mpr ⟨short, entry_eq⟩,
        (congrArg (Space.find old.id) left).trans oldFound,
        (congrArg (Space.find old.id) reached).trans (Space.find_changeOf oldFound rfl),
        ?_⟩
      have metadata := (readEntry_parts read).2.1
      have given : item.metadata = (entryGet entry "metadata").dict? :=
        readMetadata_dict metadata
      have accepted := readMetadata_eq_ok metadata
      unfold Import.overwritten Item.changed
      rw [← given]
      cases own : item.metadata with
      | none => exact ⟨fun _ => nofun, fun _ => .inr (Nat.le_refl _)⟩
      | some metadata =>
          rw [own] at accepted
          simp only [Option.map_some, Option.elim_some, Option.some.injEq,
            forall_eq']
          exact @within_overwrite unicode metadata (old.memory key.grant.space none)
            (accepted metadata rfl).1

theorem written_metadata_size {backend : LocalBackend}
    {state : (backend.store unicode).State}
    (stands : (backend.representation unicode).Stands fresh asked state)
    (key : Key) (request : Request) :
    let ran := (backend.store unicode).request unicode fresh.supply key request asked
      state
    let before := (backend.representation unicode).spaces state key.grant.space
    let after := fun request =>
      backend.after unicode fresh key request asked state key.grant.space
    (∀ memoryId content metadata memory, request = .update memoryId content metadata →
      ran.1 = .ok (.memory memory) →
      ∃ old new, Space.find memoryId before = some old ∧
        Space.find memoryId (after request) = some new ∧
        Within old.metadata new.metadata) ∧
    ∀ entries outcome, request = .importMemories entries "overwrite" →
      ran.1 = .ok (.imported outcome) →
      ∀ written ∈ outcome.imported, written.action = .updated →
      ∃ entry old new, entries[written.index]? = some entry ∧
        Space.find written.id (after
          (.importMemories (entries.take written.index) "overwrite")) = some old ∧
        Space.find written.id (after
          (.importMemories (entries.take (written.index + 1)) "overwrite")) =
            some new ∧
        (Within old.metadata new.metadata ↔
          ∀ metadata, (entryGet entry "metadata").dict? = some metadata →
            Fits metadata old.metadata) := by
  intro ran before after
  have own := LocalBackend.stands stands key.grant.space
  have same : ran.1 = _ := (Representation.request_eq stands key request).1
  have left : ∀ request, after request = ((Space.store unicode).request unicode
      fresh.supply key request asked before).2.2 := by
    intro request
    simp only [after, LocalBackend.after_eq stands, Function.update_self]
    rfl
  constructor
  · rintro memoryId content metadata memory rfl returned
    rw [same] at returned
    rw [left]
    exact Space.update_within own returned
  · rintro entries outcome rfl returned written listed wrote
    rw [same] at returned
    rw [left, left]
    exact Space.overwrite_within own returned listed wrote

/-! A small overwrite. -/

def overwriting : Dict String Json :=
  Dict.ofList [("content", .str "x"), ("metadata", .obj [("k", .str "v")])]

theorem written_metadata_size_small :
    let backend := LocalBackend.inMemory
    let key : Key := ⟨"ann", ⟨"s", .writer⟩⟩
    let added := (backend.store .ascii).request .ascii FreshIds.tally.supply key
      (.add "x" .null none false) 0 (backend.store .ascii).initial
    let after := fun entries => backend.after .ascii FreshIds.tally key
      (.importMemories entries "overwrite") added.2.1 added.2.2 "s"
    ∃ entry old new, [overwriting][0]? = some entry ∧
      Space.find "a" (after []) = some old ∧
      Space.find "a" (after [overwriting]) = some new ∧
      (Within old.metadata new.metadata ↔
        ∀ metadata, (entryGet entry "metadata").dict? = some metadata →
          Fits metadata old.metadata) :=
  (written_metadata_size
    (Representation.request_eq
      ((LocalBackend.inMemory.representation .ascii).stands_initial FreshIds.tally)
      ⟨"ann", ⟨"s", .writer⟩⟩ (.add "x" .null none false)).2.2.1
    ⟨"ann", ⟨"s", .writer⟩⟩ (.importMemories [overwriting] "overwrite")).2
    [overwriting] { imported := [⟨"a", 0, .updated⟩] } rfl (by decide +kernel)
    ⟨"a", 0, .updated⟩ (by simp) rfl

/-! An overwrite of a memory whose reserved metadata fills the cap. -/

def longText : String := String.ofList (List.replicate 16370 'a')

/-- Metadata stored before `user_id` was reserved. -/
def reservedMetadata : Dict String Json :=
  (∅ : Dict String Json).set "user_id" (.str longText)

def reservedEntry : InMemory.Entry where
  userId := "s"
  content := "x"
  scope := ∅
  metadata := reservedMetadata
  system := { space := some (.str "s") }
  createdAt := ""
  updatedAt := none

def reservedStored : InMemory.State where
  store := (∅ : Dict String InMemory.Entry).set "m" reservedEntry
  history := (∅ : Dict String (List HistoryEntry)).set "m" [.created "" "x" none]

theorem utf8ByteSize_replicate (n : Nat) :
    (String.ofList (List.replicate n 'a' ++ ['"'])).utf8ByteSize = n + 1 := by
  induction n with
  | zero => rfl
  | succ n induction =>
      have one : 'a'.utf8Size = 1 := rfl
      rw [List.replicate_succ, List.cons_append, String.ofList_cons,
        String.utf8ByteSize_append, induction, String.utf8ByteSize_singleton, one]
      omega

theorem dumpsStr_replicate (n : Nat) :
    (Json.dumpsStr (String.ofList (List.replicate n 'a'))).utf8ByteSize = n + 2 := by
  have escaped : (List.replicate n 'a').flatMap Json.escapeChar =
      List.replicate n 'a' := by
    induction n with
    | zero => rfl
    | succ n induction =>
        have kept : Json.escapeChar 'a' = ['a'] := by decide
        rw [List.replicate_succ, List.flatMap_cons, induction, kept]
        rfl
  have one : '"'.utf8Size = 1 := rfl
  rw [Json.dumpsStr, String.toList_ofList, escaped, List.cons_append,
    String.ofList_cons, String.utf8ByteSize_append, utf8ByteSize_replicate,
    String.utf8ByteSize_singleton, one]
  omega

theorem overwrite_passes_cap :
    let backend := LocalBackend.inMemory
    let key : Key := ⟨"ann", ⟨"s", .writer⟩⟩
    let request : Request := .importMemories [overwriting] "overwrite"
    ((backend.store .ascii).request .ascii FreshIds.tally.supply key request 0
      reservedStored).1 = .ok (.imported { imported := [⟨"m", 0, .updated⟩] }) ∧
    ∃ old new,
      Space.find "m" ((backend.representation .ascii).spaces reservedStored "s") =
        some old ∧
      Space.find "m" (backend.after .ascii FreshIds.tally key request 0 reservedStored
        "s") = some new ∧
      ¬ Within old.metadata new.metadata := by
  have stands : (LocalBackend.inMemory.representation .ascii).Stands FreshIds.tally 0
      reservedStored := InMemory.stands_single reservedEntry
  have outcome : ((LocalBackend.inMemory.store .ascii).request .ascii
      FreshIds.tally.supply ⟨"ann", ⟨"s", .writer⟩⟩
      (.importMemories [overwriting] "overwrite") 0 reservedStored).1 =
        .ok (.imported { imported := [⟨"m", 0, .updated⟩] }) := by
    decide +kernel
  refine ⟨outcome, ?_⟩
  have returned := (Representation.request_eq stands ⟨"ann", ⟨"s", .writer⟩⟩
    (.importMemories [overwriting] "overwrite")).1.symm.trans outcome
  obtain ⟨entry, old, new, given, found, written, within⟩ := Space.overwrite_within
    (LocalBackend.stands stands "s") returned (List.mem_singleton.mpr rfl) rfl
  have stored : Space.find "m" ((LocalBackend.inMemory.representation .ascii).spaces
      reservedStored "s") =
        some (InMemory.item reservedStored.history ("m", reservedEntry)) := rfl
  obtain rfl : old = InMemory.item reservedStored.history ("m", reservedEntry) :=
    Option.some.inj (found.symm.trans stored)
  cases given
  refine ⟨_, new, stored, ?_, fun small => ?_⟩
  · rw [LocalBackend.after_eq stands, Function.update_self]
    exact written
  · have fits := within.mp small (Dict.ofList [("k", .str "v")]) rfl
    have entry : entriesSize (Dict.ofList [("k", .str "v")]) = 8 := by decide +kernel
    have name : (Json.dumpsStr "user_id").utf8ByteSize = 9 := by decide +kernel
    have long : (Json.dumpsStr longText).utf8ByteSize = 16372 := dumpsStr_replicate 16370
    have single : ∀ text, entriesSize ((∅ : Dict String Json).set "user_id" (.str text)) =
        9 + (Json.dumpsStr text).utf8ByteSize + 2 := by
      intro text
      rw [entriesSize, Dict.entries_set_of_not_mem (Dict.not_mem_empty _), ← name]
      simp only [Dict.entries_empty, List.nil_append, List.map_cons, List.map_nil,
        List.sum_singleton, entrySize, Json.dumps]
    have part : reservedPart reservedMetadata = reservedMetadata := by
      have reserved : isReservedMetadataKey "user_id" = true := by decide +kernel
      apply Dict.ext
      rw [reservedPart, Dict.entries_filter, List.filter_eq_self]
      intro entry member
      rw [List.mem_singleton.mp member]
      exact reserved
    have stored : entriesSize reservedMetadata = 16383 :=
      (single longText).trans (by rw [long])
    have before : metadataSize reservedMetadata = 16384 := by
      rw [metadataSize_eq, stored]
    unfold Fits at fits
    simp only [InMemory.item, reservedEntry, part, entry, stored, before,
      maxMetadataBytes] at fits
    omega

end Memcp
