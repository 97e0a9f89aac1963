import Memcp.Policy.Patching
import Memcp.Policy.Sessions

/-!
Requests run one at a time on a local backend started empty store only metadata
that obeys the rules.
-/

namespace Memcp

open Python Interaction

variable {unicode : Unicode}

/-- The metadata rules on a stored map. -/
structure Obeys (unicode : Unicode) (metadata : Dict String Json) : Prop where
  valid : validateMetadata unicode metadata false = .ok ()
  small : metadataSize metadata ≤ maxMetadataBytes

theorem Obeys.of_accepted {metadata : Dict String Json}
    (accepted : acceptedMetadata unicode (some metadata)) : Obeys unicode metadata := by
  obtain ⟨valid, size⟩ := accepted metadata rfl
  refine ⟨valid, ?_⟩
  rcases checkMetadataSize_eq_ok.mp size with small | ⟨_, impossible, _⟩
  · exact small
  · cases impossible

theorem Obeys.empty : Obeys unicode ∅ :=
  ⟨rfl, by decide⟩

theorem Obeys.same {left right : Dict String Json} (same : left.Same right)
    (obeys : Obeys unicode right) : Obeys unicode left where
  valid := by
    have entries := Dict.same_iff_perm.mp same
    rw [validateMetadata_eq_ok]
    exact fun entry member =>
      validateMetadata_eq_ok.mp obeys.valid entry (entries.mem_iff.mp member)
  small := by
    rw [metadataSize_same same]
    exact obeys.small

/-! Updates. -/

theorem validateMetadataEntry_set {key : String} {value : Json}
    (valid : validateMetadataEntry unicode true key value = .ok ())
    (set : value ≠ .null) : validateMetadataEntry unicode false key value = .ok () := by
  unfold validateMetadataEntry at valid ⊢
  simp only [set, false_and, if_false] at valid ⊢
  exact valid

/-- A patched map holds what was stored and what the patch sets. -/
theorem validateMetadata_patched {stored given : Dict String Json}
    (valid : validateMetadata unicode stored false = .ok ())
    (validPatch : validateMetadata unicode given true = .ok ()) :
    validateMetadata unicode (patched stored (asPatch given)) false = .ok () := by
  rw [validateMetadata_eq_ok]
  intro entry member
  have held := Dict.get?_eq_some_iff.mpr member
  rw [← MetadataPatch.apply_eq_patched, MetadataPatch.get?_apply] at held
  split at held
  · cases held
  · rcases Option.or_eq_some_iff.mp held with set | ⟨-, old⟩
    · obtain ⟨named, concrete⟩ := Option.filter_eq_some_iff.mp
        ((Dict.get?_filter _ _ _).symm.trans set)
      exact validateMetadataEntry_set
        (validateMetadata_eq_ok.mp validPatch _ (Dict.get?_eq_some_iff.mp named))
        (of_decide_eq_true concrete)
    · exact validateMetadata_eq_ok.mp valid _ (Dict.get?_eq_some_iff.mp old)

theorem Obeys.patched {stored given : Dict String Json} (obeys : Obeys unicode stored)
    (valid : validateMetadata unicode given true = .ok ())
    (size : checkMetadataSize (Memcp.patched stored (asPatch given)) (some stored) =
      .ok ()) :
    Obeys unicode (Memcp.patched stored (asPatch given)) := by
  refine ⟨validateMetadata_patched obeys.valid valid, ?_⟩
  rcases checkMetadataSize_eq_ok.mp size with small | ⟨held, same, noLarger⟩
  · exact small
  · cases same
    exact Nat.le_trans noLarger obeys.small

/-! Overwrites. -/

/-- An overwrite keeps the reserved keys it finds and replaces the rest. -/
theorem get?_overwrite (metadata : Dict String Json) (dup : Memory) (key : String) :
    ((overwritePatch metadata dup).apply dup.metadata).get? key =
      if key ∈ metadata then metadata.get? key
      else if isReservedMetadataKey key then dup.metadata.get? key
      else none := by
  rw [MetadataPatch.get?_apply]
  have removed : key ∈ (overwritePatch metadata dup).remove ↔
      key ∈ dup.metadata ∧ key ∉ metadata ∧ isReservedMetadataKey key = false := by
    simp [overwritePatch, Dict.mem_iff_keys]
  by_cases given : key ∈ metadata
  · obtain ⟨value, found⟩ := Dict.exists_of_mem given
    have kept : key ∉ (overwritePatch metadata dup).remove := fun gone =>
      (removed.mp gone).2.1 given
    rw [if_neg kept, if_pos given]
    simp only [overwritePatch, found, Option.some_or]
  · have absent := Dict.get?_eq_none_iff.mpr given
    rw [if_neg given]
    cases reserved : isReservedMetadataKey key with
    | true =>
        have kept : key ∉ (overwritePatch metadata dup).remove := fun gone => by
          simp [reserved] at removed
          exact removed gone
        rw [if_neg kept]
        simp [overwritePatch, absent]
    | false =>
        by_cases stored : key ∈ dup.metadata
        · rw [if_pos (removed.mpr ⟨stored, given, reserved⟩)]
          simp
        · have unknown := Dict.get?_eq_none_iff.mpr stored
          simp [overwritePatch, absent, unknown]

/-- Over metadata without reserved keys, an overwrite leaves the entry's own. -/
theorem overwrite_same {metadata : Dict String Json} {dup : Memory}
    (valid : validateMetadata unicode dup.metadata false = .ok ()) :
    ((overwritePatch metadata dup).apply dup.metadata).Same metadata := by
  intro key
  rw [get?_overwrite]
  split
  · rfl
  · rename_i absent
    rw [Dict.get?_eq_none_iff.mpr absent]
    split
    · rename_i reserved
      rw [Dict.get?_eq_none_iff]
      intro stored
      rw [not_reserved_of_valid valid (Dict.mem_iff_keys.mp stored)] at reserved
      cases reserved
    · rfl

/-! Requests. -/

theorem obeys_kept (key : Key) :
    Kept unicode key fun item => Obeys unicode item.metadata where
  added given content scope cleaned metadata _ _ accepted := by
    cases metadata with
    | none => exact .empty
    | some metadata => exact .of_accepted accepted
  updated now content metadata old obeys _ valid := by
    unfold Item.updatedBy Item.changed
    cases given : Dict.given metadata with
    | none => exact obeys
    | some held =>
        simp only [Option.map_some, Option.elim_some]
        rw [MetadataPatch.apply_eq_patched]
        exact obeys.patched (valid held given).1 (valid held given).2
  created mode index item given accepted := by
    unfold Import.created Item.added
    cases given : item.metadata with
    | none => exact .empty
    | some metadata => exact .of_accepted (given ▸ accepted.metadata)
  overwritten mode index item now old accepted obeys := by
    unfold Import.overwritten Item.changed
    cases given : item.metadata with
    | none => exact obeys
    | some metadata =>
        simp only [Option.map_some, Option.elim_some]
        have own : Obeys unicode metadata := .of_accepted (given ▸ accepted.metadata)
        exact own.same (@overwrite_same unicode metadata
          (old.memory key.grant.space none) obeys.valid)

theorem stored_metadata_obeys (unicode : Unicode) (backend : LocalBackend)
    (fresh : FreshIds) (session : List (Key × Request)) (space : String) :
    ∀ item ∈ backend.reached unicode fresh session space,
      validateMetadata unicode item.metadata false = .ok () ∧
        metadataSize item.metadata ≤ maxMetadataBytes := by
  intro item member
  have obeys : Obeys unicode item.metadata :=
    @LocalBackend.reached_forall unicode fresh backend
      (fun _ item => Obeys unicode item.metadata) obeys_kept session space item member
  exact ⟨obeys.valid, obeys.small⟩

theorem stored_metadata_obeys_patched :
    let key : Key := ⟨"ann", ⟨"s", .writer⟩⟩
    let session := [(key, Request.add "x" .null (some (Dict.ofList [("k", .int 1)])) false),
      (key, .update "a" none (some (Dict.ofList [("k", .null), ("x", .int 1)])))]
    ∃ item ∈ LocalBackend.inMemory.reached .ascii FreshIds.tally session "s",
      item.metadata.entries = [("x", .int 1)] ∧
        validateMetadata .ascii item.metadata false = .ok () ∧
          metadataSize item.metadata ≤ maxMetadataBytes := by
  intro key session
  have left : [("x", .int 1)] ∈
      (LocalBackend.inMemory.reached .ascii FreshIds.tally session "s").map
        fun item => item.metadata.entries := by
    decide +kernel
  obtain ⟨item, member, same⟩ := List.mem_map.mp left
  exact ⟨item, member, same,
    stored_metadata_obeys .ascii .inMemory FreshIds.tally session "s" item member⟩

end Memcp
