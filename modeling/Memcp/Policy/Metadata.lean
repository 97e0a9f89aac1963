import Memcp.Policy.Access

/-! Caller metadata and authorship: the metadata rules and the system stamp. -/

namespace Memcp

open Python

def isValue : Json → Bool
  | .str _ | .bool _ | .int _ => true
  | .float value => value.isFinite
  | .list items => items.all fun
      | .str _ => true
      | _ => false
  | .null | .obj _ => false

/-- The rules on one key and value of a metadata map. -/
def validateMetadataEntry (unicode : Unicode) (nulls : Bool) (key : String)
    (value : Json) : Except Exc Unit :=
  let named := "metadata key " ++ repr unicode key
  if isReservedMetadataKey key then
    .error (.valueError (named ++ " is reserved"))
  else if value = .null ∧ nulls then
    -- A removal: a key stored before the length rule existed can still go.
    .ok ()
  else if maxMetadataKeyLength < key.length then
    .error (.valueError (named ++ " is longer than " ++
      toString maxMetadataKeyLength ++ " characters"))
  else if value = .null then
    .error (.valueError (named ++ " is null; only update_memory takes null"))
  else if !isValue value then
    .error (.valueError (named ++
      " must be a string, a finite number, a boolean or a list of strings"))
  else .ok ()

def validateMetadata (unicode : Unicode) (metadata : Dict String Json)
    (nulls : Bool) : Except Exc Unit :=
  metadata.entries.forM fun entry =>
    validateMetadataEntry unicode nulls entry.1 entry.2

theorem validateMetadata_eq_ok {unicode : Unicode} {metadata : Dict String Json}
    {nulls : Bool} :
    validateMetadata unicode metadata nulls = .ok () ↔
      ∀ entry ∈ metadata.entries,
        validateMetadataEntry unicode nulls entry.1 entry.2 = .ok () := by
  unfold validateMetadata
  induction metadata.entries with
  | nil => exact ⟨fun _ => nofun, fun _ => rfl⟩
  | cons head tail induction =>
      rw [List.forM_eq_forM, List.forM_cons, List.forall_mem_cons, ← induction,
        bind_eq_ok]
      exact ⟨fun ⟨_, first, rest⟩ => ⟨first, rest⟩,
        fun ⟨first, rest⟩ => ⟨(), first, rest⟩⟩

theorem validateMetadata_raises (unicode : Unicode) (metadata : Dict String Json)
    (nulls : Bool) : Raises Exc.IsValueError (validateMetadata unicode metadata nulls) := by
  unfold validateMetadata
  induction metadata.entries with
  | nil => exact .pure ()
  | cons head tail induction =>
      rw [List.forM_eq_forM, List.forM_cons]
      refine .bind ?_ fun _ _ => induction
      unfold validateMetadataEntry
      dsimp only
      (repeat' split) <;> first | exact .pure _ | exact .throw trivial

theorem not_reserved_of_entry {unicode : Unicode} {nulls : Bool} {key : String}
    {value : Json} (valid : validateMetadataEntry unicode nulls key value = .ok ()) :
    isReservedMetadataKey key = false := by
  unfold validateMetadataEntry at valid
  split at valid
  case isTrue => cases valid
  case isFalse free => exact Bool.eq_false_iff.mpr free

theorem not_reserved_of_valid {unicode : Unicode} {metadata : Dict String Json}
    {nulls : Bool} (valid : validateMetadata unicode metadata nulls = .ok ())
    {key : String} (member : key ∈ metadata.keys) :
    isReservedMetadataKey key = false := by
  obtain ⟨entry, stored, rfl⟩ := List.mem_map.mp member
  exact not_reserved_of_entry (validateMetadata_eq_ok.mp valid entry stored)

theorem refuseReservedMetadata_eq_ok {unicode : Unicode} {keys : List String} :
    refuseReservedMetadata unicode keys = .ok () ↔
      ∀ key ∈ keys, isReservedMetadataKey key = false := by
  unfold refuseReservedMetadata
  cases found : keys.find? isReservedMetadataKey with
  | none =>
      have none := List.find?_eq_none.mp found
      exact ⟨fun _ key member => by simpa using none key member, fun _ => rfl⟩
  | some key =>
      refine ⟨nofun, fun free => ?_⟩
      have reserved := List.find?_some found
      rw [free key (List.mem_of_find?_eq_some found)] at reserved
      cases reserved

/-- The length in bytes of a metadata map as JSON. -/
def metadataSize (metadata : Dict String Json) : Nat :=
  (Json.ofDict metadata).dumps.utf8ByteSize

def checkMetadataSize (metadata : Dict String Json)
    (stored : Option (Dict String Json)) : Except Exc Unit :=
  let size := metadataSize metadata
  if maxMetadataBytes < size ∧ (stored.all fun stored => metadataSize stored < size) then
    .error (.valueError ("metadata would be " ++ toString size ++
      " bytes as JSON; the limit is " ++ toString (maxMetadataBytes / 1024) ++
      " KiB"))
  else .ok ()

theorem checkMetadataSize_raises (metadata : Dict String Json)
    (stored : Option (Dict String Json)) :
    Raises Exc.IsValueError (checkMetadataSize metadata stored) := by
  unfold checkMetadataSize
  dsimp only
  split
  · exact .throw trivial
  · exact .pure _

/-- update_memory's argument as a patch: a null value removes its key. -/
def asPatch (metadata : Dict String Json) : MetadataPatch where
  set := metadata.filter fun _ value => value ≠ .null
  remove := (metadata.filter fun _ value => value = .null).keys
  disjoint := by
    intro key removed set
    obtain ⟨value, found⟩ := Dict.exists_of_mem set
    obtain ⟨other, foundNull⟩ :=
      Dict.exists_of_mem (Dict.mem_iff_keys.mpr removed)
    rw [Dict.get?_filter, Option.filter_eq_some_iff] at found foundNull
    rw [found.1] at foundNull
    simp_all

theorem keys_asPatch {metadata : Dict String Json} {key : String}
    (member : key ∈ (asPatch metadata).keys) : key ∈ metadata.keys := by
  have kept : ∀ {keep : String → Json → Bool},
      key ∈ (metadata.filter keep).keys → key ∈ metadata.keys := by
    intro keep named
    obtain ⟨entry, stored, rfl⟩ := List.mem_map.mp named
    exact List.mem_map.mpr ⟨entry, List.mem_of_mem_filter stored, rfl⟩
  rcases List.mem_append.mp member with set | removed
  · exact kept set
  · exact kept removed

/-- `stored` with `patch` applied: what a backend will hold after the update. -/
def patched (stored : Dict String Json) (patch : MetadataPatch) :
    Dict String Json :=
  (stored.filter fun key _ => key ∉ patch.remove).update patch.set

def systemFor (partition author : String) (createdBy : Option String) : System where
  space := some (.str partition)
  author := some author
  createdBy := createdBy

@[simp] theorem systemFor_spaceIs (partition author : String)
    (createdBy : Option String) :
    (systemFor partition author createdBy).spaceIs partition = true := by
  simp [systemFor, System.spaceIs]

end Memcp
