import Memcp.Policy.Transfer
import Mathlib.Algebra.Order.Ring.Nat

/-!
Metadata under patches: what a patch leaves of a map, and how large a map is
as JSON.
-/

namespace Memcp

open Python

/-! The size of a map is a sum over its entries. -/

/-- The bytes of the texts joined by a character of one byte. -/
theorem utf8ByteSize_intercalate {separator : String}
    (single : separator.utf8ByteSize = 1) (texts : List String) :
    (separator.intercalate texts).utf8ByteSize =
      (texts.map fun text => text.utf8ByteSize + 1).sum - 1 := by
  induction texts with
  | nil => simp
  | cons text texts induction =>
      cases texts with
      | nil => simp
      | cons next texts =>
          rw [String.intercalate_cons_cons, String.utf8ByteSize_append,
            String.utf8ByteSize_append, induction, single]
          simp only [List.map_cons, List.sum_cons]
          omega

/-- The bytes an entry takes in a map as JSON, with the comma after it. -/
def entrySize (entry : String × Json) : Nat :=
  (Json.dumpsStr entry.1).utf8ByteSize + entry.2.dumps.utf8ByteSize + 2

def entriesSize (metadata : Dict String Json) : Nat :=
  (metadata.entries.map entrySize).sum

/-- The braces, and no comma after the last entry. -/
theorem metadataSize_eq (metadata : Dict String Json) :
    metadataSize metadata = 2 + (entriesSize metadata - 1) := by
  have fields : ∀ entries : List (String × Json),
      (Json.dumpsFields entries).map (fun text => text.utf8ByteSize + 1) =
        entries.map entrySize := by
    intro entries
    induction entries with
    | nil => rfl
    | cons entry entries induction =>
        obtain ⟨key, value⟩ := entry
        have colon : ":".utf8ByteSize = 1 := rfl
        rw [Json.dumpsFields, List.map_cons, List.map_cons, induction, entrySize,
          String.utf8ByteSize_append, String.utf8ByteSize_append, colon]
        have bytes : (Json.dumpsStr key).utf8ByteSize + 1 + value.dumps.utf8ByteSize + 1 =
            (Json.dumpsStr key).utf8ByteSize + value.dumps.utf8ByteSize + 2 := by omega
        rw [bytes]
  have comma : ",".utf8ByteSize = 1 := rfl
  have opening : "\x7b".utf8ByteSize = 1 := rfl
  have closing : "\x7d".utf8ByteSize = 1 := rfl
  rw [metadataSize, Json.ofDict, Json.dumps, String.utf8ByteSize_append,
    String.utf8ByteSize_append, utf8ByteSize_intercalate comma, fields, opening,
    closing, entriesSize]
  omega

/-- The size does not depend on the order of the entries. -/
theorem metadataSize_same {left right : Dict String Json} (same : left.Same right) :
    metadataSize left = metadataSize right := by
  have sums : entriesSize left = entriesSize right :=
    ((Dict.same_iff_perm.mp same).map entrySize).sum_nat
  rw [metadataSize_eq, metadataSize_eq, sums]

theorem checkMetadataSize_eq_ok {metadata : Dict String Json}
    {stored : Option (Dict String Json)} :
    checkMetadataSize metadata stored = .ok () ↔
      metadataSize metadata ≤ maxMetadataBytes ∨
        ∃ held, stored = some held ∧ metadataSize metadata ≤ metadataSize held := by
  unfold checkMetadataSize
  cases stored with
  | none =>
      simp only [Option.all_none, and_true, reduceCtorEq, false_and, exists_false,
        or_false]
      split
      · exact ⟨nofun, fun small => absurd small (Nat.not_le_of_lt ‹_›)⟩
      · exact ⟨fun _ => Nat.le_of_not_lt ‹_›, fun _ => rfl⟩
  | some held =>
      simp only [Option.all_some, decide_eq_true_eq, Option.some.injEq, exists_eq_left']
      split
      · rename_i large
        refine ⟨nofun, fun small => ?_⟩
        omega
      · rename_i within
        refine ⟨fun _ => ?_, fun _ => rfl⟩
        omega

/-! Patches. -/

namespace MetadataPatch

variable {patch : MetadataPatch} {metadata : Dict String Json} {key : String}

/-- A store sets and then removes, policy removes and then sets; no key of a
patch is in both parts. -/
theorem apply_eq_patched (patch : MetadataPatch) (metadata : Dict String Json) :
    patch.apply metadata = patched metadata patch := by
  have erased : ∀ dict : Dict String Json, patch.remove.foldl Dict.erase dict =
      dict.filter fun key _ => key ∉ patch.remove := by
    intro dict
    apply Dict.ext
    rw [Dict.entries_foldl_erase, Dict.entries_filter]
  rw [apply, erased, patched]
  refine Dict.filter_update fun key set => ?_
  simpa using fun removed => patch.disjoint key removed set

theorem get?_apply :
    (patch.apply metadata).get? key =
      if key ∈ patch.remove then none
      else (patch.set.get? key).or (metadata.get? key) := by
  rw [apply, Dict.get?_foldl_erase, Dict.get?_update]

end MetadataPatch

end Memcp
