import Memcp.Backends.Mem0.Adapter
import Memcp.Policy.Access

/-!
What a mem0 record of any shape is parsed into: which of its system fields
count, and when a malformed system record fails the space check.
-/

namespace Memcp.Mem0

open Python

/-- `check_space` on a memory whose fields may be of any type. -/
def RawMemory.checkSpace (memory : RawMemory) (partition : String) :
    Except Exc RawMemory :=
  if memory.partition = .str partition ∧
      memory.system.space.getD (.str partition) = .str partition then
    .ok memory
  else .error (.policyError .internalError internalErrorMsg)

theorem spaceIs_iff {system : System} {partition : String} :
    system.spaceIs partition = true ↔
      system.space.getD (.str partition) = .str partition := by
  unfold System.spaceIs
  split
  · rename_i none
    simp [none]
  · rename_i space same
    simp [same]
  · rename_i value other same
    rw [same, Option.getD_some]
    constructor
    · intro absurd
      cases absurd
    · intro text
      exact absurd text (other partition)

/-- A memory of the declared types is checked as it is read. -/
theorem RawMemory.checkSpace_declared {raw : RawMemory} {memory : Memory}
    (declared : raw.declared = .ok memory) (partition : String) :
    raw.checkSpace partition = .ok raw ↔
      Memcp.checkSpace (some memory) partition = .ok memory := by
  have tells := RawMemory.tells declared
  have agree : (raw.partition = .str partition ∧
      raw.system.space.getD (.str partition) = .str partition) ↔
        memory.inSpace partition = true := by
    rw [tells.partition, tells.system, Memory.inSpace, Bool.and_eq_true, decide_eq_true_eq,
      spaceIs_iff, Json.str.injEq]
  rw [RawMemory.checkSpace, Memcp.checkSpace]
  simp only [agree]
  split
  · exact iff_of_true rfl rfl
  · constructor
    · intro absurd
      cases absurd
    · intro absurd
      cases absurd

/-- A record of a partition, read as an object with metadata. -/
structure RecordOf (partition : String) (raw : Json) (stored : Dict String Json) :
    Prop where
  own : ∃ fields, raw.dict? = some fields ∧ fields.get? "user_id" = some (.str partition) ∧
    (getOr fields "metadata" .null).dict? = some stored

/-- Anything but null and an object, or an object that names another space. -/
def Malformed (partition : String) (value : Json) : Prop :=
  value ≠ .null ∧ ∀ fields, value.dict? = some fields →
    ∃ space, fields.get? "space" = some space ∧ space ≠ .str partition

/-- The fields a system record holds as text. -/
def SystemText (stored : Dict String Json) (field text : String) : Prop :=
  ∃ value fields, stored.get? systemMetadataKey = some value ∧
    value.dict? = some fields ∧ fields.get? field = some (.str text)

variable {partition : String} {raw score : Json} {stored : Dict String Json}

theorem attributes_orElse {value : Json} (object : value.dict? = some stored) :
    attributes (orElse value (.obj [])) = .ok stored := by
  cases value with
  | obj fields =>
      rw [← Option.some.inj object]
      cases fields with
      | nil => rfl
      | cons head tail => rfl
  | _ => cases object

/-- Where `_split_system` looks for the fields. -/
def systemFields (stored : Dict String Json) : Dict String Json :=
  match stored.get? systemMetadataKey with
  | none | some .null => ∅
  | some value => value.dict?.getD (Dict.ofList [("space", value)])

theorem splitSystem_fst (stored : Dict String Json) :
    (splitSystem stored).1 = .ofDict (systemFields stored) := by
  unfold splitSystem systemFields
  cases stored.get? systemMetadataKey with
  | none => rfl
  | some value =>
      cases value with
      | obj fields => rfl
      | _ => rfl

theorem systemFields_of_held {value : Json}
    (held : stored.get? systemMetadataKey = some value) (present : value ≠ .null) :
    systemFields stored = value.dict?.getD (Dict.ofList [("space", value)]) := by
  unfold systemFields
  rw [held]
  cases value with
  | null => exact absurd rfl present
  | _ => rfl

/-- Only the space is taken from a value that is no object. -/
theorem systemText_of_fields {field text : String} (other : field ≠ "space")
    (found : (systemFields stored).get? field = some (.str text)) :
    SystemText stored field text := by
  unfold systemFields at found
  split at found
  · cases found
  · cases found
  · rename_i value present held
    cases object : value.dict? with
    | some fields =>
        rw [object] at found
        exact ⟨value, fields, held, object, found⟩
    | none =>
        rw [object] at found
        change ((∅ : Dict String Json).set "space" value).get? field = _ at found
        rw [Dict.get?_set, if_neg other] at found
        cases found

theorem bind_str?_eq_some {value : Option Json} {text : String} :
    value.bind Json.str? = some text ↔ value = some (.str text) := by
  cases value with
  | none => simp
  | some value =>
      cases value with
      | str other => simp [Json.str?]
      | _ => simp [Json.str?]

theorem splitSystem_hidden (stored : Dict String Json) :
    ∀ key ∈ (splitSystem stored).2, startsWith key reservedMetadataPrefix = false := by
  intro key member
  obtain ⟨value, found⟩ := Dict.exists_of_mem member
  change ((stripReservedMetadata stored).filter _).get? key = _ at found
  rw [Dict.get?_filter, stripReservedMetadata, Dict.get?_filter] at found
  have kept := (Option.filter_eq_some_iff.mp (Option.filter_eq_some_iff.mp found).1).2
  simpa using kept

theorem parseRaw_of_record (record : RecordOf partition raw stored) (score : Json) :
    ∃ memory, parseRaw raw score = .ok memory ∧ memory.partition = .str partition ∧
      memory.system = (splitSystem stored).1 ∧ memory.metadata = (splitSystem stored).2 := by
  obtain ⟨fields, object, own, metadata⟩ := record.own
  have read : attributes raw = .ok fields := by
    rw [attributes, object]
  have readMetadata := attributes_orElse metadata
  refine ⟨_, by
    rw [parseRaw, read]
    change (attributes (orElse (getOr fields "metadata" .null) (.obj [])) >>= _) = _
    rw [readMetadata]
    rfl, ?_, rfl, rfl⟩
  simp only [getOr, own, Option.getD_some, orElse]
  by_cases empty : partition = ""
  · simp [empty, Json.truthy]
  · simp [empty, Json.truthy]

/-- A malformed record fails unless it is the partition's own text. -/
theorem space_of_malformed {value : Json}
    (held : stored.get? systemMetadataKey = some value)
    (malformed : Malformed partition value) :
    (splitSystem stored).1.space.getD (.str partition) = .str partition ↔
      value = .str partition := by
  rw [splitSystem_fst, systemFields_of_held held malformed.1]
  cases object : value.dict? with
  | none =>
      change (((∅ : Dict String Json).set "space" value).get? "space").getD _ = _ ↔ _
      rw [Dict.get?_set_self, Option.getD_some]
  | some fields =>
      obtain ⟨space, named, other⟩ := malformed.2 fields object
      change (fields.get? "space").getD _ = _ ↔ _
      rw [named, Option.getD_some]
      refine iff_of_false other ?_
      rintro rfl
      cases object

/-- Every record of a partition is parsed; what memcp keeps in its metadata
stays there, and a malformed system record fails the space check unless it is
the partition's own text. -/
theorem malformed_system_fails_iff (partition : String) (raw score : Json)
    (stored : Dict String Json) (record : RecordOf partition raw stored) :
    ∃ memory, parseRaw raw score = .ok memory ∧
      (∀ key ∈ memory.metadata, startsWith key reservedMetadataPrefix = false) ∧
      (∀ text, memory.system.author = some text → SystemText stored "author" text) ∧
      (∀ text, memory.system.createdBy = some text →
        SystemText stored "created_by" text) ∧
      ∀ value, stored.get? systemMetadataKey = some value → Malformed partition value →
        ((∃ error, memory.checkSpace partition = .error error) ↔
          value ≠ .str partition) := by
  obtain ⟨memory, parsed, own, system, metadata⟩ := parseRaw_of_record record score
  refine ⟨memory, parsed, ?_, ?_, ?_, ?_⟩
  · rw [metadata]
    exact splitSystem_hidden stored
  · intro text named
    rw [system, splitSystem_fst] at named
    exact systemText_of_fields (by decide) (bind_str?_eq_some.mp named)
  · intro text named
    rw [system, splitSystem_fst] at named
    exact systemText_of_fields (by decide) (bind_str?_eq_some.mp named)
  · intro value held malformed
    rw [RawMemory.checkSpace, system]
    simp only [own, true_and, space_of_malformed held malformed]
    split
    · rename_i same
      simp [same]
    · rename_i other
      simp [other]

/-- A record of "team" whose system record is a number. -/
def numberedRecord : Json :=
  .obj [("id", .str "m"), ("user_id", .str "team"),
    ("metadata", .obj [(systemMetadataKey, .int 7), ("k", .int 1)])]

theorem malformed_system_fails_numbered :
    ∃ memory, parseRaw numberedRecord .null = .ok memory ∧
      ∃ error, memory.checkSpace "team" = .error error := by
  obtain ⟨memory, parsed, -, -, -, fails⟩ := malformed_system_fails_iff "team" numberedRecord
    .null (Dict.ofList [(systemMetadataKey, .int 7), ("k", .int 1)]) ⟨⟨_, rfl, rfl, rfl⟩⟩
  refine ⟨memory, parsed, (fails (.int 7) rfl ⟨by decide, ?_⟩).mpr (by decide)⟩
  intro fields object
  cases object

/-- A system record that is the partition's own text passes. -/
theorem own_text_passes :
    let raw := Json.obj [("id", .str "m"), ("user_id", .str "team"),
      ("metadata", .obj [(systemMetadataKey, .str "team")])]
    Malformed "team" (.str "team") ∧
      ∃ memory, parseRaw raw .null = .ok memory ∧
        memory.checkSpace "team" = .ok memory := by
  intro raw
  refine ⟨⟨by decide, ?_⟩, _, rfl, rfl⟩
  intro fields object
  cases object

end Memcp.Mem0
