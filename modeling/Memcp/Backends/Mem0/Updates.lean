import Memcp.Backends.Mem0.Adapter
import Memcp.Backends.Mem0.Server
import Memcp.Interaction.Transaction
import Memcp.Policy.Metadata

/-!
What a record of the server reads as, and what an update makes of it.  A key
that was ever sent stays in the stored map; one that was removed is null there
and is not shown.
-/

namespace Memcp.Mem0

open Python Interaction

/-- A server that answers every request. -/
abbrev calm : Machine http Choice where
  State := State
  perform := serve

theorem get?_splitSystem (stored : Dict String Json) (key : String) :
    (splitSystem stored).2.get? key =
      if startsWith key reservedMetadataPrefix then none
      else (stored.get? key).filter (· ≠ .null) := by
  rw [splitSystem, stripReservedMetadata, Dict.get?_filter, Dict.get?_filter]
  cases stored.get? key with
  | none => simp
  | some value =>
      cases startsWith key reservedMetadataPrefix with
      | false => simp
      | true => simp

namespace Record

/-- The metadata a record reads as. -/
def shown (record : Record) : Dict String Json := (splitSystem record.metadata).2

/-- The memory a record reads as. -/
def memory (id : String) (record : Record) : Memory where
  id
  content := record.text
  scope := (record.fields id none).filter fun key value =>
    key ∈ ["agent_id", "run_id"] && value ≠ .null
  metadata := record.shown
  createdAt := record.createdAt
  updatedAt := record.updatedAt
  partition := record.userId
  system := (splitSystem record.metadata).1

theorem get?_shown (record : Record) (key : String) :
    record.shown.get? key =
      if startsWith key reservedMetadataPrefix then none
      else (record.metadata.get? key).filter (· ≠ .null) :=
  get?_splitSystem record.metadata key

end Record

theorem attributes_ofDict (fields : Dict String Json) :
    attributes (Json.ofDict fields) = .ok fields := by
  simp [attributes]

/-- The metadata of a record, an empty map being read as missing. -/
theorem attributes_orElse_ofDict (fields : Dict String Json) :
    attributes (orElse (Json.ofDict fields) (.obj [])) = .ok fields := by
  unfold orElse
  split
  · exact attributes_ofDict fields
  · rename_i empty
    have none : fields = ∅ := by
      apply Dict.ext
      simpa [Json.ofDict, Json.truthy] using empty
    subst none
    rfl

theorem declaredOptional_optional (text : Option String) :
    declaredOptional (Record.optional text) = .ok text := by
  cases text with
  | none => rfl
  | some text => rfl

/-- A response that shows a record is read as its memory. -/
theorem parseMemory_json (id : String) (record : Record) :
    parseMemory (record.json id none) .null = .ok (record.memory id) := by
  have fields : ∀ key default, getOr (record.fields id none) key default =
      ((record.fields id none).get? key).getD default := fun _ _ => rfl
  have user : orElse (.str record.userId) (.str "") = .str record.userId := by
    unfold orElse
    split
    · rfl
    · rename_i empty
      have blank : record.userId = "" := by simpa [Json.truthy] using empty
      rw [blank]
  have metadata : (record.fields id none).get? "metadata" =
      some (Json.ofDict record.metadata) := by
    simp [Record.fields, Dict.setSome, Dict.get?_ofList]
  have content : (record.fields id none).get? "memory" = some (.str record.text) := by
    simp [Record.fields, Dict.setSome, Dict.get?_ofList]
  have score : (record.fields id none).get? "score" = none := by
    simp [Record.fields, Dict.setSome, Dict.get?_ofList]
  have created : (record.fields id none).get? "created_at" =
      some (.str record.createdAt) := by
    simp [Record.fields, Dict.setSome, Dict.get?_ofList]
  have updated : (record.fields id none).get? "updated_at" =
      some (Record.optional record.updatedAt) := by
    simp [Record.fields, Dict.setSome, Dict.get?_ofList]
  unfold parseMemory parseRaw RawMemory.declared
  simp only [Record.json, attributes_ofDict, fields, metadata, content, score, created,
    updated, Record.fields_id, Record.fields_user, Option.getD_some, Option.getD_none,
    attributes_orElse_ofDict, user, ne_eq, not_true_eq_false, if_false,
    declaredOptional_optional, declaredText, declaredScore, bind, Except.bind, pure,
    Except.pure]
  rfl

/-! Requests by id, answered by the server. -/

section Requests

variable {unicode : Unicode} {partition memoryId : String}

theorem ownedMemory_json (found : Option Record) :
    ownedMemory partition (found.elim .null fun record => record.json memoryId none) =
      .ok ((found.filter fun record => record.userId = partition).map
        (Record.memory memoryId)) := by
  cases found with
  | none => rfl
  | some record =>
      have user : getOr (record.fields memoryId none) "user_id" .null =
          .str record.userId := by
        simp [getOr]
      have shown : record.json memoryId none ≠ .null := nofun
      have parsed := parseMemory_json memoryId record
      rw [Option.elim_some, ownedMemory, if_neg shown, parsed, Record.json,
        attributes_ofDict]
      simp only [bind, Except.bind, pure, Except.pure, user]
      by_cases own : record.userId = partition
      · simp [own]
      · simp [own]

theorem get_eq (allowed : refusePartition unicode partition = .ok ()) :
    get unicode partition memoryId =
      @Program.ask http _ (.getMemory memoryId) fun response =>
        .done (response.outcome >>= ownedMemory partition) := by
  unfold get
  rw [allowed]
  refine congrArg (@Program.ask http _ (.getMemory memoryId)) ?_
  funext response
  simp only [Program.done_bind]
  cases response.outcome with
  | ok body => rfl
  | error error => rfl

end Requests

end Memcp.Mem0

namespace Memcp

open Python

/-- What an update is given besides the memory. -/
structure Change where
  content : Option String := none
  patch : Option MetadataPatch := none
  system : Option System := none

namespace Change

variable (change : Change)

/-- The patch names no reserved key. -/
def Free : Prop :=
  ∀ key ∈ change.patch.elim [] MetadataPatch.keys, isReservedMetadataKey key = false

instance : Decidable change.Free := inferInstanceAs (Decidable (∀ _ ∈ _, _))

/-- The keys the patch removes. -/
def removed : List String := change.patch.elim [] MetadataPatch.remove

/-- The value the patch sets a key to. -/
def value? (key : String) : Option Json :=
  change.patch.bind fun patch => patch.set.get? key

variable {change}

theorem value?_of_removed {key : String} (removes : key ∈ change.removed) :
    change.value? key = none := by
  obtain ⟨content, patch, system⟩ := change
  cases patch with
  | none => rfl
  | some patch => exact Dict.get?_eq_none_iff.mpr (patch.disjoint key removes)

theorem Free.removed {key : String} (free : change.Free)
    (removes : key ∈ change.removed) : isReservedMetadataKey key = false := by
  obtain ⟨content, patch, system⟩ := change
  cases patch with
  | none => cases removes
  | some patch => exact free key (List.mem_append_right _ removes)

theorem Free.value {key : String} {value : Json} (free : change.Free)
    (sets : change.value? key = some value) : isReservedMetadataKey key = false := by
  obtain ⟨content, patch, system⟩ := change
  cases patch with
  | none => cases sets
  | some patch =>
      exact free key (List.mem_append_left _ (Dict.mem_of_get? sets))

end Change

end Memcp

namespace Memcp.Mem0

open Python Interaction

theorem get?_foldl_set_null (keys : List String) (dict : Dict String Json)
    (key : String) :
    (keys.foldl (fun dict key => dict.set key .null) dict).get? key =
      if key ∈ keys then some .null else dict.get? key := by
  induction keys generalizing dict with
  | nil => simp
  | cons head tail induction =>
      rw [List.foldl_cons, induction, Dict.get?_set]
      rcases eq_or_ne key head with same | differ
      · simp [same]
      · simp [differ]

/-- The metadata a `PUT` of the change sends. -/
def sent (change : Change) (existing : Memory) : Dict String Json :=
  sentMetadata existing.metadata change.patch change.system

/-- What a `PUT` of the change sends. -/
def body (change : Change) (existing : Memory) : Dict String Json :=
  updateBody existing change.content change.patch change.system

section Body

variable (change : Change) (existing : Memory)

theorem get?_sentMetadata (key : String) :
    (sentMetadata existing.metadata change.patch none).get? key =
      if key ∈ change.removed ∧ key ∈ existing.metadata then some .null
      else change.value? key := by
  obtain ⟨content, patch, system⟩ := change
  cases patch with
  | none => simp [sentMetadata, Change.removed, Change.value?]
  | some patch =>
      have listed : key ∈ patch.remove.filter (fun key => key ∈ existing.metadata) ↔
          key ∈ patch.remove ∧ key ∈ existing.metadata := by
        simp
      simp only [sentMetadata, get?_foldl_set_null, listed]
      rfl

theorem get?_sent {key : String} (user : key ≠ systemMetadataKey) :
    (sent change existing).get? key =
      if key ∈ change.removed ∧ key ∈ existing.metadata then some .null
      else change.value? key := by
  rw [← get?_sentMetadata]
  unfold sent
  cases change.system with
  | none => rfl
  | some system => simp only [sentMetadata, Dict.get?_set, if_neg user]

variable {change} in
theorem get?_sent_system (free : change.Free) :
    (sent change existing).get? systemMetadataKey =
      change.system.map fun system => Json.ofDict system.toDict := by
  unfold sent
  cases change.system with
  | none =>
      have reserved : isReservedMetadataKey systemMetadataKey = true := by decide +kernel
      have kept : systemMetadataKey ∉ change.removed := fun removes => by
        rw [free.removed removes] at reserved
        cases reserved
      have unset : change.value? systemMetadataKey = none := by
        cases sets : change.value? systemMetadataKey with
        | none => rfl
        | some value =>
            rw [free.value sets] at reserved
            cases reserved
      rw [get?_sentMetadata, if_neg fun both => kept both.1, unset]
      rfl
  | some system =>
      simp only [sentMetadata, Dict.get?_set_self, Option.map_some]

theorem get?_body_text : (body change existing).get? "text" = change.content.map .str := by
  have start : ((∅ : Dict String Json).setSome "text" (change.content.map .str)).get?
      "text" = change.content.map .str := by
    cases change.content with
    | none => rfl
    | some content => simp [Dict.setSome]
  simp only [body, updateBody]
  split
  · exact start
  · rw [Dict.get?_set, if_neg (by decide), start]

theorem get?_body_metadata : (body change existing).get? "metadata" =
    if (sent change existing).isEmpty then none
    else some (Json.ofDict (sent change existing)) := by
  have start : ((∅ : Dict String Json).setSome "text" (change.content.map .str)).get?
      "metadata" = none := by
    cases change.content with
    | none => rfl
    | some content => simp [Dict.setSome, Dict.get?_set]
  unfold body updateBody
  change (if (sent change existing).isEmpty then _ else _ : Dict String Json).get?
    "metadata" = _
  split
  · exact start
  · exact Dict.get?_set_self _ _ _

end Body

/-- System fields are read back as they were stored. -/
theorem splitSystem_of_system {stored : Dict String Json} {system : System}
    (found : stored.get? systemMetadataKey = some (Json.ofDict system.toDict)) :
    (splitSystem stored).1 = system := by
  simp only [splitSystem, found, Json.ofDict, Json.dict?, Dict.ofList_entries]
  exact System.ofDict_toDict system

section Stored

variable {metadata : Option (Dict String Json)}
  (free : ∀ key ∈ (metadata.getD ∅).keys, isReservedMetadataKey key = false)

include free

theorem system_storedMetadata (system : Option System) :
    (splitSystem (storedMetadata metadata system)).1 = system.getD {} := by
  have reserved : isReservedMetadataKey systemMetadataKey = true := by decide +kernel
  have absent : (metadata.getD ∅).get? systemMetadataKey = none := by
    rw [Dict.get?_eq_none_iff]
    intro present
    rw [free _ present] at reserved
    cases reserved
  unfold storedMetadata
  cases given : Dict.given (system.map System.toDict) with
  | none =>
      have empty : (splitSystem (metadata.getD ∅)).1 = {} := by
        simp only [splitSystem, absent]
        rfl
      cases system with
      | none => exact empty
      | some system =>
          have blank : system.toDict = ∅ := Dict.getD_of_given_eq_none given
          refine empty.trans ?_
          rw [Option.getD_some, ← System.ofDict_toDict system, blank]
          rfl
  | some fields =>
      obtain ⟨same, -⟩ := Dict.given_eq_some_iff.mp given
      obtain ⟨system, rfl, rfl⟩ := Option.map_eq_some_iff.mp same
      exact splitSystem_of_system (Dict.get?_set_self _ _ _)

/-- The metadata an add stores is read back as it was given, but for nulls. -/
theorem get?_storedMetadata (system : Option System) (key : String) :
    (splitSystem (storedMetadata metadata system)).2.get? key =
      ((metadata.getD ∅).get? key).filter (· ≠ .null) := by
  rw [get?_splitSystem]
  cases prefixed : startsWith key reservedMetadataPrefix with
  | true =>
      have missing : (metadata.getD ∅).get? key = none := by
        rw [Dict.get?_eq_none_iff]
        intro present
        have unreserved := free _ present
        simp [isReservedMetadataKey, prefixed] at unreserved
      rw [missing]
      rfl
  | false =>
      have user : key ≠ systemMetadataKey := by
        intro same
        revert prefixed
        rw [same]
        decide
      have kept : (storedMetadata metadata system).get? key =
          (metadata.getD ∅).get? key := by
        unfold storedMetadata
        cases Dict.given (system.map System.toDict) with
        | none => rfl
        | some fields => simp only [Dict.get?_set, if_neg user]
      rw [kept]
      rfl

end Stored

namespace Record

/-- The record but for the time of its last change. -/
def undated (record : Record) : Record := { record with updatedAt := none }

/-- The record after a `PUT` of what the change sends for `existing`. -/
def changed (change : Change) (existing : Memory) (record : Record) : Record :=
  (record.merged "" (body change existing)).undated

variable {change : Change} {existing : Memory} {record : Record}

theorem changed_text : (record.changed change existing).text =
    change.content.getD record.text := by
  rw [changed, undated, merged, get?_body_text]
  cases change.content with
  | none => rfl
  | some content => rfl

theorem changed_metadata : (record.changed change existing).metadata =
    record.metadata.update (sent change existing) := by
  rw [changed, undated, merged, get?_body_metadata]
  split
  · rename_i empty
    rw [(Dict.isEmpty_iff _).mp empty, Dict.update_empty]
    rfl
  · simp

theorem get?_shown_changed (free : change.Free) (key : String) :
    (record.changed change existing).shown.get? key =
      if key ∈ change.removed ∧ key ∈ existing.metadata then none
      else (change.value? key).elim (record.shown.get? key)
        fun value => if value = .null then none else some value := by
  rw [get?_shown, get?_shown, changed_metadata, Dict.get?_update]
  cases reserved : startsWith key reservedMetadataPrefix with
  | true =>
      have refused : isReservedMetadataKey key = true := by
        simp [isReservedMetadataKey, reserved]
      have kept : key ∉ change.removed := fun removes => by
        rw [free.removed removes] at refused
        cases refused
      have unset : change.value? key = none := by
        cases sets : change.value? key with
        | none => rfl
        | some value =>
            rw [free.value sets] at refused
            cases refused
      simp [kept, unset]
  | false =>
      have user : key ≠ systemMetadataKey := by
        rintro rfl
        revert reserved
        decide
      rw [get?_sent change existing user]
      simp only [Bool.false_eq_true, if_false]
      split
      · rfl
      · cases change.value? key with
        | none => simp
        | some value =>
            rcases eq_or_ne value .null with none | held
            · simp [none]
            · simp [held]

theorem system_changed (free : change.Free) :
    (splitSystem (record.changed change existing).metadata).1 =
      change.system.getD (splitSystem record.metadata).1 := by
  have read := get?_sent_system existing free
  rw [changed_metadata]
  cases given : change.system with
  | none =>
      rw [given] at read
      simp only [splitSystem, Dict.get?_update, read, Option.map_none, Option.none_or,
        Option.getD_none]
  | some system =>
      rw [given] at read
      refine splitSystem_of_system ?_
      rw [Dict.get?_update, read]
      rfl

end Record

/-! The calls by id, on a server that answers. -/

section Calls

variable {unicode : Unicode} {partition memoryId : String} {change : Change}
  {supply : Nat → Choice} {asked : Nat} {state : State}

/-- The rest of an update after the get that showed `existing`. -/
def afterGet (unicode : Unicode) (partition memoryId : String) (change : Change)
    (existing : Memory) : Http Memory :=
  if (body change existing).isEmpty then return existing
  else do
    let _ ← request (.putMemory memoryId (body change existing))
    let updated ← get unicode partition memoryId
    match updated with
    | none => throw (.memoryAPIError 503 "Update succeeded but read-back failed")
    | some updated => return updated

theorem update_eq (allowed : refusePartition unicode partition = .ok ())
    (free : change.Free) :
    update unicode partition memoryId change.content change.patch change.system =
      get unicode partition memoryId >>= fun existing =>
        match existing with
        | none => throw (.memoryAPIError 404 "Memory not found")
        | some existing => afterGet unicode partition memoryId change existing := by
  unfold update
  rw [allowed, refuseReservedMetadata_eq_ok.mpr free]
  rfl

theorem exec_request (call : HttpRequest) :
    Fallible.exec calm supply (request call) asked state =
      ((serve (supply asked) call state).1.outcome, asked + 1,
        (serve (supply asked) call state).2) := rfl

theorem exec_get (allowed : refusePartition unicode partition = .ok ()) :
    Fallible.exec calm supply (get unicode partition memoryId) asked state =
      (.ok (((state.records.get? memoryId).filter fun record =>
        record.userId = partition).map (Record.memory memoryId)), asked + 1, state) := by
  rw [get_eq allowed, ← ownedMemory_json]
  rfl

/-- The record an update leaves, but for its time, and the reply that shows it. -/
theorem exec_update {record : Record} (allowed : refusePartition unicode partition = .ok ())
    (free : change.Free) (found : state.records.get? memoryId = some record)
    (own : record.userId = partition) :
    ∃ later record', Fallible.exec calm supply
        (update unicode partition memoryId change.content change.patch change.system)
        asked state = (.ok (record'.memory memoryId), later) ∧
      later.2.records.get? memoryId = some record' ∧
      record'.undated = record.changed change (record.memory memoryId) := by
  have read : ∀ asked state' other, state'.records.get? memoryId = some other →
      other.userId = partition →
      Fallible.exec calm supply (get unicode partition memoryId) asked state' =
        (.ok (some (other.memory memoryId)), asked + 1, state') := by
    intro asked state' other found own
    rw [exec_get allowed, found, Option.filter_some, if_pos (decide_eq_true own)]
    rfl
  rw [update_eq allowed free, Fallible.exec_bind_ok (read asked state record found own)]
  dsimp only
  unfold afterGet
  by_cases empty : body change (record.memory memoryId) = ∅
  · rw [if_pos ((Dict.isEmpty_iff _).mpr empty)]
    refine ⟨(asked + 1, state), record, rfl, found, ?_⟩
    rw [Record.changed, empty]
    rfl
  · rw [if_neg fun isEmpty => empty ((Dict.isEmpty_iff _).mp isEmpty)]
    let now := (supply (asked + 1)).now
    let written := record.merged now (body change (record.memory memoryId))
    let later := state.modify memoryId now
      (Record.merged now (body change (record.memory memoryId)))
    have stores : later.records.get? memoryId = some written := by
      simp only [later, State.modify, found, Dict.get?_map, Option.map_some, if_true]
      rfl
    refine ⟨(asked + 1 + 1 + 1, later), written, ?_, stores, rfl⟩
    refine (Fallible.exec_bind_ok (exec_request _)).trans ?_
    exact Fallible.exec_bind_ok (read (asked + 1 + 1) later written stores own)

theorem addResult_eq {result : Json} {fields : Dict String Json} {id : String}
    (object : result.dict? = some fields)
    (event : fields.get? "event" = some (.str "ADD"))
    (given : fields.get? "id" = some (.str id))
    (created : fields.get? "created_at" = none) :
    addResult unicode result = .ok (some { id, createdAt := "" }) := by
  have name : upper ((orElse (.str "ADD") (.str "ADD")).text unicode) = "ADD" := by
    rw [orElse, ite_self, Json.text]
    decide +kernel
  have changes : "ADD" ∉ noChangeEvents := by decide
  have known : addEvents.get? "ADD" = some .add := by decide +kernel
  unfold addResult attributes
  simp only [object, getOr, event, given, created, Option.getD_some, Option.getD_none,
    bind, Except.bind, name, if_neg changes, known, declaredText]
  rfl

/-- What the response to an add that extracts nothing reports. -/
theorem addResults_added (id : String) (record : Record) :
    addResults unicode (added id record) = .ok [{ id, createdAt := "" }] := by
  let item : Json := .obj
    [("id", .str id), ("memory", .str record.text), ("event", .str "ADD")]
  have read : addResult unicode item = .ok (some { id, createdAt := "" }) := by
    apply addResult_eq rfl
    · simp [Dict.get?_ofList]
    · simp [Dict.get?_ofList]
    · simp [Dict.get?_ofList]
  have object : (added id record).dict? = some (Dict.ofList [("results", .list [item])]) :=
    rfl
  have results : (Dict.ofList [("results", Json.list [item])]).get? "results" =
      some (.list [item]) := by
    simp [Dict.get?_ofList]
  have listed : items (orElse (.list [item]) (.list [])) = .ok [item] := rfl
  unfold addResults
  simp only [object, getOr, results, Option.getD_some, listed, bind, Except.bind,
    List.mapM_cons, read, List.mapM_nil]
  rfl

/-- The JSON of an add before its metadata and scope. -/
def spoken (partition content : String) : Dict String Json :=
  Dict.ofList [
    ("messages", .list [.obj [("role", .str "user"), ("content", .str content)]]),
    ("user_id", .str partition),
    ("infer", .bool false)]

/-- The JSON with the metadata to store, if any. -/
def withMetadata (payload stored : Dict String Json) : Dict String Json :=
  if stored.isEmpty then payload else payload.set "metadata" (Json.ofDict stored)

theorem get?_withMetadata {payload stored : Dict String Json} {key : String}
    (other : key ≠ "metadata") :
    (withMetadata payload stored).get? key = payload.get? key := by
  unfold withMetadata
  split
  · rfl
  · rw [Dict.get?_set, if_neg other]

theorem metadata_withMetadata {payload stored : Dict String Json}
    (absent : payload.get? "metadata" = none) :
    (((withMetadata payload stored).get? "metadata").bind Json.dict?).getD ∅ =
      stored := by
  unfold withMetadata
  split
  · rename_i empty
    rw [absent, (Dict.isEmpty_iff _).mp empty]
    rfl
  · simp

theorem verbatim_withMetadata {content now : String}
    {scope : Option (Dict String Json)} {payload stored : Dict String Json}
    (known : ∀ key ∈ scope.getD ∅, key ∈ mem0ScopeKeys)
    (built : withScope unicode (spoken partition content) scope = .ok payload) :
    (withMetadata payload stored).get? "infer" = some (.bool false) ∧
      (verbatim now (withMetadata payload stored)).userId = partition ∧
      (verbatim now (withMetadata payload stored)).text = content ∧
      (verbatim now (withMetadata payload stored)).metadata = stored := by
  have kept : ∀ key, key ∉ mem0ScopeKeys →
      payload.get? key = (spoken partition content).get? key :=
    fun key unknown => withScope_get? (.inr fun held => unknown (known key held)) built
  have other : ∀ key, key ∉ mem0ScopeKeys → key ≠ "metadata" →
      (withMetadata payload stored).get? key = (spoken partition content).get? key :=
    fun key unknown differs => (get?_withMetadata differs).trans (kept key unknown)
  have infer : (spoken partition content).get? "infer" = some (.bool false) := by
    simp [spoken, Dict.get?_ofList]
  have user : (spoken partition content).get? "user_id" = some (.str partition) := by
    simp [spoken, Dict.get?_ofList]
  have messages : (spoken partition content).get? "messages" =
      some (.list [.obj [("role", .str "user"), ("content", .str content)]]) := by
    simp [spoken, Dict.get?_ofList]
  have absent : (spoken partition content).get? "metadata" = none := by
    simp [spoken, Dict.get?_ofList]
  have text : ((Json.obj [("role", .str "user"), ("content", .str content)]).dict?.bind
      fun fields => fields.get? "content") = some (.str content) := by
    simp [Json.dict?, Dict.get?_ofList]
  refine ⟨?_, ?_, ?_, ?_⟩
  · rw [other _ (by decide) (by decide), infer]
  · simp only [verbatim, textOr, other _ (show "user_id" ∉ mem0ScopeKeys by decide)
      (by decide), user, Option.bind_some, Json.str?, Option.getD_some]
  · simp only [verbatim, sentContent, textOr, other _
      (show "messages" ∉ mem0ScopeKeys by decide) (by decide), messages, text,
      Option.bind_some, Json.str?, Option.getD_some]
  · exact metadata_withMetadata ((kept _ (by decide)).trans absent)

theorem exec_add {content : String} {scope metadata : Option (Dict String Json)}
    {system : Option System} {result : AddReturn} {later : Nat × State}
    (known : ∀ key ∈ scope.getD ∅, key ∈ mem0ScopeKeys)
    (unused : (supply asked).id ∉ state.owners)
    (adds : Fallible.exec calm supply
      (add unicode partition content scope metadata false system) asked state =
        (.ok result, later)) :
    refusePartition unicode partition = .ok () ∧
      (∀ key ∈ (metadata.getD ∅).keys, isReservedMetadataKey key = false) ∧
      result = .many [{ id := (supply asked).id, createdAt := "" }] ∧
      ∃ record, later.2.records.get? (supply asked).id = some record ∧
        record.userId = partition ∧ record.text = content ∧
        record.metadata = storedMetadata metadata system := by
  have unfolds : add unicode partition content scope metadata false system =
      liftM (refusePartition unicode partition) >>= fun _ =>
        liftM (withScope unicode (spoken partition content) scope) >>= fun payload =>
          liftM (refuseReservedMetadata unicode (metadata.getD ∅).keys) >>= fun _ =>
            request (.postMemories (withMetadata payload
              (storedMetadata metadata system))) >>= fun result =>
                liftM (addResults unicode result) >>= fun results =>
                  pure (AddReturn.many results) := rfl
  rw [unfolds] at adds
  cases allowed : refusePartition unicode partition with
  | error error =>
      rw [allowed] at adds
      cases adds
  | ok allow =>
      cases built : withScope unicode (spoken partition content) scope with
      | error error =>
          rw [allowed, built] at adds
          cases adds
      | ok payload =>
          cases free : refuseReservedMetadata unicode (metadata.getD ∅).keys with
          | error error =>
              rw [allowed, built, free] at adds
              cases adds
          | ok accept =>
              obtain ⟨infers, user, text, held⟩ :=
                @verbatim_withMetadata _ _ content (supply asked).now scope payload
                  (storedMetadata metadata system) known built
              let record := verbatim (supply asked).now
                (withMetadata payload (storedMetadata metadata system))
              have asks : Fallible.exec calm supply (request (.postMemories
                  (withMetadata payload (storedMetadata metadata system)))) asked state =
                    (.ok (added (supply asked).id record), asked + 1,
                      state.insert (supply asked).id (supply asked).now record) := by
                rw [exec_request, serve, if_pos infers]
                rfl
              rw [allowed, built, free] at adds
              have returned := (Fallible.exec_bind_ok asks).symm.trans adds
              rw [addResults_added] at returned
              cases returned
              refine ⟨rfl, refuseReservedMetadata_eq_ok.mp free, rfl, record, ?_, user,
                text, held⟩
              simp only [State.insert, dif_neg unused, Dict.get?_set_self]

end Calls

end Memcp.Mem0
