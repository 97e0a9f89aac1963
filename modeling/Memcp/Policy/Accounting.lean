import Memcp.Policy.Confinement

/-! What an import may ask of a backend, and where the ids it reports come
from. -/

namespace Memcp

open Python Interaction

/-! The index holds memories read during the request, and the outcome reports
ids read during it. -/

structure Accounted (space : String) (past : Trace effects)
    (state : ImportState) : Prop where
  existing : ∀ key memory, state.existing.get? key = some memory →
    memory.inSpace space = true ∧ Held past memory
  outcome : ∀ policy request,
    Covered policy space request past (.imported state.outcome)

namespace Accounted

variable {space : String} {past later : Trace effects} {state : ImportState}

theorem grow (accounted : Accounted space past state)
    (grows : past <+: later) : Accounted space later state where
  existing key memory found :=
    ⟨(accounted.existing key memory found).1,
      (accounted.existing key memory found).2.grow grows⟩
  outcome policy request := (accounted.outcome policy request).grow grows

theorem addError (accounted : Accounted space past state) (index : Nat)
    (error : String) : Accounted space past (state.addError index error) :=
  ⟨accounted.existing, accounted.outcome⟩

theorem addSkipped (accounted : Accounted space past state) (index : Nat)
    {existingId : String}
    (known : ∃ memory, Shown space past memory ∧ memory.id = existingId) :
    Accounted space past (state.addSkipped index existingId) := by
  refine ⟨accounted.existing, fun policy request => ?_⟩
  refine ⟨(accounted.outcome policy request).1, fun item member => ?_⟩
  rcases List.mem_append.mp member with old | new
  · exact (accounted.outcome policy request).2 item old
  · rw [List.mem_singleton.mp new]
    exact known

theorem addImported (accounted : Accounted space past state)
    {key : DedupKey} {memory : Memory} {id : String} (index : Nat)
    {action : ImportAction}
    (read : memory.inSpace space = true ∧ Held past memory)
    (known : match action with
      | .created => Fetched space id past
      | .updated => ∃ memory, Shown space past memory ∧ memory.id = id) :
    Accounted space past (state.addImported key memory id index action) where
  existing other stored found := by
    simp only [ImportState.addImported, Dict.get?_set] at found
    split at found
    case isTrue =>
      cases found
      exact read
    case isFalse => exact accounted.existing other stored found
  outcome policy request := by
    refine ⟨fun item member => ?_, (accounted.outcome policy request).2⟩
    rcases List.mem_append.mp member with old | new
    · exact (accounted.outcome policy request).1 item old
    · rw [List.mem_singleton.mp new]
      exact known

end Accounted

theorem Action.keeps_attempt {α : Type}
    {guard : Trace effects → Effect → Prop}
    {post : Trace effects → α → Prop} {past : Trace effects}
    {action : Action α} (safe : Fallible.Keeps guard post action past) :
    Fallible.Keeps guard
      (fun later result => ∀ value, result = .ok value → post later value)
      action.attempt past := by
  refine Safe.bind safe fun later outcome holds => ?_
  cases outcome with
  | ok value =>
      rintro _ ⟨⟩ _ ⟨⟩
      exact holds value rfl
  | error error =>
      cases error with
      | memoryAPIError status body =>
          rintro _ ⟨⟩ _ ⟨⟩
      | _ => rintro _ ⟨⟩

theorem Action.safeWhile_attempt {α : Type} {call : BackendCall}
    {rest : Except Int call.Result → Action α} {assumed : Event effects → Prop}
    {guard : Trace effects → Effect → Prop}
    {post : Trace effects → Except Exc α → Prop} {past : Trace effects}
    (allowed : guard past (.backend call))
    (raised : ∀ error, assumed ⟨.backend call, .error error⟩ →
      (∀ status body, error ≠ .memoryAPIError status body) →
        post (past ++ [⟨.backend call, .error error⟩]) (.error error))
    (failed : ∀ status body, SafeWhile assumed guard post (rest (.error status))
      (past ++ [⟨.backend call, .error (.memoryAPIError status body)⟩]))
    (returned : ∀ value, assumed ⟨.backend call, .ok value⟩ →
      SafeWhile assumed guard post (rest (.ok value))
        (past ++ [⟨.backend call, .ok value⟩])) :
    SafeWhile assumed guard post ((Action.backend call).attempt >>= rest : Action α)
      past := by
  refine SafeWhile.ask allowed fun reply kept => ?_
  cases reply with
  | ok value => exact returned value kept
  | error error =>
      cases error with
      | memoryAPIError status body => exact failed status body
      | _ => exact fun _ => raised _ kept (by intro _ _ same; cases same)

section Import

variable {policy : Policy} {key : Key} {past : Trace effects}
  {onConflict : OnConflict} {state : ImportState}

/-- What the checks on an entry leave to store. -/
structure Accepted (policy : Policy) (item : ImportItem) : Prop where
  content : validateContent item.content = .ok ()
  scope : ∃ given, validateScope policy.unicode given policy.scopeKeys =
    .ok item.scope
  metadata : acceptedMetadata policy.unicode item.metadata

theorem readContent_eq_ok {entry : Dict String Json} {content : String}
    (read : readContent entry = .ok content) :
    validateContent content = .ok () := by
  unfold readContent at read
  split at read
  · obtain ⟨_, valid, same⟩ := bind_eq_ok.mp read
    cases same
    exact valid
  · cases read

theorem readScope_eq_ok {entry : Dict String Json}
    {scope : Option (Dict String Json)}
    (read : readScope policy.validateEntryScope entry = .ok scope) :
    ∃ given, validateScope policy.unicode given policy.scopeKeys = .ok scope := by
  unfold readScope at read
  split at read
  · cases read
    exact ⟨.null, rfl⟩
  · refine ⟨entryGet entry "scope", ?_⟩
    unfold Policy.validateEntryScope at read
    split at read
    · cases read
    · exact read

theorem readMetadata_eq_ok {unicode : Unicode} {entry : Dict String Json}
    {metadata : Option (Dict String Json)}
    (read : readMetadata unicode entry = .ok metadata) :
    acceptedMetadata unicode metadata := by
  unfold readMetadata at read
  split at read
  · cases read
    exact nofun
  · split at read
    · cases read
    · obtain ⟨_, valid, read⟩ := bind_eq_ok.mp read
      obtain ⟨_, size, same⟩ := bind_eq_ok.mp read
      cases same
      rintro _ ⟨⟩
      exact ⟨valid, size⟩

/-- What the checks on an entry read. -/
theorem readEntry_parts {unicode : Unicode} {options : ImportOptions}
    {entry : Dict String Json} {item : ImportItem}
    (read : readEntry unicode options entry = .ok item) :
    readContent entry = .ok item.content ∧
      readMetadata unicode entry = .ok item.metadata ∧
      (match options.scopeValidator with
        | some validate => readScope validate entry
        | none => plainScope entry) = .ok item.scope := by
  obtain ⟨content, readContent, read⟩ := bind_eq_ok.mp read
  cases validator : options.scopeValidator with
  | some validate =>
      rw [validator] at read
      obtain ⟨scope, readScope, read⟩ := bind_eq_ok.mp read
      obtain ⟨metadata, readMetadata, same⟩ := bind_eq_ok.mp read
      cases same
      exact ⟨readContent, readMetadata, readScope⟩
  | none =>
      rw [validator] at read
      obtain ⟨metadata, readMetadata, read⟩ := bind_eq_ok.mp read
      obtain ⟨scope, plainScope, same⟩ := bind_eq_ok.mp read
      cases same
      exact ⟨readContent, readMetadata, plainScope⟩

theorem readEntry_eq_ok {entry : Dict String Json} {item : ImportItem}
    (read : readEntry policy.unicode (policy.importOptions key onConflict)
      entry = .ok item) : Accepted policy item := by
  obtain ⟨content, metadata, scope⟩ := readEntry_parts read
  exact ⟨readContent_eq_ok content, readScope_eq_ok scope,
    readMetadata_eq_ok metadata⟩

theorem importOverwrite_keeps (index : Nat) {item : ImportItem}
    (identity : DedupKey) {dup : Memory}
    (writer : key.grant.relation = .writer) (accepted : Accepted policy item)
    (read : dup.inSpace key.grant.space = true ∧ Held past dup)
    (accounted : Accounted key.grant.space past state) :
    Fallible.Keeps (Permitted policy key) (Accounted key.grant.space)
      (importOverwrite (policy.importOptions key onConflict) index item identity
        dup state) past := by
  have update : Fallible.Keeps (Permitted policy key)
      (fun later updated => Held later updated)
      (Action.backend (.update key.grant.space dup.id (some item.content)
        (item.metadata.map fun metadata => overwritePatch metadata dup)
        (some (Policy.stamp key.grant.space key (some dup.system))))) past := by
    refine Action.keeps_backend ⟨by simp [BackendCall.partition?], fun _ => writer, ?_,
      dup, .held read.1 read.2, ?_, rfl⟩ fun updated => .last rfl (by simp [BackendCall.memories])
    · rintro _ ⟨⟩
      exact accepted.content
    · intro patch given
      obtain ⟨metadata, same, rfl⟩ := Option.map_eq_some_iff.mp given
      exact .inr ⟨metadata, rfl, same ▸ accepted.metadata⟩
  refine .bind (Action.keeps_attempt update) fun later result grows held => ?_
  cases result with
  | error status => exact .pure ((accounted.grow grows).addError _ _)
  | ok updated =>
      refine .check fun checked passes => ?_
      obtain ⟨same, inSpace⟩ := checkSpace_eq_ok.mp passes
      cases same
      refine .pure ((accounted.grow grows).addImported index
        ⟨inSpace, held updated rfl⟩ ?_)
      exact ⟨dup, ⟨(read.2.grow grows).returned, read.1⟩, rfl⟩

theorem importReadBack_keeps (index : Nat) (identity : DedupKey)
    (items : List AddResult) (accounted : Accounted key.grant.space past state) :
    Fallible.Keeps (Permitted policy key) (Accounted key.grant.space)
      (importReadBack (policy.importOptions key onConflict) index identity items
        state) past := by
  induction items generalizing past state with
  | nil => exact .pure accounted
  | cons head tail induction =>
      refine .bind (Action.keeps_attempt (get_keeps head.id)) fun later result grows found => ?_
      cases result with
      | error status => exact induction ((accounted.grow grows).addError _ _)
      | ok stored =>
          refine .check fun checked passes => ?_
          obtain ⟨same, inSpace⟩ := checkSpace_eq_ok.mp passes
          have fetched := found stored rfl checked same
          refine induction ((accounted.grow grows).addImported index
            ⟨inSpace, ?_⟩ ⟨checked, inSpace, fetched⟩)
          exact ⟨_, fetched, rfl, by simp [replyMemories, BackendCall.memories]⟩

theorem importCreate_keeps (index : Nat) {item : ImportItem}
    (identity : DedupKey) (writer : key.grant.relation = .writer)
    (accepted : Accepted policy item)
    (accounted : Accounted key.grant.space past state) :
    Fallible.Keeps (Permitted policy key) (Accounted key.grant.space)
      (importCreate (policy.importOptions key onConflict) index item identity
        state) past := by
  have add : Fallible.Keeps (Permitted policy key) (fun _ _ => True)
      (Action.backend (.add key.grant.space item.content item.scope
        item.metadata false (some (Policy.stamp key.grant.space key none)))) past :=
    Action.keeps_backend ⟨by simp [BackendCall.partition?], fun _ => writer,
      accepted.content, accepted.scope, accepted.metadata, rfl⟩ fun _ => trivial
  refine .bind (Action.keeps_attempt add) fun later result grows _ => ?_
  cases result with
  | error status => exact .pure ((accounted.grow grows).addError _ _)
  | ok result =>
      cases result with
      | one item => exact importReadBack_keeps index identity _ (accounted.grow grows)
      | many items =>
          cases items with
          | nil => exact .pure ((accounted.grow grows).addError _ _)
          | cons head tail =>
              exact importReadBack_keeps index identity _ (accounted.grow grows)

theorem importEntry_keeps (index : Nat) (entry : Dict String Json)
    (writer : key.grant.relation = .writer)
    (accounted : Accounted key.grant.space past state) :
    Fallible.Keeps (Permitted policy key) (Accounted key.grant.space)
      (importEntry policy.unicode (policy.importOptions key onConflict) index
        entry state) past := by
  unfold importEntry
  split
  · exact .pure (accounted.addError _ _)
  · exact .throw _
  case h_3 item read =>
    have accepted := readEntry_eq_ok read
    simp only
    split
    case h_1 dup found _ =>
      obtain ⟨inSpace, held⟩ := accounted.existing _ _ found
      exact .pure (accounted.addSkipped index
        ⟨dup, ⟨held.returned, inSpace⟩, rfl⟩)
    case h_2 dup found _ =>
      exact importOverwrite_keeps index _ writer accepted
        (accounted.existing _ _ found) accounted
    case h_3 => exact importCreate_keeps index _ writer accepted accounted

theorem importEntries_keeps (index : Nat) (entries : List (Dict String Json))
    (writer : key.grant.relation = .writer)
    (accounted : Accounted key.grant.space past state) :
    Fallible.Keeps (Permitted policy key) (Accounted key.grant.space)
      (importEntries policy.unicode (policy.importOptions key onConflict) index
        entries state) past := by
  induction entries generalizing index past state with
  | nil => exact .pure accounted
  | cons entry entries induction =>
      exact .bind (importEntry_keeps index entry writer accounted)
        fun _ _ _ accounted => induction (index + 1) accounted

theorem buildDedupIndex_keeps (limit : Nat) :
    Fallible.Keeps (Permitted policy key)
      (fun later result => ∀ identity memory,
        result.1.get? identity = some memory →
        memory.inSpace key.grant.space = true ∧ Held later memory)
      (buildDedupIndex policy.unicode key.grant.space limit) past := by
  refine .bind (listAll_keeps limit) fun later result _ read => .pure ?_
  intro identity memory found
  obtain ⟨stored, listed, same⟩ :=
    List.mem_map.mp (Dict.mem_of_get?_ofList found)
  cases same
  exact read memory listed

theorem importPayload_keeps (entries : List (Dict String Json)) (limit : Nat)
    (writer : key.grant.relation = .writer) :
    Fallible.Keeps (Permitted policy key)
      (fun later outcome => ∀ request,
        Covered policy key.grant.space request later (.imported outcome))
      (importPayload policy.unicode (policy.importOptions key onConflict) entries
        limit) past := by
  have capabilities : Fallible.Keeps (Permitted policy key) (fun _ _ => True)
      (Action.backend .capabilities) past :=
    Action.keeps_backend ⟨nofun, nofun, trivial⟩ fun _ => trivial
  have refuse : Fallible.Keeps (Permitted policy key) (fun _ _ => True)
      (refuseOnConflict onConflict) past := by
    unfold refuseOnConflict
    split
    · refine .bind capabilities fun later supported _ _ => ?_
      split
      · exact .throw _
      · exact .pure trivial
    · exact .pure trivial
  have store : ∀ past (result : Dict DedupKey Memory × Bool),
      (∀ identity memory, result.1.get? identity = some memory →
        memory.inSpace key.grant.space = true ∧ Held past memory) →
      Fallible.Keeps (Permitted policy key)
        (fun later outcome => ∀ request,
          Covered policy key.grant.space request later (.imported outcome))
        (do
          let state ← importEntries policy.unicode
            (policy.importOptions key onConflict) 0 entries
            { existing := result.1, outcome := { dedupIncomplete := result.2 } }
          return state.outcome) past := by
    intro past result existing
    refine .bind (importEntries_keeps 0 entries writer
      ⟨existing, fun _ _ => ⟨nofun, nofun⟩⟩) fun later state _ accounted => ?_
    exact .pure (accounted.outcome policy)
  refine .bind refuse fun later _ _ _ => ?_
  simp only
  split
  · exact store later (∅, false) (by simp)
  · exact .bind (buildDedupIndex_keeps limit) fun later result _ existing =>
      store later result existing

end Import

end Memcp
