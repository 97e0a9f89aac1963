import Memcp.ConcurrentUpdates

/-!
An import among other clients.  Every entry of the batch is accounted for,
unless the import is shown a memory outside its space, or a memory it has just
stored is deleted before it is read back.
-/

namespace Memcp

open Python Interaction

/-- The entry is among the imported, the skipped or the errors. -/
def ImportOutcome.Accounts (outcome : ImportOutcome) (index : Nat) : Prop :=
  index ∈ outcome.imported.map Imported.index ∨
    index ∈ outcome.skipped.map Skipped.index ∨
      index ∈ outcome.errors.map ImportError.index

namespace ImportState

variable {state : ImportState} {index other : Nat}

@[simp] theorem accounts_addError (error : String) :
    (state.addError index error).outcome.Accounts other ↔
      state.outcome.Accounts other ∨ other = index := by
  simp [addError, ImportOutcome.Accounts, or_assoc]

@[simp] theorem accounts_addSkipped (existingId : String) :
    (state.addSkipped index existingId).outcome.Accounts other ↔
      state.outcome.Accounts other ∨ other = index := by
  simp only [addSkipped, ImportOutcome.Accounts, List.map_append, List.mem_append,
    List.map_cons, List.map_nil, List.mem_singleton]
  tauto

@[simp] theorem accounts_addImported (key : DedupKey) (memory : Memory) (id : String)
    (action : ImportAction) :
    (state.addImported key memory id index action).outcome.Accounts other ↔
      state.outcome.Accounts other ∨ other = index := by
  simp only [addImported, ImportOutcome.Accounts, List.map_append, List.mem_append,
    List.map_cons, List.map_nil, List.mem_singleton]
  tauto

end ImportState

theorem ImportOutcome.accounts_succ {before after : ImportOutcome} {index : Nat}
    (earlier : ∀ other < index, before.Accounts other)
    (adds : ∀ other, after.Accounts other ↔ before.Accounts other ∨ other = index) :
    ∀ other < index + 1, after.Accounts other := by
  intro other bound
  rw [adds]
  rcases Nat.lt_succ_iff_lt_or_eq.mp bound with before | here
  · exact .inl (earlier other before)
  · exact .inr here

/-! What a local backend answers. -/

/-- An add of the memory `id` with `scope` to a space. -/
def Adds (space id : String) (scope : Option (Dict String Json)) :
    Event effects → Prop
  | ⟨.backend (.add partition _ given _ _ _), .ok result⟩ =>
      partition = space ∧ given = scope ∧ id ∈ result.items.map AddResult.id
  | _ => False

/-- The first page is whole or full, and the calls that store or read one memory
fail with a status only. -/
def AnsweredLocally (unicode : Unicode) : Event effects → Prop
  | ⟨.backend .capabilities, reply⟩ => reply = .ok localCapabilities
  | ⟨.backend (.listMemories _ _ limit none), reply⟩ =>
      ∃ page, reply = .ok page ∧
        (page.nextCursor ≠ none → limit ≤ page.memories.length)
  | ⟨.backend (.add _ _ scope _ _ _), reply⟩ =>
      refuseNestedFilters unicode scope = .ok () →
        ∀ error, reply = .error error → error.IsMemoryAPIError
  | ⟨.backend (.get ..), reply⟩ => ∀ error, reply = .error error → error.IsMemoryAPIError
  | ⟨.backend (.update ..), reply⟩ =>
      ∀ error, reply = .error error → error.IsMemoryAPIError
  | _ => True

theorem paginate_first (unicode : Unicode) (memories : List Memory) (limit : Int) :
    ∃ page, paginate unicode memories none limit = .ok page ∧
      (page.nextCursor ≠ none → limit ≤ page.memories.length) := by
  refine ⟨_, rfl, fun more => ?_⟩
  simp only [Int.zero_add] at more ⊢
  have room : limit < memories.length := by
    by_contra last
    exact more (if_neg last)
  rcases Int.lt_or_le limit 0 with negative | upward
  · omega
  · rw [slice_zero upward, List.length_take]
    omega

theorem Space.answeredLocally (unicode : Unicode) (fresh : Fresh) (call : BackendCall)
    (items : List Item) :
    AnsweredLocally unicode ⟨.backend call, (Space.perform unicode fresh call items).1⟩ := by
  cases call with
  | capabilities => rfl
  | listMemories partition scope limit cursor =>
      cases cursor with
      | some cursor => trivial
      | none =>
          exact paginate_first unicode _ limit
  | add partition content scope metadata infer system =>
      intro flat error raised
      simp only [Space.perform, Space.add, flat] at raised
      split at raised
      · rename_i impossible
        cases impossible
      · rename_i refused _
        cases raised
        exact refuseReservedMetadata_raises refused
      · cases raised
  | get partition memoryId =>
      intro error raised
      cases raised
  | update partition memoryId content patch system =>
      intro error raised
      simp only [Space.perform, Space.update] at raised
      split at raised
      · rename_i refused
        cases raised
        exact refuseReservedMetadata_raises refused
      · cases raised
        trivial
      · cases raised
  | search | delete | deleteAll | history | entities => trivial

/-! What an import asks and comes to. -/

namespace Survival

variable (unicode : Unicode) (space : String)

/-- It reads back only what it was told of, and deletes nothing. -/
def Asks (past : Trace effects) : Effect → Prop
  | .audit _ => True
  | .backend .capabilities => True
  | .backend (.listMemories partition _ _ cursor) => partition = space ∧ cursor = none
  | .backend (.add partition _ scope _ _ _) =>
      partition = space ∧ refuseNestedFilters unicode scope = .ok ()
  | .backend (.get partition id) =>
      partition = space ∧ ∃ scope, ∃ event ∈ past, Adds space id scope event
  | .backend (.update partition ..) => partition = space
  | .backend _ => False

/-- It was shown a memory outside its space, or found one missing. -/
def Fails (past : Trace effects) (error : Exc) : Prop :=
  error = .policyError .internalError internalErrorMsg ∧
    ((∃ memory, Returned past memory ∧ memory.inSpace space = false) ∨
      ∃ id, (⟨.backend (.get space id), .ok none⟩ : Event effects) ∈ past)

/-- Every entry before `count` is accounted for, or the import fails. -/
def Reaches (count : Nat) (past : Trace effects) : Except Exc ImportState → Prop
  | .ok state => ∀ index < count, state.outcome.Accounts index
  | .error error => Fails space past error

variable {unicode space} {past later : Trace effects}

theorem Fails.grow {error : Exc} (fails : Fails space past error)
    (grows : past <+: later) : Fails space later error := by
  refine ⟨fails.1, ?_⟩
  rcases fails.2 with ⟨memory, returned, outside⟩ | ⟨id, missing⟩
  · obtain ⟨more, rfl⟩ := grows
    exact .inl ⟨memory, returned.append more, outside⟩
  · exact .inr ⟨id, grows.mem missing⟩

theorem fails_of_checkSpace {memory : Option Memory} {error : Exc}
    (failed : checkSpace memory space = .error error)
    (shown : ∀ found, memory = some found → Returned past found)
    (missing : memory = none →
      ∃ id, (⟨.backend (.get space id), .ok none⟩ : Event effects) ∈ past) :
    Fails space past error := by
  cases memory with
  | none =>
      cases failed
      exact ⟨rfl, .inr (missing rfl)⟩
  | some memory =>
      simp only [checkSpace] at failed
      split at failed
      case isTrue => cases failed
      case isFalse outside =>
          cases failed
          exact ⟨rfl, .inl ⟨memory, shown memory rfl, by simpa using outside⟩⟩

theorem attempt_safe {α : Type} {call : BackendCall}
    {rest : Except Int call.Result → Action α} {assumed : Event effects → Prop}
    {guard : Trace effects → Effect → Prop}
    {post : Trace effects → Except Exc α → Prop}
    (allowed : guard past (.backend call))
    (kind : ∀ error, assumed ⟨.backend call, .error error⟩ → error.IsMemoryAPIError)
    (failed : ∀ status body, SafeWhile assumed guard post (rest (.error status))
      (past ++ [⟨.backend call, .error (.memoryAPIError status body)⟩]))
    (returned : ∀ value, SafeWhile assumed guard post (rest (.ok value))
      (past ++ [⟨.backend call, .ok value⟩])) :
    SafeWhile assumed guard post ((Action.backend call).attempt >>= rest : Action α)
      past := by
  refine Action.safeWhile_attempt allowed (fun error kept other => ?_) failed
    fun value _ => returned value
  have fails := kind error kept
  cases error with
  | memoryAPIError status body => exact absurd rfl (other status body)
  | _ => exact fails.elim

section Entries

variable {options : ImportOptions} {index : Nat} {key : DedupKey} {state : ImportState}

theorem importReadBack_safe {items : List AddResult} (own : options.userId = space)
    (told : ∀ item ∈ items, ∃ scope, ∃ event ∈ past, Adds space item.id scope event)
    (before : ∀ other < index, state.outcome.Accounts other)
    (here : items = [] → state.outcome.Accounts index) :
    SafeWhile (AnsweredLocally unicode) (Asks unicode space) (Reaches space (index + 1))
      (importReadBack options index key items state) past := by
  subst own
  induction items generalizing past state with
  | nil =>
      intro _ other bound
      rcases Nat.lt_succ_iff_lt_or_eq.mp bound with earlier | rfl
      · exact before other earlier
      · exact here rfl
  | cons item items induction =>
      have toldLater : ∀ event : Event effects, ∀ other ∈ items,
          ∃ scope, ∃ seen ∈ past ++ [event], Adds options.userId other.id scope seen := by
        intro event other member
        obtain ⟨scope, seen, logged, adds⟩ := told other (List.mem_cons_of_mem _ member)
        exact ⟨scope, seen, List.mem_append_left _ logged, adds⟩
      refine attempt_safe ⟨rfl, told item List.mem_cons_self⟩ (fun _ kind => kind _ rfl)
        ?_ ?_
      · intro status body
        refine induction (fun other bound => ?_) (fun _ => ?_) (toldLater _)
        · exact (ImportState.accounts_addError _).mpr (.inl (before other bound))
        · exact (ImportState.accounts_addError _).mpr (.inr rfl)
      · intro stored
        refine Fallible.safeWhile_check (fun error failed => ?_) fun checked passes => ?_
        · apply fails_of_checkSpace failed
          · rintro found rfl
            exact .last _ _ (by simp [BackendCall.memories])
          · rintro rfl
            exact ⟨item.id, by simp⟩
        · refine induction (fun other bound => ?_) (fun _ => ?_) (toldLater _)
          · exact (ImportState.accounts_addImported _ _ _ _).mpr
              (.inl (before other bound))
          · exact (ImportState.accounts_addImported _ _ _ _).mpr (.inr rfl)

theorem importOverwrite_safe {item : ImportItem} {dup : Memory}
    (own : options.userId = space)
    (before : ∀ other < index, state.outcome.Accounts other) :
    SafeWhile (AnsweredLocally unicode) (Asks unicode space) (Reaches space (index + 1))
      (importOverwrite options index item key dup state) past := by
  subst own
  refine attempt_safe rfl (fun _ kind => kind _ rfl) ?_ ?_
  · intro status body _
    exact ImportOutcome.accounts_succ before fun other => ImportState.accounts_addError _
  · intro updated
    refine Fallible.safeWhile_check (fun error failed => ?_) fun checked passes _ => ?_
    · apply fails_of_checkSpace failed
      · rintro found ⟨⟩
        exact .last _ _ (by simp [BackendCall.memories])
      · rintro ⟨⟩
    · exact ImportOutcome.accounts_succ before fun other =>
        ImportState.accounts_addImported _ _ _ _

theorem importCreate_safe {item : ImportItem} (own : options.userId = space)
    (flat : refuseNestedFilters unicode item.scope = .ok ())
    (before : ∀ other < index, state.outcome.Accounts other) :
    SafeWhile (AnsweredLocally unicode) (Asks unicode space) (Reaches space (index + 1))
      (importCreate options index item key state) past := by
  subst own
  have reached : ∀ (later : Trace effects) (error : String),
      Reaches options.userId (index + 1) later (.ok (state.addError index error)) := by
    intro later error
    exact ImportOutcome.accounts_succ before fun other => ImportState.accounts_addError _
  refine attempt_safe ⟨rfl, flat⟩ (fun _ kind => kind flat _ rfl) ?_ ?_
  · intro status body _
    exact reached _ _
  · intro result
    have told : ∀ added ∈ result.items, ∃ scope, ∃ event ∈ past ++ [⟨.backend
        (.add options.userId item.content item.scope item.metadata false
          (options.stamp.map fun stamp => stamp index none)), .ok result⟩],
        Adds options.userId added.id scope event := by
      intro added member
      exact ⟨item.scope, _, List.mem_append_right _ (List.mem_singleton.mpr rfl), rfl, rfl,
        List.mem_map_of_mem member⟩
    cases result with
    | one added => exact importReadBack_safe rfl told before nofun
    | many items =>
        cases items with
        | nil => exact fun _ => reached _ _
        | cons head tail => exact importReadBack_safe rfl told before nofun

theorem importEntry_safe {entry : Dict String Json} (own : options.userId = space)
    (clean : ∀ entry error, ¬ Import.Halts unicode options entry error)
    (before : ∀ other < index, state.outcome.Accounts other) :
    SafeWhile (AnsweredLocally unicode) (Asks unicode space) (Reaches space (index + 1))
      (importEntry unicode options index entry state) past := by
  unfold importEntry
  split
  case h_1 message read =>
      intro _
      exact ImportOutcome.accounts_succ before fun other => ImportState.accounts_addError _
  case h_2 error other read =>
      exact absurd (.inl ⟨read, other⟩) (clean entry error)
  case h_3 item read =>
      have flat : refuseNestedFilters unicode item.scope = .ok () := by
        cases nested : refuseNestedFilters unicode item.scope with
        | ok => rfl
        | error error => exact absurd (.inr ⟨item, read, nested⟩) (clean entry error)
      simp only
      split
      · intro _
        exact ImportOutcome.accounts_succ before fun other => ImportState.accounts_addSkipped _
      · exact importOverwrite_safe own before
      · exact importCreate_safe own flat before

theorem importEntries_safe {entries : List (Dict String Json)}
    (own : options.userId = space)
    (clean : ∀ entry error, ¬ Import.Halts unicode options entry error)
    (before : ∀ other < index, state.outcome.Accounts other) :
    SafeWhile (AnsweredLocally unicode) (Asks unicode space)
      (Reaches space (index + entries.length))
      (importEntries unicode options index entries state) past := by
  induction entries generalizing index past state with
  | nil => exact fun _ => before
  | cons entry entries induction =>
      refine Fallible.safeWhile_bind (importEntry_safe own clean before) ?_ ?_
      · exact fun _ _ fails => fails
      · intro later state reached
        have rest := @induction later index.succ state reached
        rwa [Nat.succ_add, ← Nat.add_succ] at rest

end Entries

/-! The read before the entries, and the whole call. -/

theorem listAll_safe (limit : Nat) :
    SafeWhile (AnsweredLocally unicode) (Asks unicode space)
      (fun later outcome => ∀ error, outcome = .error error → Fails space later error)
      (listAll space limit) past := by
  rw [listAll, listAllFrom_eq]
  refine SafeWhile.ask ⟨rfl, rfl⟩ fun reply kept => ?_
  obtain ⟨page, rfl, full⟩ := kept
  simp only [Program.done_bind, List.nil_append]
  split
  case isTrue =>
      split
      · exact fun _ _ => nofun
      · rename_i unfinished
        -- A page with a cursor is full, so there is no second page.
        simp only [not_or, not_lt] at unfinished
        obtain ⟨more, -, room⟩ := unfinished
        have filled := full more
        simp only [List.length_nil, Nat.sub_zero] at filled
        omega
  case isFalse outside =>
      rintro - _ ⟨⟩
      simp only [List.all_eq_true, not_forall, Bool.not_eq_true] at outside
      obtain ⟨memory, member, outside⟩ := outside
      exact ⟨rfl, .inl ⟨memory, .last _ _ member, outside⟩⟩

theorem buildDedupIndex_safe (limit : Nat) :
    SafeWhile (AnsweredLocally unicode) (Asks unicode space)
      (fun later outcome => ∀ error, outcome = .error error → Fails space later error)
      (buildDedupIndex unicode space limit) past := by
  refine Fallible.safeWhile_bind (listAll_safe limit) ?_ ?_
  · rintro later error fails _ ⟨⟩
    exact fails error rfl
  · exact fun _ _ _ _ _ => nofun

/-- What a call comes to: it accounts for `count` entries or fails. -/
def ComesTo (space : String) (count : Nat) (past : Trace effects) :
    Except Exc ImportOutcome → Prop
  | .ok outcome => ∀ index < count, outcome.Accounts index
  | .error error => Fails space past error

theorem importPayload_safe {options : ImportOptions} {entries : List (Dict String Json)}
    {limit : Nat} (own : options.userId = space)
    (clean : ∀ entry error, ¬ Import.Halts unicode options entry error) :
    SafeWhile (AnsweredLocally unicode) (Asks unicode space)
      (ComesTo space entries.length)
      (importPayload unicode options entries limit) past := by
  have able : SafeWhile (AnsweredLocally unicode) (Asks unicode space)
      (fun _ outcome => outcome = .ok ()) (refuseOnConflict options.onConflict) past := by
    unfold refuseOnConflict
    split
    · refine SafeWhile.ask trivial fun reply kept => ?_
      obtain rfl : reply = .ok localCapabilities := kept
      exact fun _ => rfl
    · exact fun _ => rfl
  have stores : ∀ past state, SafeWhile (AnsweredLocally unicode) (Asks unicode space)
      (ComesTo space entries.length) (do
        let state ← importEntries unicode options 0 entries state
        return state.outcome : Action ImportOutcome) past := by
    intro past state
    have reached := @importEntries_safe unicode space past options 0 state entries own
      clean nofun
    rw [Nat.zero_add] at reached
    refine Fallible.safeWhile_bind reached ?_ ?_
    · exact fun _ _ fails => fails
    · exact fun _ _ accounts _ => accounts
  refine Fallible.safeWhile_bind able (fun _ _ => nofun) fun later _ _ => ?_
  simp only
  split
  · exact stores _ _
  · subst own
    refine Fallible.safeWhile_bind (buildDedupIndex_safe limit) ?_ ?_
    · exact fun _ _ fails => fails _ rfl
    · exact fun _ _ _ => stores _ _

/-- The same for the whole operation. -/
def Answers (space : String) (count : Nat) (past : Trace effects) :
    Except Exc Response → Prop
  | .ok response => ∃ outcome, response = .imported outcome ∧
      ∀ index < count, outcome.Accounts index
  | .error error => Fails space past error

theorem program_safe {key : Key} {entries : List (Dict String Json)}
    {onConflict : String} {mode : OnConflict} (writer : key.grant.relation = .writer)
    (checked : (localPolicy unicode).checkImportArguments entries onConflict = .ok mode) :
    SafeWhile (AnsweredLocally unicode) (Asks unicode key.grant.space)
      (Answers key.grant.space entries.length)
      ((localPolicy unicode).perform (some key) (.importMemories entries onConflict))
      [] := by
  have granted : require (some key) .writer = .ok key := by
    rw [require_writer, if_pos writer]
  have ran : SafeWhile (AnsweredLocally unicode) (Asks unicode key.grant.space)
      (ComesTo key.grant.space entries.length)
      ((localPolicy unicode).importMemories (some key) entries onConflict) [] := by
    have body : Operation.Safe
        (fun past effect => (∀ event ∈ past, AnsweredLocally unicode event) →
          Asks unicode key.grant.space past effect)
        (fun past outcome => (∀ event ∈ past, AnsweredLocally unicode event) →
          ComesTo key.grant.space entries.length past outcome) (do
        let key ← require (some key) .writer
        let onConflict ← (localPolicy unicode).checkImportArguments entries onConflict
        let outcome ← importPayload unicode
          ((localPolicy unicode).importOptions key onConflict) entries maxExport
        Operation.record fun entry => { entry with count := some outcome.imported.length }
        return outcome) [] := by
      rw [granted, checked]
      refine .check nofun fun actor same => ?_
      cases same
      refine .check nofun fun named same => ?_
      cases same
      refine .bind_action (importPayload_safe rfl fun _ _ => not_halts) ?_ ?_
      · exact fun _ _ fails => fails
      · exact fun _ _ accounts => .recording (.lift accounts)
    refine SafeWhile.bind (body _) ?_
    rintro later ⟨outcome, entry⟩ comes
    refine SafeWhile.ask trivial fun _ _ _ => ?_
    cases outcome with
    | ok outcome => exact comes
    | error error => exact comes.grow (List.prefix_append _ _)
  refine Fallible.safeWhile_bind ran ?_ ?_
  · exact fun _ _ fails => fails
  · exact fun _ outcome accounts _ => ⟨outcome, rfl, accounts⟩

end Survival

/-! What one call does to the memory an add stored. -/

/-- A call that took the memory `id`, stored with `scope`, out of a space. -/
def Removes (unicode : Unicode) (space id : String) (scope : Dict String String) :
    Event effects → Prop
  | ⟨.backend (.delete partition memoryId), .ok _⟩ => partition = space ∧ memoryId = id
  | ⟨.backend (.deleteAll partition requested), .ok _⟩ =>
      partition = space ∧ storedHolds unicode scope requested = true
  | _ => False

theorem Space.find_filter {id : String} {items : List Item} {item : Item}
    {keep : Item → Bool} (found : Space.find id items = some item)
    (kept : keep item = true) : Space.find id (items.filter keep) = some item := by
  induction items with
  | nil => cases found
  | cons head tail induction =>
      simp only [Space.find, List.find?_cons] at found induction
      by_cases same : head.id = id
      · simp only [same, decide_true, Option.some.injEq] at found
        subst found
        simp [Space.find, kept, same]
      · simp only [same, decide_false] at found
        simp only [Space.find, List.filter_cons]
        split
        · simpa [same] using induction found
        · exact induction found

section Acts

variable {unicode : Unicode} {fresh : Fresh} {call : BackendCall} {items : List Item}
  {space id : String} {item : Item}

/-- A memory stays, with its scope, until a call removes it. -/
theorem Space.find_perform (found : Space.find id items = some item)
    (named : call.partition? = some space) :
    (∃ later, Space.find id (Space.perform unicode fresh call items).2 = some later ∧
        later.scope = item.scope) ∨
      Removes unicode space id item.scope
        ⟨.backend call, (Space.perform unicode fresh call items).1⟩ := by
  cases call with
  | add partition content scope metadata infer system =>
      simp only [Space.perform, Space.add]
      split
      · exact .inl ⟨item, found, rfl⟩
      · exact .inl ⟨item, found, rfl⟩
      · refine .inl ⟨item, ?_, rfl⟩
        have before : items.find? (fun item => item.id = id) = some item := found
        rw [Space.find, List.find?_append, before, Option.some_or]
  | update partition memoryId content patch system =>
      refine .inl ?_
      rcases Space.update_cases unicode fresh partition memoryId content patch system
        items with ⟨error, performed⟩ | ⟨old, foundOld, performed⟩
      · exact ⟨item, by rw [performed]; exact found, rfl⟩
      · rw [performed]
        by_cases same : memoryId = id
        · subst same
          obtain rfl := Option.some.inj (found.symm.trans foundOld)
          exact ⟨_, Space.find_changeOf found (Space.mem_of_find found).2, rfl⟩
        · have changed : (old.changed fresh.now content patch system).id = memoryId :=
            (Space.mem_of_find foundOld).2
          exact ⟨item, (Space.find_changeOf_of_ne changed same).trans found, rfl⟩
  | delete partition memoryId =>
      cases named
      simp only [Space.perform, Space.delete]
      split
      · exact .inl ⟨item, found, rfl⟩
      · by_cases same : memoryId = id
        · exact .inr ⟨rfl, same⟩
        · have other : item.id ≠ memoryId := by
            rw [(Space.mem_of_find found).2]
            exact Ne.symm same
          exact .inl ⟨item, Space.find_filter found (by simpa using other), rfl⟩
  | deleteAll partition scope =>
      cases named
      simp only [Space.perform, Space.deleteAll]
      split
      · exact .inl ⟨item, found, rfl⟩
      · cases holds : storedHolds unicode item.scope scope with
        | true => exact .inr ⟨rfl, holds⟩
        | false => exact .inl ⟨item, Space.find_filter found (by simp [holds]), rfl⟩
  | search | get | listMemories | history | entities | capabilities =>
      exact .inl ⟨item, found, rfl⟩

/-- What an event does to a space. -/
structure Acts (unicode : Unicode) (space : String) (before after : List Item)
    (event : Event effects) : Prop where
  answered : AnsweredLocally unicode event
  stays : ∀ id item, Space.find id before = some item →
    (∃ later, Space.find id after = some later ∧ later.scope = item.scope) ∨
      Removes unicode space id item.scope event
  stores : ∀ id scope, Adds space id scope event →
    ∃ item, Space.find id after = some item ∧
      item.scope = scopeAsText unicode (scope.getD ∅)
  reads : ∀ id, event = ⟨.backend (.get space id), .ok none⟩ →
    Space.find id before = none

theorem Spaces.acts {spaces : Spaces} (unused : spaces.Unused fresh.id) :
    Acts unicode space (spaces space) ((Spaces.perform unicode fresh call spaces).2 space)
      ⟨.backend call, (Spaces.perform unicode fresh call spaces).1⟩ where
  answered := by
    cases named : call.partition? with
    | none =>
        rw [Spaces.perform, named]
        exact Space.answeredLocally ..
    | some partition =>
        rw [Spaces.perform_named named]
        exact Space.answeredLocally ..
  stays id item found := by
    rcases eq_or_ne call.partition? (some space) with named | other
    · rw [Spaces.perform_self named, Spaces.perform_named named]
      exact Space.find_perform found named
    · rw [Spaces.perform_of_ne other]
      exact .inl ⟨item, found, rfl⟩
  stores id scope adds := by
    cases call with
    | add partition content given metadata infer system =>
        rw [Spaces.perform_named rfl] at adds
        simp only [Space.perform, Space.add] at adds
        split at adds
        · exact adds.elim
        · exact adds.elim
        · rename_i flat free
          obtain ⟨rfl, rfl, same⟩ := adds
          obtain rfl := List.mem_singleton.mp same
          refine ⟨Item.added unicode fresh content given metadata system, ?_, rfl⟩
          rw [Spaces.perform_self rfl]
          simp only [Space.perform, Space.add, flat, free]
          exact @Import.find_append_self _
            (Item.added unicode fresh content given metadata system) (unused partition)
    | _ => exact adds.elim
  reads id same := by
    cases call with
    | get partition memoryId =>
        rw [Spaces.perform_named rfl] at same
        simp only [Event.mk.injEq, Effect.backend.injEq, BackendCall.get.injEq] at same
        obtain ⟨⟨rfl, rfl⟩, missing⟩ := same
        simpa [Space.perform] using missing
    | _ => cases congrArg Event.call same

end Acts

/-! Runs. -/

section Runs

variable {Task : Type} (unicode : Unicode) (importer : Task) (space : String)

/-- Another task took the memory `id` out of the space. -/
def RemovedBy (id : String) (scope : Option (Dict String Json))
    (entry : Task × Event effects) : Prop :=
  entry.1 ≠ importer ∧
    Removes unicode space id (scopeAsText unicode (scope.getD ∅)) entry.2

/-- The importer stored a memory, another task removed it, and the importer then
found it missing. -/
def TakenAway (log : List (Task × Event effects)) (id : String) : Prop :=
  ∃ before added between missed after scope,
    log = before ++ (importer, added) :: between ++ (importer, missed) :: after ∧
      Adds space id scope added ∧ missed = ⟨.backend (.get space id), .ok none⟩ ∧
      ∃ entry ∈ between, RemovedBy unicode importer space id scope entry

/-- A memory the importer stored is there, or another task has removed it. -/
def StoredOrRemoved (log : List (Task × Event effects)) (items : List Item) : Prop :=
  ∀ before added between id scope, log = before ++ (importer, added) :: between →
    Adds space id scope added →
      (∃ item, Space.find id items = some item ∧
        item.scope = scopeAsText unicode (scope.getD ∅)) ∨
      ∃ entry ∈ between, RemovedBy unicode importer space id scope entry

variable {unicode importer space} {log : List (Task × Event effects)} {task : Task}
  {event : Event effects} {items later : List Item}

theorem TakenAway.append {id : String} (taken : TakenAway unicode importer space log id)
    (entry : Task × Event effects) :
    TakenAway unicode importer space (log ++ [entry]) id := by
  obtain ⟨before, added, between, missed, after, scope, rfl, rest⟩ := taken
  exact ⟨before, added, between, missed, after ++ [entry], scope, by simp, rest⟩

/-- An entry of a log that grew by one is the new one or was there. -/
theorem split_append_singleton {α : Type} {front between back : List α} {last entry : α}
    (split : front ++ [last] = between ++ entry :: back) :
    (back = [] ∧ front = between ∧ last = entry) ∨
      ∃ shorter, back = shorter ++ [last] ∧ front = between ++ entry :: shorter := by
  rcases List.eq_nil_or_concat back with rfl | ⟨shorter, final, rfl⟩
  · obtain ⟨same, last⟩ := List.append_inj' split rfl
    exact .inl ⟨rfl, same, List.singleton_inj.mp last⟩
  · rw [List.concat_eq_append, ← List.cons_append, ← List.append_assoc] at split
    obtain ⟨same, last⟩ := List.append_inj' split rfl
    obtain rfl := List.singleton_inj.mp last
    exact .inr ⟨shorter, by rw [List.concat_eq_append], same⟩

theorem StoredOrRemoved.step (stored : StoredOrRemoved unicode importer space log items)
    (acts : Acts unicode space items later event)
    (keeps : task = importer → ∀ id scope, ¬ Removes unicode space id scope event) :
    StoredOrRemoved unicode importer space (log ++ [(task, event)]) later := by
  intro before added between id scope split adds
  rcases split_append_singleton split with ⟨rfl, rfl, same⟩ | ⟨shorter, rfl, earlier⟩
  · cases same
    exact .inl (acts.stores id scope adds)
  · rcases stored before added shorter id scope earlier adds with
      ⟨item, found, held⟩ | ⟨entry, member, removed⟩
    · rcases acts.stays id item found with ⟨next, foundNext, same⟩ | removes
      · exact .inl ⟨next, foundNext, same.trans held⟩
      · right
        rw [held] at removes
        refine ⟨_, List.mem_append_right _ (List.mem_singleton.mpr rfl), ?_, removes⟩
        exact fun own => keeps own _ _ removes
    · exact .inr ⟨entry, List.mem_append_left _ member, removed⟩

/-- A memory the importer stored and does not find was taken away. -/
theorem StoredOrRemoved.missing (stored : StoredOrRemoved unicode importer space log items)
    {id : String} {scope : Option (Dict String Json)} {added : Event effects}
    (logged : (importer, added) ∈ log) (adds : Adds space id scope added)
    (missing : Space.find id items = none) :
    TakenAway unicode importer space
      (log ++ [(importer, ⟨.backend (.get space id), .ok none⟩)]) id := by
  obtain ⟨before, between, rfl⟩ := List.append_of_mem logged
  rcases stored before added between id scope rfl adds with
    ⟨item, found, -⟩ | ⟨entry, member, removed⟩
  · rw [missing] at found
    cases found
  · exact ⟨before, added, between, _, [], scope, rfl, adds, rfl, entry, member, removed⟩

theorem Survival.not_removes {past : Trace effects} {effect : Effect}
    {reply : effect.Reply} {id : String} {scope : Dict String String}
    (asks : Survival.Asks unicode space past effect) :
    ¬ Removes unicode space id scope ⟨effect, reply⟩ := by
  cases effect with
  | audit entry => exact nofun
  | backend call =>
      cases call with
      | delete | deleteAll => exact asks.elim
      | _ => exact nofun

theorem Survival.reported {past : Trace effects} {effect : Effect} {reply : effect.Reply}
    {id : String} (asks : Survival.Asks unicode space past effect)
    (same : (⟨effect, reply⟩ : Event effects) = ⟨.backend (.get space id), .ok none⟩) :
    ∃ scope, ∃ added ∈ past, Adds space id scope added := by
  cases same
  exact asks.2

variable [DecidableEq Task] {count : Nat}
  {pool : Pool effects Task (Except Exc Response) (Spaces.store unicode).machine.State}

/-- What holds while an import runs among other tasks. -/
structure Surviving (unicode : Unicode) (importer : Task) (space : String) (count : Nat)
    (pool : Pool effects Task (Except Exc Response) (Spaces.store unicode).machine.State) :
    Prop where
  safe : SafeWhile (AnsweredLocally unicode) (Survival.Asks unicode space)
    (Survival.Answers space count) (pool.program importer) (pool.past importer)
  answered : ∀ event ∈ pool.past importer, AnsweredLocally unicode event
  stored : StoredOrRemoved unicode importer space pool.log (pool.state space)
  explained : ∀ id, (⟨.backend (.get space id), .ok none⟩ : Event effects) ∈
    pool.past importer → TakenAway unicode importer space pool.log id

theorem Surviving.step {fresh : FreshSupply Task}
    (surviving : Surviving unicode importer space count pool) (task : Task)
    (unused : Spaces.Unused pool.state (fresh.supply task (pool.past task).length).id) :
    Surviving unicode importer space count
      (pool.step (Spaces.store unicode).machine fresh.supply task) := by
  have safe := @Pool.safe_step _ _ _ _ _ (Spaces.store unicode).machine fresh.supply pool
    _ _ importer surviving.safe task
  cases asks : pool.program task with
  | done value =>
      rw [Pool.step_of_done asks]
      exact surviving
  | ask effect next =>
      rw [Pool.step_of_ask asks] at safe ⊢
      have acts : Acts unicode space (pool.state space)
          (((Spaces.store unicode).machine.perform
            (fresh.supply task (pool.past task).length) effect pool.state).2 space)
          ⟨effect, ((Spaces.store unicode).machine.perform
            (fresh.supply task (pool.past task).length) effect pool.state).1⟩ := by
        cases effect with
        | audit entry =>
            exact ⟨trivial, fun _ item found => .inl ⟨item, found, rfl⟩, nofun, nofun⟩
        | backend call => exact Spaces.acts unused
      generalize (Spaces.store unicode).machine.perform
        (fresh.supply task (pool.past task).length) effect pool.state = answer
        at safe acts ⊢
      have allowed : task = importer →
          Survival.Asks unicode space (pool.past importer) effect := by
        rintro rfl
        have asked := surviving.safe
        rw [asks] at asked
        exact asked.1 surviving.answered
      refine ⟨safe, ?_, surviving.stored.step acts ?_, ?_⟩
      · intro event member
        by_cases own : task = importer
        · subst own
          rw [Pool.past_append_self] at member
          rcases List.mem_append.mp member with old | new
          · exact surviving.answered event old
          · exact List.mem_singleton.mp new ▸ acts.answered
        · rw [Pool.past_append_of_ne _ _ _ own] at member
          exact surviving.answered event member
      · intro own id scope
        exact Survival.not_removes (allowed own)
      · intro id member
        by_cases own : task = importer
        · subst own
          rw [Pool.past_append_self] at member
          rcases List.mem_append.mp member with old | new
          · exact (surviving.explained id old).append _
          · have same := (List.mem_singleton.mp new).symm
            obtain ⟨scope, added, seen, adds⟩ := Survival.reported (allowed rfl) same
            obtain ⟨entry, logged, rfl⟩ := List.mem_map.mp seen
            obtain ⟨inLog, byTask⟩ := List.mem_filter.mp logged
            obtain rfl : entry.1 = task := by simpa using byTask
            simp only [same]
            exact surviving.stored.missing inLog adds (acts.reads id same)
        · rw [Pool.past_append_of_ne _ _ _ own] at member
          exact (surviving.explained id member).append _

end Runs

/-- Ids of two tasks, told apart by their length. -/
def FreshSupply.tally : FreshSupply Bool where
  supply task n :=
    { id := String.ofList (List.replicate (2 * n + task.toNat + 1) 'a'), now := "" }
  distinct {task other n m} same := by
    have lengths := congrArg String.length same
    simp only [String.length_ofList, List.length_replicate] at lengths
    cases task <;> cases other <;>
      simp only [Bool.toNat_true, Bool.toNat_false, reduceCtorEq, false_and, true_and]
        at lengths ⊢ <;> omega

end Memcp
