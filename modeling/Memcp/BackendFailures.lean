import Memcp.Interaction.FailStop
import Memcp.LocalAnswers

/-!
What a failure of the backend comes to.  A request makes no call after the first failure that
isn't one of an import's entries: it raises that failure, translated as its operation does,
and a tool tells the client to try again just when the failure may pass.
-/

namespace Memcp

open Python Interaction

def IsAudit : Effect → Prop
  | .audit _ => True
  | .backend _ => False

/-- What a backend call raises. -/
def raised : Event effects → Option Exc
  | ⟨.backend _, .error error⟩ => some error
  | _ => none

/-- Whether an import lists a `MemoryAPIError` of the call, for one of its entries. -/
def BackendCall.spared : BackendCall → Bool
  | .add .. | .get .. | .update .. => true
  | _ => false

/-- What an import raises for what a backend call raises. -/
def importRaised : Event effects → Option Exc
  | ⟨.backend call, .error (.memoryAPIError status body)⟩ =>
      if call.spared then none else some (.memoryAPIError status body)
  | event => raised event

/-- What a request raises for what a backend call raises. -/
def Request.failure : Request → Event effects → Option Exc
  | .get _, event | .update .., event | .delete _, event | .history _, event =>
      (raised event).map asNotFound
  | .listMemories .., event => (raised event).map asValidationError
  | .importMemories .., event => importRaised event
  | _, event => raised event

/-- What a request raises of its own. -/
def Request.Refuses : Request → Exc → Prop
  | .importMemories .., error => error.IsPolicyError ∨ error.IsValueError
  | _, error => error.IsPolicyError

section Rules

variable {α β : Type} {failure : Event effects → Option Exc} {refuses : Exc → Prop}

abbrev Action.StopsOn (failure : Event effects → Option Exc) (refuses : Exc → Prop)
    (action : Action α) : Prop :=
  Fallible.StopsOn IsAudit failure refuses action

section Calls

variable {past : Trace effects} {call : BackendCall}

theorem concluded_returned {reply : Except Exc call.Result} {value : α}
    (sound : ∀ event ∈ past, failure event = none)
    (passes : failure ⟨.backend call, reply⟩ = none) :
    Concluded IsAudit failure refuses (past ++ [⟨.backend call, reply⟩])
      (.ok value : Except Exc α) :=
  .returned (List.forall_mem_append.mpr ⟨sound, List.forall_mem_singleton.mpr passes⟩)

theorem concluded_failed {error : Exc} (sound : ∀ event ∈ past, failure event = none)
    (fails : failure ⟨.backend call, .error error⟩ = some error) :
    Concluded IsAudit failure refuses (past ++ [⟨.backend call, .error error⟩])
      (.error error : Except Exc α) :=
  .failed rfl sound fails fun _ member => absurd member List.not_mem_nil

theorem backend_stops (passes : ∀ value, failure ⟨.backend call, .ok value⟩ = none)
    (fails : ∀ error, failure ⟨.backend call, .error error⟩ = some error) :
    Action.StopsOn failure refuses (Action.backend call) := by
  refine fun past sound => ⟨trivial, fun reply => ?_⟩
  cases reply with
  | ok value => exact concluded_returned sound (passes value)
  | error error => exact concluded_failed sound (fails error)

theorem raised_stops (call : BackendCall) :
    Action.StopsOn raised refuses (Action.backend call) :=
  backend_stops (fun _ => rfl) fun _ => rfl

theorem attempt_stops (spared : call.spared = true) :
    Action.StopsOn importRaised refuses (Action.backend call).attempt := by
  refine fun past sound => ⟨trivial, fun reply => ?_⟩
  cases reply with
  | ok value => exact concluded_returned sound rfl
  | error error =>
      cases error with
      | memoryAPIError status body => exact concluded_returned sound (if_pos spared)
      | _ => exact concluded_failed sound rfl

end Calls

def Operation.StopsOn (failure : Event effects → Option Exc) (refuses : Exc → Prop)
    (operation : Operation α) : Prop :=
  ∀ entry past, (∀ event ∈ past, failure event = none) →
    Interaction.Safe (fun _ _ => True)
      (fun later ended => Concluded IsAudit failure refuses later ended.1)
      (operation entry) past

namespace Operation.StopsOn

theorem pure (value : α) : Operation.StopsOn failure refuses (Pure.pure value) :=
  fun _ _ sound => .returned sound

theorem throw {error : Exc} (own : refuses error) :
    Operation.StopsOn failure refuses (MonadExcept.throw error : Operation α) :=
  fun _ _ sound => .refused sound own

theorem action {action : Action α} (stops : Action.StopsOn failure refuses action) :
    Operation.StopsOn failure refuses (liftM action : Operation α) :=
  fun _ past sound => Interaction.Safe.bind (stops past sound) fun _ _ concluded => concluded

theorem bind {operation : Operation α} {rest : α → Operation β}
    (first : Operation.StopsOn failure refuses operation)
    (second : ∀ value, Operation.StopsOn failure refuses (rest value)) :
    Operation.StopsOn failure refuses (operation >>= rest) := by
  intro entry past sound
  refine Interaction.Safe.bind (first entry past sound) ?_
  rintro later ⟨outcome, entry⟩ concluded
  cases outcome with
  | ok value =>
      cases concluded with
      | returned sound => exact second value entry later sound
  | error error => exact concluded.error

theorem check {outcome : Except Exc α} {rest : α → Operation β}
    (own : Raises refuses outcome)
    (second : ∀ value, Operation.StopsOn failure refuses (rest value)) :
    Operation.StopsOn failure refuses (liftM outcome >>= rest) := by
  intro entry past sound
  cases outcome with
  | ok value => exact second value entry past sound
  | error error => exact .refused sound (own error rfl)

theorem recording {f : AuditEntry → AuditEntry} {rest : Unit → Operation β}
    (second : Operation.StopsOn failure refuses (rest ())) :
    Operation.StopsOn failure refuses (Operation.record f >>= rest) :=
  fun entry => second (f entry)

end Operation.StopsOn

theorem audited_stops {name : String} {context : Context} {respond : α → β}
    {body : Operation α} (silent : ∀ entry, failure ⟨.audit entry, ()⟩ = none)
    (stops : Operation.StopsOn failure refuses body) :
    Action.StopsOn failure refuses (respond <$> audited name context body) := by
  have audits : Action.StopsOn failure refuses (audited name context body) := by
    intro past sound
    refine Safe.bind (stops _ past sound) ?_
    rintro later ⟨outcome, entry⟩ concluded
    exact ⟨trivial, fun _ => concluded.append trivial (silent _)⟩
  exact audits.map

end Rules

/-! What the checks raise is the policy's. -/

section Checks

theorem Raises.mono {α : Type} {kind kind' : Exc → Prop} {outcome : Except Exc α}
    (raises : Raises kind outcome) (implies : ∀ error, kind error → kind' error) :
    Raises kind' outcome :=
  fun error same => implies error (raises error same)

theorem require_raises (key : Key) (relation : Relation) :
    Raises Exc.IsPolicyError (require (some key) relation) := by
  cases relation with
  | reader => exact nofun
  | writer =>
      rw [require_writer]
      split
      · exact .pure _
      · exact .throw trivial

theorem validation_raises {α : Type} {checks : Except Exc α}
    (raises : Raises Exc.IsValueError checks) :
    Raises Exc.IsPolicyError (validation checks) := by
  cases checks with
  | ok value => exact nofun
  | error error =>
      have kind := raises error rfl
      cases error with
      | valueError message => exact .throw trivial
      | _ => cases kind

theorem checkSpace_raises (memory : Option Memory) (partition : String) :
    Raises Exc.IsPolicyError (checkSpace memory partition) := by
  unfold checkSpace
  cases memory with
  | none => exact .throw trivial
  | some memory =>
      dsimp only
      split
      · exact .pure _
      · exact .throw trivial

theorem checkSpaces_raises (memories : List Memory) (partition : String) :
    Raises Exc.IsPolicyError (checkSpaces memories partition) := by
  rw [checkSpaces_eq]
  split
  · exact .pure _
  · exact .throw trivial

theorem checkImportArguments_raises (policy : Policy) (entries : List (Dict String Json))
    (onConflict : String) :
    Raises Exc.IsPolicyError (policy.checkImportArguments entries onConflict) := by
  unfold Policy.checkImportArguments
  dsimp only
  split
  · exact .throw_bind trivial _
  split
  · exact .throw_bind trivial _
  split
  · exact .throw trivial
  split
  · exact .throw_bind trivial _
  · exact .pure _

end Checks

/-! One lemma for each operation. -/

section Operations

variable {policy : Policy} {key : Key}

abbrev Request.StopsOn (policy : Policy) (key : Key) (request : Request) : Prop :=
  Action.StopsOn request.failure request.Refuses (policy.perform (some key) request)

theorem asNotFound_own {error : Exc} (own : error.IsPolicyError) :
    (asNotFound error).IsPolicyError := by
  cases error with
  | policyError code message => trivial
  | _ => cases own

theorem asValidationError_own {error : Exc} (own : error.IsPolicyError) :
    (asValidationError error).IsPolicyError := by
  cases error with
  | policyError code message => trivial
  | _ => cases own

/-- A call whose failure a by-id request translates. -/
theorem byId_stops (call : BackendCall) :
    Action.StopsOn (fun event => (raised event).map asNotFound) Exc.IsPolicyError
      ((Action.backend call).mapError asNotFound) :=
  .mapError (raised_stops call) fun _ => asNotFound_own

theorem read_stops (partition memoryId : String) :
    Action.StopsOn (fun event => (raised event).map asNotFound) Exc.IsPolicyError
      (Policy.read partition memoryId) := by
  refine .check (validation_raises (validateMemoryId_raises memoryId)) fun _ _ => ?_
  refine .bind (byId_stops _) fun found => ?_
  cases found with
  | none => exact .throw trivial
  | some memory => exact .lift (checkSpace_raises _ _)

theorem checkAdded_stops (partition : String) (added : List AddResult) :
    Operation.StopsOn raised Exc.IsPolicyError (Policy.checkAdded partition added) := by
  induction added with
  | nil => exact .pure _
  | cons head tail induction =>
      unfold Policy.checkAdded
      split
      · exact induction
      · exact .bind (.action (raised_stops _)) fun found =>
          .check (checkSpace_raises found partition) fun _ => induction

theorem add_stops (content : String) (scope : Json) (metadata : Option (Dict String Json))
    (infer : Bool) : (Request.add content scope metadata infer).StopsOn policy key := by
  refine audited_stops (fun _ => rfl) <| .check (require_raises _ _) fun actor =>
    .check (validation_raises (checkAddArguments_raises _ _)) fun _ =>
    .check (validateScope_raises _ _ _) fun cleaned => .recording ?_
  refine .bind (.action (raised_stops _)) fun result => .recording ?_
  exact .bind (checkAdded_stops _ _) fun _ => .pure _

theorem search_stops (query : String) (scope : Json) (limit : Int) (threshold : ℚ) :
    (Request.search query scope limit threshold).StopsOn policy key := by
  refine audited_stops (fun _ => rfl) <| .check (require_raises _ _) fun actor =>
    .check (validation_raises (checkSearchArguments_raises _ _ _)) fun _ =>
    .check (validateScope_raises _ _ _) fun cleaned => .recording ?_
  exact .bind (.action (raised_stops _)) fun found =>
    .check (checkSpaces_raises found _) fun _ => .recording (.pure _)

theorem get_stops (memoryId : String) : (Request.get memoryId).StopsOn policy key :=
  audited_stops (fun _ => rfl) <| .recording <| .check (require_raises _ _) fun _ =>
    .action (read_stops _ _)

theorem update_stops (memoryId : String) (content : Option String)
    (metadata : Option (Dict String Json)) :
    (Request.update memoryId content metadata).StopsOn policy key := by
  refine audited_stops (fun _ => rfl) <| .recording <| .check (require_raises _ _) fun actor =>
    .check (validation_raises (checkUpdateArguments_raises _ _)) fun _ => ?_
  refine .bind (.action (read_stops _ _)) fun existing =>
    .check (validation_raises (checkPatchSize_raises _ _)) fun _ => ?_
  exact .bind (.action (byId_stops _)) fun updated =>
    .action (.lift (checkSpace_raises (some updated) _))

theorem delete_stops (memoryId : String) : (Request.delete memoryId).StopsOn policy key :=
  audited_stops (fun _ => rfl) <| .recording <| .check (require_raises _ _) fun _ =>
    .bind (.action (read_stops _ _)) fun _ => .action (byId_stops _)

theorem deleteAll_stops (scope : Json) : (Request.deleteAll scope).StopsOn policy key := by
  refine audited_stops (fun _ => rfl) <| .check (require_raises _ _) fun actor =>
    .check (validateScope_raises _ _ _) fun cleaned => .recording ?_
  split
  · exact .throw trivial
  · exact .bind (.action (raised_stops _)) fun _ => .recording (.pure _)

theorem listMemories_stops (scope : Json) (limit : Int) (cursor : Option String) :
    (Request.listMemories scope limit cursor).StopsOn policy key := by
  refine audited_stops (fun _ => rfl) <| .check (require_raises _ _) fun actor =>
    .check (validation_raises (validateLimit_raises _)) fun _ =>
    .check (validateScope_raises _ _ _) fun cleaned => .recording ?_
  refine .bind (.action (.mapError (raised_stops _) fun _ => asValidationError_own))
    fun page => ?_
  exact .check (checkSpaces_raises page.memories _) fun _ => .recording (.pure _)

theorem history_stops (memoryId : String) : (Request.history memoryId).StopsOn policy key :=
  audited_stops (fun _ => rfl) <| .recording <| .check (require_raises _ _) fun _ =>
    .bind (.action (read_stops _ _)) fun _ => .action (byId_stops _)

theorem entities_stops (scope : Json) (limit : Int) :
    (Request.entities scope limit).StopsOn policy key := by
  refine audited_stops (fun _ => rfl) <| .check (require_raises _ _) fun actor =>
    .check (validation_raises (validateLimit_raises _)) fun _ =>
    .check (validateScope_raises _ _ _) fun cleaned => .recording ?_
  exact .bind (.action (raised_stops _)) fun _ => .recording (.pure _)

/-! Whole reads. -/

section Reads

variable {failure : Event effects → Option Exc} {refuses : Exc → Prop}

theorem listAllFrom_stops {space : String}
    (lists : ∀ limit cursor, Action.StopsOn failure refuses
      (Action.backend (.listMemories space none limit cursor)))
    (own : ∀ error, Exc.IsPolicyError error → refuses error) (limit : Nat)
    (memories : List Memory) (incomplete : Bool) (cursor : Option String) :
    Action.StopsOn failure refuses
      (listAllFrom space limit memories incomplete cursor) := by
  induction rest : limit + 1 - memories.length using Nat.strongRecOn
    generalizing memories incomplete cursor with
  | ind left induction =>
      rw [listAllFrom_eq]
      refine .bind (lists _ _) fun page => ?_
      split
      case isFalse => exact .throw (own _ trivial)
      split
      case isTrue => exact .pure _
      case isTrue.isFalse goes =>
        refine induction _ ?_ _ _ _ rfl
        simp only [not_or, List.length_append, Nat.not_lt] at goes ⊢
        have := List.length_pos_iff.mpr goes.2.1
        omega

theorem exportMemories_stops : Request.exportMemories.StopsOn policy key := by
  have exported : ∀ space, Action.StopsOn raised Exc.IsPolicyError
      (exportPayload space maxExport) := fun space =>
    .bind (listAllFrom_stops (fun _ _ => raised_stops _) (fun _ => id) _ _ _ _) fun _ => .pure _
  exact audited_stops (fun _ => rfl) <| .check (require_raises _ _) fun _ =>
    .bind (.action (exported _)) fun _ => .recording (.pure _)

end Reads

/-! Imports. -/

section Import

variable {mode : OnConflict} {refuses : Exc → Prop}

theorem importOverwrite_stops (options : ImportOptions) (index : Nat) (item : ImportItem)
    (identity : DedupKey) (dup : Memory) (state : ImportState)
    (own : ∀ error, Exc.IsPolicyError error → refuses error) :
    Action.StopsOn importRaised refuses
      (importOverwrite options index item identity dup state) := by
  refine .bind (attempt_stops rfl) fun result => ?_
  cases result with
  | error status => exact .pure _
  | ok updated =>
      exact .check ((checkSpace_raises _ _).mono own) fun _ _ => .pure _

theorem importReadBack_stops (options : ImportOptions) (index : Nat) (identity : DedupKey)
    (added : List AddResult) (state : ImportState)
    (own : ∀ error, Exc.IsPolicyError error → refuses error) :
    Action.StopsOn importRaised refuses
      (importReadBack options index identity added state) := by
  induction added generalizing state with
  | nil => exact .pure _
  | cons head tail induction =>
      refine .bind (attempt_stops rfl) fun result => ?_
      cases result with
      | error status => exact induction _
      | ok stored =>
          exact .check ((checkSpace_raises _ _).mono own) fun _ _ => induction _

theorem importCreate_stops (options : ImportOptions) (index : Nat) (item : ImportItem)
    (identity : DedupKey) (state : ImportState)
    (own : ∀ error, Exc.IsPolicyError error → refuses error) :
    Action.StopsOn importRaised refuses
      (importCreate options index item identity state) := by
  refine .bind (attempt_stops rfl) fun result => ?_
  split
  · exact .pure _
  · exact .pure _
  · exact importReadBack_stops _ _ _ _ _ own

theorem importEntry_stops (index : Nat) (entry : Dict String Json) (state : ImportState)
    (own : ∀ error, Exc.IsPolicyError error → refuses error) :
    Action.StopsOn importRaised refuses
      (importEntry policy.unicode (policy.importOptions key mode) index entry state) := by
  unfold importEntry
  cases read : readEntry policy.unicode (policy.importOptions key mode) entry with
  | error error =>
      have kind := readEntry_raises rfl (validateEntryScope_raises policy) entry error read
      cases error with
      | valueError message => exact .pure _
      | _ => cases kind
  | ok item =>
      dsimp only
      split
      · exact .pure _
      · exact importOverwrite_stops _ _ _ _ _ _ own
      · exact importCreate_stops _ _ _ _ _ own

theorem importEntries_stops (index : Nat) (entries : List (Dict String Json))
    (state : ImportState) (own : ∀ error, Exc.IsPolicyError error → refuses error) :
    Action.StopsOn importRaised refuses
      (importEntries policy.unicode (policy.importOptions key mode) index entries state) := by
  induction entries generalizing index state with
  | nil => exact .pure _
  | cons entry entries induction =>
      exact .bind (importEntry_stops index entry state own) fun state =>
        induction (index + 1) state

/-- A call whose every failure ends an import. -/
theorem unspared_stops {call : BackendCall} (unspared : call.spared = false) :
    Action.StopsOn importRaised refuses (Action.backend call) := by
  refine backend_stops (fun _ => rfl) fun error => ?_
  cases error with
  | memoryAPIError status body => exact if_neg (by simp [unspared])
  | _ => rfl

theorem importPayload_stops (entries : List (Dict String Json)) (limit : Nat) :
    Action.StopsOn importRaised
      (fun error => error.IsPolicyError ∨ error.IsValueError)
      (importPayload policy.unicode (policy.importOptions key mode) entries limit) := by
  have conflict : Action.StopsOn importRaised
      (fun error => error.IsPolicyError ∨ error.IsValueError) (refuseOnConflict mode) := by
    unfold refuseOnConflict
    split
    · refine .bind (unspared_stops rfl) fun declared => ?_
      split
      · exact .throw (.inr trivial)
      · exact .pure _
    · exact .pure _
  have goes : ∀ known incomplete, Action.StopsOn importRaised
      (fun error => error.IsPolicyError ∨ error.IsValueError) (do
        let state ← importEntries policy.unicode (policy.importOptions key mode) 0 entries
          { existing := known, outcome := { dedupIncomplete := incomplete } }
        return state.outcome) := fun known incomplete =>
    .bind (importEntries_stops 0 entries _ fun _ => .inl) fun _ => .pure _
  refine .bind conflict fun _ => ?_
  dsimp only
  split
  · exact goes _ _
  · have indexed : Action.StopsOn importRaised
        (fun error => error.IsPolicyError ∨ error.IsValueError)
        (buildDedupIndex policy.unicode key.grant.space limit) :=
      .bind (listAllFrom_stops (fun _ _ => unspared_stops rfl) (fun _ => .inl) _ _ _ _)
        fun _ => .pure _
    exact .bind indexed fun _ => goes _ _

theorem importMemories_stops (entries : List (Dict String Json)) (onConflict : String) :
    (Request.importMemories entries onConflict).StopsOn policy key :=
  audited_stops (fun _ => rfl) <|
    .check ((require_raises _ _).mono fun _ => .inl) fun _ =>
    .check ((checkImportArguments_raises policy entries onConflict).mono fun _ => .inl) fun _ =>
    .bind (.action (importPayload_stops entries maxExport)) fun _ => .recording (.pure _)

end Import

theorem perform_stops (request : Request) : request.StopsOn policy key := by
  cases request with
  | add => exact add_stops _ _ _ _
  | search => exact search_stops _ _ _ _
  | get => exact get_stops _
  | update => exact update_stops _ _ _
  | delete => exact delete_stops _
  | deleteAll => exact deleteAll_stops _
  | listMemories => exact listMemories_stops _ _ _
  | history => exact history_stops _
  | entities => exact entities_stops _ _
  | exportMemories => exact exportMemories_stops
  | importMemories => exact importMemories_stops _ _

theorem failure_of_audit (request : Request) :
    ∀ event : Event effects, IsAudit event.call → request.failure event = none := by
  rintro ⟨call, reply⟩ audit
  cases call with
  | backend call => cases audit
  | audit entry => cases request <;> rfl

end Operations

/-- A failure that may pass: a timeout, or an error of the server's. -/
def Passing (error : Exc) : Prop :=
  ∃ status body, error = .memoryAPIError status body ∧ (status = 408 ∨ 500 ≤ status)

theorem retry_iff {error : Exc} {told : CanonicalError}
    (answer : toolAnswer (.error error) = .ok (.inr told)) :
    told.retry = true ↔ Passing error := by
  cases error with
  | policyError code message =>
      cases answer
      constructor
      · intro retry
        cases retry
      · rintro ⟨_, _, same, -⟩
        cases same
  | memoryAPIError status body =>
      cases answer
      unfold backendError Passing
      constructor
      · intro retry
        refine ⟨status, body, rfl, ?_⟩
        split at retry
        case isTrue timeout => exact .inl timeout
        case isFalse => exact .inr (of_decide_eq_true retry)
      · rintro ⟨_, _, ⟨⟩, passing⟩
        split
        case isTrue => rfl
        case isFalse other => exact decide_eq_true (passing.resolve_left other)
  | _ => cases answer

theorem not_passing_of_refuses {request : Request} {error : Exc}
    (own : request.Refuses error) : ¬ Passing error := by
  rintro ⟨status, body, rfl, -⟩
  cases request with
  | importMemories => exact own.elim id id
  | _ => exact own

/-- Whatever the backend replies: the first failure that a request doesn't spare is its last
call, and is what it raises; what else it raises is its own; and a client is told to try again
just when such a failure may pass. -/
theorem backend_failures_end_requests (policy : Policy) (key : Key) (request : Request)
    (environment : Environment) :
    let ran := @Program.against effects _ environment (policy.perform (some key) request) []
    (∀ before event after error, ran.1 = before ++ event :: after →
      request.failure event = some error →
        ran.2 = .error error ∧ ∀ later ∈ after, IsAudit later.call) ∧
    (∀ error, ran.2 = .error error →
      (∃ event ∈ ran.1, request.failure event = some error) ∨ request.Refuses error) ∧
    ∀ told, toolAnswer ran.2 = .ok (.inr told) →
      (told.retry = true ↔
        ∃ event ∈ ran.1, ∃ error, request.failure event = some error ∧ Passing error) := by
  intro ran
  have concluded : Concluded IsAudit request.failure request.Refuses ran.1 ran.2 :=
    Safe.post_of_against (perform_stops request [] (fun _ => nofun)) environment
  have stops : ∀ {before after event error}, ran.1 = before ++ event :: after →
      request.failure event = some error →
        ran.2 = .error error ∧ ∀ later ∈ after, IsAudit later.call :=
    concluded.of_failure (failure_of_audit request)
  refine ⟨fun before event after error => stops, fun error raises => ?_, fun told answer => ?_⟩
  · rw [raises] at concluded
    exact concluded.of_error.imp id And.right
  · cases comes : ran.2 with
    | ok response =>
        rw [comes] at answer
        cases answer
    | error error =>
        rw [comes] at answer concluded
        rw [retry_iff answer]
        constructor
        · intro passing
          rcases concluded.of_error with ⟨event, member, fails⟩ | ⟨-, own⟩
          · exact ⟨event, member, error, fails, passing⟩
          · exact (not_passing_of_refuses own passing).elim
        · rintro ⟨event, member, other, fails, passing⟩
          obtain ⟨before, after, split⟩ := List.append_of_mem member
          cases comes.symm.trans (stops split fails).1
          exact passing

end Memcp
