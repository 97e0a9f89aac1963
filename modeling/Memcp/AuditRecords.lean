import Memcp.CompleteReads
import Memcp.Tools.Shared

/-!
The audit record of an operation, against a backend that answers as it likes:
there is one, and it tells what the operation did.
-/

namespace Memcp

open Python Interaction

variable {α β : Type}

/-! How an operation fills in its entry. -/

/-- An operation calls the backend and nothing else, and `post` holds of what
it ends with and of the entry it leaves. -/
def Operation.Leaves (post : Trace effects → Except Exc α → AuditEntry → Prop)
    (operation : Operation α) (past : Trace effects) (entry : AuditEntry) : Prop :=
  Interaction.Safe (fun _ effect => Effect.isCall effect = true)
    (fun later ended => post later ended.1 ended.2) (operation entry) past

namespace Operation.Leaves

variable {post : Trace effects → Except Exc α → AuditEntry → Prop}
  {past : Trace effects} {entry : AuditEntry}

theorem pure {value : α} (holds : post past (.ok value) entry) :
    Operation.Leaves post (Pure.pure value) past entry := holds

theorem throw {error : Exc} (holds : post past (.error error) entry) :
    Operation.Leaves post (MonadExcept.throw error) past entry := holds

theorem action {action : Action α}
    (safe : Interaction.Safe (fun _ effect => Effect.isCall effect = true)
      (fun later outcome => post later outcome entry) action past) :
    Operation.Leaves post (liftM action : Operation α) past entry :=
  Interaction.Safe.bind safe fun _ _ holds => holds

theorem bind {middle : Trace effects → Except Exc α → AuditEntry → Prop}
    {post : Trace effects → Except Exc β → AuditEntry → Prop}
    {operation : Operation α} {rest : α → Operation β}
    (first : Operation.Leaves middle operation past entry)
    (raised : ∀ later error entry, middle later (.error error) entry →
      post later (.error error) entry)
    (returned : ∀ later value entry, middle later (.ok value) entry →
      Operation.Leaves post (rest value) later entry) :
    Operation.Leaves post (operation >>= rest) past entry := by
  refine Interaction.Safe.bind first ?_
  rintro later ⟨outcome, entry⟩ holds
  cases outcome with
  | ok value => exact returned later value entry holds
  | error error => exact raised later error entry holds

theorem check {post : Trace effects → Except Exc β → AuditEntry → Prop}
    {outcome : Except Exc α} {rest : α → Operation β}
    (raised : ∀ error, post past (.error error) entry)
    (returned : ∀ value, outcome = .ok value →
      Operation.Leaves post (rest value) past entry) :
    Operation.Leaves post (liftM outcome >>= rest) past entry := by
  cases outcome with
  | ok value => exact returned value rfl
  | error error => exact raised error

theorem recording {post : Trace effects → Except Exc β → AuditEntry → Prop}
    {f : AuditEntry → AuditEntry} {rest : Unit → Operation β}
    (second : Operation.Leaves post (rest ()) past (f entry)) :
    Operation.Leaves post (Operation.record f >>= rest) past entry := second

theorem acting {middle : Trace effects → α → Prop}
    {post : Trace effects → Except Exc β → AuditEntry → Prop}
    {action : Action α} {rest : α → Operation β}
    (calls : Action.Calls middle action past)
    (raised : ∀ later error, post later (.error error) entry)
    (returned : ∀ later value, middle later value →
      Operation.Leaves post (rest value) later entry) :
    Operation.Leaves post (liftM action >>= rest) past entry := by
  have unchanged : Operation.Leaves (fun later outcome entry' =>
      entry' = entry ∧ ∀ value, outcome = .ok value → middle later value)
      (liftM action : Operation α) past entry :=
    .action (Interaction.Safe.mono calls (fun _ _ asks => asks) fun _ _ holds => ⟨rfl, holds⟩)
  refine .bind unchanged ?_ ?_
  · rintro later error _ ⟨rfl, -⟩
    exact raised later error
  · rintro later value _ ⟨rfl, holds⟩
    exact returned later value (holds value rfl)

theorem acted {action : Action α} (calls : Action.Calls (fun _ _ => True) action past)
    (ended : ∀ later outcome, post later outcome entry) :
    Operation.Leaves post (liftM action : Operation α) past entry :=
  .action (Interaction.Safe.mono calls (fun _ _ asks => asks) fun later outcome _ =>
    ended later outcome)

end Operation.Leaves

/-! What a record is to tell. -/

/-- The ids the backend reported for an add. -/
def reportedIds (past : Trace effects) : Option (List String) :=
  past.findSome? fun event =>
    match event.call, event.reply with
    | .backend (.add ..), .ok result => some (result.items.map AddResult.id)
    | _, _ => none

namespace Request

def operation : Request → String
  | .add .. => "add"
  | .search .. => "search"
  | .get _ => "get"
  | .update .. => "update"
  | .delete _ => "delete"
  | .deleteAll _ => "delete_all"
  | .listMemories .. => "list_memories"
  | .history _ => "history"
  | .entities .. => "entities"
  | .exportMemories => "export_memories"
  | .importMemories .. => "import_memories"

/-- The id a by-id operation is given. -/
def givenId? : Request → Option String
  | .get id | .update id .. | .delete id | .history id => some id
  | _ => none

def isAdd : Request → Bool
  | .add .. => true
  | _ => false

end Request

/-- The number of items in what an operation returned, or the count it is. -/
def Response.count? : Response → Option (Option Nat)
  | .found memories => some (some memories.length)
  | .count total => some total
  | .page listed => some (some listed.memories.length)
  | .entities result => some (some result.entities.length)
  | .exported payload => some (some payload.memories.length)
  | .imported outcome => some (some outcome.imported.length)
  | .added _ | .memory _ | .deleted _ | .history _ => none

/-- What the entry tells of the calls made and of what the operation ended
with, filled in from `start`. -/
structure Filled (request : Request) (start : AuditEntry) (calls : Trace effects)
    (outcome : Except Exc Response) (entry : AuditEntry) : Prop where
  kept : entry = { start with
    ids := entry.ids, count := entry.count, scope := entry.scope }
  count : ∀ response, outcome = .ok response →
    ∀ count, response.count? = some count → entry.count = count
  added : request.isAdd = true → entry.ids = reportedIds calls
  given : ∀ id, request.givenId? = some id → entry.ids = recordable id

namespace Filled

variable {request : Request} {start : AuditEntry} {calls : Trace effects}
  {outcome : Except Exc Response}

/-- A by-id operation that recorded its id and nothing since. -/
theorem of_id {id : String} (byId : request.givenId? = some id)
    (uncounted : ∀ response, outcome = .ok response → response.count? = none) :
    Filled request start calls outcome { start with ids := recordable id } where
  kept := rfl
  count response returned count counted := by
    rw [uncounted response returned] at counted
    cases counted
  added add := by
    cases request with
    | add => cases byId
    | _ => cases add
  given id' byId' := by
    rw [byId] at byId'
    cases byId'
    rfl

theorem of_id_returned {id : String} (byId : request.givenId? = some id)
    {wrap : α → Response} (uncounted : ∀ value, (wrap value).count? = none)
    (ended : Except Exc α) :
    Filled request start calls (ended.map wrap)
      { start with ids := recordable id } := by
  apply of_id byId
  intro response returned
  obtain ⟨value, -, rfl⟩ := map_eq_ok.mp returned
  exact uncounted value

/-- An operation on a scope or on a whole space: it records a count when it
returns. -/
theorem of_space (add : request.isAdd = false) (byId : request.givenId? = none)
    {scope : Option (Dict String Json)} {count : Option Nat}
    (counted : ∀ response, outcome = .ok response → response.count? = some count) :
    Filled request start calls outcome
      { start with scope := scope, count := count } where
  kept := rfl
  count response returned count' counted' := by
    rw [counted response returned] at counted'
    exact Option.some.inj counted'
  added add' := by
    rw [add] at add'
    cases add'
  given id byId' := by
    rw [byId] at byId'
    cases byId'

/-- An operation on a scope or on a whole space that stopped early. -/
theorem of_space_raised (add : request.isAdd = false)
    (byId : request.givenId? = none) {scope : Option (Dict String Json)}
    {error : Exc} :
    Filled request start calls (.error error) { start with scope := scope } :=
  @of_space request start calls (.error error) add byId scope start.count nofun

end Filled

/-- A run whose only audit record is its last effect, filled in for `request`. -/
def Evidenced (context : Context) (request : Request)
    (run : Trace effects × Except Exc Response) : Prop :=
  ∃ calls entry,
    run.1 = calls ++ [⟨.audit (AuditEntry.finish entry run.2), ()⟩] ∧
    (∀ event ∈ calls, event.call.isCall = true) ∧
    Filled request (.start request.operation context) calls run.2 entry

theorem audited_recorded {environment : Environment} {context : Context}
    {request : Request} {wrap : α → Response} {body : Operation α}
    {action : Action Response}
    (performs : action = wrap <$> audited request.operation context body)
    (leaves : Operation.Leaves (fun later outcome entry =>
      Filled request (.start request.operation context) later (outcome.map wrap) entry)
      body [] (.start request.operation context)) :
    Evidenced context request (Program.against environment action []) := by
  have filled := Interaction.Safe.post_of_against leaves environment
  have calls : ∀ event ∈ (Program.against environment
      (body (.start request.operation context)) []).1, event.call.isCall = true := by
    intro event member
    obtain ⟨before, after, split⟩ := List.append_of_mem member
    exact Interaction.Safe.guard_of_against leaves environment split
  have ran : Program.against environment action [] = _ :=
    (congrArg (Program.against environment · []) performs).trans
      (Fallible.against_bind environment _ _ [])
  rw [ran, audited, Program.against_bind]
  generalize Program.against environment (body (.start request.operation context)) []
    = ended at filled calls ⊢
  obtain ⟨later, outcome, entry⟩ := ended
  refine ⟨later, entry, ?_⟩
  cases outcome with
  | ok value => exact ⟨rfl, calls, filled⟩
  | error error => exact ⟨rfl, calls, filled⟩

/-! The operations. -/

section Operations

variable {environment : Environment} {policy : Policy} {context : Context}
  {past : Trace effects}

theorem read_calls (partition id : String) :
    Action.Calls (fun _ _ => True) (Policy.read partition id) past := by
  refine .check fun valid _ => ?_
  refine .bind (.mapError (backend_any _)) fun later result _ _ => ?_
  cases result with
  | none => exact .throw _
  | some memory => exact .lift fun _ _ => trivial

theorem reportedIds_append (first second : Trace effects) :
    reportedIds (first ++ second) = (reportedIds first).or (reportedIds second) :=
  List.findSome?_append

theorem checkAdded_leaves (partition : String) (items : List AddResult)
    {ids : List String} (reported : reportedIds past = some ids) {entry : AuditEntry} :
    Operation.Leaves
      (fun later _ entry' => entry' = entry ∧ reportedIds later = some ids)
      (Policy.checkAdded partition items) past entry := by
  induction items generalizing past with
  | nil => exact .pure ⟨rfl, reported⟩
  | cons item items induction =>
      unfold Policy.checkAdded
      split
      · exact induction reported
      · have fetched : Operation.Leaves
            (fun later _ entry' => entry' = entry ∧ reportedIds later = some ids)
            (liftM (Action.backend (.get partition item.id)) : Operation _) past
            entry := by
          refine .action ⟨rfl, fun reply => ⟨rfl, ?_⟩⟩
          rw [reportedIds_append, reported]
          rfl
        refine .bind fetched (fun _ _ _ same => same) ?_
        rintro later stored _ ⟨rfl, known⟩
        exact .check (fun _ => ⟨rfl, known⟩) fun _ _ => induction known

theorem add_recorded (content : String) (scope : Json)
    (metadata : Option (Dict String Json)) (infer : Bool) :
    Evidenced context (.add content scope metadata infer) (Program.against environment
      (policy.perform context (.add content scope metadata infer)) []) := by
  let request : Request := .add content scope metadata infer
  -- No id is recorded before the backend has reported some.
  have unreported : ∀ calls error scope, reportedIds calls = none →
      Filled request (.start "add" context) calls (.error error)
        { AuditEntry.start "add" context with scope := scope } := by
    intro calls error scope unreported
    refine ⟨rfl, nofun, fun _ => ?_, nofun⟩
    rw [unreported]
    cases context <;> rfl
  refine audited_recorded rfl ?_
  refine .check (fun _ => unreported _ _ _ rfl) fun key _ => ?_
  refine .check (fun _ => unreported _ _ _ rfl) fun _ _ => ?_
  refine .check (fun _ => unreported _ _ _ rfl) fun scope _ => .recording ?_
  let started : AuditEntry := { AuditEntry.start "add" context with scope := scope }
  have stored : Operation.Leaves (fun later outcome entry => entry = started ∧
      reportedIds later = outcome.toOption.map fun result =>
        result.items.map AddResult.id)
      (liftM (Action.backend (.add key.grant.space content scope metadata infer
        (some (systemFor key.grant.space key.name (some key.name))))) : Operation _)
      [] started := by
    refine .action ⟨rfl, fun reply => ⟨rfl, ?_⟩⟩
    cases reply with
    | ok result => rfl
    | error error => rfl
  refine .bind stored ?_ ?_
  · rintro later error _ ⟨rfl, none⟩
    exact unreported _ _ _ none
  · rintro later result _ ⟨rfl, reported⟩
    refine .recording (.bind (checkAdded_leaves _ _ reported) ?_ ?_)
    · rintro later error _ ⟨rfl, known⟩
      exact ⟨rfl, nofun, fun _ => known.symm, nofun⟩
    · rintro later - _ ⟨rfl, known⟩
      refine .pure ⟨rfl, ?_, fun _ => known.symm, nofun⟩
      rintro _ ⟨⟩ count counted
      cases counted

theorem search_recorded (query : String) (scope : Json) (limit : Int)
    (threshold : ℚ) :
    Evidenced context (.search query scope limit threshold)
      (Program.against environment
        (policy.perform context (.search query scope limit threshold)) []) := by
  refine audited_recorded rfl ?_
  refine .check (fun _ => .of_space_raised rfl rfl) fun key _ => ?_
  refine .check (fun _ => .of_space_raised rfl rfl) fun _ _ => ?_
  refine .check (fun _ => .of_space_raised rfl rfl) fun scope _ => .recording ?_
  refine .acting (backend_any _) (fun _ _ => .of_space_raised rfl rfl) fun _ found _ => ?_
  refine .check (fun _ => .of_space_raised rfl rfl) fun checked _ => .recording ?_
  apply Operation.Leaves.pure
  apply Filled.of_space rfl rfl
  rintro _ ⟨⟩
  rfl

theorem get_recorded (memoryId : String) :
    Evidenced context (.get memoryId)
      (Program.against environment (policy.perform context (.get memoryId)) []) := by
  refine audited_recorded rfl (.recording ?_)
  refine .check (fun _ => .of_id rfl nofun) fun key _ => ?_
  exact .acted (read_calls _ _) fun _ outcome =>
    .of_id_returned rfl (fun _ => rfl) outcome

theorem update_recorded (memoryId : String) (content : Option String)
    (metadata : Option (Dict String Json)) :
    Evidenced context (.update memoryId content metadata) (Program.against environment
      (policy.perform context (.update memoryId content metadata)) []) := by
  refine audited_recorded rfl (.recording ?_)
  refine .check (fun _ => .of_id rfl nofun) fun key _ => ?_
  refine .check (fun _ => .of_id rfl nofun) fun _ _ => ?_
  refine .acting (read_calls _ _) (fun _ _ => .of_id rfl nofun) fun _ existing _ => ?_
  refine .check (fun _ => .of_id rfl nofun) fun _ _ => ?_
  refine .acting (.mapError (backend_any _)) (fun _ _ => .of_id rfl nofun)
    fun _ updated _ => ?_
  exact .of_id_returned rfl (fun _ => rfl) _

theorem delete_recorded (memoryId : String) :
    Evidenced context (.delete memoryId)
      (Program.against environment (policy.perform context (.delete memoryId)) []) := by
  refine audited_recorded rfl (.recording ?_)
  refine .check (fun _ => .of_id rfl nofun) fun key _ => ?_
  refine .acting (read_calls _ _) (fun _ _ => .of_id rfl nofun) fun _ existing _ => ?_
  exact .acted (.mapError (backend_any _)) fun _ outcome =>
    .of_id_returned rfl (fun _ => rfl) outcome

theorem history_recorded (memoryId : String) :
    Evidenced context (.history memoryId)
      (Program.against environment (policy.perform context (.history memoryId)) []) := by
  refine audited_recorded rfl (.recording ?_)
  refine .check (fun _ => .of_id rfl nofun) fun key _ => ?_
  refine .acting (read_calls _ _) (fun _ _ => .of_id rfl nofun) fun _ existing _ => ?_
  exact .acted (.mapError (backend_any _)) fun _ outcome =>
    .of_id_returned rfl (fun _ => rfl) outcome

theorem deleteAll_recorded (scope : Json) :
    Evidenced context (.deleteAll scope)
      (Program.against environment (policy.perform context (.deleteAll scope)) []) := by
  refine audited_recorded rfl ?_
  refine .check (fun _ => .of_space_raised rfl rfl) fun key _ => ?_
  refine .check (fun _ => .of_space_raised rfl rfl) fun cleaned _ => .recording ?_
  split
  · exact .throw (.of_space_raised rfl rfl)
  · refine .acting (backend_any _) (fun _ _ => .of_space_raised rfl rfl)
      fun _ count _ => .recording ?_
    apply Operation.Leaves.pure
    apply Filled.of_space rfl rfl
    rintro _ ⟨⟩
    rfl

theorem listMemories_recorded (scope : Json) (limit : Int) (cursor : Option String) :
    Evidenced context (.listMemories scope limit cursor) (Program.against environment
      (policy.perform context (.listMemories scope limit cursor)) []) := by
  refine audited_recorded rfl ?_
  refine .check (fun _ => .of_space_raised rfl rfl) fun key _ => ?_
  refine .check (fun _ => .of_space_raised rfl rfl) fun _ _ => ?_
  refine .check (fun _ => .of_space_raised rfl rfl) fun scope _ => .recording ?_
  refine .acting (.mapError (backend_any _)) (fun _ _ => .of_space_raised rfl rfl)
    fun _ page _ => ?_
  refine .check (fun _ => .of_space_raised rfl rfl) fun checked _ => .recording ?_
  apply Operation.Leaves.pure
  apply Filled.of_space rfl rfl
  rintro _ ⟨⟩
  rfl

theorem entities_recorded (scope : Json) (limit : Int) :
    Evidenced context (.entities scope limit) (Program.against environment
      (policy.perform context (.entities scope limit)) []) := by
  refine audited_recorded rfl ?_
  refine .check (fun _ => .of_space_raised rfl rfl) fun key _ => ?_
  refine .check (fun _ => .of_space_raised rfl rfl) fun _ _ => ?_
  refine .check (fun _ => .of_space_raised rfl rfl) fun scope _ => .recording ?_
  refine .acting (backend_any _) (fun _ _ => .of_space_raised rfl rfl)
    fun _ result _ => .recording ?_
  apply Operation.Leaves.pure
  apply Filled.of_space rfl rfl
  rintro _ ⟨⟩
  rfl

theorem exportPayload_calls (space : String) (limit : Nat) :
    Action.Calls (fun _ payload => payload.count = payload.memories.length)
      (exportPayload space limit) past :=
  .bind listAll_calls fun _ _ _ _ => .pure (List.length_map serializeMemory).symm

theorem exportMemories_recorded :
    Evidenced context .exportMemories
      (Program.against environment (policy.perform context .exportMemories) []) := by
  refine audited_recorded rfl ?_
  refine .check (fun _ => .of_space_raised rfl rfl) fun key _ => ?_
  refine .acting (exportPayload_calls _ _) (fun _ _ => .of_space_raised rfl rfl)
    fun _ payload counts => .recording ?_
  apply Operation.Leaves.pure
  apply Filled.of_space rfl rfl
  rintro _ ⟨⟩
  exact congrArg _ (congrArg _ counts.symm)

theorem importMemories_recorded (memories : List (Dict String Json))
    (onConflict : String) :
    Evidenced context (.importMemories memories onConflict) (Program.against environment
      (policy.perform context (.importMemories memories onConflict)) []) := by
  refine audited_recorded rfl ?_
  refine .check (fun _ => .of_space_raised rfl rfl) fun key _ => ?_
  refine .check (fun _ => .of_space_raised rfl rfl) fun mode _ => ?_
  refine .acting importPayload_calls (fun _ _ => .of_space_raised rfl rfl)
    fun _ outcome _ => .recording ?_
  apply Operation.Leaves.pure
  apply Filled.of_space rfl rfl
  rintro _ ⟨⟩
  rfl

theorem perform_recorded (request : Request) :
    Evidenced context request
      (Program.against environment (policy.perform context request) []) := by
  cases request with
  | add content scope metadata infer => exact add_recorded content scope metadata infer
  | search query scope limit threshold =>
      exact search_recorded query scope limit threshold
  | get memoryId => exact get_recorded memoryId
  | update memoryId content metadata => exact update_recorded memoryId content metadata
  | delete memoryId => exact delete_recorded memoryId
  | deleteAll scope => exact deleteAll_recorded scope
  | listMemories scope limit cursor => exact listMemories_recorded scope limit cursor
  | history memoryId => exact history_recorded memoryId
  | entities scope limit => exact entities_recorded scope limit
  | exportMemories => exact exportMemories_recorded
  | importMemories memories onConflict =>
      exact importMemories_recorded memories onConflict

end Operations

/-! What a logged record tells. -/

theorem ErrorCode.text_ne_ok (code : ErrorCode) : code.text ≠ "ok" := by
  cases code <;> decide

theorem auditOutcome_ne_ok (error : Exc) : auditOutcome error ≠ "ok" := by
  cases error with
  | policyError code message => exact code.text_ne_ok
  | memoryAPIError status body =>
      by_cases late : status = 408
      · simp [auditOutcome, late]
      · simp [auditOutcome, late]
  | _ => simp [auditOutcome]

/-- The log and the client are told the same of an exception. -/
theorem translateErrors_code {error : Exc} {response : CanonicalError}
    (translated : translateErrors (.error error : Except Exc α) = .ok (.inr response)) :
    response.code = auditOutcome error := by
  cases error with
  | policyError code message =>
      cases translated
      rfl
  | memoryAPIError status body =>
      cases translated
      by_cases late : status = 408
      · simp [auditOutcome, backendError, late]
      · simp [auditOutcome, backendError, late]
  | _ => cases translated

/-- What the logged record `entry` tells of a request that made `calls` and
ended with `ended`. -/
structure Truthful (actor : Key) (request : Request) (calls : Trace effects)
    (ended : Except Exc Response) (entry : AuditEntry) : Prop where
  operation : entry.operation = request.operation
  key : entry.key = some actor.name
  space : entry.space = some actor.grant.space
  relation : entry.relation = some actor.grant.relation
  outcome : entry.outcome = "ok" ↔ ∃ response, ended = .ok response
  translated : ∀ response, translateErrors ended = .ok (.inr response) →
    entry.outcome = response.code
  count : ∀ response, ended = .ok response →
    ∀ count, response.count? = some count → entry.count = count
  added : request.isAdd = true → entry.ids = reportedIds calls
  given : ∀ id, request.givenId? = some id →
    entry.ids = if validMemoryId id then some [id] else none

theorem Filled.truthful {actor : Key} {request : Request} {calls : Trace effects}
    {outcome : Except Exc Response} {entry : AuditEntry}
    (filled : Filled request (.start request.operation (some actor)) calls outcome
      entry) :
    Truthful actor request calls outcome (entry.finish outcome) := by
  have kept := filled.kept
  have untouched : entry.outcome = "ok" := by rw [kept]; rfl
  cases outcome with
  | ok response =>
      refine ⟨?_, ?_, ?_, ?_, ?_, nofun, filled.count, filled.added, filled.given⟩
      iterate 4
        rw [kept]
        rfl
      exact ⟨fun _ => ⟨response, rfl⟩, fun _ => untouched⟩
  | error error =>
      have logged : entry.finish (.error error : Except Exc Response) =
          { entry with outcome := auditOutcome error } := if_pos untouched
      rw [logged]
      refine ⟨?_, ?_, ?_, ?_, ?_, ?_, nofun, filled.added, filled.given⟩
      iterate 4
        rw [kept]
        rfl
      · constructor
        · exact fun same => absurd same (auditOutcome_ne_ok error)
        · exact nofun
      · exact fun response translated => (translateErrors_code translated).symm

theorem one_truthful_record (policy : Policy) (environment : Environment) (key : Key)
    (request : Request) :
    let run := policy.runAgainst environment key request
    ∃ calls entry, run.1 = calls ++ [⟨.audit entry, ()⟩] ∧
      (∀ event ∈ calls, event.call.isCall = true) ∧
      Truthful key request calls run.2 entry := by
  intro run
  obtain ⟨calls, entry, logged, silent, filled⟩ :=
    @perform_recorded environment policy (some key) request
  exact ⟨calls, _, logged, silent, filled.truthful⟩

end Memcp
