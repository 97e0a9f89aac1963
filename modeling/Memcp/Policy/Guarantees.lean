import Memcp.Policy.Accounting

/-! What each operation may ask of a backend and hand back to its caller. -/

namespace Memcp

open Python Interaction

/-! One rule for each operation. -/

section Operations

variable {policy : Policy} {key : Key} {past : Trace effects}

/-- The rule of an audited operation follows from that of its body. -/
theorem audited_keeps {α : Type} {name : String} {context : Context}
    {request : Request} {respond : α → Response} {body : Operation α}
    (safe : Operation.Keeps (Permitted policy key)
      (fun later value =>
        Covered policy key.grant.space request later (respond value))
      body past) :
    Fallible.Keeps (Permitted policy key)
      (Covered policy key.grant.space request)
      (respond <$> audited name context body) past :=
  .map (Action.keeps_audited (fun _ _ => trivial)
    (fun _ _ _ covered => covered.grow (List.prefix_append _ _)) safe)

theorem require_writer_ok {actor : Key}
    (granted : require (some key) .writer = .ok actor) :
    actor = key ∧ key.grant.relation = .writer := by
  rw [require_writer] at granted
  split at granted
  case isTrue writer =>
    cases granted
    exact ⟨rfl, writer⟩
  case isFalse => cases granted

theorem checkAddArguments_eq_ok {content : String}
    {metadata : Option (Dict String Json)}
    (valid : validation (policy.checkAddArguments content metadata) = .ok ()) :
    validateContent content = .ok () ∧ acceptedMetadata policy.unicode metadata := by
  obtain ⟨_, validText, valid⟩ := bind_eq_ok.mp (validation_eq_ok.mp valid)
  refine ⟨validText, ?_⟩
  rintro given rfl
  obtain ⟨_, rules, size⟩ := bind_eq_ok.mp valid
  exact ⟨rules, size⟩

theorem checkUpdateArguments_eq_ok {content : Option String}
    {metadata : Option (Dict String Json)}
    (valid : validation (policy.checkUpdateArguments content metadata) = .ok ()) :
    (∀ text, content = some text → validateContent text = .ok ()) ∧
      ∀ given, Dict.given metadata = some given →
        validateMetadata policy.unicode given true = .ok () := by
  have accepted := validation_eq_ok.mp valid
  unfold Policy.checkUpdateArguments at accepted
  constructor
  · rintro text rfl
    simp only [reduceCtorEq, false_and, if_false] at accepted
    exact (bind_eq_ok.mp accepted).choose_spec.1
  · intro given same
    simp only [same, reduceCtorEq, and_false, if_false] at accepted
    cases content with
    | none => exact accepted
    | some text =>
        obtain ⟨_, _, rules⟩ := bind_eq_ok.mp accepted
        exact rules

theorem checkPatchSize_eq_ok {existing : Memory} {patch : MetadataPatch}
    (valid : validation (Policy.checkPatchSize existing (some patch)) = .ok ()) :
    checkMetadataSize (patched existing.metadata patch) (some existing.metadata) =
      .ok () :=
  validation_eq_ok.mp valid

theorem add_keeps (content : String) (scope : Json)
    (metadata : Option (Dict String Json)) (infer : Bool) :
    Fallible.Keeps (Permitted policy key)
      (Covered policy key.grant.space (.add content scope metadata infer))
      (policy.perform (some key) (.add content scope metadata infer)) past := by
  refine audited_keeps (.check fun actor granted => ?_)
  obtain ⟨rfl, writer⟩ := require_writer_ok granted
  refine .check fun _ valid => .check fun cleaned validScope => .recording ?_
  obtain ⟨validText, validMetadata⟩ := checkAddArguments_eq_ok valid
  have stored : Fallible.Keeps (Permitted policy actor) (fun _ _ => True)
      (Action.backend (.add actor.grant.space content cleaned metadata infer
        (some (systemFor actor.grant.space actor.name (some actor.name))))) past :=
    Action.keeps_backend ⟨by simp [BackendCall.partition?], fun _ => writer, validText,
      ⟨scope, validScope⟩, validMetadata, rfl⟩ fun _ => trivial
  refine .bind (.action stored) fun later result _ _ => .recording ?_
  exact .bind (checkAdded_keeps result.items) fun _ _ _ fetched => .pure fetched

theorem inRequestedScope (request : Request) {cleaned : Option (Dict String Json)}
    (requested : requestedScope policy request = cleaned)
    {memories : List Memory} {memory : Memory}
    (kept : memory ∈ inScope policy.unicode memories cleaned) :
    memory ∈ memories ∧ InRequestedScope policy request memory := by
  cases cleaned with
  | none => exact ⟨kept, fun _ same => nomatch requested ▸ same⟩
  | some scope =>
      obtain ⟨member, holds⟩ := List.mem_filter.mp kept
      refine ⟨member, fun other same => ?_⟩
      obtain rfl := Option.some.inj (requested.symm.trans same)
      exact holds

theorem search_keeps (query : String) (scope : Json) (limit : Int)
    (threshold : ℚ) :
    Fallible.Keeps (Permitted policy key)
      (Covered policy key.grant.space (.search query scope limit threshold))
      (policy.perform (some key) (.search query scope limit threshold)) past := by
  refine audited_keeps (.check fun actor granted => ?_)
  cases granted
  refine .check fun _ valid => .check fun cleaned validScope => .recording ?_
  have found : Fallible.Keeps (Permitted policy key)
      (fun later memories => ∀ memory ∈ memories, Returned later memory)
      (Action.backend (.search key.grant.space query cleaned limit threshold))
      past :=
    Action.keeps_backend ⟨by simp [BackendCall.partition?], nofun, trivial⟩
      fun memories memory member => .last _ memories member
  refine .bind (.action found) fun later memories _ returned => ?_
  refine .check fun checked passes => .recording (.pure fun memory kept => ?_)
  obtain ⟨rfl, inSpace⟩ := checkSpaces_eq_ok.mp passes
  obtain ⟨member, inScope⟩ := inRequestedScope
    (.search query scope limit threshold)
    (by simp [requestedScope, validScope]) kept
  exact ⟨⟨returned memory member, inSpace memory member⟩, inScope⟩

theorem get_operation_keeps (memoryId : String) :
    Fallible.Keeps (Permitted policy key)
      (Covered policy key.grant.space (.get memoryId))
      (policy.perform (some key) (.get memoryId)) past := by
  refine audited_keeps (.recording (.check fun actor granted => ?_))
  cases granted
  exact .action ((read_keeps memoryId).mono fun _ _ _ vouches => vouches.shown)

theorem update_keeps (memoryId : String) (content : Option String)
    (metadata : Option (Dict String Json)) :
    Fallible.Keeps (Permitted policy key)
      (Covered policy key.grant.space (.update memoryId content metadata))
      (policy.perform (some key) (.update memoryId content metadata)) past := by
  refine audited_keeps (.recording (.check fun actor granted => ?_))
  obtain ⟨rfl, writer⟩ := require_writer_ok granted
  refine .check fun _ valid => ?_
  obtain ⟨validText, validMetadata⟩ := checkUpdateArguments_eq_ok valid
  refine .bind (.action (read_keeps memoryId)) fun later existing _ vouches => ?_
  refine .check fun _ size => ?_
  have updated : Fallible.Keeps (Permitted policy actor)
      (fun later updated => Returned later updated)
      (Action.backend (.update actor.grant.space memoryId content
        ((Dict.given metadata).map asPatch)
        (some (systemFor actor.grant.space actor.name
          existing.system.createdBy)))) later := by
    refine Action.keeps_backend ⟨by simp [BackendCall.partition?], fun _ => writer,
      validText, existing, vouches, ?_, rfl⟩
      fun updated => .last _ updated (by simp [BackendCall.memories])
    intro patch given
    obtain ⟨changes, given', rfl⟩ := Option.map_eq_some_iff.mp given
    refine .inl ⟨changes, rfl, validMetadata changes given', ?_⟩
    exact checkPatchSize_eq_ok (given ▸ size)
  refine .bind (.action updated.mapError) fun later updated _ returned => ?_
  refine .lift fun checked passes => ?_
  obtain ⟨same, inSpace⟩ := checkSpace_eq_ok.mp passes
  cases same
  exact ⟨returned, inSpace⟩

theorem delete_keeps (memoryId : String) :
    Fallible.Keeps (Permitted policy key)
      (Covered policy key.grant.space (.delete memoryId))
      (policy.perform (some key) (.delete memoryId)) past := by
  refine audited_keeps (.recording (.check fun actor granted => ?_))
  obtain ⟨rfl, writer⟩ := require_writer_ok granted
  refine .bind (.action (read_keeps memoryId)) fun later existing _ vouches => ?_
  exact .action (.mapError (Action.keeps_backend ⟨by simp [BackendCall.partition?],
    fun _ => writer, existing, vouches⟩ fun _ => trivial))

theorem deleteAll_keeps (scope : Json) :
    Fallible.Keeps (Permitted policy key)
      (Covered policy key.grant.space (.deleteAll scope))
      (policy.perform (some key) (.deleteAll scope)) past := by
  refine audited_keeps (.check fun actor granted => ?_)
  obtain ⟨rfl, writer⟩ := require_writer_ok granted
  refine .check fun cleaned validScope => .recording ?_
  split
  · exact .throw _
  · rename_i given _
    have deleted : Fallible.Keeps (Permitted policy actor) (fun _ _ => True)
        (Action.backend (.deleteAll actor.grant.space given)) past :=
      Action.keeps_backend ⟨by simp [BackendCall.partition?], fun _ => writer, trivial⟩
        fun _ => trivial
    exact .bind (.action deleted) fun _ _ _ _ => .recording (.pure trivial)

theorem listMemories_keeps (scope : Json) (limit : Int)
    (cursor : Option String) :
    Fallible.Keeps (Permitted policy key)
      (Covered policy key.grant.space (.listMemories scope limit cursor))
      (policy.perform (some key) (.listMemories scope limit cursor)) past := by
  refine audited_keeps (.check fun actor granted => ?_)
  cases granted
  refine .check fun _ valid => .check fun cleaned validScope => .recording ?_
  have listed : Fallible.Keeps (Permitted policy key)
      (fun later page => ∀ memory ∈ page.memories, Returned later memory)
      (Action.backend (.listMemories key.grant.space cleaned limit cursor))
      past :=
    Action.keeps_backend ⟨by simp [BackendCall.partition?], nofun, trivial⟩
      fun page memory member => .last _ page member
  refine .bind (.action listed.mapError) fun later page _ returned => ?_
  refine .check fun checked passes => .recording (.pure fun memory kept => ?_)
  obtain ⟨rfl, inSpace⟩ := checkSpaces_eq_ok.mp passes
  obtain ⟨member, inScope⟩ := inRequestedScope
    (.listMemories scope limit cursor)
    (by simp [requestedScope, validScope]) kept
  exact ⟨⟨returned memory member, inSpace memory member⟩, inScope⟩

theorem history_keeps (memoryId : String) :
    Fallible.Keeps (Permitted policy key)
      (Covered policy key.grant.space (.history memoryId))
      (policy.perform (some key) (.history memoryId)) past := by
  refine audited_keeps (.recording (.check fun actor granted => ?_))
  cases granted
  refine .bind (.action (read_keeps memoryId)) fun later existing _ _ => ?_
  exact .action (.mapError (Action.keeps_backend ⟨by simp [BackendCall.partition?], nofun,
    trivial⟩ fun _ => trivial))

theorem entities_keeps (scope : Json) (limit : Int) :
    Fallible.Keeps (Permitted policy key)
      (Covered policy key.grant.space (.entities scope limit))
      (policy.perform (some key) (.entities scope limit)) past := by
  refine audited_keeps (.check fun actor granted => ?_)
  cases granted
  refine .check fun _ valid => .check fun cleaned validScope => .recording ?_
  have counted : Fallible.Keeps (Permitted policy key) (fun _ _ => True)
      (Action.backend (.entities key.grant.space cleaned limit)) past :=
    Action.keeps_backend ⟨by simp [BackendCall.partition?], nofun, trivial⟩ fun _ => trivial
  exact .bind (.action counted) fun _ _ _ _ => .recording (.pure trivial)

theorem exportMemories_keeps :
    Fallible.Keeps (Permitted policy key)
      (Covered policy key.grant.space .exportMemories)
      (policy.perform (some key) .exportMemories) past := by
  refine audited_keeps (.check fun actor granted => ?_)
  cases granted
  have exported : Fallible.Keeps (Permitted policy key)
      (fun later payload => ∀ item ∈ payload.memories,
        ∃ memory, Shown key.grant.space later memory ∧
          item = serializeMemory memory)
      (exportPayload key.grant.space maxExport) past := by
    refine .bind (listAll_keeps maxExport) fun later result _ read =>
      .pure fun item member => ?_
    obtain ⟨memory, listed, rfl⟩ := List.mem_map.mp member
    exact ⟨memory, ⟨(read memory listed).2.returned, (read memory listed).1⟩, rfl⟩
  exact .bind (.action exported) fun _ _ _ covered =>
    .recording (.pure covered)

theorem importMemories_keeps (memories : List (Dict String Json))
    (onConflict : String) :
    Fallible.Keeps (Permitted policy key)
      (Covered policy key.grant.space (.importMemories memories onConflict))
      (policy.perform (some key) (.importMemories memories onConflict)) past := by
  refine audited_keeps (.check fun actor granted => ?_)
  obtain ⟨rfl, writer⟩ := require_writer_ok granted
  refine .check fun mode _ => ?_
  exact .bind (.action (importPayload_keeps memories maxExport writer))
    fun _ _ _ covered => .recording (.pure (covered _))

/-- Every request by a key, whatever the backend replies, asks only what is
permitted and hands back only what is covered. -/
theorem perform_keeps (request : Request) :
    Fallible.Keeps (Permitted policy key)
      (Covered policy key.grant.space request)
      (policy.perform (some key) request) past := by
  cases request with
  | add content scope metadata infer =>
      exact add_keeps content scope metadata infer
  | search query scope limit threshold =>
      exact search_keeps query scope limit threshold
  | get memoryId => exact get_operation_keeps memoryId
  | update memoryId content metadata =>
      exact update_keeps memoryId content metadata
  | delete memoryId => exact delete_keeps memoryId
  | deleteAll scope => exact deleteAll_keeps scope
  | listMemories scope limit cursor => exact listMemories_keeps scope limit cursor
  | history memoryId => exact history_keeps memoryId
  | entities scope limit => exact entities_keeps scope limit
  | exportMemories => exact exportMemories_keeps
  | importMemories memories onConflict =>
      exact importMemories_keeps memories onConflict

end Operations

/-! Runs against an arbitrary backend. -/

/-- How a backend answers: any reply of the call's type, or an exception, on
any knowledge of what came before. -/
abbrev Environment := Trace effects → (effect : Effect) → effect.Reply

/-- The effects of a request and what it returns or raises. -/
def Policy.runAgainst (policy : Policy) (environment : Environment) (key : Key)
    (request : Request) : Trace effects × Except Exc Response :=
  @Program.against effects _ environment (policy.perform (some key) request) []

def Request.isWrite : Request → Bool
  | .add .. | .update .. | .delete .. | .deleteAll .. | .importMemories .. => true
  | _ => false

/-- The id of the memory an effect changes or deletes. -/
def Effect.changedId? : Effect → Option String
  | .backend (.update _ id ..) | .backend (.delete _ id) => some id
  | _ => none

/-- A reader's write is refused before anything else is looked at. -/
theorem perform_forbidden (policy : Policy) (environment : Environment)
    {key : Key} {request : Request} (reader : key.grant.relation = .reader)
    (write : request.isWrite = true) :
    ∃ entry, policy.runAgainst environment key request =
      ([⟨.audit entry, environment [] (.audit entry)⟩],
        .error (.policyError .forbidden forbiddenMsg)) := by
  obtain ⟨name, space, relation⟩ := key
  obtain rfl : relation = .reader := reader
  cases request with
  | add | update | delete | deleteAll | importMemories => exact ⟨_, rfl⟩
  | _ => cases write

theorem policy_confined (policy : Policy) (environment : Environment)
    (key : Key) (request : Request) :
    let run := policy.runAgainst environment key request
    (∀ event ∈ run.1, ∀ call, event.call = .backend call →
      ∀ partition, call.partition? = some partition →
        partition = key.grant.space) ∧
    (key.grant.relation = .reader → request.isWrite = true →
      run.2 = .error (.policyError .forbidden forbiddenMsg) ∧
        ∀ event ∈ run.1, ∃ entry, event.call = .audit entry) ∧
    ∀ before event after, run.1 = before ++ event :: after →
      ∀ id, event.call.changedId? = some id →
        ∃ memory, Vouches key.grant.space id before memory := by
  intro run
  have permitted : ∀ before event after, run.1 = before ++ event :: after →
      Permitted policy key before event.call := fun _ _ _ split =>
    Safe.guard_of_against (perform_keeps request) environment split
  refine ⟨?_, ?_, ?_⟩
  · intro event member call same partition names
    obtain ⟨before, after, split⟩ := List.append_of_mem member
    have allowed := permitted before event after split
    rw [same] at allowed
    exact allowed.1 partition names
  · intro reader write
    obtain ⟨entry, ran⟩ := perform_forbidden policy environment reader write
    have same : run = _ := ran
    rw [same]
    refine ⟨rfl, fun event member => ?_⟩
    rw [List.mem_singleton.mp member]
    exact ⟨entry, rfl⟩
  · intro before event after split id changes
    have allowed := permitted before event after split
    cases call : event.call with
    | audit entry => simp [call, Effect.changedId?] at changes
    | backend request =>
        rw [call] at allowed changes
        cases request with
        | update partition memoryId content patch system =>
            cases changes
            obtain ⟨-, -, -, memory, vouches, -⟩ := allowed
            exact ⟨memory, vouches⟩
        | delete partition memoryId =>
            cases changes
            exact allowed.2.2
        | _ => cases changes

theorem policy_fails_closed (policy : Policy) (environment : Environment)
    (key : Key) (request : Request) (response : Response)
    (returned : (policy.runAgainst environment key request).2 = .ok response) :
    Covered policy key.grant.space request
      (policy.runAgainst environment key request).1 response :=
  Safe.post_of_against (perform_keeps request) environment response returned

/-- A backend that answers an add with the id `reported`, and every read and
write of one memory with `stored`. -/
def answering (reported : String) (stored : Memory) : Environment
  | _, .audit _ => ()
  | _, .backend (.add ..) => .ok (.many [{ id := reported }])
  | _, .backend (.get ..) => .ok (some stored)
  | _, .backend (.update ..) => .ok stored
  | _, .backend _ => .error (.memoryAPIError 500 "")

/-- The policy over a backend that declares what the local backends do. -/
def localPolicy (unicode : Unicode) : Policy where
  unicode := unicode
  capabilities := localCapabilities
  scopeKeys := localScopeKeys

theorem policy_fails_closed_get :
    let policy := localPolicy .ascii
    let key : Key := ⟨"ann", ⟨"s", .reader⟩⟩
    let environment := answering "a" { id := "a", content := "x", partition := "s" }
    Covered policy "s" (.get "a") (policy.runAgainst environment key (.get "a")).1
      (.memory { id := "a", content := "x", partition := "s" }) :=
  policy_fails_closed (localPolicy .ascii) _ ⟨"ann", ⟨"s", .reader⟩⟩ (.get "a") _
    (by decide +kernel)

theorem add_reports_id_of_another_memory :
    let policy := localPolicy .ascii
    let environment := answering "a" { id := "b", content := "x", partition := "s" }
    let run := policy.runAgainst environment ⟨"ann", ⟨"s", .writer⟩⟩
      (.add "x" .null none false)
    run.2 = .ok (.added (.many [{ id := "a" }])) ∧
      ¬ ∃ memory, Returned run.1 memory ∧ memory.id = "a" := by
  intro policy environment run
  have reported : run.2 = .ok (.added (.many [{ id := "a" }])) := by
    decide +kernel
  have others : ∀ memory ∈ run.1.flatMap fun event =>
      replyMemories event.call event.reply, memory.id ≠ "a" := by
    decide +kernel
  refine ⟨reported, fun ⟨memory, returned, same⟩ => ?_⟩
  exact others memory (returned_iff.mp returned) same

end Memcp
