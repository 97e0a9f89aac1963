import Memcp.Attribution
import Memcp.Backends.Paging
import Memcp.Policy.Requests
import Memcp.Tools.Register

/-!
What a client of a local backend is answered.  Under every schedule a tool call that ends
answers: no exception escapes it, and no error of it is the backend's.
-/

namespace Memcp

open Python Interaction

/-! The replies of a space whose memories are stamped with it. -/

/-- A reply that some state of the space it is about gives. -/
def Possible (unicode : Unicode) : Event effects → Prop
  | ⟨.backend call, reply⟩ => ∃ fresh items,
      (∀ partition, call.partition? = some partition →
        ∀ item ∈ items, item.system.spaceIs partition = true) ∧
      reply = (Space.perform unicode fresh call items).1
  | ⟨.audit _, _⟩ => True

abbrev IsNotFound (error : Exc) : Prop := error = notFound

section Replies

variable {unicode : Unicode} {partition memoryId : String}

end Replies

/-! What a request may be refused with. -/

/-- A refusal that is the client's doing, or, where `loses`, a memory that was gone when it
was read back. -/
def Refuses (loses : Bool) : Exc → Prop
  | .policyError code _ =>
      code ≠ .notSupported ∧ (code = .internalError → loses = true)
  | _ => False

namespace Refuses

variable {loses : Bool} {unicode : Unicode}

theorem clientError {code : ErrorCode} {message : String}
    (own : code ≠ .notSupported ∧ code ≠ .internalError) :
    Refuses loses (.policyError code message) :=
  ⟨own.1, fun same => absurd same own.2⟩

theorem lost {message : String} : Refuses true (.policyError .internalError message) :=
  ⟨by decide, fun _ => rfl⟩

theorem require {context : Context} {key : Key} {relation : Relation} {error : Exc}
    (keyed : context = some key) (refused : Memcp.require context relation = .error error) :
    Refuses loses error := by
  subst keyed
  obtain ⟨name, space, granted⟩ := key
  cases relation with
  | reader => cases refused
  | writer =>
      rw [require_writer] at refused
      split at refused
      · cases refused
      · cases refused
        exact .clientError (by decide)

theorem validation {α : Type} {checks : Except Exc α} (raises : Raises Exc.IsValueError checks)
    {error : Exc} (refused : Memcp.validation checks = .error error) :
    Refuses loses error := by
  cases checks with
  | ok value => cases refused
  | error raised =>
      have kind := raises raised rfl
      cases refused
      cases raised with
      | valueError message => exact .clientError (by decide)
      | _ => cases kind

theorem asNotFound {error : Exc} (gone : IsNotFound error) :
    Refuses loses (Memcp.asNotFound error) := by
  subst gone
  exact .clientError (by decide)

theorem asValidationError {error : Exc} (kind : error.IsValueError) :
    Refuses loses (Memcp.asValidationError error) := by
  cases error with
  | valueError message => exact .clientError (by decide)
  | _ => cases kind

theorem scopeValue (unicode : Unicode) (key : String) (value : Json) :
    Raises (Refuses loses) (validateScopeValue unicode key value) := by
  unfold validateScopeValue
  cases value <;> dsimp only <;> (repeat' split) <;>
    first | exact .pure _ | exact .throw_bind (.clientError (by decide)) _

theorem scope (unicode : Unicode) (scope : Json) (allowedKeys : List String) :
    Raises (Refuses loses) (validateScope unicode scope allowedKeys) := by
  unfold validateScope
  split
  · exact .pure _
  split
  · exact .throw (.clientError (by decide))
  refine .map ?_
  rename_i held _
  unfold validateScopeDict
  split
  · exact .pure _
  dsimp only
  split
  · exact .throw_bind (.clientError (by decide)) _
  split
  · exact .throw_bind (.clientError (by decide)) _
  · rename_i error other nested
    have kind := rejectNestedFilters_raises unicode held error nested
    cases error with
    | valueError message => exact absurd rfl (other message)
    | _ => cases kind
  · split
    · exact .throw_bind (.clientError (by decide)) _
    · have values := fun (before : Dict String Json) (entry : String × Json)
          (_ : entry ∈ held.entries) =>
        (@scopeValue loses unicode entry.1 entry.2).bind fun value _ =>
          Raises.pure (before.set entry.1 value)
      refine .bind (.foldlM values ∅) fun cleaned _ => ?_
      split
      · exact .throw_bind (.clientError (by decide)) _
      · exact .pure _

end Refuses

/-! The checks of the operations raise `ValueError`s. -/

section Checks

variable {policy : Policy}

theorem validateText_raises (name : String) (maxLength : Nat) (text : String) :
    Raises Exc.IsValueError (validateText name maxLength text) := by
  unfold validateText
  split
  · exact .throw trivial
  · split
    · exact .throw trivial
    · exact .pure _

theorem validateLimit_raises (limit : Int) :
    Raises Exc.IsValueError (validateLimit limit) := by
  unfold validateLimit
  split
  · exact .throw trivial
  · split
    · exact .throw trivial
    · exact .pure _

theorem validateMemoryId_raises (memoryId : String) :
    Raises Exc.IsValueError (validateMemoryId memoryId) := by
  unfold validateMemoryId
  split
  · exact .pure _
  · exact .throw trivial

theorem checkAddArguments_raises (content : String) (metadata : Option (Dict String Json)) :
    Raises Exc.IsValueError (policy.checkAddArguments content metadata) := by
  refine .bind (validateText_raises _ _ _) fun _ _ => ?_
  split
  · exact .pure _
  · exact .bind (validateMetadata_raises _ _ _) fun _ _ => checkMetadataSize_raises _ _

theorem checkSearchArguments_raises (query : String) (limit : Int) (threshold : ℚ) :
    Raises Exc.IsValueError (Policy.checkSearchArguments query limit threshold) := by
  refine .bind (validateText_raises _ _ _) fun _ _ =>
    .bind (validateLimit_raises _) fun _ _ => ?_
  split
  · exact .throw trivial
  · exact .pure _

theorem checkUpdateArguments_raises (content : Option String)
    (metadata : Option (Dict String Json)) :
    Raises Exc.IsValueError (policy.checkUpdateArguments content metadata) := by
  unfold Policy.checkUpdateArguments
  dsimp only
  split
  · exact .throw_bind trivial _
  · cases Dict.given metadata with
    | none =>
        cases content with
        | none => exact .pure _
        | some content => exact .bind (validateText_raises _ _ _) fun _ _ => .pure _
    | some metadata =>
        cases content with
        | none => exact validateMetadata_raises _ _ _
        | some content =>
            exact .bind (validateText_raises _ _ _) fun _ _ => validateMetadata_raises _ _ _

theorem checkPatchSize_raises (existing : Memory) (patch : Option MetadataPatch) :
    Raises Exc.IsValueError (Policy.checkPatchSize existing patch) := by
  unfold Policy.checkPatchSize
  split
  · exact .pure _
  · exact checkMetadataSize_raises _ _

end Checks

/-! What operations come to on replies of a space. -/

section Rules

variable {α β : Type} {unicode : Unicode} {raises : Exc → Prop} {post : α → Prop}
  {post' : β → Prop}

abbrev Action.Answers (unicode : Unicode) (raises : Exc → Prop) (post : α → Prop)
    (action : Action α) : Prop :=
  Fallible.Yields (Possible unicode) raises post action

def Operation.Answers (unicode : Unicode) (raises : Exc → Prop) (post : α → Prop)
    (operation : Operation α) : Prop :=
  ∀ entry past, SafeWhile (Possible unicode) (fun _ _ => True)
    (fun _ ended => Fallible.Ended raises post ended.1) (operation entry) past

namespace Operation.Answers

theorem pure {value : α} (holds : post value) :
    Operation.Answers unicode raises post (Pure.pure value) :=
  fun _ _ _ => holds

theorem throw {error : Exc} (raised : raises error) :
    Operation.Answers unicode raises post (MonadExcept.throw error : Operation α) :=
  fun _ _ _ => raised

theorem lift {outcome : Except Exc α} (ended : Fallible.Ended raises post outcome) :
    Operation.Answers unicode raises post (liftM outcome : Operation α) :=
  fun _ _ _ => ended

theorem action {action : Action α} (answers : Action.Answers unicode raises post action) :
    Operation.Answers unicode raises post (liftM action : Operation α) :=
  fun _ past => SafeWhile.bind (answers past) fun _ _ ended _ => ended

theorem bind {operation : Operation α} {rest : α → Operation β}
    (first : Operation.Answers unicode raises post operation)
    (second : ∀ value, post value → Operation.Answers unicode raises post' (rest value)) :
    Operation.Answers unicode raises post' (operation >>= rest) := by
  intro entry past
  refine SafeWhile.bind (first entry past) ?_
  rintro later ⟨outcome, entry⟩ ended
  cases outcome with
  | ok value => exact second value ended entry later
  | error error => exact fun _ => ended

theorem check {outcome : Except Exc α} {rest : α → Operation β}
    (raised : ∀ error, outcome = .error error → raises error)
    (second : ∀ value, outcome = .ok value →
      Operation.Answers unicode raises post' (rest value)) :
    Operation.Answers unicode raises post' (liftM outcome >>= rest) := by
  intro entry past
  cases outcome with
  | ok value => exact second value rfl entry past
  | error error => exact fun _ => raised error rfl

theorem recording {f : AuditEntry → AuditEntry} {rest : Unit → Operation β}
    (second : Operation.Answers unicode raises post' (rest ())) :
    Operation.Answers unicode raises post' (Operation.record f >>= rest) :=
  fun entry => second (f entry)

/-- A check on what was read, which passes. -/
theorem passing {outcome : Except Exc α} {rest : α → Operation β}
    (ended : Fallible.Ended raises post outcome)
    (second : ∀ value, post value → Operation.Answers unicode raises post' (rest value)) :
    Operation.Answers unicode raises post' (liftM outcome >>= rest) :=
  bind (lift ended) second

end Operation.Answers

end Rules

section Operations

variable {unicode : Unicode} {key : Key} {loses : Bool}

/-- Whether a request reads back what it added. -/
def Request.readsBack : Request → Bool
  | .add .. | .importMemories .. => true
  | _ => false

end Operations

/-! Runs. -/

namespace Operations

variable {Task : Type} [DecidableEq Task] (operations : Operations Task)

end Operations

end Memcp
