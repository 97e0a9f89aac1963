import Memcp.Backends.Base
import Memcp.Interaction.Fallible

/-!
Code that runs inside a request: it may call the backend, raise, and fill in
the audit entry of the operation it belongs to.
-/

namespace Memcp

open Python Interaction

variable {α β : Type}

/-- Code that calls the backend and may raise. -/
abbrev Action := Fallible effects Exc

/-- Call the backend. -/
def Action.backend (call : BackendCall) : Action call.Result :=
  @Program.call effects (.backend call)

/-- An action inside an operation, whose audit entry it may change.  The entry
is kept when the action raises. -/
def Operation (α : Type) :=
  AuditEntry → Program effects (Except Exc α × AuditEntry)

namespace Operation

def bind (operation : Operation α) (rest : α → Operation β) : Operation β :=
  fun entry => (operation entry).bind fun
    | (.ok value, entry) => rest value entry
    | (.error error, entry) => .done (.error error, entry)

instance : Monad Operation where
  pure value := fun entry => .done (.ok value, entry)
  bind := Operation.bind

instance : MonadLift Action Operation where
  monadLift action := fun entry =>
    @Program.bind effects _ _ action fun outcome => .done (outcome, entry)

instance : MonadLift (Except Exc) Operation where
  monadLift outcome := fun entry => .done (outcome, entry)

instance : MonadExceptOf Exc Operation where
  throw error := fun entry => .done (.error error, entry)
  tryCatch operation handler := fun entry => (operation entry).bind fun
    | (.ok value, entry) => .done (.ok value, entry)
    | (.error error, entry) => handler error entry

/-- Assign fields of the audit entry. -/
def record (f : AuditEntry → AuditEntry) : Operation Unit :=
  fun entry => .done (.ok (), f entry)

end Operation

/-- Run `body`, then log exactly one audit record, whatever its outcome. -/
def audited (operation : String) (context : Context) (body : Operation α) :
    Action α :=
  (body (.start operation context)).bind fun (result, entry) =>
    @Program.ask effects _ (.audit (entry.finish result)) fun _ => .done result

/-! The two translations of exceptions. -/

/-- `_validation`: a `ValueError` is refused as `validation_error`. -/
def asValidationError : Exc → Exc
  | .valueError message => .policyError .validationError message
  | error => error

/-- `_not_found`: a 404 or 410 of the backend is refused as `not_found`. -/
def asNotFound : Exc → Exc
  | .memoryAPIError status body =>
      if status = 404 ∨ status = 410 then .policyError .notFound notFoundMsg
      else .memoryAPIError status body
  | error => error

def validation (checks : Except Exc α) : Except Exc α :=
  checks.mapError asValidationError

theorem validation_eq_ok {checks : Except Exc α} {value : α} :
    validation checks = .ok value ↔ checks = .ok value := by
  cases checks with
  | ok result => exact Iff.rfl
  | error error => exact ⟨nofun, nofun⟩

/-! Proof rules.  They follow the structure of the code, and speak of what
holds when it returns; code that raises hands nothing back. -/

variable {guard : Trace effects → Effect → Prop} {past : Trace effects}

/-- `operation` keeps `guard`, and `post` holds of what it returns, whatever
its audit entry. -/
def Operation.Keeps (guard : Trace effects → Effect → Prop)
    (post : Trace effects → α → Prop) (operation : Operation α)
    (past : Trace effects) : Prop :=
  ∀ entry, Safe guard
    (fun later outcome => ∀ value, outcome.1 = .ok value → post later value)
    (operation entry) past

theorem Action.keeps_backend {call : BackendCall}
    {post : Trace effects → call.Result → Prop}
    (allowed : guard past (.backend call))
    (holds : ∀ value, post (past ++ [⟨.backend call, .ok value⟩]) value) :
    Fallible.Keeps guard post (Action.backend call) past := by
  refine ⟨allowed, fun reply value returned => ?_⟩
  subst returned
  exact holds value

namespace Operation.Keeps

variable {post : Trace effects → α → Prop}

theorem pure {value : α} (holds : post past value) :
    Operation.Keeps guard post (Pure.pure value) past := by
  rintro _ _ ⟨⟩
  exact holds

theorem throw (error : Exc) :
    Operation.Keeps guard post (MonadExcept.throw error : Operation α) past := by
  rintro _ _ ⟨⟩

theorem record {f : AuditEntry → AuditEntry}
    {post : Trace effects → Unit → Prop} (holds : post past ()) :
    Operation.Keeps guard post (Operation.record f) past :=
  fun _ _ _ => holds

theorem lift {outcome : Except Exc α}
    (holds : ∀ value, outcome = .ok value → post past value) :
    Operation.Keeps guard post (liftM outcome : Operation α) past :=
  fun _ => holds

theorem mono {post' : Trace effects → α → Prop} {operation : Operation α}
    (safe : Operation.Keeps guard post operation past)
    (implies : ∀ later value, past <+: later → post later value →
      post' later value) :
    Operation.Keeps guard post' operation past :=
  fun entry => Safe.mono (Safe.extended (safe entry)) (fun _ _ allowed => allowed)
    fun later _ holds value returned =>
      implies later value holds.1 (holds.2 value returned)

theorem action {action : Action α}
    (safe : Fallible.Keeps guard post action past) :
    Operation.Keeps guard post (liftM action : Operation α) past :=
  fun _ => Safe.bind safe fun _ _ holds => holds

theorem bind {middle : Trace effects → α → Prop}
    {post : Trace effects → β → Prop}
    {operation : Operation α} {rest : α → Operation β}
    (first : Operation.Keeps guard middle operation past)
    (second : ∀ later value, past <+: later → middle later value →
      Operation.Keeps guard post (rest value) later) :
    Operation.Keeps guard post (operation >>= rest) past := by
  intro entry
  refine Safe.bind (Safe.extended (first entry)) ?_
  rintro later ⟨outcome, entry⟩ holds
  cases outcome with
  | ok value => exact second later value holds.1 (holds.2 value rfl) entry
  | error error => exact fun _ impossible => nomatch impossible

/-! The two kinds of step an operation is made of. -/

theorem check {post : Trace effects → β → Prop}
    {outcome : Except Exc α} {rest : α → Operation β}
    (second : ∀ value, outcome = .ok value →
      Operation.Keeps guard post (rest value) past) :
    Operation.Keeps guard post (liftM outcome >>= rest) past := by
  intro entry
  cases outcome with
  | ok value => exact second value rfl entry
  | error error => exact fun _ impossible => nomatch impossible

theorem recording {post : Trace effects → β → Prop}
    {f : AuditEntry → AuditEntry} {rest : Unit → Operation β}
    (second : Operation.Keeps guard post (rest ()) past) :
    Operation.Keeps guard post (Operation.record f >>= rest) past :=
  fun entry => second (f entry)

end Operation.Keeps

theorem Action.keeps_audited {post : Trace effects → α → Prop}
    {operation : String} {context : Context} {body : Operation α}
    (silent : ∀ later entry, guard later (.audit entry))
    (stable : ∀ later event value, post later value →
      post (later ++ [event]) value)
    (safe : Operation.Keeps guard post body past) :
    Fallible.Keeps guard post (audited operation context body) past := by
  refine Safe.bind (safe _) ?_
  rintro later ⟨outcome, entry⟩ holds
  exact ⟨silent later _, fun _ value returned =>
    stable later _ value (holds value returned)⟩

end Memcp
