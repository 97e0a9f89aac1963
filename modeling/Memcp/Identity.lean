import Memcp.Types

/-! The acting key, and the audit record every operation leaves. -/

namespace Memcp

open Python

inductive Relation where
  | reader
  | writer
  deriving DecidableEq

structure Grant where
  space : String
  relation : Relation
  deriving DecidableEq

structure Key where
  name : String
  grant : Grant
  deriving DecidableEq

/-- The context variable that holds the current request's key. -/
abbrev Context := Option Key

def currentKey : Context → Except Exc Key
  | some key => .ok key
  | none => .error .lookupError

/-- What one operation did, filled in by the operation as it learns it. -/
structure AuditEntry where
  operation : String
  key : Option String
  space : Option String
  relation : Option Relation
  outcome : String := "ok"
  ids : Option (List String) := none
  count : Option Nat := none
  scope : Option (Dict String Json) := none
  sourceSpace : Option String := none
  deriving DecidableEq

def ErrorCode.text : ErrorCode → String
  | .validationError => "validation_error"
  | .invalidScope => "invalid_scope"
  | .nestedFilter => "nested_filter"
  | .scopeRequired => "scope_required"
  | .forbidden => "forbidden"
  | .notFound => "not_found"
  | .notSupported => "not_supported"
  | .internalError => "internal_error"

def auditOutcome : Exc → String
  | .cancelledError => "cancelled"
  | .policyError code _ => code.text
  | .memoryAPIError status _ => if status = 408 then "timeout" else "backend_error"
  | _ => "error"

def AuditEntry.start (operation : String) (context : Context) : AuditEntry :=
  match context with
  | none => { operation, key := none, space := none, relation := none }
  | some key =>
      { operation
        key := some key.name
        space := some key.grant.space
        relation := some key.grant.relation }

/-- The entry as it is logged when the operation ends with `result`. -/
def AuditEntry.finish {α : Type} (entry : AuditEntry) (result : Except Exc α) :
    AuditEntry :=
  match result with
  | .ok _ => entry
  | .error error =>
      if entry.outcome = "ok" then { entry with outcome := auditOutcome error }
      else entry

end Memcp
