import Memcp.Policy.Access

/-! Scope validation: the rules policy applies to a caller-supplied scope. -/

namespace Memcp

open Python

def isAgentIdChar (c : Char) : Bool :=
  ('a' ≤ c && c ≤ 'z') || ('0' ≤ c && c ≤ '9')

/-- `re.sub("[^a-z0-9]+", "-", text)`; `inRun` when the characters just before
were replaced. -/
def collapse : (inRun : Bool) → List Char → List Char
  | _, [] => []
  | inRun, c :: rest =>
      if isAgentIdChar c then c :: collapse false rest
      else if inRun then collapse true rest
      else '-' :: collapse true rest

def normalizeAgentId (unicode : Unicode) (value : String) : String :=
  String.ofList (stripOf (· = '-')
    (collapse false (unicode.lower (stripOf isSpace value.toList))))

def invalidScope (message : String) : Exc :=
  .policyError .validationError message

/-- The checks on one key and value of a scope, and the value as it is kept. -/
def validateScopeValue (unicode : Unicode) (key : String) (value : Json) :
    Except Exc Json := do
  let quoted := repr unicode key
  if maxScopeKeyLength < key.length then
    throw (invalidScope ("Scope key too long: " ++ quoted ++ " (max " ++
      toString maxScopeKeyLength ++ ")"))
  match value with
  | .list _ | .obj _ =>
      throw (invalidScope ("Scope value for " ++ quoted ++
        " must be a string or number, got " ++ value.typeName))
  | _ => pure ()
  match value with
  | .float value =>
      if !value.isFinite then
        throw (invalidScope ("Scope value for " ++ quoted ++
          " must be a finite number"))
  | _ => pure ()
  if isWildcard value then
    throw (invalidScope ("Scope value for " ++ quoted ++
      " must be a concrete value, not empty, '*' or null"))
  match value with
  | .str text =>
      if maxScopeValueLength < text.length then
        throw (invalidScope ("Scope value too long for " ++ quoted ++ " (max " ++
          toString maxScopeValueLength ++ ")"))
      if key = "agent_id" then
        let normalized := normalizeAgentId unicode text
        if normalized = "" then
          throw (invalidScope ("Scope value for 'agent_id' (" ++
            repr unicode text ++ ") has no characters left after " ++
            "normalization; include at least one letter or digit."))
        return .str normalized
      else
        -- mem0 trims both ends of a value and refuses whitespace in a run_id.
        if text ≠ strip text then
          throw (invalidScope ("Scope value for " ++ quoted ++
            " has whitespace at either end"))
        if key = "run_id" ∧ text.toList.any isSpace then
          throw (invalidScope
            "Scope value for 'run_id' must not contain whitespace")
        return value
  | value => return value

/-- `validate_scope` of a dictionary. -/
def validateScopeDict (unicode : Unicode) (scope : Dict String Json)
    (allowedKeys : List String) : Except Exc (Dict String Json) := do
  if scope.isEmpty then return scope
  if "user_id" ∈ scope then
    throw (.policyError .invalidScope
      "Scope can't set user_id; the server sets it from your token.")
  match rejectNestedFilters unicode scope with
  | .error (.valueError message) => throw (.policyError .nestedFilter message)
  | .error error => throw error
  | .ok () => pure ()
  if maxScopeKeys < scope.entries.length then
    throw (invalidScope ("Scope has too many keys (max " ++
      toString maxScopeKeys ++ ")"))
  let cleaned ← scope.entries.foldlM (fun cleaned entry => do
    let value ← validateScopeValue unicode entry.1 entry.2
    return cleaned.set entry.1 value) ∅
  let unknown := cleaned.keys.filter fun key => key ∉ allowedKeys
  if !unknown.isEmpty then
    throw (.policyError .invalidScope ("Unknown scope keys: " ++
      reprList unicode (sorted unknown) ++ ". Valid keys: " ++
      reprList unicode (sorted allowedKeys)))
  return cleaned

/-- `validate_scope` of whatever a caller sent as the scope. -/
def validateScope (unicode : Unicode) (scope : Json)
    (allowedKeys : List String) : Except Exc (Option (Dict String Json)) :=
  match scope with
  | .null => .ok none
  | scope =>
      match scope.dict? with
      | none => .error (invalidScope "Scope must be an object of keys and values")
      | some scope => (validateScopeDict unicode scope allowedKeys).map some

/-! Everything a scope is refused with is a `PolicyError`. -/

theorem validateScopeValue_raises (unicode : Unicode) (key : String) (value : Json) :
    Raises Exc.IsPolicyError (validateScopeValue unicode key value) := by
  unfold validateScopeValue
  cases value <;> dsimp only <;> (repeat' split) <;>
    first | exact .pure _ | exact .throw_bind trivial _

theorem validateScopeDict_raises (unicode : Unicode) (scope : Dict String Json)
    (allowedKeys : List String) :
    Raises Exc.IsPolicyError (validateScopeDict unicode scope allowedKeys) := by
  unfold validateScopeDict
  split
  · exact .pure _
  dsimp only
  split
  · exact .throw_bind trivial _
  split
  · exact .throw_bind trivial _
  · rename_i error other nested
    have kind := rejectNestedFilters_raises unicode scope error nested
    cases error with
    | valueError message => exact absurd rfl (other message)
    | _ => cases kind
  · split
    · exact .throw_bind trivial _
    · have values := fun (before : Dict String Json) (entry : String × Json)
          (_ : entry ∈ scope.entries) =>
        (validateScopeValue_raises unicode entry.1 entry.2).bind fun value _ =>
          Raises.pure (before.set entry.1 value)
      refine .bind (.foldlM values ∅) fun cleaned _ => ?_
      split
      · exact .throw_bind trivial _
      · exact .pure _

theorem validateScope_raises (unicode : Unicode) (scope : Json)
    (allowedKeys : List String) :
    Raises Exc.IsPolicyError (validateScope unicode scope allowedKeys) := by
  unfold validateScope
  split
  · exact .pure _
  · split
    · exact .throw trivial
    · exact .map (validateScopeDict_raises unicode _ allowedKeys)

end Memcp
