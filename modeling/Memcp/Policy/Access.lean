import Memcp.Policy.Action

/-! What a key may do, and the space check on every memory read back. -/

namespace Memcp

open Python Interaction

def forbiddenMsg : String :=
  "This key can read its space but not change it; that needs the writer relation."

def internalErrorMsg : String := "The request failed an internal check."

/-- The current key, when it holds `relation`; a writer also holds reader. -/
def require (context : Context) (relation : Relation) : Except Exc Key := do
  let key ← currentKey context
  if relation = .writer ∧ key.grant.relation ≠ .writer then
    throw (.policyError .forbidden forbiddenMsg)
  return key

/-- Whether `system.get("space", partition) == partition`. -/
def System.spaceIs (system : System) (partition : String) : Bool :=
  match system.space with
  | none => true
  | some (.str space) => space = partition
  | some _ => false

/-- Whether a memory may reach a caller of the partition. -/
def Memory.inSpace (memory : Memory) (partition : String) : Bool :=
  memory.partition = partition && memory.system.spaceIs partition

/-- `memory` when its partition, and its `system["space"]` if set, are
`partition`; anything else fails the request. -/
def checkSpace (memory : Option Memory) (partition : String) :
    Except Exc Memory :=
  match memory with
  | some memory =>
      if memory.inSpace partition then .ok memory
      else .error (.policyError .internalError internalErrorMsg)
  | none => .error (.policyError .internalError internalErrorMsg)

/-- The space check on each memory of a list, stopping at the first failure. -/
def checkSpaces (memories : List Memory) (partition : String) :
    Except Exc (List Memory) :=
  memories.mapM fun memory => checkSpace (some memory) partition

@[simp] theorem require_reader (key : Key) :
    require (some key) .reader = .ok key := rfl

@[simp] theorem require_none (relation : Relation) :
    require none relation = .error .lookupError := rfl

theorem require_writer (key : Key) :
    require (some key) .writer =
      if key.grant.relation = .writer then .ok key
      else .error (.policyError .forbidden forbiddenMsg) := by
  obtain ⟨name, space, relation⟩ := key
  cases relation <;> rfl

theorem require_eq_ok {context : Context} {relation : Relation} {key : Key}
    (granted : require context relation = .ok key) : context = some key := by
  cases context with
  | none => cases granted
  | some actor =>
      cases relation with
      | reader => simpa using granted
      | writer =>
          rw [require_writer] at granted
          split at granted
          · simpa using granted
          · cases granted

theorem checkSpace_eq_ok {memory : Option Memory} {partition : String}
    {checked : Memory} :
    checkSpace memory partition = .ok checked ↔
      memory = some checked ∧ checked.inSpace partition = true := by
  cases memory with
  | none => simp [checkSpace]
  | some memory =>
      simp only [checkSpace, Option.some.injEq]
      split
      case isTrue passes =>
          constructor
          · intro same
            cases same
            exact ⟨rfl, passes⟩
          · rintro ⟨rfl, -⟩
            rfl
      case isFalse fails =>
          simp only [reduceCtorEq, false_iff, not_and]
          rintro rfl
          exact fails

theorem checkSpaces_eq_ok {memories checked : List Memory}
    {partition : String} :
    checkSpaces memories partition = .ok checked ↔
      memories = checked ∧ ∀ memory ∈ checked, memory.inSpace partition = true := by
  induction memories generalizing checked with
  | nil =>
      simp only [checkSpaces, List.mapM_nil]
      constructor
      · intro same
        cases same
        exact ⟨rfl, nofun⟩
      · rintro ⟨rfl, -⟩
        rfl
  | cons head tail induction =>
      simp only [checkSpaces, List.mapM_cons] at induction ⊢
      cases headEquation : checkSpace (some head) partition with
      | error error =>
          constructor
          · intro impossible
            cases impossible
          · rintro ⟨rfl, passes⟩
            have passesHead := checkSpace_eq_ok.mpr
              ⟨rfl, passes head (by simp)⟩
            rw [headEquation] at passesHead
            cases passesHead
      | ok first =>
          obtain ⟨same, passesHead⟩ := checkSpace_eq_ok.mp headEquation
          obtain rfl : head = first := by simpa using same
          constructor
          · intro equation
            cases tailEquation : tail.mapM
                (fun memory => checkSpace (some memory) partition) with
            | error error =>
                rw [tailEquation] at equation
                cases equation
            | ok rest =>
                rw [tailEquation] at equation
                cases equation
                obtain ⟨rfl, passes⟩ := induction.mp tailEquation
                exact ⟨rfl, by simpa [passesHead] using passes⟩
          · rintro ⟨rfl, passes⟩
            have tailEquation := induction.mpr
              ⟨rfl, fun memory member => passes memory (by simp [member])⟩
            rw [tailEquation]
            rfl

theorem checkSpaces_cases (memories : List Memory) (partition : String) :
    checkSpaces memories partition = .ok memories ∨
      checkSpaces memories partition =
        .error (.policyError .internalError internalErrorMsg) := by
  induction memories with
  | nil => exact .inl rfl
  | cons head tail induction =>
      simp only [checkSpaces, List.mapM_cons, checkSpace] at induction ⊢
      cases head.inSpace partition with
      | false => exact .inr rfl
      | true =>
          rcases induction with same | same
          · rw [same]
            exact .inl rfl
          · rw [same]
            exact .inr rfl

theorem checkSpaces_eq (memories : List Memory) (partition : String) :
    checkSpaces memories partition =
      if memories.all fun memory => memory.inSpace partition then .ok memories
      else .error (.policyError .internalError internalErrorMsg) := by
  split
  · rename_i passes
    exact checkSpaces_eq_ok.mpr ⟨rfl, List.all_eq_true.mp passes⟩
  · rename_i fails
    apply (checkSpaces_cases memories partition).resolve_left
    intro passed
    exact fails (List.all_eq_true.mpr (checkSpaces_eq_ok.mp passed).2)

end Memcp
