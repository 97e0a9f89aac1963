import Memcp.Data.Related
import Memcp.Policy.AgentId

/-!
Scopes given back as the text they are stored as: which of the values
`validate_scope` accepts stay what they are.
-/

namespace Memcp

open Python

/-! What is accepted, by kind of value. -/

theorem validateScopeValue_str {unicode : Unicode} {key text : String} {kept : Json} :
    validateScopeValue unicode key (.str text) = .ok kept ↔
      key.length ≤ maxScopeKeyLength ∧ isWildcard (.str text) = false ∧
        text.length ≤ maxScopeValueLength ∧
        if key = "agent_id" then
          normalizeAgentId unicode text ≠ "" ∧
            kept = .str (normalizeAgentId unicode text)
        else
          text = strip text ∧ (key = "run_id" → text.toList.any isSpace = false) ∧
            kept = .str text := by
  have raised : ∀ {α β : Type} (error : Exc) (rest : α → Except Exc β),
      (throw error >>= rest : Except Exc β) = .error error := fun _ _ => rfl
  have passed : ∀ {α β : Type} (value : α) (rest : α → Except Exc β),
      (pure value >>= rest : Except Exc β) = rest value := fun _ _ => rfl
  unfold validateScopeValue
  by_cases long : maxScopeKeyLength < key.length
  · simp [long, raised]
  by_cases wild : isWildcard (.str text) = true
  · simp [long, wild, raised]
  by_cases big : maxScopeValueLength < text.length
  · simp [long, wild, big, raised]
  have short : key.length ≤ maxScopeKeyLength := Nat.le_of_not_lt long
  have fits : text.length ≤ maxScopeValueLength := Nat.le_of_not_lt big
  by_cases agent : key = "agent_id"
  · subst agent
    by_cases none : normalizeAgentId unicode text = ""
    · simp [none, long, wild, big, raised]
    · simp [none, long, wild, big, short, fits, pure, Except.pure, eq_comm]
  by_cases trimmed : text = strip text
  · by_cases spaced : key = "run_id" ∧ text.toList.any isSpace = true
    · simp only [long, wild, big, agent, if_false]
      rw [if_neg (not_not.mpr trimmed), if_pos spaced]
      simp [raised, spaced.1, spaced.2]
    · have free : key = "run_id" → text.toList.any isSpace = false := fun run =>
        Bool.eq_false_iff.mpr fun spaces => spaced ⟨run, spaces⟩
      simp only [long, wild, big, agent, if_false]
      rw [if_neg (not_not.mpr trimmed), if_neg spaced]
      constructor
      · rintro ⟨⟩
        exact ⟨short, by simp, fits, trimmed, free, rfl⟩
      · rintro ⟨-, -, -, -, -, rfl⟩
        rfl
  · simp [long, wild, big, agent, trimmed, raised]

/-- The values other than text that a scope may hold. -/
def isScopeNumber : Json → Bool
  | .bool _ | .int _ => true
  | .float value => value.isFinite
  | _ => false

theorem validateScopeValue_number {unicode : Unicode} {key : String}
    {value kept : Json} (notStr : ∀ text, value ≠ .str text) :
    validateScopeValue unicode key value = .ok kept ↔
      key.length ≤ maxScopeKeyLength ∧ isScopeNumber value = true ∧
        kept = value := by
  have raised : ∀ {α β : Type} (error : Exc) (rest : α → Except Exc β),
      (throw error >>= rest : Except Exc β) = .error error := fun _ _ => rfl
  unfold validateScopeValue
  by_cases long : maxScopeKeyLength < key.length
  · simp [long, raised]
  have short : key.length ≤ maxScopeKeyLength := Nat.le_of_not_lt long
  cases value with
  | str text => exact absurd rfl (notStr text)
  | null | list | obj => simp [long, isWildcard, isScopeNumber, raised]
  | bool value => simp [long, short, isWildcard, isScopeNumber, pure, Except.pure, eq_comm]
  | int value => simp [long, short, isWildcard, isScopeNumber, pure, Except.pure, eq_comm]
  | float value =>
      cases finite : value.isFinite with
      | false => simp [long, finite, isScopeNumber, raised]
      | true =>
          simp [long, short, finite, isWildcard, isScopeNumber, pure, Except.pure, eq_comm]

theorem validateScopeValue_key {unicode : Unicode} {key : String} {value kept : Json}
    (accepted : validateScopeValue unicode key value = .ok kept) :
    key.length ≤ maxScopeKeyLength := by
  by_contra long
  unfold validateScopeValue at accepted
  rw [if_pos (Nat.lt_of_not_le long)] at accepted
  cases accepted

/-! The text of a number. -/

/-- The characters of the `str` of a number. -/
def isNumeral (c : Char) : Bool := c.isDigit || c ∈ ['.', 'e', '+', '-']

theorem isNumeral_of_mem_toDigits {n : Nat} {c : Char}
    (member : c ∈ Nat.toDigits 10 n) : isNumeral c = true := by
  rw [isNumeral, Nat.isDigit_of_mem_toDigits (by decide) (by decide) member]
  rfl

theorem isNumeral_of_mem_zeros {n : Nat} {c : Char}
    (member : c ∈ List.replicate n '0') : isNumeral c = true := by
  rw [(List.mem_replicate.mp member).2]
  decide

theorem isNumeral_of_mem_exponent {exponent : Int} {c : Char}
    (member : c ∈ Decimal.exponentChars exponent) : isNumeral c = true := by
  simp only [Decimal.exponentChars, List.cons_append, List.mem_cons,
    List.mem_append] at member
  rcases member with rfl | sign | zero | digit
  · decide
  · split at sign
    all_goals
      subst sign
      decide
  · exact isNumeral_of_mem_zeros zero
  · exact isNumeral_of_mem_toDigits digit

theorem isNumeral_of_mem_repr {value : Decimal} {c : Char}
    (member : c ∈ value.reprChars) : isNumeral c = true := by
  have digits : ∀ c ∈ value.digitChars, isNumeral c = true :=
    fun _ => isNumeral_of_mem_toDigits
  have start : ∀ n, ∀ c ∈ value.digitChars.take n, isNumeral c = true :=
    fun _ c member => digits c (List.mem_of_mem_take member)
  have rest : ∀ n, ∀ c ∈ value.digitChars.drop n, isNumeral c = true :=
    fun _ c member => digits c (List.mem_of_mem_drop member)
  have zeros : ∀ n, ∀ c ∈ List.replicate n '0', isNumeral c = true :=
    fun _ _ => isNumeral_of_mem_zeros
  have point : isNumeral '.' = true := by decide
  have zero : isNumeral '0' = true := by decide
  have minus : isNumeral '-' = true := by decide
  have unsigned : ∀ c ∈ value.unsignedChars, isNumeral c = true := by
    unfold Decimal.unsignedChars
    simp only
    split
    · refine List.forall_mem_append.mpr ⟨List.forall_mem_append.mpr ⟨start 1, ?_⟩,
        fun _ => isNumeral_of_mem_exponent⟩
      split
      · exact nofun
      · exact List.forall_mem_cons.mpr ⟨point, rest 1⟩
    · split
      · exact List.forall_mem_cons.mpr ⟨zero, List.forall_mem_cons.mpr ⟨point,
          List.forall_mem_append.mpr ⟨zeros _, digits⟩⟩⟩
      · split
        · exact List.forall_mem_append.mpr ⟨List.forall_mem_append.mpr
            ⟨digits, zeros _⟩, by simp [point, zero]⟩
        · exact List.forall_mem_append.mpr ⟨start _,
            List.forall_mem_cons.mpr ⟨point, rest _⟩⟩
  unfold Decimal.reprChars at member
  split at member
  · rcases List.mem_cons.mp member with rfl | member
    · exact minus
    · exact unsigned c member
  · exact unsigned c member

theorem reprChars_ne_nil (value : Decimal) : value.reprChars ≠ [] := by
  have digits : value.digitChars ≠ [] := Nat.toDigits_ne_nil
  have unsigned : value.unsignedChars ≠ [] := by
    unfold Decimal.unsignedChars
    simp only
    split
    · simp [Decimal.exponentChars]
    · split
      · simp
      · split
        · simp
        · simp
  unfold Decimal.reprChars
  split
  · simp
  · exact unsigned

theorem isNumeral_plain {c : Char} (numeral : isNumeral c = true) :
    isSpace c = false ∧ c ≠ '*' := by
  simp only [isNumeral, Bool.or_eq_true, decide_eq_true_eq] at numeral
  rcases numeral with digit | sign
  · simp only [Char.isDigit, Bool.and_eq_true, decide_eq_true_eq, ge_iff_le,
      UInt32.le_iff_toNat_le] at digit
    have range : 48 ≤ c.toNat ∧ c.toNat ≤ 57 := digit
    constructor
    · simp [isSpace]
      omega
    · rintro rfl
      exact absurd range (by decide)
  · simp only [List.mem_cons, List.not_mem_nil, or_false] at sign
    rcases sign with rfl | rfl | rfl | rfl <;> decide

/-- The text of a number is not empty, and has no whitespace and no `*`. -/
theorem scopeText_number (unicode : Unicode) {value : Json}
    (number : isScopeNumber value = true) :
    scopeText unicode value ≠ "" ∧
      ∀ c ∈ (scopeText unicode value).toList, isSpace c = false ∧ c ≠ '*' := by
  cases value with
  | null | str | list | obj => cases number
  | bool value =>
      cases value with
      | true => exact ⟨by simp [scopeText], by simp [scopeText]; decide⟩
      | false => exact ⟨by simp [scopeText], by simp [scopeText]; decide⟩
  | int value =>
      cases value with
      | ofNat value =>
          change value.repr ≠ "" ∧ ∀ c ∈ value.repr.toList, _
          rw [Nat.toList_repr]
          refine ⟨fun empty => ?_, fun c member =>
            isNumeral_plain (isNumeral_of_mem_toDigits member)⟩
          have none := congrArg String.toList empty
          rw [Nat.toList_repr] at none
          exact Nat.toDigits_ne_nil none
      | negSucc value =>
          change "-" ++ (value + 1).repr ≠ "" ∧
            ∀ c ∈ ("-" ++ (value + 1).repr).toList, _
          rw [String.toList_append, Nat.toList_repr]
          refine ⟨by simp, fun c member => isNumeral_plain ?_⟩
          rcases List.mem_append.mp member with sign | digit
          · obtain rfl : c = '-' := by simpa using sign
            decide
          · exact isNumeral_of_mem_toDigits digit
  | float value =>
      cases value with
      | finite value =>
          change String.ofList value.reprChars ≠ "" ∧
            ∀ c ∈ (String.ofList value.reprChars).toList, _
          rw [String.toList_ofList]
          refine ⟨?_, fun c member => isNumeral_plain (isNumeral_of_mem_repr member)⟩
          simpa using reprChars_ne_nil value
      | infinite | nan => cases number

/-! A value given back as the text it is stored as. -/

theorem not_isWildcard_of_plain {text : String} (some : text ≠ "")
    (plain : ∀ c ∈ text.toList, isSpace c = false ∧ c ≠ '*') :
    isWildcard (.str text) = false := by
  have star : text ≠ "*" := by
    rintro rfl
    exact (plain '*' (by simp)).2 rfl
  simp [isWildcard, strip_of_forall fun c member => (plain c member).1, some, star]

theorem AgentIdForm.plain {text : String} (form : AgentIdForm text.toList) :
    text ≠ "" ∧ ∀ c ∈ text.toList, isSpace c = false ∧ c ≠ '*' := by
  refine ⟨?_, fun c member => ?_⟩
  · rintro rfl
    exact form.ne_nil rfl
  · have keeps := form.chars c member
    refine ⟨(isAgentIdChar_plain keeps).1, ?_⟩
    rintro rfl
    exact absurd keeps (by decide)

/-- The text an accepted value is stored as is accepted as it is when it is
short enough and, for an `agent_id`, in form. -/
theorem validateScopeValue_text {unicode : Unicode} {key : String}
    {value kept : Json} (accepted : validateScopeValue unicode key value = .ok kept) :
    let text := scopeText unicode kept
    validateScopeValue unicode key (.str text) = .ok (.str text) ↔
      text.length ≤ maxScopeValueLength ∧
        (key = "agent_id" → AgentIdForm text.toList) := by
  intro text
  rw [validateScopeValue_str]
  constructor
  · rintro ⟨-, wild, fits, kind⟩
    refine ⟨fits, fun agent => ?_⟩
    rw [if_pos agent] at kind
    have fixed : text = normalizeAgentId unicode text := Json.str.inj kind.2
    exact (normalizeAgentId_eq_iff unicode (fixed ▸ kind.1)).mp fixed.symm
  · rintro ⟨fits, form⟩
    have short := validateScopeValue_key accepted
    have agent : key = "agent_id" →
        normalizeAgentId unicode text ≠ "" ∧
          Json.str text = .str (normalizeAgentId unicode text) := fun agent => by
      rw [(form agent).normalize_eq unicode]
      exact ⟨(form agent).plain.1, rfl⟩
    by_cases raw : ∃ raw, value = .str raw
    · obtain ⟨raw, rfl⟩ := raw
      obtain ⟨-, wild, -, kind⟩ := validateScopeValue_str.mp accepted
      by_cases isAgent : key = "agent_id"
      · have plain := (form isAgent).plain
        exact ⟨short, not_isWildcard_of_plain plain.1 plain.2, fits,
          by rw [if_pos isAgent]; exact agent isAgent⟩
      · rw [if_neg isAgent] at kind
        obtain ⟨trimmed, free, rfl⟩ := kind
        exact ⟨short, wild, fits, by rw [if_neg isAgent]; exact ⟨trimmed, free, rfl⟩⟩
    · obtain ⟨-, number, rfl⟩ := (validateScopeValue_number
        fun text same => raw ⟨text, same⟩).mp accepted
      obtain ⟨some, plain⟩ := scopeText_number unicode number
      refine ⟨short, not_isWildcard_of_plain some plain, fits, ?_⟩
      split
      case isTrue isAgent => exact agent isAgent
      case isFalse =>
        refine ⟨(strip_of_forall fun c member => (plain c member).1).symm, fun _ => ?_,
          rfl⟩
        exact List.any_eq_false.mpr fun c member => by simp [plain c member]
/-! Whole scopes. -/

/-- An entry of a scope, and the entry as it is kept. -/
def KeptEntry (unicode : Unicode) (entry kept : String × Json) : Prop :=
  kept.1 = entry.1 ∧ validateScopeValue unicode entry.1 entry.2 = .ok kept.2

theorem keys_of_kept {unicode : Unicode} {entries kept : List (String × Json)}
    (same : List.Forall₂ (KeptEntry unicode) entries kept) :
    kept.map Prod.fst = entries.map Prod.fst :=
  same.map_eq fun _ _ keeps => keeps.1

theorem foldlM_validateScopeValue {unicode : Unicode}
    {entries : List (String × Json)} {before cleaned : Dict String Json}
    (distinct : (entries.map Prod.fst).Nodup)
    (absent : ∀ entry ∈ entries, entry.1 ∉ before) :
    entries.foldlM (fun cleaned entry => do
        let value ← validateScopeValue unicode entry.1 entry.2
        return cleaned.set entry.1 value) before = .ok cleaned ↔
      ∃ tail, List.Forall₂ (KeptEntry unicode) entries tail ∧
        cleaned.entries = before.entries ++ tail := by
  induction entries generalizing before with
  | nil =>
      simp only [List.foldlM_nil, List.forall₂_nil_left_iff]
      constructor
      · rintro ⟨⟩
        exact ⟨[], rfl, by simp⟩
      · rintro ⟨tail, rfl, same⟩
        exact congrArg Except.ok (Dict.ext (by simpa using same.symm))
  | cons entry entries induction =>
      obtain ⟨first, distinct⟩ := List.nodup_cons.mp distinct
      have absentFirst := absent entry List.mem_cons_self
      rw [List.foldlM_cons]
      cases accepted : validateScopeValue unicode entry.1 entry.2 with
      | error error =>
          constructor
          · rintro ⟨⟩
          · rintro ⟨tail, kept, -⟩
            cases kept with
            | cons head tail =>
                have same := head.2
                rw [accepted] at same
                cases same
      | ok value =>
          have later : ∀ other ∈ entries, other.1 ∉ before.set entry.1 value := by
            intro other member
            rw [Dict.mem_set]
            rintro (same | old)
            · exact first (List.mem_map.mpr ⟨other, member, same⟩)
            · exact absent other (List.mem_cons_of_mem _ member) old
          refine (induction distinct later).trans ?_
          rw [Dict.entries_set_of_not_mem absentFirst]
          constructor
          · rintro ⟨tail, kept, same⟩
            exact ⟨(entry.1, value) :: tail, .cons ⟨rfl, accepted⟩ kept, by simpa using same⟩
          · rintro ⟨tail, kept, same⟩
            cases kept with
            | @cons _ head _ tail keptHead keptTail =>
                obtain ⟨key, kept⟩ := head
                obtain ⟨rfl, also⟩ := keptHead
                obtain rfl : value = kept := Except.ok.inj (accepted.symm.trans also)
                exact ⟨tail, keptTail, by simpa using same⟩

/-- The checks of a scope that look at its keys only. -/
structure KeysAllowed (unicode : Unicode) (scope : Dict String Json)
    (allowedKeys : List String) : Prop where
  noUser : "user_id" ∉ scope
  flat : rejectNestedFilters unicode scope = .ok ()
  few : scope.entries.length ≤ maxScopeKeys
  known : ∀ key ∈ scope.keys, key ∈ allowedKeys

theorem validateScopeDict_eq_ok {unicode : Unicode} {scope cleaned : Dict String Json}
    {allowedKeys : List String} :
    validateScopeDict unicode scope allowedKeys = .ok cleaned ↔
      List.Forall₂ (KeptEntry unicode) scope.entries cleaned.entries ∧
        (scope.isEmpty = false → KeysAllowed unicode scope allowedKeys) := by
  have raised : ∀ {α β : Type} (error : Exc) (rest : α → Except Exc β),
      (throw error >>= rest : Except Exc β) = .error error := fun _ _ => rfl
  unfold validateScopeDict
  cases empty : scope.isEmpty with
  | true =>
      have none : scope.entries = [] := List.isEmpty_iff.mp empty
      simp only [if_true, none, List.forall₂_nil_left_iff, reduceCtorEq, false_imp_iff,
        and_true]
      constructor
      · rintro ⟨⟩
        exact none
      · exact fun same => congrArg Except.ok (Dict.ext (none.trans same.symm))
  | false =>
      simp only [Bool.false_eq_true, if_false, true_imp_iff]
      by_cases user : "user_id" ∈ scope
      · simp only [user, if_true, raised, reduceCtorEq, false_iff, not_and]
        exact fun _ allowed => allowed.noUser user
      cases flat : rejectNestedFilters unicode scope with
      | error error =>
          have refused : ¬ KeysAllowed unicode scope allowedKeys := fun allowed => by
            rw [allowed.flat] at flat
            cases flat
          cases error <;> simp [user, refused, raised]
      | ok _ =>
          by_cases many : maxScopeKeys < scope.entries.length
          · have refused : ¬ KeysAllowed unicode scope allowedKeys := fun allowed =>
              Nat.not_le_of_lt many allowed.few
            simp [user, many, refused, raised]
          simp only [user, many, if_false]
          refine bind_eq_ok.trans ?_
          have absent : ∀ entry ∈ scope.entries, entry.1 ∉ (∅ : Dict String Json) :=
            fun entry _ => Dict.not_mem_empty entry.1
          constructor
          · rintro ⟨kept, folded, known⟩
            obtain ⟨tail, same, entries⟩ :=
              (foldlM_validateScopeValue scope.keys_nodup absent).mp folded
            obtain rfl : kept.entries = tail := by simpa using entries
            have keys : kept.keys = scope.keys := keys_of_kept same
            split at known
            · cases known
            · rename_i none
              cases known
              refine ⟨same, user, flat, Nat.le_of_not_lt many, ?_⟩
              simpa [keys] using none
          · rintro ⟨kept, allowed⟩
            have keys : cleaned.keys = scope.keys := keys_of_kept kept
            refine ⟨cleaned, (foldlM_validateScopeValue scope.keys_nodup absent).mpr
              ⟨cleaned.entries, kept, by simp⟩, ?_⟩
            rw [if_neg (by simpa [keys] using allowed.known)]
            rfl

/-! The text of a scope. -/

/-- A scope with every value as the text it is stored as. -/
def storedScope (unicode : Unicode) (scope : Dict String Json) : Dict String Json :=
  textScope (scopeAsText unicode scope)

theorem entries_storedScope (unicode : Unicode) (scope : Dict String Json) :
    (storedScope unicode scope).entries =
      scope.entries.map fun entry => (entry.1, .str (scopeText unicode entry.2)) := by
  simp [storedScope, textScope, scopeAsText]

@[simp] theorem keys_storedScope (unicode : Unicode) (scope : Dict String Json) :
    (storedScope unicode scope).keys = scope.keys := by
  simp [Dict.keys, entries_storedScope]

theorem rejectNestedFilters_congr {unicode : Unicode} {left right : Dict String Json}
    (same : left.keys = right.keys) :
    rejectNestedFilters unicode left = rejectNestedFilters unicode right := by
  have members : ∀ key, key ∈ left ↔ key ∈ right := fun key => by
    rw [Dict.mem_iff_keys, Dict.mem_iff_keys, same]
  simp only [rejectNestedFilters, members]

theorem KeysAllowed.congr {unicode : Unicode} {left right : Dict String Json}
    {allowedKeys : List String} (same : left.keys = right.keys)
    (allowed : KeysAllowed unicode left allowedKeys) :
    KeysAllowed unicode right allowedKeys where
  noUser := by
    rw [Dict.mem_iff_keys, ← same, ← Dict.mem_iff_keys]
    exact allowed.noUser
  flat := rejectNestedFilters_congr same ▸ allowed.flat
  few := by
    have lengths := congrArg List.length same
    simp only [Dict.keys, List.length_map] at lengths
    exact lengths ▸ allowed.few
  known := same ▸ allowed.known

/-- The stored text of an accepted scope is accepted as it is when each of its
values is. -/
theorem validateScopeDict_stored {unicode : Unicode}
    {scope cleaned : Dict String Json} {allowedKeys : List String}
    (accepted : validateScopeDict unicode scope allowedKeys = .ok cleaned)
    (texts : ∀ entry ∈ cleaned.entries,
      let text := scopeText unicode entry.2
      text.length ≤ maxScopeValueLength ∧
        (entry.1 = "agent_id" → AgentIdForm text.toList)) :
    validateScopeDict unicode (storedScope unicode cleaned) allowedKeys =
      .ok (storedScope unicode cleaned) := by
  obtain ⟨kept, allowed⟩ := validateScopeDict_eq_ok.mp accepted
  have keys : cleaned.keys = scope.keys := keys_of_kept kept
  refine validateScopeDict_eq_ok.mpr ⟨?_, fun some => ?_⟩
  · rw [entries_storedScope, List.forall₂_map_left_iff, List.forall₂_map_right_iff,
      List.forall₂_same]
    intro entry member
    obtain ⟨original, -, same, value⟩ := List.Forall₂.exists_left kept member
    rw [← same] at value
    exact ⟨rfl, (validateScopeValue_text value).mpr (texts entry member)⟩
  · have original : scope.isEmpty = false := by
      rwa [← Dict.isEmpty_keys, keys_storedScope, keys, Dict.isEmpty_keys] at some
    exact (allowed original).congr ((keys_storedScope unicode cleaned).trans keys).symm

theorem validateScope_ofDict (unicode : Unicode) (scope : Dict String Json)
    (allowedKeys : List String) :
    validateScope unicode (Json.ofDict scope) allowedKeys =
      (validateScopeDict unicode scope allowedKeys).map some := by
  simp [validateScope, Json.ofDict, Json.dict?]

theorem validateScope_ofDict_eq_ok {unicode : Unicode}
    {scope cleaned : Dict String Json} {allowedKeys : List String} :
    validateScope unicode (Json.ofDict scope) allowedKeys = .ok (some cleaned) ↔
      validateScopeDict unicode scope allowedKeys = .ok cleaned := by
  rw [validateScope_ofDict, map_eq_ok]
  simp

@[simp] theorem scopeAsText_storedScope (unicode : Unicode)
    (scope : Dict String Json) :
    scopeAsText unicode (storedScope unicode scope) = scopeAsText unicode scope := by
  simp [storedScope, textScope, scopeAsText, Dict.map_map]

/-- An accepted scope is one every backend takes. -/
theorem refuseNestedFilters_validated {unicode : Unicode} {given : Json}
    {allowedKeys : List String} {cleaned : Option (Dict String Json)}
    (accepted : validateScope unicode given allowedKeys = .ok cleaned) :
    refuseNestedFilters unicode cleaned = .ok () := by
  unfold validateScope at accepted
  split at accepted
  · cases accepted
    rfl
  · split at accepted
    · cases accepted
    · rename_i scope _
      obtain ⟨kept, dict, rfl⟩ := map_eq_ok.mp accepted
      obtain ⟨same, allowed⟩ := validateScopeDict_eq_ok.mp dict
      have keys : kept.keys = scope.keys := keys_of_kept same
      unfold refuseNestedFilters
      cases held : Dict.given (some kept) with
      | none => rfl
      | some held' =>
          obtain ⟨kept', concrete⟩ := Dict.given_eq_some_iff.mp held
          cases kept'
          have original : scope.isEmpty = false := by
            rw [← Dict.isEmpty_keys, ← keys, Dict.isEmpty_keys]
            exact Bool.eq_false_iff.mpr fun empty =>
              concrete ((Dict.isEmpty_iff kept).mp empty)
          exact (rejectNestedFilters_congr keys).trans (allowed original).flat

end Memcp
