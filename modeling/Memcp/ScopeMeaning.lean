import Memcp.Policy.Alone
import Memcp.Policy.ScopeText

/-!
What a scope selects is decided by the text of its values, so a scope given
back as the text it is stored as means the same, as long as `validate_scope`
leaves that text alone.
-/

namespace Memcp

open Python Interaction

/-! Scopes of the same text. -/

section SameText

variable {unicode : Unicode} {left right : Dict String Json}

theorem keys_of_sameText (same : scopeAsText unicode left = scopeAsText unicode right) :
    left.keys = right.keys := by
  simpa [scopeAsText] using congrArg Dict.keys same

theorem scopeText_all (unicode : Unicode) (test : String → String → Bool)
    (scope : Dict String Json) :
    (scope.entries.all fun entry => test entry.1 (scopeText unicode entry.2)) =
      (scopeAsText unicode scope).entries.all fun entry => test entry.1 entry.2 := by
  simp [scopeAsText, List.all_map, Function.comp_def]

theorem storedHolds_congr
    (same : scopeAsText unicode left = scopeAsText unicode right)
    (stored : Dict String String) :
    storedHolds unicode stored left = storedHolds unicode stored right := by
  have texts := scopeText_all unicode
    (fun key text => stored.get? key = some text)
  rw [storedHolds, storedHolds, texts left, texts right, same]

theorem scopeHolds_congr
    (same : scopeAsText unicode left = scopeAsText unicode right)
    (stored : Dict String Json) :
    scopeHolds unicode stored left = scopeHolds unicode stored right := by
  have texts := scopeText_all unicode fun key text =>
    (stored.get? key).any fun value => scopeText unicode value = text
  have unfolded : ∀ scope, scopeHolds unicode stored scope =
      (scopeAsText unicode scope).entries.all fun entry =>
        (stored.get? entry.1).any fun value => scopeText unicode value = entry.2 := by
    intro scope
    rw [← texts scope]
    unfold scopeHolds matchesText
    congr 1
    funext entry
    cases stored.get? entry.1 <;> rfl
  rw [unfolded, unfolded, same]

theorem refuseNestedFilters_congr
    (same : scopeAsText unicode left = scopeAsText unicode right) :
    refuseNestedFilters unicode (some left) =
      refuseNestedFilters unicode (some right) := by
  have keys := keys_of_sameText same
  have empty : left.isEmpty = right.isEmpty := by
    rw [← Dict.isEmpty_keys, keys, Dict.isEmpty_keys]
  cases none : right.isEmpty with
  | true => simp [refuseNestedFilters, Dict.given, Option.filter, empty, none]
  | false =>
      simp [refuseNestedFilters, Dict.given, Option.filter, empty, none,
        rejectNestedFilters_congr keys]

theorem selected_congr
    (same : scopeAsText unicode left = scopeAsText unicode right)
    (items : List Item) :
    Space.selected unicode (some left) items =
      Space.selected unicode (some right) items :=
  List.filter_congr fun item _ => storedHolds_congr same item.scope

theorem inScope_congr
    (same : scopeAsText unicode left = scopeAsText unicode right)
    (memories : List Memory) :
    inScope unicode memories (some left) = inScope unicode memories (some right) :=
  List.filter_congr fun memory _ => scopeHolds_congr same memory.scope

/-! Calls with scopes of the same text, on the spaces. -/

variable (same : scopeAsText unicode left = scopeAsText unicode right)
  (partition : String) (fresh : Fresh) (items : List Item)
include same

theorem search_space_congr (query : String) (limit : Int) (threshold : ℚ) :
    Space.perform unicode fresh
        (.search partition query (some left) limit threshold) items =
      Space.perform unicode fresh
        (.search partition query (some right) limit threshold) items := by
  simp only [Space.perform, Space.search, refuseNestedFilters_congr same,
    selected_congr same]

theorem listMemories_space_congr (limit : Int) (cursor : Option String) :
    Space.perform unicode fresh
        (.listMemories partition (some left) limit cursor) items =
      Space.perform unicode fresh
        (.listMemories partition (some right) limit cursor) items := by
  simp only [Space.perform, selected_congr same]

theorem deleteAll_space_congr :
    Space.perform unicode fresh (.deleteAll partition left) items =
      Space.perform unicode fresh (.deleteAll partition right) items := by
  simp only [Space.perform, Space.deleteAll, selected_congr same,
    storedHolds_congr same, rejectNestedFilters_congr (keys_of_sameText same)]

end SameText

/-! The same calls on a store. -/

section Stores

variable {unicode : Unicode} {left right : Dict String Json} {store : Store}
  (representation : Representation unicode store) {state : store.State}
  (valid : representation.valid state)
  (same : scopeAsText unicode left = scopeAsText unicode right)
  (partition : String) (fresh : Fresh)
include valid same

theorem Representation.search_congr (query : String) (limit : Int) (threshold : ℚ) :
    (store.perform fresh (.search partition query (some left) limit threshold)
        state).1 =
      (store.perform fresh (.search partition query (some right) limit threshold)
        state).1 := by
  rw [(representation.simulates valid fresh rfl).reply,
    (representation.simulates valid fresh rfl).reply, Spaces.perform_named rfl,
    Spaces.perform_named rfl]
  dsimp only
  rw [search_space_congr same]

theorem Representation.listMemories_congr (limit : Int) (cursor : Option String) :
    (store.perform fresh (.listMemories partition (some left) limit cursor)
        state).1 =
      (store.perform fresh (.listMemories partition (some right) limit cursor)
        state).1 := by
  rw [(representation.simulates valid fresh rfl).reply,
    (representation.simulates valid fresh rfl).reply, Spaces.perform_named rfl,
    Spaces.perform_named rfl]
  dsimp only
  rw [listMemories_space_congr same]

theorem Representation.deleteAll_congr :
    let first := store.perform fresh (.deleteAll partition left) state
    let second := store.perform fresh (.deleteAll partition right) state
    first.1 = second.1 ∧
      representation.spaces first.2 = representation.spaces second.2 := by
  intro first second
  have answers := deleteAll_space_congr same partition fresh
    (representation.spaces state partition)
  have simulates := fun scope => representation.simulates valid fresh
    (show (BackendCall.deleteAll partition scope).isAdd = false from rfl)
  constructor
  · rw [(simulates left).reply, (simulates right).reply, Spaces.perform_named rfl,
      Spaces.perform_named rfl]
    dsimp only
    rw [answers]
  · rw [(simulates left).spaces, (simulates right).spaces, Spaces.perform_named rfl,
      Spaces.perform_named rfl]
    dsimp only
    rw [answers]

end Stores

/-! What it takes for a scope to mean its stored text. -/

/-- The operations that select memories select the same with either scope. -/
structure SelectsSame (unicode : Unicode) (left right : Json) : Prop where
  search : ∀ (backend : LocalBackend) (state : (backend.store unicode).machine.State),
    (backend.representation unicode).valid state →
    ∀ supply asked key query limit threshold,
      (Fallible.exec (backend.store unicode).machine supply
        ((localPolicy unicode).search (some key) query left limit threshold) asked
        state).1 =
      (Fallible.exec (backend.store unicode).machine supply
        ((localPolicy unicode).search (some key) query right limit threshold) asked
        state).1
  listed : ∀ (backend : LocalBackend) (state : (backend.store unicode).machine.State),
    (backend.representation unicode).valid state →
    ∀ supply asked key limit cursor,
      (Fallible.exec (backend.store unicode).machine supply
        ((localPolicy unicode).listMemories (some key) left limit cursor) asked
        state).1 =
      (Fallible.exec (backend.store unicode).machine supply
        ((localPolicy unicode).listMemories (some key) right limit cursor) asked
        state).1
  deleted : ∀ (backend : LocalBackend) (state : (backend.store unicode).machine.State),
    (backend.representation unicode).valid state →
    ∀ supply asked key,
      let first := Fallible.exec (backend.store unicode).machine supply
        ((localPolicy unicode).deleteAll (some key) left) asked state
      let second := Fallible.exec (backend.store unicode).machine supply
        ((localPolicy unicode).deleteAll (some key) right) asked state
      first.1 = second.1 ∧
        (backend.representation unicode).spaces first.2.2 =
          (backend.representation unicode).spaces second.2.2

theorem selectsSame_of_sameText {unicode : Unicode} {left right : Json}
    {first second : Dict String Json}
    (cleansLeft : validateScope unicode left localScopeKeys = .ok (some first))
    (cleansRight : validateScope unicode right localScopeKeys = .ok (some second))
    (same : scopeAsText unicode first = scopeAsText unicode second) :
    SelectsSame unicode left right where
  search backend state valid supply asked key query limit threshold := by
    rw [search_returns, search_returns]
    simp only [localPolicy, cleansLeft, cleansRight, inScope_congr same,
      (backend.representation unicode).search_congr valid same, bind, Except.bind]
  listed backend state valid supply asked key limit cursor := by
    rw [listMemories_returns, listMemories_returns]
    simp only [localPolicy, cleansLeft, cleansRight, inScope_congr same,
      (backend.representation unicode).listMemories_congr valid same, bind,
      Except.bind]
  deleted backend state valid supply asked key := by
    have answers := (backend.representation unicode).deleteAll_congr valid same
      key.grant.space (supply asked)
    have empty : first.isEmpty = second.isEmpty := by
      rw [← Dict.isEmpty_keys, keys_of_sameText same, Dict.isEmpty_keys]
    rw [deleteAll_exec, deleteAll_exec]
    simp only [localPolicy, cleansLeft, cleansRight, bind, Except.bind]
    cases require (some key) .writer with
    | error error => exact ⟨rfl, rfl⟩
    | ok granted =>
        by_cases none : second.isEmpty = true
        · simp [Dict.given, Option.filter, empty, none]
        · simp only [Dict.given, Option.filter, empty, none]
          exact answers

/-- An accepted scope and the text it is stored as mean the same. -/
structure MeansItsText (unicode : Unicode) (scope cleaned : Dict String Json) :
    Prop where
  accepted : ∃ again, validateScope unicode
    (Json.ofDict (storedScope unicode cleaned)) localScopeKeys = .ok (some again) ∧
      ∀ fresh content metadata system,
        storedHolds unicode
          (Item.added unicode fresh content (some cleaned) metadata system).scope
          again = true
  selects : SelectsSame unicode (Json.ofDict (storedScope unicode cleaned))
    (Json.ofDict scope)
  form : ∀ text, (scopeAsText unicode cleaned).get? "agent_id" = some text →
    AgentIdForm text.toList

/-- The text a value of a scope is stored as. -/
def storedText (unicode : Unicode) (key : String) : Json → String
  | .str text => if key = "agent_id" then normalizeAgentId unicode text else text
  | value => scopeText unicode value

/-- No stored text is too long to be sent back, and normalization leaves the text
of an `agent_id` that is not a string as it is. -/
def KeepsText (unicode : Unicode) (scope : Dict String Json) : Prop :=
  ∀ entry ∈ scope.entries,
    (storedText unicode entry.1 entry.2).length ≤ maxScopeValueLength ∧
      (entry.1 = "agent_id" → (∀ text, entry.2 ≠ .str text) →
        normalizeAgentId unicode (scopeText unicode entry.2) =
          scopeText unicode entry.2)

theorem scopeText_of_kept {unicode : Unicode} {entry kept : String × Json}
    (keeps : KeptEntry unicode entry kept) :
    scopeText unicode kept.2 = storedText unicode entry.1 entry.2 := by
  obtain ⟨-, accepted⟩ := keeps
  by_cases raw : ∃ text, entry.2 = .str text
  · obtain ⟨text, raw⟩ := raw
    rw [raw] at accepted ⊢
    have kind := (validateScopeValue_str.mp accepted).2.2.2
    by_cases agent : entry.1 = "agent_id"
    · rw [if_pos agent] at kind
      simp [storedText, agent, kind.2]
    · rw [if_neg agent] at kind
      simp [storedText, agent, kind.2.2]
  · obtain ⟨-, number, same⟩ := (validateScopeValue_number
      fun text same => raw ⟨text, same⟩).mp accepted
    rw [same]
    cases value : entry.2 with
    | str text => exact absurd ⟨text, value⟩ raw
    | _ => rfl

/-- Every value kept is stored as a text that is accepted as it is. -/
theorem KeepsText.texts {unicode : Unicode} {scope cleaned : Dict String Json}
    (keepsText : KeepsText unicode scope)
    (kept : List.Forall₂ (KeptEntry unicode) scope.entries cleaned.entries) :
    ∀ held ∈ cleaned.entries,
      let text := scopeText unicode held.2
      text.length ≤ maxScopeValueLength ∧
        (held.1 = "agent_id" → AgentIdForm text.toList) := by
  intro held member text
  obtain ⟨entry, found, keeps⟩ := List.Forall₂.exists_left kept member
  obtain ⟨fits, fixed⟩ := keepsText entry found
  have stored : text = storedText unicode entry.1 entry.2 := scopeText_of_kept keeps
  refine ⟨by rw [stored]; exact fits, fun agent => ?_⟩
  obtain ⟨sameKey, accepted⟩ := keeps
  rw [sameKey] at agent
  by_cases raw : ∃ raw, entry.2 = .str raw
  · obtain ⟨raw, same⟩ := raw
    rw [same] at accepted
    have kind := (validateScopeValue_str.mp accepted).2.2.2
    rw [if_pos agent] at kind
    rw [stored, same, storedText, if_pos agent]
    exact (normalizeAgentId_form unicode raw).resolve_left kind.1
  · have notStr := fun text same => raw ⟨text, same⟩
    obtain ⟨-, number, same⟩ := (validateScopeValue_number notStr).mp accepted
    have unchanged : text = scopeText unicode entry.2 := by rw [← same]
    rw [unchanged]
    exact (normalizeAgentId_eq_iff unicode (scopeText_number unicode number).1).mp
      (fixed agent notStr)

theorem get?_scopeAsText {unicode : Unicode} {scope : Dict String Json} {key text : String} :
    (scopeAsText unicode scope).get? key = some text ↔
      ∃ value, (key, value) ∈ scope.entries ∧ scopeText unicode value = text := by
  simp [scopeAsText, Dict.get?_eq_some_iff]

theorem scope_means_its_text_iff (unicode : Unicode)
    (scope cleaned : Dict String Json)
    (accepted : validateScope unicode (Json.ofDict scope) localScopeKeys =
      .ok (some cleaned)) :
    MeansItsText unicode scope cleaned ↔ KeepsText unicode scope := by
  have cleans := validateScope_ofDict_eq_ok.mp accepted
  obtain ⟨kept, -⟩ := validateScopeDict_eq_ok.mp cleans
  constructor
  · intro means entry member
    obtain ⟨held, heldMember, keeps⟩ := List.Forall₂.exists_right kept member
    rw [← scopeText_of_kept keeps]
    obtain ⟨sameKey, value⟩ := keeps
    constructor
    · obtain ⟨again, acceptedAgain, -⟩ := means.accepted
      obtain ⟨keptAgain, -⟩ :=
        validateScopeDict_eq_ok.mp (validateScope_ofDict_eq_ok.mp acceptedAgain)
      rw [entries_storedScope] at keptAgain
      obtain ⟨_, -, -, text⟩ :=
        List.Forall₂.exists_right keptAgain (List.mem_map_of_mem heldMember)
      exact (validateScopeValue_str.mp text).2.2.1
    · intro agent notStr
      obtain ⟨-, -, same⟩ := (validateScopeValue_number notStr).mp value
      have form := means.form (scopeText unicode held.2)
        (get?_scopeAsText.mpr ⟨held.2, by rw [← agent, ← sameKey]; exact heldMember, rfl⟩)
      rw [← same]
      exact form.normalize_eq unicode
  · intro keepsText
    have texts := keepsText.texts kept
    refine ⟨⟨storedScope unicode cleaned, ?_, ?_⟩, ?_, ?_⟩
    · exact validateScope_ofDict_eq_ok.mpr (validateScopeDict_stored cleans texts)
    · intro fresh content metadata system
      simp only [storedHolds, List.all_eq_true, decide_eq_true_eq,
        entries_storedScope, List.forall_mem_map]
      exact fun entry member => get?_scopeAsText.mpr ⟨entry.2, member, rfl⟩
    · exact selectsSame_of_sameText (validateScope_ofDict_eq_ok.mpr
        (validateScopeDict_stored cleans texts)) accepted
        (scopeAsText_storedScope unicode cleaned)
    · intro text found
      obtain ⟨value, member, rfl⟩ := get?_scopeAsText.mp found
      exact (texts _ member).2 rfl

def agentScope (value : Json) : Dict String Json := Dict.ofList [("agent_id", value)]

theorem scope_means_its_text_iff_claude :
    MeansItsText .ascii (agentScope (.str "Claude Code"))
      (agentScope (.str "claude-code")) := by
  refine (scope_means_its_text_iff .ascii _ _ (by decide +kernel)).mpr ?_
  intro entry member
  obtain rfl : entry = ("agent_id", .str "Claude Code") := List.mem_singleton.mp member
  exact ⟨by decide +kernel, fun _ notStr => absurd rfl (notStr "Claude Code")⟩

/-- A policy over `in_memory`, after one add with `agent_id` -5. -/
def holdingMinusFive : (InMemory.store .ascii).machine.State :=
  (Fallible.exec (InMemory.store .ascii).machine (fun _ => ⟨"a", "t"⟩)
    ((localPolicy .ascii).add (some ⟨"ann", ⟨"s", .writer⟩⟩) "x"
      (Json.ofDict (agentScope (.int (-5)))) none false) 0 {}).2.2

def listMinusFive (scope : Dict String Json) : Except Exc ListResult :=
  (Fallible.exec (InMemory.store .ascii).machine (fun _ => ⟨"b", "t"⟩)
    ((localPolicy .ascii).listMemories (some ⟨"ann", ⟨"s", .writer⟩⟩)
      (Json.ofDict scope) 10 none) 0 holdingMinusFive).1

def minusFive : Memory where
  id := "a"
  content := "x"
  scope := agentScope (.str "-5")
  createdAt := "t"
  partition := "s"
  system := systemFor "s" "ann" (some "ann")

theorem minusFive_not_found_by_its_text :
    listMinusFive (agentScope (.int (-5))) = .ok { memories := [minusFive] } ∧
      listMinusFive minusFive.scope = .ok { memories := [] } ∧
      ¬ AgentIdForm "-5".toList := by
  refine ⟨by decide +kernel, by decide +kernel, fun form => form.head ?_⟩
  decide

end Memcp
