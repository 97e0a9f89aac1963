import Memcp.HistoryLog
import Memcp.Mem0Isolation
import Memcp.ScopeMeaning

/-!
`delete_all` removes the memories of its scope, on the local backends with
their histories, and no others.
-/

namespace Memcp

open Python Interaction

/-! The scope of a bulk delete. -/

/-- Whether a stored scope holds every requested key with the text the write
path stores for the requested value. -/
def holdsRequested (unicode : Unicode) (scope : Dict String Json)
    (stored : Dict String String) : Bool :=
  scope.entries.all fun entry =>
    stored.get? entry.1 = some (storedText unicode entry.1 entry.2)

/-- `delete_all` accepts `scope` of `key`, as `cleaned`. -/
structure Accepts (policy : Policy) (key : Key) (scope cleaned : Dict String Json) :
    Prop where
  writer : key.grant.relation = .writer
  cleans : validateScope policy.unicode (Json.ofDict scope) policy.scopeKeys =
    .ok (some cleaned)
  filled : cleaned ≠ ∅

section Scopes

variable {policy : Policy} {key : Key} {scope cleaned : Dict String Json}

theorem Accepts.kept (accepts : Accepts policy key scope cleaned) :
    List.Forall₂ (KeptEntry policy.unicode) scope.entries cleaned.entries :=
  (validateScopeDict_eq_ok.mp (validateScope_ofDict_eq_ok.mp accepts.cleans)).1

theorem Accepts.given (accepts : Accepts policy key scope cleaned) :
    Dict.given (some cleaned) = some cleaned :=
  Dict.given_eq_some_iff.mpr ⟨rfl, accepts.filled⟩

theorem Accepts.allowed (accepts : Accepts policy key scope cleaned) :
    KeysAllowed policy.unicode scope policy.scopeKeys := by
  apply (validateScopeDict_eq_ok.mp (validateScope_ofDict_eq_ok.mp accepts.cleans)).2
  cases empty : scope.isEmpty with
  | false => rfl
  | true =>
      have keys := keys_of_kept accepts.kept
      rw [List.isEmpty_iff.mp empty] at keys
      exact absurd (Dict.ext (List.map_eq_nil_iff.mp keys)) accepts.filled

/-- Neither a value that is kept nor its text reads as "any". -/
theorem KeptEntry.concrete {unicode : Unicode} {entry kept : String × Json}
    (keeps : KeptEntry unicode entry kept) :
    isWildcard kept.2 = false ∧ Mem0.isIdentifier kept.2 = true ∧
      scopeText unicode kept.2 ≠ "" ∧ scopeText unicode kept.2 ≠ "*" := by
  have ofStr : ∀ text, isWildcard (.str text) = false →
      isWildcard (.str text) = false ∧ Mem0.isIdentifier (.str text) = true ∧
        scopeText unicode (.str text) ≠ "" ∧ scopeText unicode (.str text) ≠ "*" := by
    intro text wild
    refine ⟨wild, rfl, ?_, ?_⟩
    · rintro (rfl : text = "")
      exact absurd wild (by decide)
    · rintro (rfl : text = "*")
      exact absurd wild (by decide)
  obtain ⟨-, accepted⟩ := keeps
  by_cases raw : ∃ text, entry.2 = .str text
  · obtain ⟨text, raw⟩ := raw
    rw [raw] at accepted
    obtain ⟨-, wild, -, kind⟩ := validateScopeValue_str.mp accepted
    by_cases agent : entry.1 = "agent_id"
    · rw [if_pos agent] at kind
      rw [kind.2]
      have plain := ((normalizeAgentId_form unicode text).resolve_left kind.1).plain
      exact ofStr _ (not_isWildcard_of_plain plain.1 plain.2)
    · rw [if_neg agent] at kind
      rw [kind.2.2]
      exact ofStr _ wild
  · obtain ⟨-, number, same⟩ := (validateScopeValue_number
      fun text same => raw ⟨text, same⟩).mp accepted
    rw [same]
    obtain ⟨some, plain⟩ := scopeText_number unicode number
    have star : scopeText unicode entry.2 ≠ "*" := by
      intro star
      rw [star] at plain
      exact (plain '*' (by simp)).2 rfl
    cases value : entry.2 with
    | null | str | list | obj =>
        rw [value] at number
        cases number
    | bool | int | float => exact ⟨rfl, rfl, value ▸ some, value ▸ star⟩

theorem holdsRequested_of_kept {unicode : Unicode} {stored : Dict String String}
    {entries kept : List (String × Json)}
    (keeps : List.Forall₂ (KeptEntry unicode) entries kept) :
    (kept.all fun entry =>
      stored.get? entry.1 = some (scopeText unicode entry.2)) =
    entries.all fun entry =>
      stored.get? entry.1 = some (storedText unicode entry.1 entry.2) := by
  induction keeps with
  | nil => rfl
  | cons head tail induction =>
      rw [List.all_cons, List.all_cons, induction, head.1, scopeText_of_kept head]

theorem Accepts.storedHolds (accepts : Accepts policy key scope cleaned)
    (stored : Dict String String) :
    storedHolds policy.unicode stored cleaned =
      holdsRequested policy.unicode scope stored :=
  holdsRequested_of_kept accepts.kept

end Scopes

/-! The local backends. -/

namespace LocalBackend

variable {unicode : Unicode}

/-- The change log kept under an id, whether a memory has the id or not. -/
def log : (backend : LocalBackend) → (backend.store unicode).State → String →
    List HistoryEntry
  | .inMemory, state, memoryId =>
      ((InMemory.State.history state).get? memoryId).getD []
  | .sqlite _, database, memoryId =>
      (Sqlite.Database.committed database).log memoryId

variable (backend : LocalBackend) {state : (backend.store unicode).State}
  (valid : (backend.representation unicode).valid state)
include valid

theorem id_unique {first second : String} {left right : Item}
    (leftMember : left ∈ (backend.representation unicode).spaces state first)
    (rightMember : right ∈ (backend.representation unicode).spaces state second)
    (same : left.id = right.id) : first = second ∧ left = right := by
  cases backend with
  | inMemory =>
      obtain ⟨row, member, rfl, rfl⟩ := mem_spacesOf.mp leftMember
      obtain ⟨row', member', rfl, rfl⟩ := mem_spacesOf.mp rightMember
      obtain rfl := Dict.entry_unique member member' same
      exact ⟨rfl, rfl⟩
  | sqlite codec =>
      obtain ⟨row, member, rfl, rfl⟩ := mem_spacesOf.mp leftMember
      obtain ⟨row', member', rfl, rfl⟩ := mem_spacesOf.mp rightMember
      obtain rfl := Sqlite.row_unique valid.tables member member' same
      exact ⟨rfl, rfl⟩

theorem log_of_stored {space : String} {item : Item}
    (member : item ∈ (backend.representation unicode).spaces state space) :
    backend.log state item.id = item.log := by
  cases backend with
  | inMemory =>
      obtain ⟨row, -, -, rfl⟩ := mem_spacesOf.mp member
      rfl
  | sqlite codec =>
      obtain ⟨row, -, -, rfl⟩ := mem_spacesOf.mp member
      exact congrArg (List.map Sqlite.historyEntry) (valid.tables.selectHistory_eq row.id)

theorem log_of_absent {memoryId : String}
    (absent : ((backend.representation unicode).spaces state).Unused memoryId) :
    backend.log state memoryId = [] := by
  cases backend with
  | inMemory =>
      have unlogged : memoryId ∉ InMemory.State.history state := by
        rw [valid memoryId]
        intro member
        obtain ⟨entry, stored⟩ := Dict.mem_iff_exists.mp member
        exact absent entry.userId _ (mem_spacesOf.mpr ⟨_, stored, rfl, rfl⟩) rfl
      exact congrArg (Option.getD · []) (Dict.get?_eq_none_iff.mpr unlogged)
  | sqlite codec =>
      have unlogged : (Sqlite.Database.committed state).history.filter
          (fun row => row.memoryId = memoryId) = [] := by
        rw [List.filter_eq_nil_iff]
        intro row member same
        obtain ⟨stored, found, named⟩ := List.mem_map.mp (valid.tables.logged row member)
        apply absent stored.userId _ (mem_spacesOf.mpr ⟨stored, found, rfl, rfl⟩)
        exact named.trans (by simpa using same)
      exact congrArg (List.map Sqlite.historyEntry)
        ((valid.tables.selectHistory_eq memoryId).trans unlogged)

end LocalBackend

/-- What a bulk delete of `doomed` memories of a space leaves. -/
structure LeavesOut (space : String) (doomed : Item → Bool) (before later : Spaces)
    (log log' : String → List HistoryEntry) : Prop where
  spaces : later = Function.update before space
    ((before space).filter fun item => !doomed item)
  logs : ∀ memoryId, log' memoryId =
    if memoryId ∈ ((before space).filter doomed).map Item.id then []
    else log memoryId

/-- `delete_all` as every backend has it: the memories of the partition that the
scope selects are gone with their logs, and the reply is how many they were. -/
def DeletesAll (unicode : Unicode) (partition : String) (scope : Dict String Json)
    (reply : Except Exc (Option Nat)) (before later : Spaces)
    (log log' : String → List HistoryEntry) : Prop :=
  let doomed := fun item : Item => storedHolds unicode item.scope scope
  reply = .ok (some ((before partition).filter doomed).length) ∧
    LeavesOut partition doomed before later log log'

namespace LocalBackend

variable {unicode : Unicode} (backend : LocalBackend)
  {state later : (backend.store unicode).State}

/-- Dropping memories drops their logs and no others. -/
theorem leavesOut_of_spaces (valid : (backend.representation unicode).valid state)
    (validLater : (backend.representation unicode).valid later) {space : String}
    {doomed : Item → Bool}
    (dropped : (backend.representation unicode).spaces later =
      Function.update ((backend.representation unicode).spaces state) space
        (((backend.representation unicode).spaces state space).filter
          fun item => !doomed item)) :
    LeavesOut space doomed ((backend.representation unicode).spaces state)
      ((backend.representation unicode).spaces later) (backend.log state)
      (backend.log later) := by
  have left : ∀ partition item,
      item ∈ (backend.representation unicode).spaces later partition ↔
        item ∈ (backend.representation unicode).spaces state partition ∧
          (partition = space → doomed item = false) := by
    intro partition item
    rw [dropped]
    rcases eq_or_ne partition space with rfl | other
    · simp [Function.update_self]
    · simp [other]
  refine ⟨dropped, fun memoryId => ?_⟩
  split
  case isTrue listed =>
    obtain ⟨item, member, rfl⟩ := List.mem_map.mp listed
    obtain ⟨member, doom⟩ := List.mem_filter.mp member
    apply backend.log_of_absent validLater
    intro partition other kept same
    obtain ⟨stored, spared⟩ := (left partition other).mp kept
    obtain ⟨rfl, rfl⟩ := backend.id_unique valid stored member same
    rw [spared rfl] at doom
    cases doom
  case isFalse spared =>
    by_cases stored : ((backend.representation unicode).spaces state).Unused memoryId
    · rw [backend.log_of_absent valid stored]
      apply backend.log_of_absent validLater
      intro partition item kept
      exact stored partition item ((left partition item).mp kept).1
    · simp only [Spaces.Unused, not_forall, not_not] at stored
      obtain ⟨partition, item, member, rfl⟩ := stored
      have kept : item ∈ (backend.representation unicode).spaces later partition := by
        refine (left partition item).mpr ⟨member, ?_⟩
        rintro rfl
        by_contra doom
        exact spared (List.mem_map.mpr ⟨item, List.mem_filter.mpr
          ⟨member, by simpa using doom⟩, rfl⟩)
      rw [backend.log_of_stored validLater kept, backend.log_of_stored valid member]

/-- `delete_all` of a backend does what it is for. -/
theorem deletesAll (valid : (backend.representation unicode).valid state) (fresh : Fresh)
    {partition : String} {scope : Dict String Json}
    (flat : rejectNestedFilters unicode scope = .ok ()) :
    let ran := (backend.store unicode).perform fresh (.deleteAll partition scope) state
    let spaces := (backend.representation unicode).spaces
    DeletesAll unicode partition scope ran.1 (spaces state) (spaces ran.2)
      (backend.log state) (backend.log ran.2) := by
  intro ran spaces
  have simulates := (backend.representation unicode).simulates valid fresh
    (show (BackendCall.deleteAll partition scope).isAdd = false from rfl)
  have abstract : Space.perform unicode fresh (.deleteAll partition scope)
      (spaces state partition) =
        (.ok (some (Space.selected unicode (some scope) (spaces state partition)).length),
          (spaces state partition).filter fun item =>
            !storedHolds unicode item.scope scope) := by
    simp only [Space.perform, Space.deleteAll, flat]
  constructor
  · rw [simulates.reply, Spaces.perform_named rfl, abstract]
    rfl
  · apply backend.leavesOut_of_spaces valid simulates.valid
    rw [simulates.spaces, Spaces.perform_named rfl, abstract]

theorem deleteAll_leavesOut (valid : (backend.representation unicode).valid state)
    {key : Key} {scope cleaned : Dict String Json}
    (accepts : Accepts (localPolicy unicode) key scope cleaned)
    (supply : Nat → Fresh) (asked : Nat) :
    let run := Fallible.exec (backend.store unicode).machine supply
      ((localPolicy unicode).deleteAll (some key) (Json.ofDict scope)) asked state
    let doomed : Item → Bool := fun item => holdsRequested unicode scope item.scope
    let spaces := (backend.representation unicode).spaces
    run.1 = .ok (some ((spaces state key.grant.space).filter doomed).length) ∧
      LeavesOut key.grant.space doomed (spaces state) (spaces run.2.2)
        (backend.log state) (backend.log run.2.2) := by
  intro run doomed spaces
  let call : BackendCall := .deleteAll key.grant.space cleaned
  have flat : rejectNestedFilters unicode cleaned = .ok () := by
    rw [rejectNestedFilters_congr (keys_of_kept accepts.kept)]
    exact accepts.allowed.flat
  have holds : (fun item : Item => storedHolds unicode item.scope cleaned) = doomed :=
    funext fun item => accepts.storedHolds item.scope
  have ran : run = (((backend.store unicode).perform (supply asked) call state).1,
      asked + 2, ((backend.store unicode).perform (supply asked) call state).2) := by
    simp only [run]
    rw [deleteAll_exec]
    simp only [require_writer, accepts.writer, accepts.cleans, accepts.given, if_true,
      bind, Except.bind]
    rfl
  rw [ran, ← holds]
  exact backend.deletesAll valid (supply asked) flat

end LocalBackend

/-! mem0. -/

namespace Mem0

/-- The scope of a record as a response shows it. -/
def Record.scope (record : Record) : Dict String String :=
  ((∅ : Dict String String).setSome "agent_id" record.agentId).setSome "run_id"
    record.runId

/-- Whether a record matches a parameter of a bulk delete: an empty, `*` or
missing value is read as "any". -/
def Record.passes (params : Dict String Json) (record : Record) (key : String) : Bool :=
  match params.get? key with
  | none => true
  | some value =>
      value = .str "" || value = .str "*" || record.field key = some value

/-- Whether a bulk delete removes a record; other parameters are ignored. -/
def Record.matched (params : Dict String Json) (record : Record) : Bool :=
  ["user_id", "agent_id", "run_id"].all (record.passes params)

def serveWide (choice : Choice) : HttpRequest → State → HttpResponse × State
  | .deleteMemories params, state =>
      (.json (.obj [("message", .str "deleted")]),
        state.remove choice.now fun _ record => record.matched params)
  | call, state => serve choice call state

/-- A server whose bulk delete reads its parameters so, and which may fail to
answer. -/
abbrev wideServer : Machine http Choice where
  State := State
  perform choice call state :=
    match choice.failure with
    | none => serveWide choice call state
    | some failure => (failure.response,
        if failure.performed then (serveWide choice call state).2 else state)

variable {unicode : Unicode}

/-- The parameters of a scope that passes the adapter's checks. -/
theorem withScope_eq {target scope : Dict String Json} (filled : scope ≠ ∅)
    (flat : rejectNestedFilters unicode scope = .ok ())
    (noUser : "user_id" ∉ scope)
    (concretes : ∀ entry ∈ scope.entries, isWildcard entry.2 = false) :
    withScope unicode target (some scope) =
      .ok (target.update (scope.map fun _ value => .str (scopeText unicode value))) := by
  have others : scope.entries.filter (fun entry => entry.1 ≠ "user_id") =
      scope.entries := by
    rw [List.filter_eq_self]
    intro entry member
    have distinct : entry.1 ≠ "user_id" := by
      intro user
      exact noUser (Dict.mem_iff_exists.mpr ⟨entry.2, user ▸ member⟩)
    simpa using distinct
  unfold withScope
  rw [Dict.given_eq_some_iff.mpr ⟨rfl, filled⟩]
  simp only [scopeItems, flat]
  have folded := (@foldlM_concrete unicode scope.entries target _).mpr
    ⟨concretes, rfl⟩
  exact (congrArg (fun entries => List.foldlM _ target entries) others).trans folded

section Runs

variable {key : Key} {scope cleaned : Dict String Json}
  (accepts : Accepts (mem0Policy unicode) key scope cleaned)
include accepts

/-- An accepted scope leaves the adapter's one call to make. -/
theorem deleteAll_interpret (timestamps : Timestamps) :
    @Program.interpret effects http _ (handle unicode timestamps)
      ((mem0Policy unicode).deleteAll (some key) (Json.ofDict scope)) =
      deleteAll unicode key.grant.space cleaned := by
  have granted : require (some key) .writer = .ok key := by
    rw [require_writer, if_pos accepts.writer]
  have lifted : ∀ {α β : Type} (value : α) (rest : α → Operation β) entry,
      (liftM (.ok value : Except Exc α) >>= rest : Operation β) entry =
        rest value entry := fun _ _ _ => rfl
  have recorded : ∀ {β : Type} (f : AuditEntry → AuditEntry) (rest : Unit → Operation β)
      entry, (Operation.record f >>= rest : Operation β) entry = rest () (f entry) :=
    fun _ _ _ => rfl
  unfold Policy.deleteAll audited
  simp only [granted, accepts.cleans, lifted, recorded, accepts.given]
  refine Eq.trans (congrArg (Program.bind _) (funext fun reply => ?_))
    (Program.bind_done _)
  cases reply with
  | ok count => rfl
  | error error => rfl

theorem get?_cleaned {name : String} {value : Json}
    (found : cleaned.get? name = some value) :
    (name = "agent_id" ∨ name = "run_id") ∧ scopeText unicode value ≠ "" ∧
      scopeText unicode value ≠ "*" := by
  have member := Dict.get?_eq_some_iff.mp found
  obtain ⟨entry, requested, keeps⟩ := List.Forall₂.exists_left accepts.kept member
  have named : entry.1 ∈ mem0ScopeKeys :=
    accepts.allowed.known entry.1 (List.mem_map_of_mem requested)
  rw [← keeps.1] at named
  exact ⟨by simpa [mem0ScopeKeys] using named, keeps.concrete.2.2⟩

theorem passes_scope_iff (target : Dict String Json) {name : String}
    (known : name = "agent_id" ∨ name = "run_id") (other : target.get? name = none)
    (record : Record) :
    record.passes (target.update
      (cleaned.map fun _ value => .str (scopeText unicode value))) name = true ↔
      ∀ value, cleaned.get? name = some value →
        record.scope.get? name = some (scopeText unicode value) := by
  have shown : record.field name = (record.scope.get? name).map .str := by
    rcases known with rfl | rfl
    · cases agent : record.agentId <;> cases run : record.runId <;>
        simp [Record.field, Record.scope, Dict.setSome, agent, run, Dict.get?_set]
    · cases agent : record.agentId <;> cases run : record.runId <;>
        simp [Record.field, Record.scope, Dict.setSome, agent, run, Dict.get?_set]
  unfold Record.passes
  rw [Dict.get?_update, other, Dict.get?_map, Option.or_none]
  cases found : cleaned.get? name with
  | none => simp
  | some value =>
      obtain ⟨-, some, star⟩ := get?_cleaned accepts found
      simp [some, star, shown]

theorem storedHolds_cleaned_iff (stored : Dict String String) :
    storedHolds unicode stored cleaned = true ↔
      (∀ value, cleaned.get? "agent_id" = some value →
        stored.get? "agent_id" = some (scopeText unicode value)) ∧
      ∀ value, cleaned.get? "run_id" = some value →
        stored.get? "run_id" = some (scopeText unicode value) := by
  simp only [storedHolds, List.all_eq_true, decide_eq_true_eq]
  constructor
  · intro holds
    exact ⟨fun value found => holds _ (Dict.get?_eq_some_iff.mp found),
      fun value found => holds _ (Dict.get?_eq_some_iff.mp found)⟩
  · rintro ⟨agent, run⟩ ⟨name, value⟩ member
    have found := Dict.get?_eq_some_iff.mpr member
    rcases (get?_cleaned accepts found).1 with rfl | rfl
    · exact agent value found
    · exact run value found

/-- The adapter's bulk delete matches the records of the space and the scope. -/
theorem matched_eq (usable : refusePartition unicode key.grant.space = .ok ())
    (record : Record) :
    record.matched ((Dict.ofList [("user_id", Json.str key.grant.space)]).update
      (cleaned.map fun _ value => .str (scopeText unicode value))) =
      (decide (record.userId = key.grant.space) &&
        holdsRequested unicode scope record.scope) := by
  have named : key.grant.space ≠ "" ∧ key.grant.space ≠ "*" := by
    unfold refusePartition at usable
    split at usable
    case isTrue => cases usable
    case isFalse fine =>
      simp only [not_or] at fine
      exact ⟨fine.1, fine.2.1⟩
  have noUser : cleaned.get? "user_id" = none := by
    cases found : cleaned.get? "user_id" with
    | none => rfl
    | some value =>
        have known := (get?_cleaned accepts found).1
        exact absurd known (by decide)
  have user : record.passes ((Dict.ofList [("user_id", Json.str key.grant.space)]).update
      (cleaned.map fun _ value => .str (scopeText unicode value))) "user_id" = true ↔
      record.userId = key.grant.space := by
    unfold Record.passes
    rw [Dict.get?_update, Dict.get?_map, noUser]
    simp [Dict.get?_ofList, named, Record.field]
  have holds : storedHolds unicode record.scope cleaned =
      holdsRequested unicode scope record.scope := accepts.storedHolds record.scope
  have agent := passes_scope_iff accepts
    (Dict.ofList [("user_id", Json.str key.grant.space)]) (.inl rfl)
    (by simp [Dict.get?_ofList]) record
  have run := passes_scope_iff accepts
    (Dict.ofList [("user_id", Json.str key.grant.space)]) (.inr rfl)
    (by simp [Dict.get?_ofList]) record
  rw [← holds, Bool.eq_iff_iff, Bool.and_eq_true, decide_eq_true_eq,
    storedHolds_cleaned_iff accepts, ← user, ← agent, ← run]
  simp [Record.matched]

theorem deleteAll_request (usable : refusePartition unicode key.grant.space = .ok ()) :
    deleteAll unicode key.grant.space cleaned = (do
      let _ ← request (.deleteMemories
        ((Dict.ofList [("user_id", Json.str key.grant.space)]).update
          (cleaned.map fun _ value => .str (scopeText unicode value))))
      return none) := by
  have flat : rejectNestedFilters unicode cleaned = .ok () := by
    rw [rejectNestedFilters_congr (keys_of_kept accepts.kept)]
    exact accepts.allowed.flat
  have noUser : "user_id" ∉ cleaned := by
    intro user
    obtain ⟨value, found⟩ := Dict.exists_of_mem user
    exact absurd (get?_cleaned accepts found).1 (by decide)
  have concretes : ∀ entry ∈ cleaned.entries,
      isWildcard entry.2 = false ∧ isIdentifier entry.2 = true := by
    intro entry member
    obtain ⟨_, _, keeps⟩ := List.Forall₂.exists_left accepts.kept member
    exact ⟨keeps.concrete.1, keeps.concrete.2.1⟩
  have plain : (cleaned.entries.any fun entry =>
      entry.1 ∉ mem0ScopeKeys || !isIdentifier entry.2) = false := by
    rw [List.any_eq_false]
    intro entry member
    have known := (get?_cleaned accepts (Dict.get?_eq_some_iff.mpr member)).1
    simpa [mem0ScopeKeys, (concretes entry member).2, or_iff_not_imp_left] using known
  have built : withScope unicode (Dict.ofList [("user_id", .str key.grant.space)])
      (some cleaned) = .ok _ :=
    withScope_eq accepts.filled flat noUser fun entry member =>
      (concretes entry member).1
  unfold deleteAll
  simp only [usable, plain, buildIdentifierParams, built]
  rfl

/-- The server's answer to the one request of an accepted bulk delete. -/
theorem deleteAll_exec_mem0 (timestamps : Timestamps)
    (usable : refusePartition unicode key.grant.space = .ok ())
    (choices : Nat → Choice) (asked : Nat) (state : State) :
    let run := Fallible.exec wideServer choices
      (@Program.interpret effects http _ (handle unicode timestamps)
        ((mem0Policy unicode).deleteAll (some key) (Json.ofDict scope))) asked state
    let removed := state.remove (choices asked).now fun _ record =>
      decide (record.userId = key.grant.space) &&
        holdsRequested unicode scope record.scope
    match (choices asked).failure with
    | none => run = (.ok none, asked + 1, removed)
    | some failure => run = (.error failure.error, asked + 1,
        if failure.performed then removed else state) := by
  intro run removed
  have test : (fun (_ : String) (record : Record) => record.matched
      ((Dict.ofList [("user_id", Json.str key.grant.space)]).update
        (cleaned.map fun _ value => .str (scopeText unicode value)))) =
      fun _ record => decide (record.userId = key.grant.space) &&
        holdsRequested unicode scope record.scope :=
    funext fun _ => funext fun record => matched_eq accepts usable record
  have ran : run = Fallible.exec wideServer choices _ asked state :=
    congrArg (Fallible.exec wideServer choices · asked state)
      ((deleteAll_interpret accepts timestamps).trans
        (deleteAll_request accepts usable))
  have requested : ∀ call, Fallible.exec wideServer choices (request call) asked state =
      ((wideServer.perform (choices asked) call state).1.outcome, asked + 1,
        (wideServer.perform (choices asked) call state).2) := fun _ => rfl
  rw [Fallible.exec_bind, requested] at ran
  cases failed : (choices asked).failure with
  | none =>
      simp only [failed, serveWide, test] at ran
      exact ran
  | some failure =>
      simp only [failed, failure.fails, serveWide, test] at ran
      exact ran

end Runs

end Mem0

open Mem0

theorem bulk_delete_deletes_its_scope (unicode : Unicode) (key : Key)
    (scope cleaned : Dict String Json) :
    (Accepts (localPolicy unicode) key scope cleaned →
      ∀ (backend : LocalBackend) (state : (backend.store unicode).State),
        (backend.representation unicode).valid state → ∀ supply asked,
        let run := Fallible.exec (backend.store unicode).machine supply
          ((localPolicy unicode).deleteAll (some key) (Json.ofDict scope)) asked state
        let doomed : Item → Bool := fun item => holdsRequested unicode scope item.scope
        let spaces := (backend.representation unicode).spaces
        run.1 = .ok (some ((spaces state key.grant.space).filter doomed).length) ∧
          LeavesOut key.grant.space doomed (spaces state) (spaces run.2.2)
            (backend.log state) (backend.log run.2.2)) ∧
    (Accepts (mem0Policy unicode) key scope cleaned →
      refusePartition unicode key.grant.space = .ok () →
      ∀ timestamps (choices : Nat → Choice) asked (state : Mem0.State),
        let run := Fallible.exec wideServer choices
          (@Program.interpret effects http _ (handle unicode timestamps)
            ((mem0Policy unicode).deleteAll (some key) (Json.ofDict scope))) asked state
        let removed := state.remove (choices asked).now fun _ record =>
          decide (record.userId = key.grant.space) &&
            holdsRequested unicode scope record.scope
        match (choices asked).failure with
        | none => run = (.ok none, asked + 1, removed)
        | some failure => run = (.error failure.error, asked + 1,
            if failure.performed then removed else state)) :=
  ⟨fun accepts backend _ valid supply asked =>
      backend.deleteAll_leavesOut valid accepts supply asked,
    fun accepts usable timestamps choices asked state =>
      deleteAll_exec_mem0 accepts timestamps usable choices asked state⟩

/-! A memory of the agent `claude-code`, deleted as one of `Claude Code`. -/

/-- A space of one memory of an agent. -/
def holdingAgent : InMemory.State :=
  (InMemory.perform .ascii ⟨"a", "t"⟩ (.add "s" "x"
    (some (Dict.ofList [("agent_id", .str "claude-code")])) none false none) {}).2

def agentWriter : Key := ⟨"ann", ⟨"s", .writer⟩⟩

/-- Two records of a space, one of the agent. -/
def serverHoldingAgent : Mem0.State :=
  (Mem0.State.empty.insert "a" "t"
    { userId := "s", text := "x", agentId := some "claude-code" }).insert "b" "t"
      { userId := "s", text := "y" }

theorem bulk_delete_deletes_its_scope_agent :
    let scope := Dict.ofList [("agent_id", Json.str "claude-code")]
    (Fallible.exec (LocalBackend.inMemory.store .ascii).machine (fun _ => ⟨"b", "t"⟩)
      ((localPolicy .ascii).deleteAll (some agentWriter) (Json.ofDict scope)) 0
        holdingAgent).1 = .ok (some 1) ∧
    (Fallible.exec wideServer (fun _ => { id := "c", now := "t" })
      (@Program.interpret effects http _
        (handle .ascii ⟨Nat, inferInstance, fun _ => none⟩)
        ((mem0Policy .ascii).deleteAll (some agentWriter) (Json.ofDict scope))) 0
        serverHoldingAgent).2.2.records.keys = ["b"] := by
  intro scope
  obtain ⟨onLocal, onMem0⟩ :=
    bulk_delete_deletes_its_scope .ascii agentWriter scope scope
  have valid : InMemory.Valid holdingAgent :=
    ((InMemory.representation .ascii).step _ _ _
      (InMemory.representation .ascii).valid_initial fun _ => by
        rw [(InMemory.representation .ascii).spaces_initial]
        exact nofun).valid
  constructor
  · exact (onLocal ⟨rfl, by decide +kernel, by decide +kernel⟩ .inMemory holdingAgent
      valid _ 0).1.trans (by decide +kernel)
  · have removes := onMem0 ⟨rfl, by decide +kernel, by decide +kernel⟩
      (by decide +kernel) ⟨Nat, inferInstance, fun _ => none⟩
      (fun _ => { id := "c", now := "t" }) 0 serverHoldingAgent
    refine (congrArg (fun run : Except Exc (Option Nat) × Nat × Mem0.State =>
      run.2.2.records.keys) removes).trans (?_ : _ = ["b"])
    decide +kernel

theorem agent_id_is_normalized_first :
    let scope := Dict.ofList [("agent_id", Json.str "Claude Code")]
    let run := Fallible.exec (InMemory.store .ascii).machine (fun _ => ⟨"b", "t"⟩)
      ((localPolicy .ascii).deleteAll (some agentWriter) (Json.ofDict scope)) 0
      holdingAgent
    run.1 = .ok (some 1) ∧
      (InMemory.spaces holdingAgent "s").map (fun item => item.scope.get? "agent_id") =
        [some "claude-code"] ∧
      (InMemory.spaces run.2.2 "s").map Item.id = [] ∧
      scopeText .ascii (.str "Claude Code") ≠ "claude-code" := by
  decide +kernel

end Memcp
