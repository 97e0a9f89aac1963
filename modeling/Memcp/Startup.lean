import Memcp.Http.App
import Memcp.HttpRequests

/-!
Which servers start, and what a started server asks its backend for.
-/

namespace Memcp

open Python Interaction

/-- `serve` up to the point where it listens. -/
def serve (unicode : Unicode) (ipLoopback : String → Option Bool)
    (readKeys : String → Except Exc KeysFile) (sha256 : String → String)
    (environment : Settings) : Except Exc App := do
  let config ← Config.ofEnvironment ipLoopback environment
  createApp unicode readKeys sha256 config

/-! The settings. -/

namespace Settings

variable {settings : Settings} {ipLoopback : String → Option Bool}

end Settings

section Granted

variable {unicode : Unicode} {backend : MemoryBackend}

/-- Whether a key may be granted a space on a backend. -/
def BackendName.Usable (name : BackendName) (space : String) : Prop :=
  strip space ≠ "" ∧ strip space ≠ "*" ∧ (name = .mem0 → space = strip space)

theorem validatePartition_eq_ok {space : String} (named : strip space ≠ "")
    (single : strip space ≠ "*") :
    backend.validatePartition unicode space = .ok () ↔
      (backend.name = .mem0 → space = strip space) := by
  cases backend with
  | inMemory => simp [MemoryBackend.validatePartition, MemoryBackend.name]
  | sqlite path => simp [MemoryBackend.validatePartition, MemoryBackend.name]
  | mem0 apiBase apiKey =>
      have own : space = strip space → ¬ (space = "" ∨ space = "*" ∨ space ≠ strip space) := by
        rintro trimmed (empty | star | untrimmed)
        · exact named (trimmed ▸ empty)
        · exact single (trimmed ▸ star)
        · exact untrimmed trimmed
      unfold MemoryBackend.validatePartition
      constructor
      · intro accepted same
        by_contra untrimmed
        rw [if_pos (.inr (.inr untrimmed))] at accepted
        cases accepted
      · intro trimmed
        exact if_neg (own (trimmed rfl))

theorem refuseUnusablePartition_eq_ok {space : String} :
    refuseUnusablePartition unicode (backend.validatePartition unicode) space = .ok () ↔
      backend.name.Usable space := by
  unfold refuseUnusablePartition
  dsimp only
  split
  case isTrue wildcard =>
    refine ⟨fun accepted => ?_, fun usable => ?_⟩
    · cases accepted
    · simp [isWildcard, usable.1, usable.2.1] at wildcard
  case isFalse named =>
    have own : strip space ≠ "" ∧ strip space ≠ "*" := by
      simpa [isWildcard] using named
    rw [validatePartition_eq_ok own.1 own.2]
    exact ⟨fun trimmed => ⟨own.1, own.2, trimmed⟩, fun usable => usable.2.2⟩

/-- The loop over the granted spaces ends at the first that is not usable. -/
theorem guards_spaces :
    List.Guards (checkGrantedSpace unicode (backend.validatePartition unicode))
      (fun spaces => spaces.flatMap fun space =>
        (notPortable unicode space).toList.map fun reason =>
          "Granted space " ++ repr unicode space ++
            " may not be portable to every backend: " ++ reason)
      (fun spaces => ∀ space ∈ spaces, backend.name.Usable space) (fun _ => True) where
  earlier spaces space usable other member :=
    usable other (List.mem_append_left _ member)
  passes spaces space usable := by
    have accepted := (@refuseUnusablePartition_eq_ok unicode backend space).mpr
      (usable space (List.mem_append_right _ List.mem_cons_self))
    rw [checkGrantedSpace, accepted, List.flatMap_append, List.flatMap_singleton]
  raises spaces space usable unusable := by
    cases checked : refuseUnusablePartition unicode (backend.validatePartition unicode)
        space with
    | error error =>
        rw [checkGrantedSpace, checked]
        exact ⟨_, rfl, trivial⟩
    | ok =>
        refine absurd (fun other member => ?_) unusable
        rcases List.mem_append.mp member with earlier | last
        · exact usable other earlier
        · rw [List.mem_singleton.mp last]
          exact refuseUnusablePartition_eq_ok.mp checked

theorem checkGrantedSpaces_ok_iff {spaces : List String} :
    (∃ warnings, checkGrantedSpaces unicode (backend.validatePartition unicode) spaces =
      .ok warnings) ↔ ∀ space ∈ spaces, backend.name.Usable space := by
  have same : ∀ space, space ∈ (Dict.ofList (spaces.map fun space => (space, ()))).keys ↔
      space ∈ spaces := by
    intro space
    rw [← Dict.mem_iff_keys, Dict.mem_ofList_iff]
    simp
  constructor
  · rintro ⟨warnings, accepted⟩ space member
    by_contra unusable
    obtain ⟨error, raised, -⟩ := (@guards_spaces unicode backend).foldlM_error _ nofun
      fun usable => unusable (usable space ((same space).mpr member))
    cases accepted.symm.trans raised
  · intro usable
    exact ⟨_, (@guards_spaces unicode backend).foldlM_ok fun space member =>
      usable space ((same space).mp member)⟩

end Granted

/-! The app. -/

theorem mem_keys_of_resolve {sha256 : String → String} {token : String} {table : KeyTable}
    {key : Key} (resolved : table.resolve sha256 token = some key) : key ∈ table.keys := by
  have listed : key ∈ table.byDigest.values := by
    rw [KeyTable.resolve, Dict.get?_eq_some_iff] at resolved
    exact List.mem_map.mpr ⟨_, resolved, rfl⟩
  rw [KeyTable.keys, ← Dict.mem_iff_keys, Dict.mem_ofList_iff]
  simpa using listed

/-- A request is served as the local key, or as a key of the table. -/
theorem identify_granted {gate : BearerGate} {scope : HttpScope} {key : Key}
    (identified : gate.identify scope = .ok key) :
    key ∈ gate.keys.elim [localKey] KeyTable.keys := by
  unfold BearerGate.identify at identified
  split at identified
  case h_1 unset =>
    cases identified
    rw [unset]
    exact List.mem_cons_self
  case h_2 table configured =>
    split at identified
    case h_1 => cases identified
    case h_2 token brings =>
      split at identified
      case h_1 => cases identified
      case h_2 found resolved =>
        cases identified
        rw [configured]
        exact mem_keys_of_resolve resolved

section App

variable {unicode : Unicode} {ipLoopback : String → Option Bool}
  {readKeys : String → Except Exc KeysFile} {sha256 : String → String}
  {config : Config ipLoopback} {app : App}

theorem createApp_eq_ok :
    createApp unicode readKeys sha256 config = .ok app ↔
      ∃ keys, configuredKeys readKeys config.memcpKeysFile = .ok keys ∧
        config.createBackend = .ok app.backend ∧ app.gate = { keys, sha256 } ∧
        checkGrantedSpaces unicode (app.backend.validatePartition unicode)
          ((keys.elim [localKey] KeyTable.keys).map fun key => key.grant.space) =
            .ok app.warnings := by
  unfold createApp
  constructor
  · intro created
    obtain ⟨keys, configured, created⟩ := bind_eq_ok.mp created
    obtain ⟨backend, chosen, created⟩ := bind_eq_ok.mp created
    obtain ⟨warnings, checked, created⟩ := bind_eq_ok.mp created
    cases created
    exact ⟨keys, configured, chosen, rfl, checked⟩
  · rintro ⟨keys, configured, chosen, gate, checked⟩
    obtain ⟨_, backend, warnings⟩ := app
    cases gate
    exact bind_eq_ok.mpr ⟨keys, configured, bind_eq_ok.mpr ⟨backend, chosen,
      bind_eq_ok.mpr ⟨warnings, checked, rfl⟩⟩⟩

end App

theorem identify_usable {unicode : Unicode} {ipLoopback : String → Option Bool}
    {readKeys : String → Except Exc KeysFile} {sha256 : String → String}
    {environment : Settings} {app : App} {scope : HttpScope} {key : Key}
    (started : serve unicode ipLoopback readKeys sha256 environment = .ok app)
    (identified : app.gate.identify scope = .ok key) :
    app.backend.name.Usable key.grant.space := by
  obtain ⟨config, -, created⟩ := bind_eq_ok.mp started
  obtain ⟨keys, -, -, gate, checked⟩ := createApp_eq_ok.mp created
  have granted := identify_granted identified
  rw [gate] at granted
  exact checkGrantedSpaces_ok_iff.mp ⟨_, checked⟩ _ (List.mem_map_of_mem granted)

/-- Whatever its clients send, a started server asks its backend for no partition the
backend can't keep apart. -/
theorem started_servers_ask_for_usable_partitions {unicode : Unicode}
    {ipLoopback : String → Option Bool} {readKeys : String → Except Exc KeysFile}
    {sha256 : String → String} {environment : Settings} {app : App}
    (started : serve unicode ipLoopback readKeys sha256 environment = .ok app)
    {α Supply Task : Type} [DecidableEq Task] (mcp : McpServer (app.backend.policy unicode) α)
    (machine : Machine effects Supply) (state : machine.State)
    (supply : Task → Nat → Supply) (scopes : Task → HttpScope) (schedule : List Task)
    (task : Task) :
    let pool := Pool.run machine supply
      (Pool.start state fun task => app.gate.call mcp (scopes task)) schedule
    ∀ event ∈ pool.past task, ∀ call, event.call = .backend call →
      ∀ partition, call.partition? = some partition →
        partition ≠ "" ∧ partition ≠ "*" ∧
          app.backend.validatePartition unicode partition = .ok () ∧
          (app.backend.name = .mem0 → Mem0.refusePartition unicode partition = .ok ()) := by
  intro pool
  let Asks : Effect → Prop := fun effect => ∀ call, effect = .backend call →
    ∀ partition, call.partition? = some partition → app.backend.name.Usable partition
  have safe : Safe (fun _ => Asks) (fun _ _ => True) (app.gate.call mcp (scopes task)) [] := by
    by_cases http : (scopes task).type = "http"
    · cases identified : app.gate.identify (scopes task) with
      | error warning =>
          rw [call_refused http identified]
          exact trivial
      | ok key =>
          refine Safe.mono (call_served http identified) ?_ fun _ _ _ => trivial
          rintro past effect served call rfl partition names
          rw [served.1 partition names]
          exact identify_usable started identified
    · refine Safe.mono (call_unkeyed http) ?_ fun _ _ _ => trivial
      rintro past effect unkeyed call rfl
      exact unkeyed.elim
  intro event member call asks partition names
  obtain ⟨named, single, trimmed⟩ := Pool.past_allowed safe
    (fun _ member => absurd member List.not_mem_nil) schedule event member call asks
    partition names
  have accepted : app.backend.validatePartition unicode partition = .ok () :=
    (validatePartition_eq_ok named single).mpr trimmed
  refine ⟨?_, ?_, accepted, fun store => ?_⟩
  · rintro rfl
    exact named (by decide)
  · rintro rfl
    exact single (by decide)
  · cases chosen : app.backend with
    | mem0 apiBase apiKey =>
        rw [chosen] at accepted
        exact MemoryBackend.refusePartition_eq_ok.mpr accepted
    | _ =>
        rw [chosen] at store
        cases store

theorem started_servers_ask_for_usable_partitions_mem0 :
    let sha256 := fun token => if token = "new" then String.ofList (List.replicate 64 'b') else ""
    let app : App :=
      { gate := { keys := some ⟨Dict.ofList rotatingKeys.resolutions⟩, sha256 }
        backend := .mem0 "http://mem0" "secret", warnings := [] }
    let mcp : McpServer (app.backend.policy .ascii) (Except Exc ToolAnswer) := fun _ =>
      .ask ⟨.add "tea" .null none false, by decide⟩ .done
    let pool := @Pool.run _ _ _ _ _ (InMemory.store .ascii).machine
      (fun _ n => ⟨toString n, ""⟩)
      (Pool.start (InMemory.store .ascii).initial fun _ : Unit => app.gate.call mcp
        ⟨"http", "/mcp", [(Utf8.encode "authorization", Utf8.encode "Bearer new")]⟩)
      [(), ()]
    ∀ event ∈ pool.past (), ∀ call, event.call = .backend call →
      ∀ partition, call.partition? = some partition →
        partition ≠ "" ∧ partition ≠ "*" ∧
          app.backend.validatePartition .ascii partition = .ok () ∧
          (app.backend.name = .mem0 → Mem0.refusePartition .ascii partition = .ok ()) := by
  intro sha256 app mcp pool
  have started : serve .ascii (fun _ => none) (fun _ => .ok rotatingKeys) sha256
      { memcpBackend := .mem0, mem0ApiBase := some "http://mem0", mem0ApiKey := some "secret"
        memcpKeysFile := some "keys.toml" } = .ok app := by
    rfl
  exact started_servers_ask_for_usable_partitions started mcp (InMemory.store .ascii).machine
    (InMemory.store .ascii).initial (fun _ n => ⟨toString n, ""⟩) _ [(), ()] ()

end Memcp
