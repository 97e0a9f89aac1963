import Memcp.AuditRecords
import Memcp.Backends.Local
import Memcp.Http.Gate
import Memcp.KeysFile

/-!
HTTP requests from the token to the backend.  Whatever the MCP server makes of them and
however they interleave, each does what the key that lists its token may do, in that key's
name, and a request without such a token does nothing.
-/

namespace Memcp

open Python Interaction

/-! What a key's requests do. -/

/-- The system fields a call writes. -/
def BackendCall.system? : BackendCall → Option System
  | .add _ _ _ _ _ system | .update _ _ _ _ system => system
  | _ => none

/-- A call of a key on a backend, or a record of what it did. -/
def ServedAs (capabilities : List String) (key : Key) : Effect → Prop
  | .audit entry => entry.key = some key.name ∧ entry.space = some key.grant.space ∧
      entry.relation = some key.grant.relation
  | .backend call =>
      (∀ partition, call.partition? = some partition → partition = key.grant.space) ∧
      (call.isWrite = true → key.grant.relation = .writer) ∧
      (∀ system, call.system? = some system → system.author = some key.name) ∧
      ∀ capability, call.capability? = some capability → capability ∈ capabilities

/-- Nothing but a record that names no key. -/
def Unkeyed : Effect → Prop
  | .audit entry => entry.key = none
  | .backend _ => False

section Requests

variable {policy : Policy} {key : Key} {past : Trace effects}

/-- The record of a request names its key. -/
theorem perform_names (request : Request) :
    Safe (fun _ (effect : Effect) => ∀ entry, effect = .audit entry →
        ServedAs policy.capabilities key (.audit entry)) (fun _ _ => True)
      (policy.perform (some key) request) past := by
  refine .anywhere (.of_against (answering "" { id := "", content := "" })
    fun environment => ⟨_, (List.nil_append _).symm, ?_⟩) past
  intro event member entry same
  obtain ⟨calls, filled, logged, silent, fills⟩ :=
    @perform_recorded environment policy (some key) request
  rw [logged] at member
  rcases List.mem_append.mp member with asked | last
  · have calling := silent event asked
    rw [same] at calling
    cases calling
  · obtain rfl := List.mem_singleton.mp last
    cases same
    have truthful := fills.truthful
    exact ⟨truthful.key, truthful.space, truthful.relation⟩

theorem callTool_served {request : Request}
    (registered : request.tool ∈ registerTools policy.capabilities) :
    Safe (fun _ => ServedAs policy.capabilities key) (fun _ _ => True)
      (policy.callTool (some key) request) past := by
  have performed : Safe (fun _ => ServedAs policy.capabilities key) (fun _ _ => True)
      (policy.perform (some key) request) past := by
    refine Safe.mono (.both (.both (perform_keeps request) (perform_declared registered))
      (perform_names request)) ?_ fun _ _ _ => trivial
    rintro later effect ⟨⟨permitted, declared⟩, named⟩
    cases effect with
    | audit entry => exact named entry rfl
    | backend call =>
        refine ⟨permitted.1, permitted.2.1, ?_, declared call rfl⟩
        intro system writes
        obtain ⟨-, -, asks⟩ := permitted
        cases call with
        | add partition content scope metadata infer given =>
            obtain ⟨-, -, -, stamped⟩ := asks
            cases writes.symm.trans stamped
            rfl
        | update partition memoryId content patch given =>
            obtain ⟨-, memory, -, -, stamped⟩ := asks
            cases writes.symm.trans stamped
            rfl
        | _ => cases writes
  exact Safe.bind performed fun _ _ _ => trivial

theorem perform_unkeyed (policy : Policy) (request : Request) :
    ∃ entry, policy.perform none request =
      .ask (.audit entry) (fun _ => .done (.error .lookupError)) ∧ entry.key = none := by
  cases request <;> exact ⟨_, rfl, rfl⟩

theorem callTool_unkeyed (request : Request) :
    Safe (fun _ => Unkeyed) (fun _ _ => True) (policy.callTool none request) past := by
  obtain ⟨entry, performs, unnamed⟩ := perform_unkeyed policy request
  rw [Policy.callTool, performs]
  exact ⟨unnamed, fun _ => trivial⟩

variable {α : Type} {gate : BearerGate} {app : McpServer policy α} {scope : HttpScope}

/-- What a request the gate serves as `context` may do. -/
def Permits (policy : Policy) : Context → Effect → Prop
  | some key => ServedAs policy.capabilities key
  | none => Unkeyed

theorem serve_permitted (context : Context) :
    Safe (fun _ => Permits policy context) (fun _ _ => True) (app.serve context scope)
      past := by
  refine .client (fun call past => ?_) _ _
  cases context with
  | none => exact callTool_unkeyed call.1
  | some key => exact callTool_served call.2

/-- A request that is served is sent what the server sends. -/
theorem call_served {key : Key} (http : scope.type = "http")
    (identified : gate.identify scope = .ok key) :
    Safe (fun _ => ServedAs policy.capabilities key) (fun _ served =>
      ∀ response, served ≠ .refused response) (gate.call app scope) past := by
  have served : gate.call app scope = @Program.bind effects _ _
      (app.serve (some key) scope) fun sent => .done (.passed sent) := by
    rw [BearerGate.call, if_pos http, identified]
  rw [served]
  exact Safe.bind (serve_permitted (some key)) fun _ _ _ _ => nofun

theorem call_refused {warning : String} (http : scope.type = "http")
    (refused : gate.identify scope = .error warning) :
    gate.call app scope = .done (.refused unauthorized) := by
  rw [BearerGate.call, if_pos http, refused]

theorem call_unkeyed (other : scope.type ≠ "http") :
    Safe (fun _ => Unkeyed) (fun _ _ => True) (gate.call app scope) past := by
  rw [BearerGate.call, if_neg other]
  exact Safe.bind (serve_permitted none) fun _ _ _ => trivial

end Requests

/-! From the keys file. -/

section KeysFile

variable {file : KeysFile} {path : String} {table : KeyTable} {sha256 : String → String}
  {scope : HttpScope}

end KeysFile

end Memcp
