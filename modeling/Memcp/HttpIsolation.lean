import Memcp.HttpRequests
import Memcp.Isolation

/-!
Isolation behind the gate: what an HTTP client of a local backend sees depends on the
requests that are served as keys of the same space, and on no other request.
-/

namespace Memcp

open Python Interaction

/-- The space a request is served in; none when the gate lets it do nothing. -/
def BearerGate.space (gate : BearerGate) (scope : HttpScope) : Option String :=
  if scope.type = "http" then
    (gate.identify scope).toOption.map fun key => key.grant.space
  else none

/-- Effects on no backend. -/
def Effect.silent (effect : Effect) : Prop := effect.isCall = false

theorem Spaces.unwinding_option (unicode : Unicode) :
    @Pool.Unwinding effects Fresh (Spaces.store unicode).machine (Option String)
      (@Pool.orSilent effects String Effect.within Effect.silent)
      (Pool.orBlind Spaces.Alike) := by
  refine (Spaces.unwinding unicode).option ?_ ?_
  · intro fresh effect state silent
    cases effect with
    | audit entry => rfl
    | backend call => cases silent
  · intro fresh effect left right silent
    cases effect with
    | audit entry => rfl
    | backend call => cases silent

section Requests

variable {policy : Policy} {α : Type} {gate : BearerGate} {app : McpServer policy α}
  {scope : HttpScope}

/-- A request stays within the space it is served in. -/
theorem call_within :
    Safe (fun _ => @Pool.orSilent effects String Effect.within Effect.silent
      (gate.space scope)) (fun _ _ => True) (gate.call app scope) [] := by
  unfold BearerGate.space
  split
  case isTrue http =>
    cases identified : gate.identify scope with
    | error warning =>
        rw [call_refused http identified]
        exact trivial
    | ok key =>
        refine Safe.mono (call_served http identified) ?_ fun _ _ _ => trivial
        rintro past effect served call partition rfl names
        exact served.1 partition names
  case isFalse other =>
    refine Safe.mono (call_unkeyed other) ?_ fun _ _ _ => trivial
    intro past effect unkeyed
    cases effect with
    | audit entry => exact rfl
    | backend call => exact unkeyed.elim

end Requests

/-- The run of a schedule of HTTP requests on an empty backend. -/
def BearerGate.run {unicode : Unicode} {α Task : Type} [DecidableEq Task]
    (gate : BearerGate) (backend : LocalBackend) (app : McpServer (localPolicy unicode) α)
    (scopes : Task → HttpScope) (fresh : FreshSupply Task) (schedule : List Task) :
    Pool effects Task (Served α) (backend.store unicode).machine.State :=
  @Pool.run _ _ _ _ _ (backend.store unicode).machine fresh.supply
    (Pool.start (backend.store unicode).initial fun task => gate.call app (scopes task))
    schedule

theorem http_spaces_do_not_interfere {unicode : Unicode} {α Task : Type} [DecidableEq Task]
    (gate : BearerGate) (backend : LocalBackend) (app : McpServer (localPolicy unicode) α)
    (scopes : Task → HttpScope) (fresh : FreshSupply Task) (schedule : List Task)
    (task : Task) :
    let together := gate.run backend app scopes fresh schedule
    let alone := gate.run backend app scopes fresh
      (schedule.filter fun other => gate.space (scopes other) = gate.space (scopes task))
    together.program task = alone.program task ∧
      together.past task = alone.past task := by
  intro together alone
  have confined : (Pool.start (fun _ => [] : Spaces)
      fun task => gate.call app (scopes task)).Confined
        (fun task => gate.space (scopes task))
        (@Pool.orSilent effects String Effect.within Effect.silent) :=
    fun _ => call_within
  have alike : Pool.orBlind Spaces.Alike (gate.space (scopes task)) (fun _ => [])
      (fun _ => []) := ((Spaces.unwinding_option unicode).equivalence _).refl _
  have same := @Pool.noninterference effects Fresh Task _ _ _ _ fresh.supply _ _ _ _
    (gate.space (scopes task)) (Spaces.unwinding_option unicode) _ _
    ⟨fun _ _ => rfl, fun _ _ => rfl, alike⟩ confined schedule
  have full := (backend.representation unicode).related_run fresh
    (fun task => gate.call app (scopes task)) schedule
  have own := (backend.representation unicode).related_run fresh
    (fun task => gate.call app (scopes task))
    (schedule.filter fun other => gate.space (scopes other) = gate.space (scopes task))
  constructor
  · exact (congrFun full.program task).trans
      ((same.program task rfl).trans (congrFun own.program task).symm)
  · exact (full.past task).trans ((same.past task rfl).trans (own.past task).symm)

end Memcp
