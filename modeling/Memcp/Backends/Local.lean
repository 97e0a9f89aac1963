import Memcp.Backends.InMemory
import Memcp.Backends.Sqlite.Refinement
import Memcp.Policy.Guarantees

/-!
The two local backends.  Both represent the spaces, so a program, or a pool of
programs, can't tell one from the other or from the spaces themselves.
-/

namespace Memcp

open Python Interaction

/-! Sequences of calls. -/

/-- A call with what it returned or raised. -/
abbrev Answer := (call : BackendCall) × Except Exc call.Result

def Store.answers (store : Store) :
    List (Fresh × BackendCall) → store.State → List Answer
  | [], _ => []
  | (fresh, call) :: calls, state =>
      ⟨call, (store.perform fresh call state).1⟩ ::
        store.answers calls (store.perform fresh call state).2

/-- Fresh ids and clock readings for the calls of each task. -/
structure FreshSupply (Task : Type) where
  supply : Task → Nat → Fresh
  distinct : ∀ {task other n m}, (supply task n).id = (supply other m).id →
    task = other ∧ n = m

section Pools

variable {unicode : Unicode} {store : Store} {Task α : Type} [DecidableEq Task]

/-- The spaces a state stands for, in which no id still to be given is in
use. -/
structure Representation.Related (representation : Representation unicode store)
    (fresh : FreshSupply Task) (log : List (Task × Event effects))
    (state : store.State) (spaces : Spaces) : Prop where
  valid : representation.valid state
  stands : representation.spaces state = spaces
  unused : ∀ task n, (log.filter fun entry => entry.1 = task).length ≤ n →
    spaces.Unused (fresh.supply task n).id

theorem Representation.related_step (representation : Representation unicode store)
    (fresh : FreshSupply Task)
    {left : Pool effects Task α store.State} {right : Pool effects Task α Spaces}
    (related : @Pool.Related _ _ _ _ store.machine (Spaces.store unicode).machine
      (representation.Related fresh) left right) (task : Task) :
    @Pool.Related _ _ _ _ store.machine (Spaces.store unicode).machine
      (representation.Related fresh)
      (left.step store.machine fresh.supply task)
      (right.step (Spaces.store unicode).machine fresh.supply task) := by
  refine related.step task fun effect next asks => ?_
  have counted : ∀ (event : Event effects) other n,
      ((left.log ++ [(task, event)]).filter fun entry => entry.1 = other).length ≤ n →
      (left.log.filter fun entry => entry.1 = other).length ≤ n ∧
        (task = other →
          (left.log.filter fun entry => entry.1 = other).length < n) := by
    intro event other n bound
    rw [List.filter_append, List.length_append] at bound
    refine ⟨Nat.le_trans (Nat.le_add_right _ _) bound, ?_⟩
    rintro rfl
    exact Nat.lt_of_succ_le (by simpa using bound)
  cases effect with
  | audit entry =>
      exact ⟨rfl, related.state.valid, related.state.stands, fun other n bound =>
        related.state.unused other n (counted _ other n bound).1⟩
  | backend call =>
      have issued : (left.past task).length =
          (left.log.filter fun entry => entry.1 = task).length :=
        List.length_map _
      have free := related.state.unused task _ (Nat.le_of_eq issued.symm)
      have simulates := representation.step
        (fresh.supply task (left.past task).length) call left.state
        related.state.valid fun _ => related.state.stands ▸ free
      refine ⟨?_, simulates.valid, ?_, fun other n bound => ?_⟩
      · rw [← related.state.stands]
        exact simulates.reply
      · rw [← related.state.stands]
        exact simulates.spaces
      · have unused := related.state.unused other n (counted _ other n bound).1
        refine unused.perform (fun same => ?_) call
        obtain ⟨equal, rfl⟩ := fresh.distinct same
        have later := (counted _ other _ bound).2 equal
        rw [← equal] at later
        exact Nat.lt_irrefl _ (issued ▸ later)

/-- Under every schedule a store that represents the spaces and the spaces
themselves take the same steps. -/
theorem Representation.related_steps (representation : Representation unicode store)
    (fresh : FreshSupply Task)
    {left : Pool effects Task α store.State} {right : Pool effects Task α Spaces}
    (related : @Pool.Related _ _ _ _ store.machine (Spaces.store unicode).machine
      (representation.Related fresh) left right) (schedule : List Task) :
    @Pool.Related _ _ _ _ store.machine (Spaces.store unicode).machine
      (representation.Related fresh)
      (left.run store.machine fresh.supply schedule)
      (right.run (Spaces.store unicode).machine fresh.supply schedule) := by
  induction schedule generalizing left right with
  | nil => exact related
  | cons task schedule induction =>
      exact induction (representation.related_step fresh related task)

theorem Representation.related_run (representation : Representation unicode store)
    (fresh : FreshSupply Task) (program : Task → Program effects α)
    (schedule : List Task) :
    @Pool.Related _ _ _ _ store.machine (Spaces.store unicode).machine
      (representation.Related fresh)
      ((Pool.start store.initial program).run store.machine fresh.supply schedule)
      (@Pool.run _ _ _ _ _ (Spaces.store unicode).machine fresh.supply
        (Pool.start (fun _ => []) program) schedule) :=
  @Representation.related_steps _ _ _ _ _ representation fresh
    (Pool.start store.initial program) (Pool.start (fun _ => []) program)
    ⟨rfl, rfl, representation.valid_initial, representation.spaces_initial,
      fun _ _ _ => nofun⟩ schedule

end Pools

/-! The two backends behind a policy. -/

inductive LocalBackend where
  | inMemory
  | sqlite (codec : Sqlite.JsonCodec)

namespace LocalBackend

def store (unicode : Unicode) : LocalBackend → Store
  | .inMemory => InMemory.store unicode
  | .sqlite codec => Sqlite.store unicode codec

def representation (unicode : Unicode) :
    (backend : LocalBackend) → Representation unicode (backend.store unicode)
  | .inMemory => InMemory.representation unicode
  | .sqlite codec => Sqlite.representation unicode codec

theorem ids_nodup {unicode : Unicode} (backend : LocalBackend)
    {state : (backend.store unicode).State}
    (valid : (backend.representation unicode).valid state) (space : String) :
    (((backend.representation unicode).spaces state space).map Item.id).Nodup := by
  cases backend with
  | inMemory => exact ids_spacesOf state.store.keys_nodup
  | sqlite codec => exact ids_spacesOf valid.tables.ids

end LocalBackend

/-- Operations, each by a key; one operation may wait while others run. -/
structure Operations (Task : Type) where
  key : Task → Key
  request : Task → Request

namespace Operations

variable {Task : Type} (operations : Operations Task)

def program (unicode : Unicode) (task : Task) :
    Program effects (Except Exc Response) :=
  (localPolicy unicode).perform (some (operations.key task))
    (operations.request task)

/-- Every task stays within what its key permits and hands back only what is
covered. -/
theorem program_safe (unicode : Unicode) (task : Task) :
    Fallible.Keeps (Permitted (localPolicy unicode) (operations.key task))
      (Covered (localPolicy unicode) (operations.key task).grant.space
        (operations.request task))
      (operations.program unicode task) [] :=
  perform_keeps (operations.request task)

variable [DecidableEq Task]

/-- The run of a schedule on an empty backend; each turn of a task is one call
on the backend or one audit record. -/
def run (unicode : Unicode) (backend : LocalBackend) (fresh : FreshSupply Task)
    (schedule : List Task) :
    Pool effects Task (Except Exc Response) (backend.store unicode).machine.State :=
  @Pool.run _ _ _ _ _ (backend.store unicode).machine fresh.supply
    (Pool.start (backend.store unicode).initial (operations.program unicode))
    schedule

/-- The same run on the spaces themselves. -/
def runSpaces (unicode : Unicode) (fresh : FreshSupply Task)
    (schedule : List Task) :
    Pool effects Task (Except Exc Response) (Spaces.store unicode).machine.State :=
  @Pool.run _ _ _ _ _ (Spaces.store unicode).machine fresh.supply
    (Pool.start (fun _ => []) (operations.program unicode)) schedule

/-- The memories a backend holds after a schedule. -/
def stored (unicode : Unicode) (backend : LocalBackend) (fresh : FreshSupply Task)
    (schedule : List Task) : Spaces :=
  (backend.representation unicode).spaces
    (operations.run unicode backend fresh schedule).state

theorem run_related (unicode : Unicode) (backend : LocalBackend)
    (fresh : FreshSupply Task) (schedule : List Task) :
    @Pool.Related _ _ _ _ (backend.store unicode).machine
      (Spaces.store unicode).machine
      ((backend.representation unicode).Related fresh)
      (operations.run unicode backend fresh schedule)
      (operations.runSpaces unicode fresh schedule) :=
  (backend.representation unicode).related_run fresh
    (operations.program unicode) schedule

theorem stored_eq (unicode : Unicode) (backend : LocalBackend)
    (fresh : FreshSupply Task) (schedule : List Task) :
    operations.stored unicode backend fresh schedule =
      (operations.runSpaces unicode fresh schedule).state :=
  (operations.run_related unicode backend fresh schedule).state.stands

theorem run_log (unicode : Unicode) (backend : LocalBackend)
    (fresh : FreshSupply Task) (schedule : List Task) :
    (operations.run unicode backend fresh schedule).log =
      (operations.runSpaces unicode fresh schedule).log :=
  (operations.run_related unicode backend fresh schedule).log

end Operations

end Memcp
