import Memcp.Identity
import Memcp.Interaction.Pool

/-!
The contract every backend implements, as the calls a program can make on one.
-/

namespace Memcp

open Python Interaction

def reservedMetadataKeys : List String :=
  ["actor_id", "agent_id", "attributed_to", "created_at", "data",
    "expiration_date", "hash", "id", "memory_type", "role", "run_id",
    "text_lemmatized", "updated_at", "user_id"]

def isReservedMetadataKey (key : String) : Bool :=
  startsWith key reservedMetadataPrefix || key ∈ reservedMetadataKeys

def refuseReservedMetadata (unicode : Unicode) (keys : List String) :
    Except Exc Unit :=
  match keys.find? isReservedMetadataKey with
  | none => .ok ()
  | some key => .error (.memoryAPIError 400
      ("metadata key " ++ repr unicode key ++ " is reserved"))

theorem refuseReservedMetadata_raises {unicode : Unicode} {keys : List String} {error : Exc}
    (raised : refuseReservedMetadata unicode keys = .error error) :
    error.IsMemoryAPIError := by
  unfold refuseReservedMetadata at raised
  split at raised
  · cases raised
  · cases raised
    trivial

/-- A merge patch over a memory's metadata.  `remove` lists a set in the order
it is iterated in. -/
structure MetadataPatch where
  set : Dict String Json
  remove : List String
  disjoint : ∀ key ∈ remove, key ∉ set

instance : DecidableEq MetadataPatch := fun left right =>
  decidable_of_iff (left.set = right.set ∧ left.remove = right.remove) (by
    cases left
    cases right
    simp)

namespace MetadataPatch

/-- The patch as a store applies it: set the keys it sets, then pop those it
removes. -/
def apply (patch : MetadataPatch) (metadata : Dict String Json) :
    Dict String Json :=
  patch.remove.foldl Dict.erase (metadata.update patch.set)

/-- The keys it names, in the order they are checked. -/
def keys (patch : MetadataPatch) : List String := patch.set.keys ++ patch.remove

end MetadataPatch

/-- `reject_nested_filters` of a scope that may be missing or empty. -/
def refuseNestedFilters (unicode : Unicode) (scope : Option (Dict String Json)) :
    Except Exc Unit :=
  match Dict.given scope with
  | none => .ok ()
  | some scope => rejectNestedFilters unicode scope

/-- One call on a backend.  Every data call names the partition it is about. -/
inductive BackendCall where
  | add (partition content : String) (scope metadata : Option (Dict String Json))
      (infer : Bool) (system : Option System)
  | search (partition query : String) (scope : Option (Dict String Json))
      (limit : Int) (threshold : ℚ)
  | get (partition memoryId : String)
  | update (partition memoryId : String) (content : Option String)
      (patch : Option MetadataPatch) (system : Option System)
  | delete (partition memoryId : String)
  | deleteAll (partition : String) (scope : Dict String Json)
  | listMemories (partition : String) (scope : Option (Dict String Json))
      (limit : Int) (cursor : Option String)
  | history (partition memoryId : String)
  | entities (partition : String) (scope : Option (Dict String Json))
      (limit : Int)
  | capabilities

namespace BackendCall

/-- The declared type of what a call returns. -/
@[reducible] def Result : BackendCall → Type
  | .add .. => AddReturn
  | .search .. => List Memory
  | .get .. => Option Memory
  | .update .. => Memory
  | .delete .. => Bool
  | .deleteAll .. => Option Nat
  | .listMemories .. => ListResult
  | .history .. => List HistoryEntry
  | .entities .. => EntitiesResult
  | .capabilities => List String

/-- The partition a data call names. -/
def partition? : BackendCall → Option String
  | .add partition .. | .search partition .. | .get partition _
  | .update partition .. | .delete partition _ | .deleteAll partition _
  | .listMemories partition .. | .history partition _
  | .entities partition .. => some partition
  | .capabilities => none

def isWrite : BackendCall → Bool
  | .add .. | .update .. | .delete .. | .deleteAll .. => true
  | _ => false

/-- Whether the call may store a memory under a fresh id. -/
def isAdd : BackendCall → Bool
  | .add .. => true
  | _ => false

/-- The memories a returned value holds. -/
def memories : (call : BackendCall) → call.Result → List Memory
  | .search .., found => found
  | .get .., found => found.toList
  | .update .., updated => [updated]
  | .listMemories .., page => page.memories
  | .add .., _ | .delete .., _ | .deleteAll .., _ | .history .., _
  | .entities .., _ | .capabilities, _ => []

end BackendCall

def localCapabilities : List String := ["update", "list", "history"]

def localScopeKeys : List String := ["agent_id", "run_id"]

def notFound : Exc := .memoryAPIError 404 "Not found"

/-- What a call takes from outside the program: `uuid4()` and the clock. -/
structure Fresh where
  id : String
  now : String

/-- A backend as what each call returns and makes of its state. -/
structure Store where
  State : Type
  initial : State
  perform : Fresh → (call : BackendCall) → State →
    Except Exc call.Result × State

/-! What an operation does besides computing: calls on the backend, each of
which returns or raises, and audit records. -/

inductive Effect where
  | backend (call : BackendCall)
  | audit (entry : AuditEntry)

@[reducible] def Effect.Reply : Effect → Type
  | .backend call => Except Exc call.Result
  | .audit _ => Unit

def Effect.isSearch : Effect → Bool
  | .backend (.search ..) => true
  | _ => false

def Effect.isCall : Effect → Bool
  | .backend _ => true
  | .audit _ => false

abbrev effects : Signature where
  Call := Effect
  Reply := Effect.Reply

/-- A store answering the calls of operations; an audit record leaves it as it
is. -/
abbrev Store.machine (store : Store) : Machine effects Fresh where
  State := store.State
  perform
    | fresh, .backend call, state => store.perform fresh call state
    | _, .audit _, state => ((), state)

/-! The memories a run has been given by the backend. -/

/-- The memories a reply of the backend holds. -/
def replyMemories : (effect : Effect) → effect.Reply → List Memory
  | .backend call, .ok value => call.memories value
  | .backend _, .error _ => []
  | .audit _, _ => []

def Returned (past : Trace effects) (memory : Memory) : Prop :=
  ∃ event ∈ past, memory ∈ replyMemories event.call event.reply

theorem returned_iff {past : Trace effects} {memory : Memory} :
    Returned past memory ↔
      memory ∈ past.flatMap fun event => replyMemories event.call event.reply :=
  List.mem_flatMap.symm

theorem Returned.append {past : Trace effects} {memory : Memory}
    (returned : Returned past memory) (more : Trace effects) :
    Returned (past ++ more) memory := by
  obtain ⟨event, member, found⟩ := returned
  exact ⟨event, List.mem_append_left more member, found⟩

theorem Returned.last {past : Trace effects} {memory : Memory}
    (call : BackendCall) (value : call.Result)
    (member : memory ∈ call.memories value) :
    Returned (past ++ [⟨.backend call, .ok value⟩]) memory :=
  ⟨⟨.backend call, .ok value⟩, by simp, member⟩

end Memcp
