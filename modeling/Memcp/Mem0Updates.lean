import Memcp.Backends.Mem0.Updates

/-!
Two updates of one memory at a mem0 server, interleaved request by request.
What a call sends depends on what its first get showed, and only for the keys
it removes.
-/

namespace Memcp.Mem0

open Python Interaction

/-- The record of an id, but for the time of its last change. -/
def stored (memoryId : String) (state : State) : Option Record :=
  (state.records.get? memoryId).map Record.undated

/-- The change an update makes of the record it has read. -/
def writes (unicode : Unicode) (partition memoryId : String) (change : Change) :
    Writer (Option Record)
  | none => none
  | some record =>
      if refusePartition unicode partition = .ok () ∧ change.Free ∧
          record.userId = partition ∧ body change (record.memory memoryId) ≠ ∅ then
        some (Option.map (Record.changed change (record.memory memoryId)))
      else none

section Reading

variable {unicode : Unicode} {partition memoryId : String} {change : Change}

end Reading

/-! What is shown after the writes of two updates. -/

section Writes

variable {unicode : Unicode} {partition memoryId : String} {record : Record}

@[simp] theorem Record.changed_undated_self (change : Change) (existing : Memory)
    (record : Record) :
    (record.changed change existing).undated = record.changed change existing := rfl

end Writes

/-! Two updates of one memory. -/

/-- The memory a get of a partition shows. -/
def readBack (unicode : Unicode) (partition memoryId : String) (state : State) :
    Option Memory :=
  ((Fallible.exec calm (fun _ => { id := "", now := "" })
    (get unicode partition memoryId) 0 state).1.toOption).join

/-- The record a partition may see. -/
def visible (unicode : Unicode) (partition : String) (record : Option Record) :
    Option Record :=
  record.filter fun record =>
    refusePartition unicode partition = .ok () ∧ record.userId = partition

section ReadBack

variable {unicode : Unicode} {reader memoryId : String} {state : State}

end ReadBack

/-- Two updates of one memory. -/
structure Updates where
  memoryId : String
  partition : Bool → String
  change : Bool → Change

namespace Updates

variable (unicode : Unicode) (updates : Updates) (supply : Bool → Nat → Choice)

def program (task : Bool) : Http Memory :=
  update unicode (updates.partition task) updates.memoryId (updates.change task).content
    (updates.change task).patch (updates.change task).system

def alone (task : Bool) (state : State) : State :=
  (Fallible.exec calm (supply task) (updates.program unicode task) 0 state).2.2

def writer (task : Bool) : Writer (Option Record) :=
  writes unicode (updates.partition task) updates.memoryId (updates.change task)

variable {updates}

end Updates

end Memcp.Mem0
