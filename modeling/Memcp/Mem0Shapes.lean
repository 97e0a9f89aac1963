import Memcp.Backends.Mem0.Untyped

/-!
What a mem0 server may answer for each method to return a value of its declared
type or to raise a `MemoryAPIError`, whatever JSON it sends.
-/

namespace Memcp.Mem0

open Python Interaction

variable {unicode : Unicode} {timestamps : Timestamps} {α β : Type}

/-! The declared types. -/

abbrev serving : Machine http HttpResponse where
  State := Unit
  perform response _ _ := (response, ())

/-- What code comes to whose `n`-th request gets the `n`-th response. -/
def answered (responses : Nat → HttpResponse) (action : Http α) : Except Exc α :=
  (Fallible.exec serving responses action 0 ()).1

/-! The shapes of bodies. -/

/-- The metadata of a memory, none if it counts as none. -/
def metadataOf (fields : Dict String Json) : Json := getOr fields "metadata" .null

/-- An object whose metadata is an object, or counts as none. -/
def ReadsAs (raw : Json) (fields : Dict String Json) : Prop :=
  raw.dict? = some fields ∧
    ((metadataOf fields).truthy = false ∨ (metadataOf fields).dict?.isSome = true)

/-- The metadata as `_parse_memory` splits it. -/
def splitOf (fields : Dict String Json) : System × Dict String Json :=
  splitSystem ((metadataOf fields).dict?.getD ∅)

section Rules

variable {responses : Nat → HttpResponse} {declared : α → Prop} {n : Nat}

end Rules

/-! The checks before a request. -/

/-- The memory an object is read as. -/
def memoryOf (fields : Dict String Json) : RawMemory where
  id := getOr fields "id" (.str "")
  content := getOr fields "memory" (getOr fields "text" (.str ""))
  score := getOr fields "score" .null
  scope := fields.filter fun key value => key ∈ ["agent_id", "run_id"] && value ≠ .null
  metadata := (splitOf fields).2
  createdAt := getOr fields "created_at" (.str "")
  updatedAt := getOr fields "updated_at" .null
  partition := orElse (getOr fields "user_id" .null) (.str "")
  system := (splitOf fields).1

def Reads (raw : Json) (memory : RawMemory) : Prop :=
  ∃ fields, ReadsAs raw fields ∧ memoryOf fields = memory

section Methods

variable {responses : Nat → HttpResponse} {n : Nat} {partition memoryId : String}

end Methods

end Memcp.Mem0
