import Memcp.Data.Related
import Memcp.Python.Json
import Mathlib.Data.Rat.Defs

/-! Shared data types, limits, argument checks and errors. -/

namespace Memcp

open Python

def maxContentLength : Nat := 100000
def maxScopeKeys : Nat := 10
def maxScopeKeyLength : Nat := 64
def maxScopeValueLength : Nat := 256
def maxQueryLength : Nat := 10000
def maxLimit : Int := 1000
def maxExport : Nat := 10000
def maxImport : Nat := 1000
def maxMetadataBytes : Nat := 16 * 1024
def maxMetadataKeyLength : Nat := 64

def reservedMetadataPrefix : String := "_memcp_"
def systemMetadataKey : String := "_memcp_system"

def nestedFilterKeys : List String := ["AND", "OR", "NOT", "and", "or", "not"]

/-! Errors. -/

inductive ErrorCode where
  | validationError
  | invalidScope
  | nestedFilter
  | scopeRequired
  | forbidden
  | notFound
  | notSupported
  | internalError
  deriving DecidableEq

/-- The exceptions the program raises, catches or lets through. -/
inductive Exc where
  | policyError (code : ErrorCode) (message : String)
  | memoryAPIError (status : Int) (body : String)
  | valueError (message : String)
  | lookupError
  | cancelledError
  | other (name : String)
  deriving DecidableEq

theorem bind_eq_ok {ε α β : Type} {first : Except ε α}
    {rest : α → Except ε β} {value : β} :
    first >>= rest = .ok value ↔
      ∃ middle, first = .ok middle ∧ rest middle = .ok value := by
  cases first with
  | ok middle =>
      constructor
      · exact fun same => ⟨middle, rfl, same⟩
      · rintro ⟨_, ⟨⟩, same⟩
        exact same
  | error error =>
      constructor
      · exact nofun
      · rintro ⟨_, ⟨⟩, _⟩

theorem map_eq_ok {ε α β : Type} {outcome : Except ε α} {f : α → β} {value : β} :
    outcome.map f = .ok value ↔ ∃ held, outcome = .ok held ∧ f held = value := by
  cases outcome with
  | ok held => simp [Except.map]
  | error error => simp [Except.map]

theorem mapM_eq_ok {ε α β : Type} {f : α → Except ε β} {items : List α}
    {results : List β} :
    items.mapM f = .ok results ↔
      List.Forall₂ (fun item result => f item = .ok result) items results := by
  induction items generalizing results with
  | nil =>
      rw [List.mapM_nil, List.forall₂_nil_left_iff]
      exact ⟨fun same => (Except.ok.inj same).symm, fun same => same ▸ rfl⟩
  | cons head tail induction =>
      rw [List.mapM_cons, List.forall₂_cons_left_iff]
      constructor
      · intro mapped
        obtain ⟨first, read, mapped⟩ := bind_eq_ok.mp mapped
        obtain ⟨rest, listed, same⟩ := bind_eq_ok.mp mapped
        cases same
        exact ⟨first, rest, read, induction.mp listed, rfl⟩
      · rintro ⟨first, rest, read, listed, rfl⟩
        exact bind_eq_ok.mpr ⟨first, read, bind_eq_ok.mpr ⟨rest, induction.mpr listed, rfl⟩⟩

theorem mem_of_mapM_eq_ok {ε α β : Type} {f : α → Except ε β} {items : List α}
    {results : List β} (mapped : items.mapM f = .ok results) {result : β}
    (member : result ∈ results) : ∃ item ∈ items, f item = .ok result :=
  (mapM_eq_ok.mp mapped).exists_left member

/-- Every exception `outcome` may hold is of a kind. -/
def Raises {α : Type} (kind : Exc → Prop) (outcome : Except Exc α) : Prop :=
  ∀ error, outcome = .error error → kind error

namespace Raises

variable {α β : Type} {kind : Exc → Prop}

theorem pure (value : α) : Raises kind (Pure.pure value : Except Exc α) := nofun

theorem throw {error : Exc} (holds : kind error) :
    Raises kind (throw error : Except Exc α) := by
  rintro _ ⟨⟩
  exact holds

theorem bind {first : Except Exc α} {rest : α → Except Exc β}
    (head : Raises kind first)
    (tail : ∀ value, first = .ok value → Raises kind (rest value)) :
    Raises kind (first >>= rest) := by
  cases first with
  | ok value => exact tail value rfl
  | error error =>
      rintro _ ⟨⟩
      exact head error rfl

theorem throw_bind {error : Exc} (holds : kind error) (rest : α → Except Exc β) :
    Raises kind (MonadExcept.throw error >>= rest) :=
  bind (throw holds) nofun

theorem map {f : α → β} {outcome : Except Exc α} (raises : Raises kind outcome) :
    Raises kind (outcome.map f) := by
  cases outcome with
  | ok value => exact nofun
  | error error =>
      rintro _ ⟨⟩
      exact raises error rfl

theorem foldlM {f : β → α → Except Exc β} {items : List α}
    (each : ∀ before, ∀ item ∈ items, Raises kind (f before item)) (before : β) :
    Raises kind (items.foldlM f before) := by
  induction items generalizing before with
  | nil => exact .pure before
  | cons item items induction =>
      rw [List.foldlM_cons]
      refine .bind (each before item List.mem_cons_self) fun later _ => ?_
      exact induction (fun before other member =>
        each before other (List.mem_cons_of_mem _ member)) later

end Raises

def Exc.IsPolicyError : Exc → Prop
  | .policyError .. => True
  | _ => False

def Exc.IsMemoryAPIError : Exc → Prop
  | .memoryAPIError _ _ => True
  | _ => False

def Exc.IsValueError : Exc → Prop
  | .valueError _ => True
  | _ => False

def notFoundMsg : String :=
  "No memory found for that memory_id. It may have been deleted, or the id may be malformed."

/-- What a client is told of a `MemoryAPIError`: the status, never the body. -/
def clientMessage (status : Int) : String :=
  if status = 408 then "The memory backend didn't answer in time."
  else "The memory backend failed (status " ++ toString status ++ ")."

/-! Argument checks. -/

def isMemoryIdChar (c : Char) : Bool :=
  c.isAlphanum || c = '_' || c = '-'

def validMemoryId (memoryId : String) : Bool :=
  1 ≤ memoryId.length && memoryId.length ≤ 128 &&
    memoryId.toList.all isMemoryIdChar

def validateMemoryId (memoryId : String) : Except Exc String :=
  if validMemoryId memoryId then .ok memoryId
  else .error (.valueError
    "Invalid memory_id format. Expected alphanumeric, hyphens, or underscores (max 128 chars).")

/-- The check `validate_content` and `validate_query` make: not blank and not
too long. -/
def validateText (name : String) (maxLength : Nat) (text : String) :
    Except Exc Unit :=
  if text = "" ∨ strip text = "" then
    .error (.valueError (name ++ " must not be empty"))
  else if maxLength < text.length then
    .error (.valueError (name ++ " exceeds maximum length of " ++
      toString maxLength ++ " chars"))
  else .ok ()

def validateContent (content : String) : Except Exc Unit :=
  validateText "content" maxContentLength content

def validateQuery (query : String) : Except Exc Unit :=
  validateText "query" maxQueryLength query

def validateLimit (limit : Int) : Except Exc Unit :=
  if limit < 1 then .error (.valueError "limit must be at least 1")
  else if maxLimit < limit then
    .error (.valueError ("limit exceeds maximum of " ++ toString maxLimit))
  else .ok ()

/-- A scope value as every backend stores and returns it: text, booleans
lowercase. -/
def scopeText (unicode : Unicode) : Json → String
  | .bool value => if value then "true" else "false"
  | value => value.text unicode

def scopeAsText (unicode : Unicode) (scope : Dict String Json) :
    Dict String String :=
  scope.map fun _ value => scopeText unicode value

/-- A scope read back from a store: every value is text. -/
def textScope (scope : Dict String String) : Dict String Json :=
  scope.map fun _ value => .str value

@[simp] theorem scopeText_str (unicode : Unicode) (value : String) :
    scopeText unicode (.str value) = value := rfl

@[simp] theorem get?_textScope (scope : Dict String String) (key : String) :
    (textScope scope).get? key = (scope.get? key).map Json.str := by
  simp [textScope]

def isWildcard : Json → Bool
  | .null => true
  | .str value => strip value = "" || strip value = "*"
  | _ => false

def rejectNestedFilters (unicode : Unicode) (scope : Dict String Json) :
    Except Exc Unit :=
  let bad := nestedFilterKeys.filter fun key => key ∈ scope
  if bad.isEmpty then .ok ()
  else .error (.valueError ("Nested boolean filters are not supported (" ++
    reprList unicode (sorted bad) ++
    "). Use discrete scope keys or metadata fields instead."))

theorem rejectNestedFilters_raises (unicode : Unicode) (scope : Dict String Json) :
    Raises Exc.IsValueError (rejectNestedFilters unicode scope) := by
  unfold rejectNestedFilters
  dsimp only
  split
  · exact .pure _
  · exact .throw trivial

def stripReservedMetadata (metadata : Dict String Json) : Dict String Json :=
  metadata.filter fun key _ => !startsWith key reservedMetadataPrefix

/-! Canonical data shapes. -/

/-- Fields only policy sets.  `space` is text, except where a mem0 record
holds another value in its place. -/
structure System where
  space : Option Json := none
  author : Option String := none
  createdBy : Option String := none
  deriving DecidableEq

/-- `dict(system)`. -/
def System.toDict (system : System) : Dict String Json :=
  (((∅ : Dict String Json).setSome "space" system.space).setSome "author"
    (system.author.map .str)).setSome "created_by" (system.createdBy.map .str)

/-- `System(**fields)`. -/
def System.ofDict (fields : Dict String Json) : System where
  space := fields.get? "space"
  author := (fields.get? "author").bind Json.str?
  createdBy := (fields.get? "created_by").bind Json.str?

@[simp] theorem System.ofDict_toDict (system : System) :
    System.ofDict system.toDict = system := by
  obtain ⟨space, author, createdBy⟩ := system
  cases space <;> cases author <;> cases createdBy <;> rfl

structure Memory where
  id : String
  content : String
  score : Option ℚ := none
  scope : Dict String Json := ∅
  metadata : Dict String Json := ∅
  createdAt : String := ""
  updatedAt : Option String := none
  partition : String := ""
  system : System := {}
  deriving DecidableEq

def Memory.author (memory : Memory) : Option String := memory.system.author

inductive AddEvent where
  | add
  | update
  | delete
  deriving DecidableEq

structure AddResult where
  id : String
  status : String := "ready"
  createdAt : String := ""
  event : AddEvent := .add
  deriving DecidableEq

/-- `AddResult | list[AddResult]`. -/
inductive AddReturn where
  | one (result : AddResult)
  | many (results : List AddResult)
  deriving DecidableEq

def AddReturn.items : AddReturn → List AddResult
  | .one result => [result]
  | .many results => results

/-- The wire shape of a memory: no partition, and no system field but the
author. -/
structure SerializedMemory where
  id : String
  content : String
  score : Option ℚ
  scope : Dict String Json
  metadata : Dict String Json
  createdAt : String
  updatedAt : Option String
  author : Option String
  deriving DecidableEq

def serializeMemory (memory : Memory) : SerializedMemory where
  id := memory.id
  content := memory.content
  score := memory.score
  scope := memory.scope
  metadata := memory.metadata
  createdAt := memory.createdAt
  updatedAt := memory.updatedAt
  author := memory.author

structure ListResult where
  memories : List Memory := []
  nextCursor : Option String := none
  incomplete : Bool := false
  deriving DecidableEq

structure HistoryEntry where
  action : String
  timestamp : String
  contentBefore : Option String := none
  contentAfter : Option String := none
  author : Option String := none
  deriving DecidableEq

def HistoryEntry.created (now content : String) (author : Option String) :
    HistoryEntry where
  action := "created"
  timestamp := now
  contentAfter := some content
  author := author

def HistoryEntry.updated (now before after : String) (author : Option String) :
    HistoryEntry where
  action := "updated"
  timestamp := now
  contentBefore := some before
  contentAfter := some after
  author := author

structure EntitiesResult where
  entities : List (Dict String Json) := []
  relationships : List (Dict String Json) := []
  incomplete : Bool := false
  deriving DecidableEq

/-! Paging over a full list. -/

/-- Where a slice bound falls in a list of `length` items: a negative one
counts from the end. -/
def sliceBound (length : Nat) (bound : Int) : Nat :=
  if bound < 0 then (bound + length).toNat else min bound.toNat length

/-- `items[start:stop]`. -/
def slice {α : Type} (items : List α) (start stop : Int) : List α :=
  (items.drop (sliceBound items.length start)).take
    (sliceBound items.length stop - sliceBound items.length start)

theorem slice_related {α β : Type} {R : α → β → Prop} {left : List α} {right : List β}
    (related : List.Forall₂ R left right) (start stop : Int) :
    List.Forall₂ R (slice left start stop) (slice right start stop) := by
  unfold slice
  rw [related.length_eq]
  exact List.forall₂_take _ (List.forall₂_drop _ related)

/-- Where the page of a cursor starts. -/
def cursorStart (unicode : Unicode) : Option String → Except Exc Int
  | none | some "" => .ok 0
  | some cursor =>
      match parseInt unicode cursor with
      | some start => .ok start
      | none => .error (.valueError ("Invalid cursor: " ++ cursor))

def paginate (unicode : Unicode) (memories : List Memory)
    (cursor : Option String) (limit : Int) : Except Exc ListResult := do
  let start ← cursorStart unicode cursor
  return {
    memories := slice memories start (start + limit)
    nextCursor :=
      if start + limit < memories.length then some (toString (start + limit))
      else none }

end Memcp
