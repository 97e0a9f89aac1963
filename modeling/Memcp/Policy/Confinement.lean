import Memcp.Policy.Operations

/-!
What any operation may ask of a backend, and what it may hand back, when the
backend's replies are arbitrary.  One rule per operation establishes both.
-/

namespace Memcp

open Python Interaction

/-! The memories a request has read. -/

/-- A reply other than a search's gave `memory`. -/
def Held (past : Trace effects) (memory : Memory) : Prop :=
  ∃ event ∈ past, event.call.isSearch = false ∧
    memory ∈ replyMemories event.call event.reply

/-- The memories that vouch for `id` in `space`: those a get of the id
returned, and those with the id that another read or an update returned, when
they pass the space check. -/
def Vouches (space id : String) (past : Trace effects) (memory : Memory) : Prop :=
  memory.inSpace space = true ∧
    ((⟨.backend (.get space id), .ok (some memory)⟩ : Event effects) ∈ past ∨
      memory.id = id ∧ Held past memory)

/-- A get of `id` returned a memory that passes the space check. -/
def Fetched (space id : String) (past : Trace effects) : Prop :=
  ∃ memory, memory.inSpace space = true ∧
    (⟨.backend (.get space id), .ok (some memory)⟩ : Event effects) ∈ past

/-- The backend returned `memory` during the request, and it passes the space
check. -/
def Shown (space : String) (past : Trace effects) (memory : Memory) : Prop :=
  Returned past memory ∧ memory.inSpace space = true

section Growth

variable {past later : Trace effects} {space id : String} {memory : Memory}

theorem Held.returned (held : Held past memory) : Returned past memory := by
  obtain ⟨event, member, -, found⟩ := held
  exact ⟨event, member, found⟩

theorem Held.grow (held : Held past memory) (grows : past <+: later) :
    Held later memory := by
  obtain ⟨event, member, found⟩ := held
  exact ⟨event, grows.mem member, found⟩

theorem Held.last {call : BackendCall} {value : call.Result}
    (silent : Effect.isSearch (.backend call) = false)
    (member : memory ∈ call.memories value) :
    Held (past ++ [⟨.backend call, .ok value⟩]) memory :=
  ⟨⟨.backend call, .ok value⟩, by simp, silent, member⟩

theorem Vouches.grow (vouches : Vouches space id past memory)
    (grows : past <+: later) : Vouches space id later memory :=
  ⟨vouches.1, vouches.2.imp grows.mem fun ⟨same, held⟩ =>
    ⟨same, held.grow grows⟩⟩

theorem Vouches.get (passes : memory.inSpace space = true) :
    Vouches space id
      (past ++ [⟨.backend (.get space id), .ok (some memory)⟩]) memory :=
  ⟨passes, .inl (by simp)⟩

theorem Vouches.held (passes : memory.inSpace space = true)
    (held : Held past memory) : Vouches space memory.id past memory :=
  ⟨passes, .inr ⟨rfl, held⟩⟩

theorem Vouches.shown (vouches : Vouches space id past memory) :
    Shown space past memory := by
  refine ⟨?_, vouches.1⟩
  cases vouches.2 with
  | inl fetched =>
      exact ⟨_, fetched, by simp [replyMemories, BackendCall.memories]⟩
  | inr held => exact held.2.returned

theorem Fetched.grow (fetched : Fetched space id past)
    (grows : past <+: later) : Fetched space id later := by
  obtain ⟨memory, passes, member⟩ := fetched
  exact ⟨memory, passes, grows.mem member⟩

theorem Shown.grow (shown : Shown space past memory)
    (grows : past <+: later) : Shown space later memory := by
  obtain ⟨⟨event, member, found⟩, passes⟩ := shown
  exact ⟨⟨event, grows.mem member, found⟩, passes⟩

end Growth

/-! What a key's request may ask. -/

/-- The metadata rules on a map that is stored. -/
def acceptedMetadata (unicode : Unicode) (metadata : Option (Dict String Json)) :
    Prop :=
  ∀ given, metadata = some given →
    validateMetadata unicode given false = .ok () ∧
      checkMetadataSize given none = .ok ()

/-- The metadata rules on a patch of `stored`: an update's argument within the
size cap, or an import's overwrite with accepted metadata. -/
def acceptedPatch (unicode : Unicode) (stored : Memory)
    (patch : Option MetadataPatch) : Prop :=
  ∀ given, patch = some given →
    (∃ metadata, given = asPatch metadata ∧
      validateMetadata unicode metadata true = .ok () ∧
      checkMetadataSize (patched stored.metadata given) (some stored.metadata) =
        .ok ()) ∨
    ∃ metadata, given = overwritePatch metadata stored ∧
      acceptedMetadata unicode (some metadata)

/-- What policy asks of the backend for `key`, after the events `past`. -/
def Permitted (policy : Policy) (key : Key) (past : Trace effects) :
    Effect → Prop
  | .audit _ => True
  | .backend call =>
      (∀ partition, call.partition? = some partition →
        partition = key.grant.space) ∧
      (call.isWrite = true → key.grant.relation = .writer) ∧
      match call with
      | .add _ content scope metadata _ system =>
          validateContent content = .ok () ∧
          (∃ given, validateScope policy.unicode given policy.scopeKeys =
            .ok scope) ∧
          acceptedMetadata policy.unicode metadata ∧
          system = some (systemFor key.grant.space key.name (some key.name))
      | .update _ id content patch system =>
          (∀ text, content = some text → validateContent text = .ok ()) ∧
          ∃ memory, Vouches key.grant.space id past memory ∧
            acceptedPatch policy.unicode memory patch ∧
            system = some (systemFor key.grant.space key.name
              memory.system.createdBy)
      | .delete _ id => ∃ memory, Vouches key.grant.space id past memory
      | _ => True

/-- The scope an operation passes to the backend for the scope it is given. -/
def requestedScope (policy : Policy) : Request → Option (Dict String Json)
  | .search _ scope _ _ | .listMemories scope _ _ =>
      match validateScope policy.unicode scope policy.scopeKeys with
      | .ok cleaned => cleaned
      | .error _ => none
  | _ => none

/-- Whether every key requested is held by `memory` with the value requested. -/
def InRequestedScope (policy : Policy) (request : Request) (memory : Memory) :
    Prop :=
  ∀ scope, requestedScope policy request = some scope →
    scopeHolds policy.unicode memory.scope scope = true

/-- What the operation hands back is covered by what the backend returned
during it. -/
def Covered (policy : Policy) (space : String) (request : Request)
    (past : Trace effects) : Response → Prop
  | .added result =>
      ∀ item ∈ result.items, item.event ≠ .delete → Fetched space item.id past
  | .found memories =>
      ∀ memory ∈ memories,
        Shown space past memory ∧ InRequestedScope policy request memory
  | .page page =>
      ∀ memory ∈ page.memories,
        Shown space past memory ∧ InRequestedScope policy request memory
  | .memory memory => Shown space past memory
  | .exported payload =>
      ∀ item ∈ payload.memories,
        ∃ memory, Shown space past memory ∧ item = serializeMemory memory
  | .imported outcome =>
      (∀ item ∈ outcome.imported, match item.action with
        | .created => Fetched space item.id past
        | .updated => ∃ memory, Shown space past memory ∧ memory.id = item.id) ∧
      ∀ item ∈ outcome.skipped,
        ∃ memory, Shown space past memory ∧ memory.id = item.existingId
  | .deleted _ | .count _ | .history _ | .entities _ => True

theorem Covered.grow {policy : Policy} {space : String} {request : Request}
    {past later : Trace effects} {response : Response}
    (covered : Covered policy space request past response)
    (grows : past <+: later) : Covered policy space request later response := by
  cases response with
  | added result =>
      exact fun item member kept => (covered item member kept).grow grows
  | found memories =>
      exact fun memory member => (covered memory member).imp_left (·.grow grows)
  | page page =>
      exact fun memory member => (covered memory member).imp_left (·.grow grows)
  | memory memory => exact Shown.grow covered grows
  | exported payload =>
      intro item member
      obtain ⟨memory, shown, same⟩ := covered item member
      exact ⟨memory, shown.grow grows, same⟩
  | imported outcome =>
      refine ⟨fun item member => ?_, fun item member => ?_⟩
      · have holds := covered.1 item member
        cases action : item.action with
        | created =>
            simp only [action] at holds ⊢
            exact holds.grow grows
        | updated =>
            simp only [action] at holds ⊢
            obtain ⟨memory, shown, same⟩ := holds
            exact ⟨memory, shown.grow grows, same⟩
      · obtain ⟨memory, shown, same⟩ := covered.2 item member
        exact ⟨memory, shown.grow grows, same⟩
  | deleted | count | history | entities => trivial

/-! The rules for the calls operations share. -/

section Calls

variable {policy : Policy} {key : Key} {past : Trace effects}

theorem get_keeps (memoryId : String) :
    Fallible.Keeps (Permitted policy key)
      (fun later found => ∀ memory, found = some memory →
        (⟨.backend (.get key.grant.space memoryId), .ok (some memory)⟩ :
          Event effects) ∈ later)
      (Action.backend (.get key.grant.space memoryId)) past := by
  refine Action.keeps_backend ⟨by simp [BackendCall.partition?], nofun, trivial⟩ ?_
  rintro _ memory rfl
  simp

theorem read_keeps (memoryId : String) :
    Fallible.Keeps (Permitted policy key)
      (fun later memory => Vouches key.grant.space memoryId later memory)
      (Policy.read key.grant.space memoryId) past := by
  refine .check fun valid _ => ?_
  refine .bind (get_keeps memoryId).mapError fun later found _ returned => ?_
  cases found with
  | none => exact .throw _
  | some memory =>
      refine .lift fun checked passes => ?_
      obtain ⟨same, inSpace⟩ := checkSpace_eq_ok.mp passes
      exact ⟨inSpace, .inl (returned checked same)⟩

theorem checkAdded_keeps (items : List AddResult) :
    Operation.Keeps (Permitted policy key)
      (fun later _ => ∀ item ∈ items, item.event ≠ .delete →
        Fetched key.grant.space item.id later)
      (Policy.checkAdded key.grant.space items) past := by
  induction items generalizing past with
  | nil => exact .pure nofun
  | cons head tail induction =>
      unfold Policy.checkAdded
      split
      case isTrue deleted =>
        refine Operation.Keeps.mono induction fun later _ _ rest => ?_
        simpa [deleted] using rest
      case isFalse kept =>
        refine .bind (.action (get_keeps head.id)) fun fetched found _ returned => ?_
        refine .check fun checked passes => ?_
        obtain ⟨same, inSpace⟩ := checkSpace_eq_ok.mp passes
        refine Operation.Keeps.mono induction fun later _ grows rest => ?_
        intro item member live
        cases member with
        | head => exact ⟨checked, inSpace, grows.mem (returned checked same)⟩
        | tail _ member => exact rest item member live

theorem listAllFrom_keeps (limit : Nat) (memories : List Memory)
    (incomplete : Bool) (cursor : Option String)
    (known : ∀ memory ∈ memories,
      memory.inSpace key.grant.space = true ∧ Held past memory) :
    Fallible.Keeps (Permitted policy key)
      (fun later result => ∀ memory ∈ result.1,
        memory.inSpace key.grant.space = true ∧ Held later memory)
      (listAllFrom key.grant.space limit memories incomplete cursor) past := by
  induction left : limit + 1 - memories.length using Nat.strong_induction_on
    generalizing memories incomplete cursor past with
  | _ turns induction =>
    rw [listAllFrom]
    have page : Fallible.Keeps (Permitted policy key)
        (fun later page => ∀ memory ∈ page.memories, Held later memory)
        (Action.backend (.listMemories key.grant.space none
          ((limit + 1 - memories.length : Nat) : Int) cursor)) past :=
      Action.keeps_backend ⟨by simp [BackendCall.partition?], (by cases ·), trivial⟩
        fun page memory member => .last rfl member
    refine .bind page fun later page grows held => ?_
    split
    case h_1 => exact .throw _
    case h_2 checked passes =>
      obtain ⟨rfl, inSpace⟩ := checkSpaces_eq_ok.mp passes
      have known' : ∀ memory ∈ memories ++ page.memories,
          memory.inSpace key.grant.space = true ∧ Held later memory := by
        intro memory member
        rcases List.mem_append.mp member with old | new
        · exact ⟨(known memory old).1, (known memory old).2.grow grows⟩
        · exact ⟨inSpace memory new, held memory new⟩
      simp only
      split
      case isTrue =>
        exact .pure fun memory member => known' memory (List.mem_of_mem_take member)
      case isFalse unfinished =>
        simp only [not_or, List.length_append] at unfinished
        have added : 0 < page.memories.length :=
          List.length_pos_iff.mpr unfinished.2.1
        refine induction _ ?_ _ _ _ known' rfl
        simp only [List.length_append]
        omega

theorem listAll_keeps (limit : Nat) :
    Fallible.Keeps (Permitted policy key)
      (fun later result => ∀ memory ∈ result.1,
        memory.inSpace key.grant.space = true ∧ Held later memory)
      (listAll key.grant.space limit) past :=
  listAllFrom_keeps limit [] false none nofun

end Calls

end Memcp
