import Memcp.Backends.Mem0.Adapter
import Memcp.Backends.Spaces

/-!
What the methods ask of the server, whatever it replies: a read or an add names
the partition it is for, and a write by id comes after a get that showed the
memory to be of the partition.
-/

namespace Memcp.Mem0

open Python Interaction

/-! What responses show. -/

/-- The memories in the body of a response. -/
def bodies : HttpRequest → Json → Except Exc (List Json)
  | .getMemory _, body => .ok (if body = .null then [] else [body])
  | .postSearch _, body => items (rawResults body)
  | .getMemories _, body => do items (← rawList body)
  | .postMemories _, _ | .deleteMemories _, _ | .putMemory .., _
  | .deleteMemory _, _ | .getHistory _, _ => .ok []

/-- An event in which the server showed a memory. -/
def Shows (event : Event http) (raw : Json) : Prop :=
  ∃ body shown, event.reply.outcome = .ok body ∧
    bodies event.call body = .ok shown ∧ raw ∈ shown

/-- The server showed `memory`. -/
def Parsed (past : Trace http) (memory : Memory) : Prop :=
  ∃ event ∈ past, ∃ raw score, Shows event raw ∧ parseMemory raw score = .ok memory

def userOf (raw : Json) : Option Json := raw.dict?.bind fun fields => fields.get? "user_id"

/-- A get of the id showed a memory of the partition. -/
def FetchedOwn (partition memoryId : String) (past : Trace http) : Prop :=
  ∃ event ∈ past, event.call = .getMemory memoryId ∧
    ∃ raw, Shows event raw ∧ userOf raw = some (.str partition)

theorem Parsed.grow {past later : Trace http} {memory : Memory}
    (parsed : Parsed past memory) (grows : past <+: later) : Parsed later memory := by
  obtain ⟨event, member, rest⟩ := parsed
  exact ⟨event, grows.mem member, rest⟩

theorem FetchedOwn.grow {past later : Trace http} {partition memoryId : String}
    (fetched : FetchedOwn partition memoryId past) (grows : past <+: later) :
    FetchedOwn partition memoryId later := by
  obtain ⟨event, member, rest⟩ := fetched
  exact ⟨event, grows.mem member, rest⟩

/-- Where the id and the partition of a memory are read from. -/
theorem parseMemory_fields {raw score : Json} {memory : Memory}
    (parsed : parseMemory raw score = .ok memory) :
    ∃ fields, raw.dict? = some fields ∧
      getOr fields "id" (.str "") = .str memory.id ∧
      orElse (getOr fields "user_id" .null) (.str "") = .str memory.partition := by
  obtain ⟨read, parsed, declared⟩ := bind_eq_ok.mp parsed
  obtain ⟨fields, attributed, parsed⟩ := bind_eq_ok.mp parsed
  obtain ⟨stored, -, ⟨⟩⟩ := bind_eq_ok.mp parsed
  have tells := RawMemory.tells declared
  refine ⟨fields, ?_, tells.id, tells.partition⟩
  unfold attributes at attributed
  split at attributed
  · rename_i object
    cases attributed
    exact object
  · cases attributed

/-! What a method for a partition may send. -/

def Names (partition : String) (params : Dict String Json) : Prop :=
  params.get? "user_id" = some (.str partition)

def Confined (partition : String) (past : Trace http) : HttpRequest → Prop
  | .postMemories json => Names partition json
  | .postSearch json => Names partition json.filters
  | .getMemories params | .deleteMemories params => Names partition params
  | .getMemory _ => True
  | .putMemory memoryId _ | .deleteMemory memoryId | .getHistory memoryId =>
      FetchedOwn partition memoryId past

section Requests

variable {partition memoryId : String} {past : Trace http} {unicode : Unicode}

theorem request_keeps {call : HttpRequest} {post : Trace http → Json → Prop}
    (allowed : Confined partition past call)
    (holds : ∀ response body, HttpResponse.outcome response = .ok body →
      post (past ++ [⟨call, response⟩]) body) :
    Fallible.Keeps (Confined partition) post (request call) past :=
  ⟨allowed, fun response body returned => holds response body returned⟩

theorem withScope_names {target params : Dict String Json}
    {scope : Option (Dict String Json)} (names : Names partition target)
    (built : withScope unicode target scope = .ok params) :
    Names partition params :=
  (withScope_get? (.inl rfl) built).trans names

theorem buildSearchFilters_names {scope : Option (Dict String Json)}
    {filters : Dict String Json}
    (built : buildSearchFilters unicode partition scope = .ok filters) :
    Names partition filters := by
  refine withScope_names ?_ built
  rfl

theorem buildIdentifierParams_names {scope : Option (Dict String Json)}
    {params : Dict String Json}
    (built : buildIdentifierParams unicode partition scope = .ok params) :
    Names partition params := by
  refine withScope_names ?_ built
  rfl

/-! What is made of each response. -/

theorem searchResults_parsed {body : Json} {memories : List Memory}
    (read : searchResults body = .ok memories) :
    ∃ shown, items (rawResults body) = .ok shown ∧
      ∀ memory ∈ memories, ∃ raw ∈ shown, ∃ score,
        parseMemory raw score = .ok memory := by
  obtain ⟨shown, through, mapped⟩ := bind_eq_ok.mp read
  refine ⟨shown, through, fun memory member => ?_⟩
  obtain ⟨raw, listed, parsed⟩ := mem_of_mapM_eq_ok mapped member
  obtain ⟨fields, -, parsed⟩ := bind_eq_ok.mp parsed
  exact ⟨raw, listed, _, parsed⟩

theorem listPage_parsed {body : Json} {limit : Int} {cursor : Option String}
    {page : ListResult} (read : listPage unicode limit cursor body = .ok page) :
    ∃ raw shown, rawList body = .ok raw ∧ items raw = .ok shown ∧
      ∀ memory ∈ page.memories, ∃ raw ∈ shown, ∃ score,
        parseMemory raw score = .ok memory := by
  obtain ⟨raw, readRaw, read⟩ := bind_eq_ok.mp read
  obtain ⟨size, -, read⟩ := bind_eq_ok.mp read
  obtain ⟨shown, through, read⟩ := bind_eq_ok.mp read
  obtain ⟨memories, mapped, read⟩ := bind_eq_ok.mp read
  obtain ⟨whole, paged, ⟨⟩⟩ := bind_eq_ok.mp read
  obtain ⟨start, -, ⟨⟩⟩ := bind_eq_ok.mp paged
  refine ⟨raw, shown, readRaw, through, fun memory member => ?_⟩
  obtain ⟨raw, listed, parsed⟩ := mem_of_mapM_eq_ok mapped (mem_of_mem_slice member)
  exact ⟨raw, listed, _, parsed⟩

theorem ownedMemory_shown {body : Json} {memory : Memory}
    (read : ownedMemory partition body = .ok (some memory)) :
    body ≠ .null ∧ parseMemory body .null = .ok memory ∧
      userOf body = some (.str partition) := by
  unfold ownedMemory at read
  split at read
  · cases read
  · rename_i present
    obtain ⟨fields, attributed, read⟩ := bind_eq_ok.mp read
    split at read
    · cases read
    · rename_i same
      obtain ⟨found, parsed, ⟨⟩⟩ := bind_eq_ok.mp read
      refine ⟨present, parsed, ?_⟩
      unfold attributes at attributed
      unfold userOf
      cases object : body.dict? with
      | none =>
          rw [object] at attributed
          cases attributed
      | some held =>
          rw [object] at attributed
          cases attributed
          simp only [not_not] at same
          unfold getOr at same
          cases user : fields.get? "user_id" with
          | none =>
              rw [user] at same
              cases same
          | some value =>
              rw [user] at same
              simp only [Option.bind_some, user]
              exact congrArg some same

/-! The methods. -/

theorem get_keeps :
    Fallible.Keeps (Confined partition)
      (fun later found => ∀ memory, found = some memory →
        Parsed later memory ∧ FetchedOwn partition memoryId later)
      (get unicode partition memoryId) past := by
  refine .check fun _ _ => ?_
  have fetched : Fallible.Keeps (Confined partition)
      (fun later body => ∃ event ∈ later, event.call = .getMemory memoryId ∧
        event.reply.outcome = .ok body)
      (request (.getMemory memoryId)) past :=
    request_keeps trivial fun response body returned =>
      ⟨⟨.getMemory memoryId, response⟩, by simp, rfl, returned⟩
  refine .bind fetched fun later body _ received => .lift fun found read => ?_
  rintro memory rfl
  obtain ⟨event, member, same, returned⟩ := received
  obtain ⟨present, parsed, user⟩ := ownedMemory_shown read
  have shows : Shows event body :=
    ⟨body, [body], returned, by simp [same, bodies, present], by simp⟩
  exact ⟨⟨event, member, body, .null, shows, parsed⟩,
    ⟨event, member, same, body, shows, user⟩⟩

theorem add_keeps (content : String) (scope metadata : Option (Dict String Json))
    (infer : Bool) (system : Option System) :
    Fallible.Keeps (Confined partition) (fun _ _ => True)
      (add unicode partition content scope metadata infer system) past := by
  refine .check fun _ _ => .check fun payload built => .check fun _ _ => ?_
  have named : Names partition payload := by
    refine withScope_names ?_ built
    rfl
  refine .bind (@request_keeps _ _ _ (fun _ _ => True) ?_ fun _ _ _ => trivial)
    fun later body _ _ => .check fun _ _ => .pure trivial
  split
  · exact named
  · rw [Confined, Names, Dict.get?_set, if_neg (by decide)]
    exact named

theorem search_keeps (query : String) (scope : Option (Dict String Json))
    (limit : Int) (threshold : ℚ) :
    Fallible.Keeps (Confined partition)
      (fun later memories => ∀ memory ∈ memories, Parsed later memory)
      (search unicode partition query scope limit threshold) past := by
  refine .check fun _ _ => .check fun filters built => ?_
  have named := buildSearchFilters_names built
  let call : HttpRequest := .postSearch { query, filters, topK := limit, threshold }
  have sent : Fallible.Keeps (Confined partition)
      (fun later body => ∃ response, HttpResponse.outcome response = .ok body ∧
        (⟨call, response⟩ : Event http) ∈ later)
      (request call) past :=
    request_keeps named fun response body returned => ⟨response, returned, by simp⟩
  refine .bind sent fun later body _ received => .lift fun memories read => ?_
  intro memory member
  obtain ⟨response, returned, answered⟩ := received
  obtain ⟨shown, through, parsed⟩ := searchResults_parsed read
  obtain ⟨raw, listed, score, same⟩ := parsed memory member
  exact ⟨_, answered, raw, score, ⟨body, shown, returned, through, listed⟩, same⟩

theorem listMemories_keeps (scope : Option (Dict String Json)) (limit : Int)
    (cursor : Option String) :
    Fallible.Keeps (Confined partition)
      (fun later page => ∀ memory ∈ page.memories, Parsed later memory)
      (listMemories unicode partition scope limit cursor) past := by
  refine .check fun _ _ => .check fun params built => ?_
  have named : Names partition (params.set "top_k" (.int listCeiling)) := by
    rw [Names, Dict.get?_set, if_neg (by decide)]
    exact buildIdentifierParams_names built
  let call : HttpRequest := .getMemories (params.set "top_k" (.int listCeiling))
  have sent : Fallible.Keeps (Confined partition)
      (fun later body => ∃ response, HttpResponse.outcome response = .ok body ∧
        (⟨call, response⟩ : Event http) ∈ later)
      (request call) past :=
    request_keeps named fun response body returned => ⟨response, returned, by simp⟩
  refine .bind sent fun later body _ received => .lift fun page read => ?_
  intro memory member
  obtain ⟨response, returned, answered⟩ := received
  obtain ⟨list, shown, readList, through, parsed⟩ := listPage_parsed read
  obtain ⟨raw, listed, score, same⟩ := parsed memory member
  have within : bodies call body = .ok shown := by
    simp only [call, bodies, readList]
    exact through
  exact ⟨_, answered, raw, score, ⟨body, shown, returned, within, listed⟩, same⟩

theorem update_keeps (content : Option String) (patch : Option MetadataPatch)
    (system : Option System) :
    Fallible.Keeps (Confined partition) (fun later memory => Parsed later memory)
      (update unicode partition memoryId content patch system) past := by
  refine .check fun _ _ => .check fun _ _ => .bind get_keeps ?_
  intro later existing _ fetched
  cases existing with
  | none => exact .throw _
  | some existing =>
      obtain ⟨parsed, own⟩ := fetched existing rfl
      dsimp only
      split
      · exact .pure parsed
      · refine .bind (@request_keeps _ _ _ (fun _ _ => True) own fun _ _ _ => trivial)
          fun later body _ _ => .bind get_keeps fun last updated _ fetched => ?_
        cases updated with
        | none => exact .throw _
        | some updated => exact .pure (fetched updated rfl).1

theorem delete_keeps :
    Fallible.Keeps (Confined partition) (fun _ _ => True)
      (delete unicode partition memoryId) past := by
  refine .check fun _ _ => .bind get_keeps fun later existing _ fetched => ?_
  cases existing with
  | none => exact .throw _
  | some existing =>
      exact .bind (@request_keeps _ _ _ (fun _ _ => True) (fetched existing rfl).2
        fun _ _ _ => trivial) fun _ _ _ _ => .pure trivial

theorem deleteAll_keeps (scope : Dict String Json) :
    Fallible.Keeps (Confined partition) (fun _ _ => True)
      (deleteAll unicode partition scope) past := by
  refine .check fun _ _ => ?_
  dsimp only
  split
  · exact .throw _
  · refine .check fun params built => ?_
    exact .bind (@request_keeps _ _ _ (fun _ _ => True)
      (buildIdentifierParams_names built)
      fun _ _ _ => trivial) fun _ _ _ _ => .pure trivial

theorem history_keeps :
    Fallible.Keeps (Confined partition)
      (fun later _ => FetchedOwn partition memoryId later)
      (history unicode partition memoryId) past := by
  refine .check fun _ _ => .bind get_keeps fun later existing _ fetched => ?_
  cases existing with
  | none => exact .throw _
  | some existing =>
      have own := (fetched existing rfl).2
      have sent : Fallible.Keeps (Confined partition)
          (fun later _ => FetchedOwn partition memoryId later)
          (request (.getHistory memoryId)) later :=
        request_keeps own fun _ _ _ => own.grow (List.prefix_append _ _)
      exact .bind sent fun last body _ own => .lift fun _ _ => own

theorem entities_keeps (timestamps : Timestamps) (scope : Option (Dict String Json))
    (limit : Int) :
    Fallible.Keeps (Confined partition) (fun _ _ => True)
      (entities unicode timestamps partition scope limit) past :=
  .check fun _ _ => .bind (listMemories_keeps scope listCeiling none)
    fun _ _ _ _ => .pure trivial

/-- What a call hands to the policy layer was shown by the server, in a get of
the same partition where it is about one memory. -/
structure Backed (past : Trace http) (event : Event effects) : Prop where
  memories : ∀ memory ∈ replyMemories event.call event.reply, Parsed past memory
  fetched : ∀ partition memoryId memory,
    event = ⟨.backend (.get partition memoryId), .ok (some memory)⟩ →
      FetchedOwn partition memoryId past
  history : ∀ partition memoryId entries,
    event = ⟨.backend (.history partition memoryId), .ok entries⟩ →
      FetchedOwn partition memoryId past

theorem Backed.grow {past later : Trace http} {event : Event effects}
    (backed : Backed past event) (grows : past <+: later) : Backed later event where
  memories memory member := (backed.memories memory member).grow grows
  fetched partition memoryId memory same :=
    (backed.fetched partition memoryId memory same).grow grows
  history partition memoryId entries same :=
    (backed.history partition memoryId entries same).grow grows

end Requests

end Memcp.Mem0
