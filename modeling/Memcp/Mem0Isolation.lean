import Memcp.Backends.Mem0.Ownership
import Memcp.Backends.Mem0.Server
import Memcp.Backends.Local

/-!
Isolation on mem0.  Its requests by id check no owner, so the adapter gets a
memory before it writes it or reads its history; between the two the record may
go, but never to another user.
-/

namespace Memcp

open Python Interaction

namespace Mem0

/-! What the server shows, and to whom its records belong. -/

/-- The JSON of a record of an id that was given for its user. -/
def Genuine (owners : Dict String String) (memoryId : String) (raw : Json) : Prop :=
  ∃ (record : Record) (score : Option Json),
    owners.get? memoryId = some record.userId ∧ raw = record.json memoryId score

/-- Every memory an event shows is genuine, and a get shows the one it asked
for. -/
def Honest (owners : Dict String String) (event : Event http) : Prop :=
  ∀ raw, Shows event raw → ∃ memoryId, Genuine owners memoryId raw ∧
    ∀ asked, event.call = .getMemory asked → asked = memoryId

/-- Ids given stay given, for the same user. -/
def Grows (owners owners' : Dict String String) : Prop :=
  ∀ memoryId user, owners.get? memoryId = some user → owners'.get? memoryId = some user

theorem Genuine.grow {owners owners' : Dict String String} {memoryId : String}
    {raw : Json} (genuine : Genuine owners memoryId raw) (grows : Grows owners owners') :
    Genuine owners' memoryId raw := by
  obtain ⟨record, score, given, shape⟩ := genuine
  exact ⟨record, score, grows _ _ given, shape⟩

theorem Honest.grow {owners owners' : Dict String String} {event : Event http}
    (honest : Honest owners event) (grows : Grows owners owners') :
    Honest owners' event := by
  intro raw shows
  obtain ⟨memoryId, genuine, asked⟩ := honest raw shows
  exact ⟨memoryId, genuine.grow grows, asked⟩

theorem Parsed.owner {owners : Dict String String} {past : Trace http}
    {memory : Memory} (parsed : Parsed past memory)
    (honest : ∀ event ∈ past, Honest owners event) :
    owners.get? memory.id = some memory.partition := by
  obtain ⟨event, member, raw, score, shows, parsed⟩ := parsed
  obtain ⟨memoryId, ⟨record, shown, given, rfl⟩, -⟩ := honest event member raw shows
  obtain ⟨fields, object, readId, readUser⟩ := parseMemory_fields parsed
  rw [Record.json, Json.dict?_ofDict] at object
  cases object
  have sameId : memoryId = memory.id := by simpa [getOr] using readId
  have sameUser : record.userId = memory.partition := by
    simp only [getOr, Record.fields_user, Option.getD_some, orElse] at readUser
    split at readUser
    · simpa using readUser
    · rename_i empty
      have blank : record.userId = "" := by simpa [Json.truthy] using empty
      rw [blank]
      simpa using readUser
  rw [← sameId, given, sameUser]

theorem FetchedOwn.owner {owners : Dict String String} {past : Trace http}
    {partition memoryId : String} (fetched : FetchedOwn partition memoryId past)
    (honest : ∀ event ∈ past, Honest owners event) :
    owners.get? memoryId = some partition := by
  obtain ⟨event, member, same, raw, shows, user⟩ := fetched
  obtain ⟨shown, genuine, asked⟩ := honest event member raw shows
  obtain rfl := asked memoryId same
  obtain ⟨record, score, given, rfl⟩ := genuine
  simp only [userOf, Record.json, Json.dict?_ofDict, Option.bind_some,
    Record.fields_user, Option.some.injEq, Json.str.injEq] at user
  rw [given, user]

/-! One request. -/

theorem not_shows_of_error {event : Event http} {error : Exc}
    (fails : event.reply.outcome = .error error) (raw : Json) : ¬Shows event raw := by
  rintro ⟨body, shown, returned, -⟩
  rw [fails] at returned
  cases returned

theorem picked_genuine {choice : Choice} {params : Dict String Json} {state : State}
    {memoryId : String} {score : Json} {record : Record}
    (member : (memoryId, score, record) ∈ picked choice params state)
    (shown : Option Json) :
    Genuine state.owners memoryId (record.json memoryId shown) := by
  obtain ⟨⟨id, given⟩, -, chosen⟩ := List.mem_filterMap.mp member
  dsimp only at chosen
  cases stored : state.records.get? id with
  | none =>
      rw [stored] at chosen
      cases chosen
  | some held =>
      rw [stored] at chosen
      dsimp only at chosen
      split at chosen
      · cases chosen
        exact ⟨record, shown, state.owned stored, rfl⟩
      · cases chosen

theorem shows_results {call : HttpRequest} {results : List Json} {raw : Json}
    (through : bodies call (.obj [("results", .list results)]) = .ok results)
    (shows : Shows ⟨call, .json (.obj [("results", .list results)])⟩ raw) :
    raw ∈ results := by
  obtain ⟨body, shown, returned, same, member⟩ := shows
  cases returned
  rw [through] at same
  cases same
  exact member

theorem serve_honest (choice : Choice) (call : HttpRequest) (state : State) :
    Honest state.owners ⟨call, (serve choice call state).1⟩ := by
  intro raw shows
  cases call with
  | getMemory memoryId =>
      obtain ⟨body, shown, returned, same, member⟩ := shows
      cases returned
      cases stored : state.records.get? memoryId with
      | none =>
          simp only [bodies, stored, Option.elim_none, if_true] at same
          cases same
          cases member
      | some record =>
          have present : record.json memoryId none ≠ .null := by
            intro absurd
            cases absurd
          simp only [bodies, stored, Option.elim_some, if_neg present] at same
          cases same
          obtain rfl := List.mem_singleton.mp member
          refine ⟨memoryId, ⟨record, none, state.owned stored, rfl⟩, ?_⟩
          rintro asked ⟨⟩
          rfl
  | postSearch json =>
      have member := shows_results rfl shows
      obtain ⟨⟨memoryId, score, record⟩, chosen, rfl⟩ := List.mem_map.mp member
      exact ⟨memoryId, picked_genuine chosen _, fun asked same => by cases same⟩
  | getMemories params =>
      have member := shows_results rfl shows
      obtain ⟨⟨memoryId, score, record⟩, chosen, rfl⟩ := List.mem_map.mp member
      exact ⟨memoryId, picked_genuine chosen _, fun asked same => by cases same⟩
  | postMemories | deleteMemories | putMemory | deleteMemory | getHistory =>
      obtain ⟨body, shown, -, ⟨⟩, ⟨⟩⟩ := shows

theorem Grows.refl (owners : Dict String String) : Grows owners owners :=
  fun _ _ given => given

theorem Grows.trans {first second third : Dict String String}
    (one : Grows first second) (other : Grows second third) : Grows first third :=
  fun memoryId user given => other memoryId user (one memoryId user given)

theorem insert_grows (id now : String) (record : Record) (state : State) :
    Grows state.owners (state.insert id now record).owners := by
  intro memoryId user given
  unfold State.insert
  split
  · exact given
  · rename_i fresh
    have distinct : memoryId ≠ id := by
      rintro rfl
      exact fresh (Dict.mem_of_get? given)
    simp only [Dict.get?_set, if_neg distinct]
    exact given

theorem modify_owners (id now : String) (f : Record → Record) (state : State) :
    (state.modify id now f).owners = state.owners := by
  unfold State.modify
  split <;> rfl

theorem applyTouch_grows (user now : String) (state : State) (touch : Touch) :
    Grows state.owners (applyTouch user now state touch).owners := by
  cases touch with
  | created id record => exact insert_grows id now _ state
  | changed id record =>
      simp only [applyTouch]
      split
      · exact .refl _
      · split
        · rw [modify_owners]
          exact .refl _
        · exact .refl _
  | deleted id => exact .refl _

theorem serve_grows (choice : Choice) (call : HttpRequest) (state : State) :
    Grows state.owners (serve choice call state).2.owners := by
  cases call with
  | postMemories json =>
      simp only [serve]
      split
      · exact insert_grows _ _ _ state
      · generalize choice.touches = touches
        induction touches generalizing state with
        | nil => exact .refl _
        | cons touch touches induction =>
            exact (applyTouch_grows _ _ _ _).trans (induction _)
  | putMemory memoryId json =>
      simp only [serve, modify_owners]
      exact .refl _
  | postSearch | getMemories | deleteMemories | getMemory | deleteMemory
  | getHistory => exact .refl _

/-- The records of other users, as they were. -/
def Spared (space : String) (state later : State) : Prop :=
  ∀ memoryId record, state.records.get? memoryId = some record →
    record.userId ≠ space → later.records.get? memoryId = some record

theorem Spared.refl (space : String) (state : State) : Spared space state state :=
  fun _ _ stored _ => stored

theorem Spared.trans {space : String} {first second third : State}
    (one : Spared space first second) (other : Spared space second third) :
    Spared space first third :=
  fun memoryId record stored foreign =>
    other memoryId record (one memoryId record stored foreign) foreign

theorem answer_state (choice : Choice) (call : HttpRequest) (state : State) :
    (answer choice call state).2 = (serve choice call state).2 ∨
      (answer choice call state).2 = state := by
  unfold answer
  split
  · exact .inl rfl
  · split
    · exact .inl rfl
    · exact .inr rfl

theorem answer_grows (choice : Choice) (call : HttpRequest) (state : State) :
    Grows state.owners (answer choice call state).2.owners := by
  rcases answer_state choice call state with same | same
  · rw [same]
    exact serve_grows choice call state
  · rw [same]
    exact .refl _

theorem answer_honest (choice : Choice) (call : HttpRequest) (state : State) :
    Honest (answer choice call state).2.owners ⟨call, (answer choice call state).1⟩ := by
  cases failed : choice.failure with
  | none =>
      simp only [answer, failed]
      exact (serve_honest choice call state).grow (serve_grows choice call state)
  | some failure =>
      simp only [answer, failed]
      exact fun raw shows => absurd shows (not_shows_of_error failure.fails raw)

/-! Operations over the adapter. -/

/-- A backend call as the requests of its method; an audit record sends none. -/
def handle (unicode : Unicode) (timestamps : Timestamps) :
    (effect : Effect) → Program http effect.Reply
  | .backend call => method unicode timestamps call
  | .audit _ => .done ()

/-- Every reply of the backend rests on what the server showed. -/
def Linked (trace : Trace effects) (past : Trace http) : Prop :=
  ∀ event ∈ trace, Backed past event

/-- The policy over the mem0 backend. -/
def mem0Policy (unicode : Unicode) : Policy where
  unicode := unicode
  capabilities := mem0Capabilities
  scopeKeys := mem0ScopeKeys

end Mem0

open Mem0

/-- The ids of the memories a response holds, tells of, or is the history of. -/
def Response.shownIds (request : Request) : Response → List String
  | .added result =>
      (result.items.filter fun item => item.event ≠ .delete).map AddResult.id
  | .found memories => memories.map Memory.id
  | .page listed => listed.memories.map Memory.id
  | .memory shown => [shown.id]
  | .exported payload => payload.memories.map SerializedMemory.id
  | .imported outcome =>
      outcome.imported.map Imported.id ++ outcome.skipped.map Skipped.existingId
  | .history _ =>
      match request with
      | .history memoryId => [memoryId]
      | _ => []
  | .deleted _ | .count _ | .entities _ => []

/-- What an operation hands back, as far as isolation goes. -/
def Told (policy : Policy) (key : Key) (request : Request) (past : Trace effects)
    (response : Response) : Prop :=
  Covered policy key.grant.space request past response ∧
    ∀ memoryId, request = .history memoryId →
      ∃ memory, Vouches key.grant.space memoryId past memory

/-- Every id told is the id of a memory of the space. -/
theorem Told.owned {policy : Policy} {key : Key} {request : Request}
    {past : Trace effects} {response : Response} {requests : Trace http}
    {owners : Dict String String} (told : Told policy key request past response)
    (backed : ∀ event ∈ past, Backed requests event)
    (honest : ∀ event ∈ requests, Honest owners event) {memoryId : String}
    (shown : memoryId ∈ response.shownIds request) :
    owners.get? memoryId = some key.grant.space := by
  have ofFetched : ∀ id, Fetched key.grant.space id past →
      owners.get? id = some key.grant.space := by
    rintro id ⟨memory, -, member⟩
    exact ((backed _ member).fetched _ _ _ rfl).owner honest
  have ofShown : ∀ memory, Shown key.grant.space past memory →
      owners.get? memory.id = some key.grant.space := by
    rintro memory ⟨⟨event, member, found⟩, inSpace⟩
    have owner := ((backed event member).memories memory found).owner honest
    simp only [Memory.inSpace, Bool.and_eq_true, decide_eq_true_eq] at inSpace
    rw [owner, inSpace.1]
  obtain ⟨covered, history⟩ := told
  cases response with
  | added result =>
      obtain ⟨item, member, rfl⟩ := List.mem_map.mp shown
      obtain ⟨listed, kept⟩ := List.mem_filter.mp member
      exact ofFetched _ (covered item listed (by simpa using kept))
  | found memories =>
      obtain ⟨memory, member, rfl⟩ := List.mem_map.mp shown
      exact ofShown memory (covered memory member).1
  | page page =>
      obtain ⟨memory, member, rfl⟩ := List.mem_map.mp shown
      exact ofShown memory (covered memory member).1
  | memory memory =>
      obtain rfl := List.mem_singleton.mp shown
      exact ofShown memory covered
  | exported payload =>
      obtain ⟨item, member, rfl⟩ := List.mem_map.mp shown
      obtain ⟨memory, seen, rfl⟩ := covered item member
      exact ofShown memory seen
  | imported outcome =>
      rcases List.mem_append.mp shown with imported | skipped
      · obtain ⟨item, member, rfl⟩ := List.mem_map.mp imported
        have holds := covered.1 item member
        cases action : item.action with
        | created =>
            simp only [action] at holds
            exact ofFetched _ holds
        | updated =>
            simp only [action] at holds
            obtain ⟨memory, seen, same⟩ := holds
            exact same ▸ ofShown memory seen
      · obtain ⟨item, member, rfl⟩ := List.mem_map.mp skipped
        obtain ⟨memory, seen, same⟩ := covered.2 item member
        exact same ▸ ofShown memory seen
  | history entries =>
      cases request with
      | history asked =>
          obtain rfl := List.mem_singleton.mp shown
          obtain ⟨memory, inSpace, get | ⟨same, held⟩⟩ := history memoryId rfl
          · exact ofFetched memoryId ⟨memory, inSpace, get⟩
          · exact same ▸ ofShown memory ⟨held.returned, inSpace⟩
      | _ => cases shown
  | deleted | count | entities => cases shown

/-! Interleaved operations. -/

namespace Operations

variable {Task : Type} (operations : Operations Task)

/-- What a task hands back comes from what the server showed it. -/
def Returns (unicode : Unicode) (task : Task) (past : Trace http)
    (outcome : Except Exc Response) : Prop :=
  ∃ trace, Linked trace past ∧ ∀ response, outcome = .ok response →
    Told (mem0Policy unicode) (operations.key task) (operations.request task) trace
      response

variable [DecidableEq Task]

/-- What holds of a run: every task keeps to its space, and the server showed
records as they belong. -/
structure Sound (unicode : Unicode)
    (pool : Pool http Task (Except Exc Response) server.State) : Prop where
  safe : pool.AllSafe (fun task => Confined (operations.key task).grant.space)
    (operations.Returns unicode)
  honest : ∀ entry ∈ pool.log, Honest pool.state.owners entry.2

variable {operations} {unicode : Unicode} {choices : Task → Nat → Choice}
  {pool : Pool http Task (Except Exc Response) server.State}

theorem Sound.past (sound : operations.Sound unicode pool) (task : Task) :
    ∀ event ∈ pool.past task, Honest pool.state.owners event := by
  intro event member
  obtain ⟨entry, kept, rfl⟩ := List.mem_map.mp member
  exact sound.honest entry (List.mem_filter.mp kept).1

theorem Sound.step (sound : operations.Sound unicode pool) (task : Task) :
    operations.Sound unicode (pool.step server choices task) where
  safe := sound.safe.step task
  honest := by
    cases asks : pool.program task with
    | done value =>
        rw [Pool.step_of_done asks]
        exact sound.honest
    | ask call next =>
        rw [Pool.step_of_ask asks]
        intro entry member
        rcases List.mem_append.mp member with earlier | last
        · exact (sound.honest entry earlier).grow (answer_grows _ call pool.state)
        · obtain rfl := List.mem_singleton.mp last
          exact answer_honest _ call pool.state

theorem Sound.run (sound : operations.Sound unicode pool) (schedule : List Task) :
    operations.Sound unicode (pool.run server choices schedule) :=
  Pool.run_invariant _ (fun _ task sound => sound.step task) sound schedule

theorem Sound.owned (sound : operations.Sound unicode pool) {task : Task}
    {response : Response} (returned : pool.program task = .done (.ok response))
    {memoryId : String}
    (shown : memoryId ∈ response.shownIds (operations.request task)) :
    pool.state.owners.get? memoryId = some (operations.key task).grant.space := by
  have here := sound.safe task
  rw [returned] at here
  obtain ⟨trace, linked, told⟩ := here
  exact (told response rfl).owned linked (sound.past task) shown

end Operations

end Memcp
