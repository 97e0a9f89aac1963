import Memcp.Backends.Mem0.Client

/-!
A mem0 server, as far as the adapter relies on it: one map from ids to
records.  Its requests by id check no owner; its list, search and bulk delete
go through the records that hold every parameter sent; an add touches records
of the user it names; no id is given twice and no record changes its user.
-/

namespace Memcp.Mem0

open Python Interaction

structure Record where
  userId : String
  text : String
  metadata : Dict String Json := ∅
  agentId : Option String := none
  runId : Option String := none
  createdAt : String := ""
  updatedAt : Option String := none
  deriving DecidableEq

namespace Record

/-- What a parameter of a request is compared with. -/
def field (record : Record) : String → Option Json
  | "user_id" => some (.str record.userId)
  | "agent_id" => record.agentId.map .str
  | "run_id" => record.runId.map .str
  | key => record.metadata.get? key

/-- Whether a record holds every parameter, `top_k` apart. -/
def holds (record : Record) (params : Dict String Json) : Bool :=
  params.entries.all fun (key, value) =>
    key = "top_k" || record.field key = some value

def optional (text : Option String) : Json := text.elim .null .str

/-- A record as a response shows it; a search adds its score. -/
def fields (id : String) (score : Option Json) (record : Record) :
    Dict String Json :=
  (Dict.ofList [("id", .str id), ("memory", .str record.text),
    ("user_id", .str record.userId), ("agent_id", optional record.agentId),
    ("run_id", optional record.runId), ("metadata", Json.ofDict record.metadata),
    ("created_at", .str record.createdAt),
    ("updated_at", optional record.updatedAt)]).setSome "score" score

def json (id : String) (score : Option Json) (record : Record) : Json :=
  Json.ofDict (record.fields id score)

/-- The record after a `PUT`: the text replaced when one is sent, the metadata
merged key by key. -/
def merged (now : String) (body : Dict String Json) (record : Record) : Record :=
  { record with
    text := ((body.get? "text").bind Json.str?).getD record.text
    metadata := ((body.get? "metadata").bind Json.dict?).elim record.metadata
      record.metadata.update
    updatedAt := some now }

end Record

/-! The fields shown. -/

section Fields

variable (id : String) (score : Option Json) (record : Record)

theorem Record.get?_fields {key : String} (other : key ≠ "score") :
    (record.fields id score).get? key = (record.fields id none).get? key := by
  cases score with
  | none => rfl
  | some score => simp only [Record.fields, Dict.setSome, Dict.get?_set, if_neg other]

@[simp] theorem Record.fields_id :
    (record.fields id score).get? "id" = some (.str id) := by
  rw [Record.get?_fields _ _ _ (by decide)]
  simp [Record.fields, Dict.setSome, Dict.get?_ofList]

@[simp] theorem Record.fields_user :
    (record.fields id score).get? "user_id" = some (.str record.userId) := by
  rw [Record.get?_fields _ _ _ (by decide)]
  simp [Record.fields, Dict.setSome, Dict.get?_ofList]

end Fields

/-- The server's memory.  `owners` holds every id ever given, with the user it
was given for. -/
structure State where
  records : Dict String Record := ∅
  owners : Dict String String := ∅
  history : List (String × Json) := []
  owned : ∀ {id record}, records.get? id = some record →
    owners.get? id = some record.userId

namespace State

def empty : State where
  owned found := by simp at found

/-- An event of the change log. -/
def event (name now : String) (old new : Option String) : Json :=
  .obj [("event", .str name), ("created_at", .str now),
    ("old_memory", Record.optional old), ("new_memory", Record.optional new)]

/-- Store a record under an id that was never given. -/
def insert (id now : String) (record : Record) (state : State) : State :=
  if given : id ∈ state.owners then state
  else
    { records := state.records.set id record
      owners := state.owners.set id record.userId
      history := state.history ++ [(id, event "ADD" now none (some record.text))]
      owned := by
        intro other found stored
        rw [Dict.get?_set] at stored ⊢
        split at stored
        · cases stored
          rw [if_pos ‹_›]
        · rw [if_neg ‹_›]
          exact state.owned stored }

/-- Change the record of an id, if there is one, in all but its user. -/
def modify (id now : String) (f : Record → Record) (state : State) : State :=
  match state.records.get? id with
  | none => state
  | some old =>
      { state with
        records := state.records.map fun key record =>
          if key = id then { f record with userId := record.userId } else record
        history := state.history ++
          [(id, event "UPDATE" now (some old.text) (some (f old).text))]
        owned := by
          intro other found stored
          rw [Dict.get?_map, Option.map_eq_some_iff] at stored
          obtain ⟨record, present, rfl⟩ := stored
          rw [state.owned present]
          split <;> rfl }

/-- Drop the records that pass a test. -/
def remove (now : String) (test : String → Record → Bool) (state : State) : State :=
  { state with
    records := state.records.filter fun id record => !test id record
    history := state.history ++ (state.records.entries.filter fun entry =>
      test entry.1 entry.2).map fun entry =>
        (entry.1, event "DELETE" now (some entry.2.text) none)
    owned := by
      intro other found stored
      rw [Dict.get?_filter, Option.filter_eq_some_iff] at stored
      exact state.owned stored.1 }

end State

/-- What an add that extracts facts does to one record of its user. -/
inductive Touch where
  | created (id : String) (record : Record)
  | changed (id : String) (record : Record)
  | deleted (id : String)

/-- A response sent in place of the server's own, before or after the request
took effect. -/
structure Failure where
  response : HttpResponse
  error : Exc
  fails : response.outcome = .error error
  performed : Bool

/-- What the server decides: the id and time of what it writes, what it extracts
from an add, which records a read shows and with what scores, and what goes
wrong on the way. -/
structure Choice where
  id : String
  now : String
  touches : List Touch := []
  reported : HttpResponse := .json .null
  picks : List (String × Json) := []
  failure : Option Failure := none

def textOr (json : Option Json) : String := (json.bind Json.str?).getD ""

/-- What an add is sent: the content of its messages, and the rest as fields. -/
def sentContent (json : Dict String Json) : String :=
  match json.get? "messages" with
  | some (.list [message]) => textOr (message.dict?.bind fun fields =>
      fields.get? "content")
  | _ => ""

/-- The record an add stores when it extracts nothing. -/
def verbatim (now : String) (json : Dict String Json) : Record where
  userId := textOr (json.get? "user_id")
  text := sentContent json
  metadata := ((json.get? "metadata").bind Json.dict?).getD ∅
  agentId := (json.get? "agent_id").bind Json.str?
  runId := (json.get? "run_id").bind Json.str?
  createdAt := now

def applyTouch (user now : String) (state : State) : Touch → State
  | .created id record => state.insert id now { record with userId := user }
  | .changed id record =>
      match state.records.get? id with
      | none => state
      | some old => if old.userId = user then state.modify id now fun _ => record
          else state
  | .deleted id => state.remove now fun other record =>
      other = id && record.userId = user

def added (id : String) (record : Record) : Json :=
  .obj [("results", .list [.obj [("id", .str id), ("memory", .str record.text),
    ("event", .str "ADD")]])]

/-- The records of the picked ids that hold every parameter. -/
def picked (choice : Choice) (params : Dict String Json) (state : State) :
    List (String × Json × Record) :=
  choice.picks.filterMap fun (id, score) =>
    match state.records.get? id with
    | none => none
    | some record => if record.holds params then some (id, score, record) else none

def serve (choice : Choice) : HttpRequest → State → HttpResponse × State
  | .postMemories json, state =>
      if json.get? "infer" = some (.bool false) then
        let record := verbatim choice.now json
        (.json (added choice.id record), state.insert choice.id choice.now record)
      else
        (choice.reported, choice.touches.foldl
          (applyTouch (textOr (json.get? "user_id")) choice.now) state)
  | .postSearch json, state =>
      (.json (.obj [("results", .list ((picked choice json.filters state).map
        fun (id, score, record) => record.json id (some score)))]), state)
  | .getMemories params, state =>
      (.json (.obj [("results", .list ((picked choice params state).map
        fun (id, _, record) => record.json id none))]), state)
  | .deleteMemories params, state =>
      (.json (.obj [("message", .str "deleted")]),
        state.remove choice.now fun _ record => record.holds params)
  | .getMemory id, state =>
      (.json ((state.records.get? id).elim .null fun record => record.json id none), state)
  | .putMemory id json, state =>
      (.json (.obj [("message", .str "updated")]),
        state.modify id choice.now (Record.merged choice.now json))
  | .deleteMemory id, state =>
      (.json (.obj [("message", .str "deleted")]),
        state.remove choice.now fun other _ => other = id)
  | .getHistory id, state =>
      (.json (.list ((state.history.filter fun entry => entry.1 = id).map Prod.snd)),
        state)

/-- A server that may fail to answer. -/
def answer (choice : Choice) (call : HttpRequest) (state : State) :
    HttpResponse × State :=
  match choice.failure with
  | none => serve choice call state
  | some failure =>
      (failure.response, if failure.performed then (serve choice call state).2 else state)

abbrev server : Machine http Choice where
  State := State
  perform := answer

end Memcp.Mem0
