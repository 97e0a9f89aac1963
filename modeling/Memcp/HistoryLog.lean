import Memcp.Backends.InMemory
import Memcp.Backends.Sqlite.Faults
import Mathlib.Data.List.Chain

/-! The change logs: each tells how its memory came to be as it is stored. -/

namespace Memcp

open Python

/-- A log that begins with the creation of a memory and leads, change by
change, to its content and author. -/
structure Tells (log : List HistoryEntry) (content : String)
    (author : Option String) : Prop where
  first : ∃ entry, log.head? = some entry ∧ entry.action = "created" ∧
    entry.contentBefore = none
  later : log.IsChain fun earlier later =>
    later.action = "updated" ∧ later.contentBefore = earlier.contentAfter
  last : ∃ entry, log.getLast? = some entry ∧ entry.contentAfter = some content ∧
    entry.author = author

theorem Tells.created (now content : String) (author : Option String) :
    Tells [.created now content author] content author where
  first := ⟨_, rfl, rfl, rfl⟩
  later := .singleton _
  last := ⟨_, rfl, rfl, rfl⟩

theorem Tells.updated {log : List HistoryEntry} {before : String}
    {author : Option String} (tells : Tells log before author) (now after : String)
    (author' : Option String) :
    Tells (log ++ [.updated now before after author']) after author' where
  first := by
    obtain ⟨entry, first, created⟩ := tells.first
    refine ⟨entry, ?_, created⟩
    rw [List.head?_append, first, Option.some_or]
  later := by
    obtain ⟨entry, last, same, -⟩ := tells.last
    refine List.isChain_append.mpr ⟨tells.later, .singleton _, ?_⟩
    intro earlier isLast later isFirst
    obtain rfl : entry = earlier := Option.some.inj (last.symm.trans isLast)
    obtain rfl := Option.some.inj isFirst
    exact ⟨rfl, same.symm⟩
  last := ⟨_, List.getLast?_concat, rfl, rfl⟩

theorem Tells.ne_nil {log : List HistoryEntry} {content : String}
    {author : Option String} (tells : Tells log content author) : log ≠ [] := by
  obtain ⟨entry, first, -⟩ := tells.first
  rintro rfl
  cases first

/-- The memories with a log are the stored ones, each with its content and
author, and a log tells its memory. -/
structure Documented (stored : String → String → Option String → Prop)
    (log : String → List HistoryEntry) : Prop where
  ids : ∀ memoryId, log memoryId ≠ [] ↔ ∃ content author, stored memoryId content author
  tells : ∀ memoryId content author, stored memoryId content author →
    Tells (log memoryId) content author

/-- What a write did to one memory: it left it alone, dropped it, or stored it
with a log that tells it. -/
inductive Rewritten (stored stored' : String → Option String → Prop)
    (log log' : List HistoryEntry) : Prop
  | kept (same : log' = log)
      (still : ∀ content author, stored' content author ↔ stored content author)
  | dropped (none : log' = []) (gone : ∀ content author, ¬stored' content author)
  | written {content : String} {author : Option String}
      (tells : Tells log' content author)
      (now : ∀ other author', stored' other author' ↔ other = content ∧ author' = author)

theorem Documented.step {stored stored' : String → String → Option String → Prop}
    {log log' : String → List HistoryEntry} (documented : Documented stored log)
    (each : ∀ memoryId, Rewritten (stored memoryId) (stored' memoryId)
      (log memoryId) (log' memoryId)) :
    Documented stored' log' where
  ids memoryId := by
    cases each memoryId with
    | kept same still =>
        rw [same, documented.ids]
        simp only [still]
    | dropped none gone => simp [none, gone]
    | written tells now =>
        exact ⟨fun _ => ⟨_, _, (now _ _).mpr ⟨rfl, rfl⟩⟩, fun _ => tells.ne_nil⟩
  tells memoryId content author present := by
    cases each memoryId with
    | kept same still =>
        rw [same]
        exact documented.tells memoryId content author ((still _ _).mp present)
    | dropped none gone => exact absurd present (gone _ _)
    | written tells now =>
        obtain ⟨rfl, rfl⟩ := (now _ _).mp present
        exact tells

/-! SQLite. -/

namespace Sqlite

variable {codec : JsonCodec} {tables later : Tables codec}

/-- A memory is stored with a content and an author. -/
def Tables.Stores (tables : Tables codec) (memoryId content : String)
    (author : Option String) : Prop :=
  ∃ row ∈ tables.memories, row.id = memoryId ∧ row.content = content ∧
    row.author = author

/-- What `history` reads of a memory. -/
def Tables.log (tables : Tables codec) (memoryId : String) : List HistoryEntry :=
  (tables.selectHistory memoryId).map historyEntry

def Tables.Documented (tables : Tables codec) : Prop :=
  Memcp.Documented tables.Stores tables.log

theorem Tables.log_insertHistory (memoryId action timestamp : String)
    (before after author : Option String) (other : String) :
    ((tables.insertHistory memoryId action timestamp before after
        author).history.filter fun entry => entry.memoryId = other).map historyEntry =
      (tables.history.filter fun entry => entry.memoryId = other).map historyEntry ++
        if memoryId = other then
          [⟨action, timestamp, before, after, author⟩]
        else [] := by
  simp only [Tables.insertHistory, List.filter_append, List.map_append]
  congr 1
  by_cases same : memoryId = other
  · simp [same, historyEntry]
  · simp [same]

theorem Tables.Valid.stores_iff (valid : tables.Valid) {memoryId content : String}
    {author : Option String} (stored : tables.Stores memoryId content author)
    (other : String) (author' : Option String) :
    tables.Stores memoryId other author' ↔ other = content ∧ author' = author := by
  constructor
  · obtain ⟨row, member, rfl, rfl, rfl⟩ := stored
    rintro ⟨twin, twinMember, same, rfl, rfl⟩
    rw [row_unique valid twinMember member same]
    exact ⟨rfl, rfl⟩
  · rintro ⟨rfl, rfl⟩
    exact stored

theorem Tables.Change.documented (valid : tables.Valid)
    (change : tables.Change later) (documented : tables.Documented) :
    later.Documented := by
  have laterValid := change.valid valid
  refine Memcp.Documented.step documented fun memoryId => ?_
  have tells := documented.tells memoryId
  unfold Tables.log at tells ⊢
  rw [valid.selectHistory_eq] at tells ⊢
  rw [laterValid.selectHistory_eq]
  cases change with
  | none => exact .kept rfl fun _ _ => Iff.rfl
  | @added id userId content now scope metadata system absent =>
      rw [Tables.log_insertHistory]
      rcases eq_or_ne id memoryId with rfl | distinct
      · have unlogged : (tables.insertMemory id userId content
            (codec.dumps (textScope scope)) metadata (codec.dumps system.toDict)
            now).history.filter (fun entry => entry.memoryId = id) = [] := by
          rw [List.filter_eq_nil_iff]
          intro entry member same
          exact absent (of_decide_eq_true same ▸ valid.logged entry member)
        rw [unlogged, if_pos rfl]
        refine .written (.created now content system.author)
          (laterValid.stores_iff ?_)
        exact ⟨_, List.mem_append_right _ (List.mem_singleton_self _), rfl, rfl,
          by simp [Row.author]⟩
      · rw [if_neg distinct, List.append_nil]
        refine .kept rfl fun other author => ?_
        simp [Tables.Stores, Tables.insertHistory, Tables.insertMemory, distinct]
  | @updated row content now metadata system member =>
      rw [Tables.log_insertHistory]
      rcases eq_or_ne row.id memoryId with rfl | distinct
      · rw [if_pos rfl]
        have before := tells row.content row.author ⟨row, member, rfl, rfl, rfl⟩
        refine .written (before.updated now content system.author)
          (laterValid.stores_iff ?_)
        exact ⟨_, List.mem_map.mpr ⟨row, member, if_pos rfl⟩, rfl, rfl,
          by simp [Row.author]⟩
      · rw [if_neg distinct, List.append_nil]
        refine .kept rfl fun other author => ?_
        simp only [Tables.Stores, Tables.insertHistory, Tables.updateMemory,
          List.mem_map]
        constructor
        · rintro ⟨_, ⟨earlier, earlierMember, rfl⟩, same, rest⟩
          split at same
          · rename_i named
            exact absurd (named.symm.trans same) distinct
          · rename_i unnamed
            rw [if_neg unnamed] at rest
            exact ⟨earlier, earlierMember, same, rest⟩
        · rintro ⟨earlier, earlierMember, rfl, rest⟩
          exact ⟨earlier, ⟨earlier, earlierMember, if_neg (Ne.symm distinct)⟩, rfl, rest⟩
  | @dropped ids =>
      by_cases doomed : memoryId ∈ ids
      · refine .dropped ?_ ?_
        · rw [List.map_eq_nil_iff, List.filter_eq_nil_iff]
          intro entry member same
          have kept := (List.mem_filter.mp member).2
          rw [of_decide_eq_true same] at kept
          simp [doomed] at kept
        · rintro content author ⟨row, member, rfl, -⟩
          simpa [doomed] using (List.mem_filter.mp member).2
      · refine .kept ?_ fun content author => ?_
        · simp only [Tables.deleteHistory, Tables.deleteMemories, List.filter_filter]
          congr 1
          refine List.filter_congr fun entry _ => ?_
          by_cases same : entry.memoryId = memoryId
          · simp [same, doomed]
          · simp [same]
        · simp only [Tables.Stores, Tables.deleteHistory, Tables.deleteMemories,
            List.mem_filter, decide_not, Bool.not_eq_true', decide_eq_false_iff_not]
          constructor
          · rintro ⟨row, ⟨member, -⟩, rest⟩
            exact ⟨row, member, rest⟩
          · rintro ⟨row, member, rfl, rest⟩
            exact ⟨row, ⟨member, doomed⟩, rfl, rest⟩

theorem attempted_documented (unicode : Unicode) (codec : JsonCodec)
    (attempts : List Attempt) :
    (attempted unicode codec attempts).committed.Documented := by
  refine attempted_holds ?_ ?_ attempts
  · exact ⟨fun memoryId => ⟨fun logged => absurd rfl logged, nofun⟩, nofun⟩
  · exact fun tables later valid change documented => change.documented valid documented

end Sqlite

/-! In memory. -/

namespace InMemory

variable {unicode : Unicode} {state : State} {fresh : Fresh}

def State.Stores (state : State) (memoryId content : String)
    (author : Option String) : Prop :=
  ∃ entry, state.store.get? memoryId = some entry ∧ entry.content = content ∧
    entry.system.author = author

/-- What `history` reads of a memory. -/
def State.log (state : State) (memoryId : String) : List HistoryEntry :=
  (state.history.get? memoryId).getD []

def State.Documented (state : State) : Prop :=
  Memcp.Documented state.Stores state.log

theorem State.stores_iff {memoryId : String} {entry : Entry}
    (found : state.store.get? memoryId = some entry) (content : String)
    (author : Option String) :
    state.Stores memoryId content author ↔
      content = entry.content ∧ author = entry.system.author := by
  constructor
  · rintro ⟨other, stored, rfl, rfl⟩
    rw [Option.some.inj (stored.symm.trans found)]
    exact ⟨rfl, rfl⟩
  · rintro ⟨rfl, rfl⟩
    exact ⟨entry, found, rfl, rfl⟩

/-- What a call may leave of one memory and its log. -/
inductive Left (state later : State) (memoryId : String) : Prop
  | kept (store : later.store.get? memoryId = state.store.get? memoryId)
      (history : later.history.get? memoryId = state.history.get? memoryId)
  | dropped (store : later.store.get? memoryId = none)
      (history : later.history.get? memoryId = none)
  | written {entry : Entry} {log : List HistoryEntry}
      (store : later.store.get? memoryId = some entry)
      (history : later.history.get? memoryId = some log)
      (tells : Tells log entry.content entry.system.author)

theorem State.Documented.step {later : State} (documented : state.Documented)
    (each : ∀ memoryId, Left state later memoryId) : later.Documented := by
  refine Memcp.Documented.step documented fun memoryId => ?_
  cases each memoryId with
  | kept store history =>
      refine .kept (by rw [State.log, State.log, history]) fun content author => ?_
      rw [State.Stores, State.Stores, store]
  | dropped store history =>
      refine .dropped (by rw [State.log, history]; rfl) ?_
      rintro content author ⟨entry, stored, -⟩
      rw [store] at stored
      cases stored
  | written store history tells =>
      refine .written ?_ (State.stores_iff store)
      rw [State.log, history]
      exact tells

theorem State.Documented.logged (documented : state.Documented) {memoryId : String}
    {entry : Entry} (stored : state.store.get? memoryId = some entry) :
    ∃ log, state.history.get? memoryId = some log ∧
      Tells log entry.content entry.system.author := by
  have tells := documented.tells memoryId _ _ ⟨entry, stored, rfl, rfl⟩
  cases found : state.history.get? memoryId with
  | none =>
      rw [State.log, found] at tells
      exact absurd rfl tells.ne_nil
  | some log =>
      rw [State.log, found] at tells
      exact ⟨log, rfl, tells⟩

theorem State.Documented.perform (documented : state.Documented)
    (call : BackendCall) :
    State.Documented (InMemory.perform unicode fresh call state).2 := by
  cases call with
  | add partition content scope metadata infer system =>
      simp only [InMemory.perform, add]
      cases refuseNestedFilters unicode scope with
      | error error => exact documented
      | ok =>
          cases refuseReservedMetadata unicode (metadata.getD ∅).keys with
          | error error => exact documented
          | ok =>
              change State.Documented {
                store := state.store.set fresh.id
                  (newEntry unicode fresh partition content scope metadata system)
                history := state.history.set fresh.id
                  [.created fresh.now content (system.getD {}).author] }
              refine documented.step fun memoryId => ?_
              rcases eq_or_ne memoryId fresh.id with rfl | distinct
              · exact .written (Dict.get?_set_self _ _ _) (Dict.get?_set_self _ _ _)
                  (.created fresh.now content (system.getD {}).author)
              · exact .kept (by simp [Dict.get?_set, distinct])
                  (by simp [Dict.get?_set, distinct])
  | update partition memoryId content patch system =>
      simp only [InMemory.perform, update]
      cases refuseReservedMetadata unicode (patch.elim [] MetadataPatch.keys) with
      | error error => exact documented
      | ok =>
          rcases owned_cases state partition memoryId with
            ⟨missing, -⟩ | ⟨entry, stored, -, read, -⟩
          · rw [missing]
            exact documented
          · rw [read]
            let changed := changedEntry fresh.now content patch system entry
            change State.Documented {
              store := state.store.set memoryId changed
              history := logUpdate memoryId (.updated fresh.now entry.content
                changed.content changed.system.author) state.history }
            obtain ⟨log, logged, tells⟩ := documented.logged stored
            rw [logUpdate, logged]
            refine documented.step fun other => ?_
            rcases eq_or_ne other memoryId with rfl | distinct
            · exact .written (Dict.get?_set_self _ _ _) (Dict.get?_set_self _ _ _)
                (tells.updated fresh.now changed.content changed.system.author)
            · exact .kept (by simp [Dict.get?_set, distinct])
                (by simp [Dict.get?_set, distinct])
  | delete partition memoryId =>
      simp only [InMemory.perform, delete]
      rcases owned_cases state partition memoryId with
        ⟨missing, -⟩ | ⟨entry, -, -, read, -⟩
      · rw [missing]
        exact documented
      · rw [read]
        change State.Documented {
          store := state.store.erase memoryId
          history := state.history.erase memoryId }
        refine documented.step fun other => ?_
        rcases eq_or_ne other memoryId with rfl | distinct
        · exact .dropped (by simp [Dict.get?_erase]) (by simp [Dict.get?_erase])
        · exact .kept (by simp [Dict.get?_erase, distinct])
            (by simp [Dict.get?_erase, distinct])
  | deleteAll partition scope =>
      simp only [InMemory.perform, deleteAll]
      cases rejectNestedFilters unicode scope with
      | error error => exact documented
      | ok =>
          let toDelete := (state.store.entries.filter fun held =>
            held.2.userId = partition && scopeMatches unicode held.2.scope scope).map
              Prod.fst
          change State.Documented {
            store := toDelete.foldl Dict.erase state.store
            history := toDelete.foldl Dict.erase state.history }
          refine documented.step fun other => ?_
          by_cases doomed : other ∈ toDelete
          · exact .dropped (by rw [Dict.get?_foldl_erase, if_pos doomed])
              (by rw [Dict.get?_foldl_erase, if_pos doomed])
          · exact .kept (by rw [Dict.get?_foldl_erase, if_neg doomed])
              (by rw [Dict.get?_foldl_erase, if_neg doomed])
  | search | get | listMemories | history | entities | capabilities =>
      exact documented

/-- The state after some calls on a new one. -/
def called (unicode : Unicode) (calls : List (Fresh × BackendCall)) : State :=
  calls.foldl (fun state call => (perform unicode call.1 call.2 state).2) {}

theorem called_documented (unicode : Unicode) (calls : List (Fresh × BackendCall)) :
    (called unicode calls).Documented := by
  induction calls using List.reverseRecOn with
  | nil =>
      exact ⟨fun memoryId => ⟨fun logged => absurd rfl logged, by
        rintro ⟨content, author, entry, stored, -⟩
        simp [called] at stored⟩, by
        rintro memoryId content author ⟨entry, stored, -⟩
        simp [called] at stored⟩
  | append_singleton calls call induction =>
      simp only [called, List.foldl_append]
      exact induction.perform call.2

end InMemory

/-- After any calls, whichever statements fail in them on SQLite, the memories
with a history are the stored ones and each history tells its memory. -/
theorem histories_tell_memories (unicode : Unicode) (codec : Sqlite.JsonCodec) :
    (∀ attempts : List Sqlite.Attempt,
      (Sqlite.attempted unicode codec attempts).pending = none ∧
        (Sqlite.attempted unicode codec attempts).committed.Documented) ∧
      ∀ calls : List (Fresh × BackendCall),
        (InMemory.called unicode calls).Documented :=
  ⟨fun attempts => ⟨(Sqlite.attempted_valid unicode codec attempts).idle,
    Sqlite.attempted_documented unicode codec attempts⟩,
    InMemory.called_documented unicode⟩

end Memcp
