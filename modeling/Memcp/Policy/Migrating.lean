import Memcp.Policy.Importing
import Memcp.Policy.Migration

/-!
What a migration does between local backends.  It reads one space of one
backend and imports into one space of the other, so its run is an import run on
that space alone.
-/

namespace Memcp

open Python Interaction

variable {unicode : Unicode} {α β : Type} {space : String} {past : Trace effects}

/-! An import calls the backend for one space only. -/

/-- Each data call of `action` names `space`. -/
def Action.Within (space : String) (action : Action α) : Prop :=
  ∀ past, Fallible.Keeps (fun _ => Effect.within space) (fun _ _ => True) action past

namespace Action.Within

theorem pure (value : α) : Action.Within space (Pure.pure value) :=
  fun _ => .pure trivial

theorem throw (error : Exc) : Action.Within space (throw error : Action α) :=
  fun _ => .throw error

theorem lift (outcome : Except Exc α) : Action.Within space (liftM outcome) :=
  fun _ => .lift fun _ _ => trivial

theorem backend {call : BackendCall}
    (names : ∀ partition, call.partition? = some partition → partition = space) :
    Action.Within space (Action.backend call) := by
  refine fun _ => Action.keeps_backend ?_ fun _ => trivial
  rintro _ partition ⟨⟩ named
  exact names partition named

theorem bind {action : Action α} {rest : α → Action β}
    (first : Action.Within space action)
    (second : ∀ value, Action.Within space (rest value)) :
    Action.Within space (action >>= rest) :=
  fun past => .bind (first past) fun later value _ _ => second value later

theorem attempt {action : Action α} (within : Action.Within space action) :
    Action.Within space action.attempt :=
  fun past => Fallible.Keeps.mono (Action.keeps_attempt (within past))
    fun _ _ _ _ => trivial

theorem listAllFrom (limit : Nat) (memories : List Memory) (incomplete : Bool)
    (cursor : Option String) :
    Action.Within space (Memcp.listAllFrom space limit memories incomplete cursor) := by
  induction left : limit + 1 - memories.length using Nat.strong_induction_on
    generalizing memories incomplete cursor with
  | _ turns induction =>
    rw [Memcp.listAllFrom]
    refine .bind (.backend fun partition named => ?_) fun page => ?_
    · cases named
      rfl
    · split
      · exact .throw _
      · rename_i checked passes
        obtain ⟨rfl, -⟩ := checkSpaces_eq_ok.mp passes
        simp only
        split
        · exact .pure _
        · rename_i unfinished
          simp only [not_or, List.length_append] at unfinished
          have added : 0 < page.memories.length :=
            List.length_pos_iff.mpr unfinished.2.1
          refine induction _ ?_ _ _ _ rfl
          simp only [List.length_append]
          omega

theorem listAll (limit : Nat) : Action.Within space (listAll space limit) :=
  .listAllFrom limit [] false none

theorem importOverwrite {options : ImportOptions} (index : Nat) (item : ImportItem)
    (key : DedupKey) (dup : Memory) (state : ImportState) :
    Action.Within options.userId (importOverwrite options index item key dup state) := by
  refine .bind (.attempt (.backend fun partition named => ?_)) fun result => ?_
  · cases named
    rfl
  · cases result with
    | error status => exact .pure _
    | ok updated => exact .bind (.lift _) fun _ => .pure _

theorem importReadBack {options : ImportOptions} (index : Nat) (key : DedupKey)
    (items : List AddResult) (state : ImportState) :
    Action.Within options.userId (importReadBack options index key items state) := by
  induction items generalizing state with
  | nil => exact .pure _
  | cons head tail induction =>
      refine .bind (.attempt (.backend fun partition named => ?_)) fun result => ?_
      · cases named
        rfl
      · cases result with
        | error status => exact induction _
        | ok stored => exact .bind (.lift _) fun _ => induction _

theorem importCreate {options : ImportOptions} (index : Nat) (item : ImportItem)
    (key : DedupKey) (state : ImportState) :
    Action.Within options.userId (importCreate options index item key state) := by
  refine .bind (.attempt (.backend fun partition named => ?_)) fun result => ?_
  · cases named
    rfl
  · cases result with
    | error status => exact .pure _
    | ok result =>
        cases result with
        | one item => exact .importReadBack index key _ state
        | many items =>
            cases items with
            | nil => exact .pure _
            | cons head tail => exact .importReadBack index key _ state

theorem importEntries {options : ImportOptions} (index : Nat)
    (entries : List (Dict String Json)) (state : ImportState) :
    Action.Within options.userId (importEntries unicode options index entries state) := by
  induction entries generalizing index state with
  | nil => exact .pure _
  | cons entry entries induction =>
      refine .bind ?_ fun _ => induction _ _
      unfold importEntry
      split
      · exact .pure _
      · exact .throw _
      · simp only
        split
        · exact .pure _
        · exact .importOverwrite index _ _ _ state
        · exact .importCreate index _ _ state

theorem refuseOnConflict (mode : OnConflict) :
    Action.Within space (refuseOnConflict mode) := by
  unfold Memcp.refuseOnConflict
  split
  · refine .bind (.backend nofun) fun capabilities => ?_
    split
    · exact .throw _
    · exact .pure _
  · exact .pure _

theorem importPayload (options : ImportOptions) (entries : List (Dict String Json))
    (limit : Nat) :
    Action.Within options.userId (importPayload unicode options entries limit) := by
  refine .bind (.refuseOnConflict _) fun _ => ?_
  simp only
  split
  · refine .bind (.pure _) fun _ => ?_
    exact .bind (.importEntries 0 entries _) fun _ => .pure _
  · refine .bind (.bind (.listAllFrom limit [] false none) fun _ => .pure _) fun _ => ?_
    exact .bind (.importEntries 0 entries _) fun _ => .pure _

end Action.Within

/-! Runs on local backends. -/

namespace LocalBackends

variable {ι : Type} [DecidableEq ι] {backends : LocalBackends ι} {place : Side → ι}
  {fresh : FreshIds} {asked : Nat} {state : backends.State unicode}

omit [DecidableEq ι] in
theorem Stands.later {count : Nat} (stands : backends.Stands fresh asked state)
    (grows : asked ≤ count) : backends.Stands fresh count state := fun place =>
  (stands place).later grows

theorem Stands.exec (stands : backends.Stands fresh asked state)
    (program : Program crossings α) :
    let ran := program.exec (backends.machine unicode place) fresh.supply asked state
    asked ≤ ran.2.1 ∧ backends.Stands fresh ran.2.1 ran.2.2 := by
  induction program generalizing asked state with
  | done value => exact ⟨Nat.le_refl _, stands⟩
  | ask effect next induction =>
      cases effect with
      | audit entry =>
          have later := @induction () (asked + 1) state (stands.later (Nat.le_succ _))
          exact ⟨Nat.le_of_succ_le later.1, later.2⟩
      | call side request =>
          have kept : backends.Stands fresh (asked + 1)
              ((backends.machine unicode place).perform (fresh.supply asked)
                (.call side request) state).2 := by
            intro other
            obtain ⟨-, -, changed⟩ := (stands (place side)).step (.backend request)
            rcases eq_or_ne other (place side) with rfl | differ
            · simpa only [Function.update_self] using changed
            · simpa only [Function.update_of_ne differ] using
                stands.later (Nat.le_succ _) other
          have later := induction ((backends.machine unicode place).perform
            (fresh.supply asked) (.call side request) state).1 kept
          exact ⟨Nat.le_of_succ_le later.1, later.2⟩

/-- An action on one space of one side runs as it does on that space alone. -/
theorem exec_within (stands : backends.Stands fresh asked state) (side : Side)
    {action : Action α} {space : String} (within : action.Within space) :
    let ran := Fallible.exec (backends.machine unicode place) fresh.supply
      (action.on side) asked state
    let alone := Fallible.exec (Space.store unicode).machine fresh.supply action asked
      (backends.spaces state (place side) space)
    ran.1 = alone.1 ∧ ran.2.1 = alone.2.1 ∧
      backends.spaces ran.2.2 = Function.update (backends.spaces state) (place side)
        (Function.update (backends.spaces state (place side)) space alone.2.2) := by
  have confined : Safe (fun _ => Effect.within space) (fun _ _ => True) action [] :=
    Safe.mono (within []) (fun _ _ allowed => allowed) fun _ _ _ => trivial
  obtain ⟨outcome, count, -, spaces⟩ :=
    ((backends (place side)).representation unicode).exec_spaces action
      (stands (place side))
  have alone := @Spaces.exec_space unicode _ _ _ _ confined fresh.supply asked
    (backends.spaces state (place side))
  have ran := @exec_on unicode ι _ α backends place fresh asked state side action
  simp only at ran alone ⊢
  rw [ran]
  refine ⟨outcome.trans (congrArg Prod.fst alone),
    count.trans (congrArg (fun ran => ran.2.1) alone), ?_⟩
  funext other
  rcases eq_or_ne other (place side) with rfl | differ
  · rw [Function.update_self]
    simp only [LocalBackends.spaces, Function.update_self]
    exact spaces.trans (congrArg (fun ran => ran.2.2) alone)
  · simp only [LocalBackends.spaces, Function.update_of_ne differ]

end LocalBackends

/-! What a migration comes to. -/

/-- A migration that is not refused. -/
structure Migration.Accepted (migration : Migration) (canRecord : Bool)
    (mode : OnConflict) : Prop where
  operator : strip migration.operator ≠ ""
  recorded : canRecord = true
  source : isWildcard (.str migration.partition) = false
  target : isWildcard (.str migration.landing) = false
  named : OnConflict.ofText migration.onConflict = some mode

/-- The memories read from a source space. -/
def Migration.read (migration : Migration) (items : List Item) : List Memory :=
  (items.take migration.limit).map (Item.memory migration.partition none)

/-- A stored memory of the source as an import entry. -/
def Migration.wire (migration : Migration) (item : Item) : Dict String Json :=
  (serializeMemory (item.memory migration.partition none)).entry

theorem Migration.entries_read (migration : Migration) (items : List Item) :
    Migration.entries (migration.read items) =
      (items.take migration.limit).map migration.wire := by
  simp only [Migration.entries, Migration.read, List.map_map]
  apply List.map_congr_left
  intro item _
  simp only [Function.comp_apply, Migration.wire]

/-- The scope an import reads for a stored memory of the source. -/
def Migration.ReadsScope (migration : Migration) (item : Item)
    (scope : Option (Dict String Json)) : Prop :=
  match migration.scopeValidator with
  | some validate => validate (.ofDict (textScope item.scope)) = .ok scope
  | none => scope = some (textScope item.scope)

section Wire

variable {migration : Migration} {mode : OnConflict} {memories : List Memory} {item : Item}

theorem Migration.readsScope_of_read {read : ImportItem}
    (held : readEntry unicode (migration.importOptions mode memories)
      (migration.wire item) = .ok read) : migration.ReadsScope item read.scope := by
  obtain ⟨-, -, scope⟩ := readEntry_parts held
  unfold Migration.ReadsScope
  have validator : (migration.importOptions mode memories).scopeValidator =
      migration.scopeValidator := rfl
  rw [validator] at scope
  cases given : migration.scopeValidator with
  | some validate =>
      rw [given] at scope
      simpa [Migration.wire, serializeMemory, Item.memory] using scope
  | none =>
      rw [given] at scope
      simpa [Migration.wire, serializeMemory, Item.memory] using scope.symm

/-- A stored memory that passes the checks on content and metadata is read as it
is, but for its scope. -/
theorem Migration.readEntry_wire {scope : Option (Dict String Json)}
    (content : validateContent item.content = .ok ())
    (metadata : validateMetadata unicode item.metadata false = .ok ())
    (size : checkMetadataSize item.metadata none = .ok ())
    (reads : migration.ReadsScope item scope) :
    readEntry unicode (migration.importOptions mode memories) (migration.wire item) =
      .ok { content := item.content, scope, metadata := some item.metadata } := by
  let memory := serializeMemory (item.memory migration.partition none)
  have readsContent : readContent memory.entry = .ok item.content :=
    SerializedMemory.readContent_entry content
  have readsMetadata : readMetadata unicode memory.entry = .ok (some item.metadata) :=
    SerializedMemory.readMetadata_entry metadata size
  have validator : (migration.importOptions mode memories).scopeValidator =
      migration.scopeValidator := rfl
  unfold Migration.ReadsScope at reads
  unfold readEntry Migration.wire
  rw [readsContent, validator]
  cases given : migration.scopeValidator with
  | some validate =>
      rw [given] at reads
      have readsScope : readScope validate memory.entry = .ok scope :=
        (SerializedMemory.readScope_entry validate).trans reads
      simp only [readsMetadata, readsScope, memory]
      rfl
  | none =>
      rw [given] at reads
      have readsScope : plainScope memory.entry = .ok scope :=
        SerializedMemory.plainScope_entry.trans (congrArg Except.ok reads.symm)
      simp only [readsMetadata, readsScope, memory]
      rfl

end Wire

/-- The import of a source space into a target space, alone. -/
def Migration.imports (unicode : Unicode) (migration : Migration) (mode : OnConflict)
    (supply : Nat → Fresh) (source : List Item) (asked : Nat) (target : List Item) :
    Except Exc ImportOutcome × Nat × List Item :=
  Fallible.exec (Space.store unicode).machine supply
    (importPayload unicode (migration.importOptions mode (migration.read source))
      (Migration.entries (migration.read source)) migration.limit) asked target

/-- The memories a full read of the source looks at pass the space check. -/
def Migration.Readable (migration : Migration) (items : List Item) : Prop :=
  ∀ item ∈ items.take (migration.limit + 1),
    item.system.spaceIs migration.partition = true

namespace LocalBackends

variable {ι : Type} [DecidableEq ι]

/-- What a migration can come to, and the memories it leaves. -/
inductive Moves (unicode : Unicode) (place : Side → ι) (supply : Nat → Fresh)
    (canRecord : Bool) (migration : Migration) (asked : Nat) (spaces : ι → Spaces) :
    Except Exc MigrationReport → (ι → Spaces) → Prop
  | refused (message : String)
      (refused : ∀ mode, ¬ migration.Accepted canRecord mode) :
      Moves unicode place supply canRecord migration asked spaces
        (.error (.valueError message)) spaces
  | unreadable {mode : OnConflict} (error : Exc)
      (accepted : migration.Accepted canRecord mode)
      (failed : ¬ migration.Readable (spaces (place .source) migration.partition)) :
      Moves unicode place supply canRecord migration asked spaces (.error error) spaces
  | imported {mode : OnConflict} {outcome : Except Exc ImportOutcome}
      {later : List Item} (count count' : Nat) (grows : asked ≤ count)
      (accepted : migration.Accepted canRecord mode)
      (read : migration.Readable (spaces (place .source) migration.partition))
      (ran : migration.imports unicode mode supply
        (spaces (place .source) migration.partition) count
        (spaces (place .target) migration.landing) = (outcome, count', later)) :
      Moves unicode place supply canRecord migration asked spaces
        (outcome.map (migration.report
          (migration.read (spaces (place .source) migration.partition))
          (decide (migration.limit <
            (spaces (place .source) migration.partition).length))))
        (Function.update spaces (place .target)
          (Function.update (spaces (place .target)) migration.landing later))

variable {backends : LocalBackends ι} {place : Side → ι} {fresh : FreshIds}
  {asked : Nat} {state : backends.State unicode} {canRecord : Bool}

theorem spaces_unchanged (spaces : ι → Spaces) (place : ι) (space : String) :
    Function.update spaces place
      (Function.update (spaces place) space (spaces place space)) = spaces := by
  rw [Function.update_eq_self, Function.update_eq_self]

theorem refusals_exec (stands : backends.Stands fresh asked state)
    (migration : Migration) (operator : strip migration.operator ≠ "") :
    ∃ reply count later,
      Fallible.exec (backends.machine unicode place) fresh.supply
          (migration.refusals unicode fun _ _ => .ok ()) asked state =
        (reply, count, later) ∧
      asked ≤ count ∧ backends.Stands fresh count later ∧
      backends.spaces later = backends.spaces state ∧
      ((∃ mode, migration.Accepted true mode ∧ reply = .ok mode) ∨
        (∀ mode, ¬ migration.Accepted true mode) ∧
          ∃ message, reply = .error (.valueError message)) := by
  unfold Migration.refusals refuseUnusablePartition
  have refused : ∀ message, (∀ mode, ¬ migration.Accepted true mode) →
      ∃ reply count later,
        ((.error (.valueError message), asked, state) :
          Except Exc OnConflict × Nat × backends.State unicode) = (reply, count, later) ∧
        asked ≤ count ∧ backends.Stands fresh count later ∧
        backends.spaces later = backends.spaces state ∧
        ((∃ mode, migration.Accepted true mode ∧ reply = .ok mode) ∨
          (∀ mode, ¬ migration.Accepted true mode) ∧
            ∃ message, reply = .error (.valueError message)) :=
    fun message none => ⟨_, _, _, rfl, Nat.le_refl _, stands, rfl, .inr ⟨none, _, rfl⟩⟩
  by_cases source : isWildcard (.str migration.partition) = true
  · rw [if_pos source]
    refine refused _ fun mode accepted => ?_
    rw [accepted.source] at source
    cases source
  by_cases target : isWildcard (.str migration.landing) = true
  · rw [if_neg source, if_pos target]
    refine refused _ fun mode accepted => ?_
    rw [accepted.target] at target
    cases target
  rw [if_neg source, if_neg target]
  cases named : OnConflict.ofText migration.onConflict with
  | none =>
      refine refused _ fun mode accepted => ?_
      rw [accepted.named] at named
      cases named
  | some mode =>
      obtain ⟨_, -, asks⟩ := @Import.refuseOnConflict_exec unicode asked
        (backends.spaces state (place .target) migration.landing) fresh.supply mode
      obtain ⟨outcome, -, spaces⟩ := @exec_within unicode Unit ι _ backends place fresh
        asked state stands .target _ migration.landing (.refuseOnConflict mode)
      rw [asks] at outcome spaces
      rw [spaces_unchanged] at spaces
      have accepted : migration.Accepted true mode :=
        ⟨operator, rfl, Bool.eq_false_iff.mpr source, Bool.eq_false_iff.mpr target, named⟩
      have does : Fallible.exec (backends.machine unicode place) fresh.supply
          (do
            (refuseOnConflict mode).on .target
            return mode) asked state =
          (.ok mode, (Fallible.exec (backends.machine unicode place) fresh.supply
            ((refuseOnConflict mode).on .target) asked state).2) := by
        rw [Fallible.exec_bind_ok (Prod.ext outcome rfl)]
        rfl
      have kept := @Stands.exec unicode _ ι _ backends place fresh asked state stands
        ((refuseOnConflict mode).on .target)
      exact ⟨_, _, _, does, kept.1, kept.2, spaces, .inl ⟨mode, accepted, rfl⟩⟩

/-- The read of the source is one page, and passes when its memories do. -/
theorem read_exec (stands : backends.Stands fresh asked state) (migration : Migration) :
    let items := backends.spaces state (place .source) migration.partition
    ∃ reply later,
      Fallible.exec (backends.machine unicode place) fresh.supply
          ((listAll migration.partition migration.limit).on .source) asked state =
        (reply, asked + 1, later) ∧
      backends.Stands fresh (asked + 1) later ∧
      backends.spaces later = backends.spaces state ∧
      (migration.Readable items ∧
          reply = .ok (migration.read items, decide (migration.limit < items.length)) ∨
        ¬ migration.Readable items ∧ ∃ error, reply = .error error) := by
  intro items
  have listed := @Import.listAll_exec unicode asked fresh.supply migration.partition
    migration.limit items
  let ran := Fallible.exec (backends.machine unicode place) fresh.supply
    ((listAll migration.partition migration.limit).on .source) asked state
  obtain ⟨outcome, count, spaces⟩ := @exec_within unicode _ ι _ backends place fresh
    asked state stands .source _ migration.partition (.listAll migration.limit)
  have left : (Fallible.exec (Space.store unicode).machine fresh.supply
      (listAll migration.partition migration.limit) asked items).2 =
        (asked + 1, items) := by rw [listed]
  rw [left, spaces_unchanged] at spaces
  rw [left] at count
  have kept : backends.Stands fresh ran.2.1 ran.2.2 :=
    (@Stands.exec unicode _ ι _ backends place fresh asked state stands
      ((listAll migration.partition migration.limit).on .source)).2
  rw [show ran.2.1 = asked + 1 from count] at kept
  refine ⟨_, ran.2.2, Prod.ext outcome (Prod.ext count rfl), kept, spaces, ?_⟩
  rw [listed]
  have passes_iff : migration.Readable items ↔
      ∀ memory ∈ (items.take (migration.limit + 1)).map
        (Item.memory migration.partition none),
          memory.inSpace migration.partition = true := by
    rw [List.forall_mem_map]
    simp [Migration.Readable, Memory.inSpace, Item.memory]
  rcases checkSpaces_cases ((items.take (migration.limit + 1)).map
      (Item.memory migration.partition none)) migration.partition with passed | failed
  · rw [passed]
    exact .inl ⟨passes_iff.mpr (checkSpaces_eq_ok.mp passed).2, rfl⟩
  · rw [failed]
    refine .inr ⟨fun readable => ?_, _, rfl⟩
    have passed := checkSpaces_eq_ok.mpr ⟨rfl, passes_iff.mp readable⟩
    rw [failed] at passed
    cases passed

/-- What the read and the import come to once nothing is refused. -/
theorem copy_moves (stands : backends.Stands fresh asked state) {migration : Migration}
    {mode : OnConflict} {before : Nat} (grows : before ≤ asked)
    (accepted : migration.Accepted canRecord mode) :
    let ran := Fallible.exec (backends.machine unicode place) fresh.supply
      (migration.copy unicode mode) asked state
    Moves unicode place fresh.supply canRecord migration before (backends.spaces state)
      ran.1 (backends.spaces ran.2.2) := by
  obtain ⟨reply, later, reads, standsLater, same, passes⟩ := @read_exec unicode ι _
    backends place fresh asked state stands migration
  unfold Migration.copy
  rcases passes with ⟨readable, rfl⟩ | ⟨unreadable, error, rfl⟩
  · rw [Fallible.exec_bind_ok reads]
    let source := backends.spaces state (place .source) migration.partition
    let entries := Migration.entries (migration.read source)
    obtain ⟨outcome, -, spaces⟩ := @exec_within unicode _ ι _ backends place fresh
      (asked + 1) later standsLater .target _ migration.landing
      (.importPayload (migration.importOptions mode (migration.read source)) entries
        migration.limit)
    rw [same] at outcome spaces
    have moves := @Moves.imported ι _ unicode place fresh.supply canRecord migration before
      (backends.spaces state) mode _ _ (asked + 1) _ (Nat.le_succ_of_le grows) accepted
      readable rfl
    have returned : Fallible.exec (backends.machine unicode place) fresh.supply
        (do
          let outcome ← (importPayload unicode
            (migration.importOptions mode (migration.read source)) entries
            migration.limit).on .target
          return migration.report (migration.read source)
            (decide (migration.limit < source.length)) outcome) (asked + 1) later =
        (_, _) := Fallible.exec_map _ _
    simp only
    rw [returned]
    simp only
    rw [outcome, spaces]
    exact moves
  · rw [Fallible.exec_bind_error reads]
    simp only [same]
    exact .unreadable error accepted unreadable

/-- Filling in the audit record changes neither the outcome nor what is stored. -/
theorem body_moves (stands : backends.Stands fresh asked state) (migration : Migration)
    (entry : AuditEntry) (operator : strip migration.operator ≠ "") :
    let ran := Program.exec (backends.machine unicode place) fresh.supply
      (migration.body unicode (fun _ _ => .ok ()) entry) asked state
    Moves unicode place fresh.supply true migration asked (backends.spaces state)
      ran.1.1 (backends.spaces ran.2.2) := by
  obtain ⟨reply, count, later, refuses, grows, standsLater, same, cases⟩ :=
    @refusals_exec unicode ι _ backends place fresh asked state stands migration operator
  unfold Migration.body
  rw [Program.exec_bind_eq refuses]
  rcases cases with ⟨mode, accepted, rfl⟩ | ⟨none, message, rfl⟩
  · have moves := @copy_moves unicode ι _ backends place fresh count later true
      standsLater migration mode asked grows accepted
    rw [same] at moves
    generalize copied : Fallible.exec (backends.machine unicode place) fresh.supply
      (migration.copy unicode mode) count later = ran at moves
    obtain ⟨outcome, asked', left⟩ := ran
    simp only
    rw [Program.exec_bind_eq copied]
    cases outcome with
    | ok report => exact moves
    | error error => exact moves
  · exact same ▸ .refused message none

theorem migrate_moves (stands : backends.Stands fresh asked state)
    (canRecord : Bool) (migration : Migration) :
    let ran := backends.migrate unicode place fresh.supply canRecord migration asked state
    Moves unicode place fresh.supply canRecord migration asked (backends.spaces state)
        ran.1 (backends.spaces ran.2.2) ∧
      asked ≤ ran.2.1 ∧ backends.Stands fresh ran.2.1 ran.2.2 := by
  have kept := @Stands.exec unicode _ ι _ backends place fresh asked state stands
    (Memcp.migrate unicode canRecord (fun _ _ => .ok ()) migration)
  unfold LocalBackends.migrate
  simp only [Fallible.exec] at kept ⊢
  refine ⟨?_, kept⟩
  by_cases operator : strip migration.operator = ""
  · unfold Memcp.migrate
    rw [if_pos operator]
    exact .refused _ fun mode accepted => accepted.operator operator
  cases canRecord with
  | false =>
      unfold Memcp.migrate
      rw [if_neg operator]
      refine .refused _ fun mode accepted => ?_
      cases accepted.recorded
  | true =>
      let entry : AuditEntry :=
        { operation := "migrate"
          key := some migration.operator
          space := some migration.landing
          relation := none
          sourceSpace := some migration.partition }
      have moves := @body_moves unicode ι _ backends place fresh asked state stands
        migration entry operator
      generalize ended : Program.exec (backends.machine unicode place) fresh.supply
        (migration.body unicode (fun _ _ => .ok ()) entry) asked state = ran at moves
      obtain ⟨⟨result, entry'⟩, count, later⟩ := ran
      have logged : Program.exec (backends.machine unicode place) fresh.supply
          (Memcp.migrate unicode true (fun _ _ => .ok ()) migration) asked state =
            (result, count + 1, later) := by
        unfold Memcp.migrate
        rw [if_neg operator]
        exact Program.exec_bind_eq ended fun outcome =>
          @Program.ask crossings _ (.audit (outcome.2.finish outcome.1)) fun _ =>
            .done outcome.1
      rw [logged]
      exact moves

end LocalBackends

end Memcp
