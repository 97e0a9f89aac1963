import Memcp.Data.Keyed
import Memcp.Policy.OneSpace

/-!
What an import makes of a space, entry by entry.  An entry is refused, skipped,
written over a memory of its identity or stored as a new memory, and reported
once.
-/

namespace Memcp

open Python Interaction

/-- The identity by which an import knows a stored memory. -/
def Item.identity (unicode : Unicode) (item : Item) : DedupKey :=
  dedupKey unicode item.content (some (textScope item.scope))

namespace Import

/-- What became of one entry. -/
inductive Report where
  | failed (error : String)
  | skipped (id : String)
  | updated (id : String)
  | created (id : String)
  deriving DecidableEq

/-- The memories known by identity, and the space. -/
structure Progress where
  existing : Dict DedupKey Memory
  items : List Item

variable (unicode : Unicode) (options : ImportOptions)

/-- A memory after an entry is written over it. -/
def overwritten (index : Nat) (item : ImportItem) (now : String) (dup : Memory)
    (old : Item) : Item :=
  old.changed now (some item.content)
    (item.metadata.map fun metadata => overwritePatch metadata dup)
    (options.stamp.map fun stamp => stamp index (some dup.system))

/-- The memory an entry is stored as. -/
def created (index : Nat) (item : ImportItem) (fresh : Fresh) : Item :=
  Item.added unicode fresh item.content item.scope item.metadata
    (options.stamp.map fun stamp => stamp index none)

/-- What one entry can do. -/
inductive Step (index : Nat) (entry : Dict String Json) (before : Progress) :
    Report → Progress → Prop
  | failed {message : String}
      (read : readEntry unicode options entry = .error (.valueError message)) :
      Step index entry before (.failed message) before
  | skipped {item : ImportItem} {dup : Memory}
      (read : readEntry unicode options entry = .ok item)
      (known : before.existing.get? (dedupKey unicode item.content item.scope) =
        some dup) (mode : options.onConflict = .skip) :
      Step index entry before (.skipped dup.id) before
  | updated {item : ImportItem} {dup : Memory} {old : Item} (now : String)
      (read : readEntry unicode options entry = .ok item)
      (known : before.existing.get? (dedupKey unicode item.content item.scope) =
        some dup) (mode : options.onConflict = .overwrite)
      (found : Space.find dup.id before.items = some old) :
      Step index entry before (.updated dup.id) {
        existing := before.existing.set (dedupKey unicode item.content item.scope)
          ((overwritten options index item now dup old).memory options.userId none)
        items := before.items.map fun other =>
          if other.id = dup.id then overwritten options index item now dup old
          else other }
  | created {item : ImportItem} (fresh : Fresh)
      (read : readEntry unicode options entry = .ok item)
      (unknown : options.onConflict ≠ .duplicate →
        before.existing.get? (dedupKey unicode item.content item.scope) = none)
      (flat : refuseNestedFilters unicode item.scope = .ok ())
      (unused : ∀ other ∈ before.items, other.id ≠ fresh.id) :
      Step index entry before (.created fresh.id) {
        existing := before.existing.set (dedupKey unicode item.content item.scope)
          ((created unicode options index item fresh).memory options.userId none)
        items := before.items ++ [created unicode options index item fresh] }

/-- A whole batch, with one report an entry. -/
inductive Run : (index : Nat) → List (Dict String Json) → Progress →
    List Report → Progress → Prop
  | nil {index : Nat} (progress : Progress) : Run index [] progress [] progress
  | cons {index : Nat} {entry : Dict String Json}
      {entries : List (Dict String Json)} {before middle after : Progress}
      {report : Report} {reports : List Report}
      (step : Step unicode options index entry before report middle)
      (rest : Run (index + 1) entries middle reports after) :
      Run index (entry :: entries) before (report :: reports) after

end Import

/-- Add an entry's report to the outcome. -/
def ImportOutcome.report (outcome : ImportOutcome) (index : Nat) :
    Import.Report → ImportOutcome
  | .failed error =>
      { outcome with errors := outcome.errors ++ [{ index, error }] }
  | .skipped existingId =>
      { outcome with skipped := outcome.skipped ++ [{ index, existingId }] }
  | .updated id =>
      { outcome with
        imported := outcome.imported ++ [{ id, index, action := .updated }] }
  | .created id =>
      { outcome with
        imported := outcome.imported ++ [{ id, index, action := .created }] }

/-- The outcome of a batch whose first entry has `index`. -/
def ImportOutcome.reports (outcome : ImportOutcome) :
    Nat → List Import.Report → ImportOutcome
  | _, [] => outcome
  | index, report :: reports =>
      (outcome.report index report).reports (index + 1) reports

namespace Import

variable {unicode : Unicode} {options : ImportOptions} {fresh : FreshIds}
  {asked index : Nat} {entry : Dict String Json} {item : ImportItem}
  {dup : Memory} {items : List Item} {state : ImportState}

/-! The memories an import knows are the stored ones. -/

structure Known (userId : String) (progress : Progress) : Prop where
  stored : ∀ key memory, progress.existing.get? key = some memory →
    ∃ item ∈ progress.items, memory = item.memory userId none
  single : ∀ key other memory memory', progress.existing.get? key = some memory →
    progress.existing.get? other = some memory' → memory.id = memory'.id →
      key = other

/-- The system fields an import writes name the space it writes to. -/
def Stamped (options : ImportOptions) : Prop :=
  ∃ stamp, options.stamp = some stamp ∧
    ∀ index stored, (stamp index stored).spaceIs options.userId = true

theorem find_of_mem (ids : (items.map Item.id).Nodup) {stored : Item}
    (member : stored ∈ items) : Space.find stored.id items = some stored :=
  List.find?_key_of_mem ids member

theorem find_append_self {stored : Item}
    (unused : ∀ other ∈ items, other.id ≠ stored.id) :
    Space.find stored.id (items ++ [stored]) = some stored := by
  have none : items.find? (fun item => item.id = stored.id) = none := by
    rw [List.find?_eq_none]
    exact fun other member => by simpa using unused other member
  simp only [Space.find, List.find?_append, none]
  simp

/-! The runs of the code on one space. -/

/-- A `MemoryAPIError` as the status an import reports. -/
def attempted {α : Type} : Except Exc α → Except Exc (Except Int α)
  | .ok value => .ok (.ok value)
  | .error (.memoryAPIError status _) => .ok (.error status)
  | .error error => .error error

theorem attempt_exec {α Supply : Type} {machine : Machine effects Supply}
    {supply : Nat → Supply} {state : machine.State} (action : Action α) :
    Fallible.exec machine supply action.attempt asked state =
      (attempted (Fallible.exec machine supply action asked state).1,
        (Fallible.exec machine supply action asked state).2) := by
  refine (Program.exec_bind action _ asked state).trans ?_
  unfold Fallible.exec
  rcases Program.exec machine supply action asked state with ⟨outcome, asked, later⟩
  cases outcome with
  | ok value => rfl
  | error error => cases error <;> rfl

/-- A call that an import attempts. -/
theorem attempt_backend_exec {supply : Nat → Fresh} {call : BackendCall}
    {reply : Except Exc call.Result} {later : List Item}
    (performed : Space.perform unicode (supply asked) call items = (reply, later)) :
    Fallible.exec (Space.store unicode).machine supply (Action.backend call).attempt
        asked items = (attempted reply, asked + 1, later) := by
  have called : Fallible.exec (Space.store unicode).machine supply
      (Action.backend call) asked items =
        ((Space.perform unicode (supply asked) call items).1, asked + 1,
          (Space.perform unicode (supply asked) call items).2) := rfl
  rw [attempt_exec, called, performed]

theorem importOverwrite_exec {supply : Nat → Fresh} {old : Item}
    (key : DedupKey)
    (free : refuseReservedMetadata unicode
      ((item.metadata.map fun metadata => overwritePatch metadata dup).elim []
        MetadataPatch.keys) = .ok ())
    (found : Space.find dup.id items = some old) :
    let changed := overwritten options index item (supply asked).now dup old
    Fallible.exec (Space.store unicode).machine supply
        (importOverwrite options index item key dup state) asked items =
      ((checkSpace (some (changed.memory options.userId none)) options.userId).map
          fun checked => state.addImported key checked dup.id index .updated,
        asked + 1, items.map fun other => if other.id = dup.id then changed else other) := by
  intro changed
  have performed : Space.perform unicode (supply asked)
      (.update options.userId dup.id (some item.content)
        (item.metadata.map fun metadata => overwritePatch metadata dup)
        (options.stamp.map fun stamp => stamp index (some dup.system))) items =
      (.ok (changed.memory options.userId none),
        items.map fun other => if other.id = dup.id then changed else other) := by
    simp only [Space.perform, Space.update, free, found]
    rfl
  unfold importOverwrite
  rw [Fallible.exec_bind_ok (attempt_backend_exec performed)]
  simp only
  cases checkSpace (some (changed.memory options.userId none)) options.userId with
  | ok checked => rfl
  | error error => rfl

theorem importCreate_exec {supply : Nat → Fresh} (key : DedupKey)
    (flat : refuseNestedFilters unicode item.scope = .ok ())
    (free : refuseReservedMetadata unicode (item.metadata.getD ∅).keys = .ok ())
    (unused : ∀ other ∈ items, other.id ≠ (supply asked).id) :
    let added := created unicode options index item (supply asked)
    Fallible.exec (Space.store unicode).machine supply
        (importCreate options index item key state) asked items =
      ((checkSpace (some (added.memory options.userId none)) options.userId).map
          fun checked => state.addImported key checked (supply asked).id index .created,
        asked + 2, items ++ [added]) := by
  intro added
  have performed : Space.perform unicode (supply asked)
      (.add options.userId item.content item.scope item.metadata false
        (options.stamp.map fun stamp => stamp index none)) items =
      (.ok (.many [{ id := (supply asked).id, createdAt := (supply asked).now }]),
        items ++ [added]) := by
    simp only [Space.perform, Space.add, flat, free]
    rfl
  have fetched : Space.perform unicode (supply (asked + 1))
      (.get options.userId (supply asked).id) (items ++ [added]) =
      (.ok (some (added.memory options.userId none)), items ++ [added]) := by
    have found : Space.find (supply asked).id (items ++ [added]) = some added :=
      @find_append_self items added unused
    simp only [Space.perform, found, Option.map_some]
  unfold importCreate
  rw [Fallible.exec_bind_ok (attempt_backend_exec performed)]
  simp only [AddReturn.items, importReadBack]
  rw [Fallible.exec_bind_ok (attempt_backend_exec fetched)]
  simp only
  cases checkSpace (some (added.memory options.userId none)) options.userId with
  | ok checked => rfl
  | error error => rfl

theorem importCreate_refused {supply : Nat → Fresh} (key : DedupKey)
    {message : String}
    (nested : refuseNestedFilters unicode item.scope = .error (.valueError message)) :
    Fallible.exec (Space.store unicode).machine supply
        (importCreate options index item key state) asked items =
      (.error (.valueError message), asked + 1, items) := by
  have performed : Space.perform unicode (supply asked)
      (.add options.userId item.content item.scope item.metadata false
        (options.stamp.map fun stamp => stamp index none)) items =
      (.error (.valueError message), items) := by
    simp only [Space.perform, Space.add, nested]
  unfold importCreate
  rw [Fallible.exec_bind_error (attempt_backend_exec performed)]

theorem Known.step {before after : Progress} {report : Report}
    (known : Known options.userId before)
    (step : Step unicode options index entry before report after) :
    Known options.userId after := by
  cases step with
  | failed read => exact known
  | skipped read found mode => exact known
  | @updated item dup old now read found mode oldFound =>
      obtain ⟨member, same⟩ := Space.mem_of_find oldFound
      constructor
      · intro key memory found'
        rw [Dict.get?_set] at found'
        split at found'
        · cases found'
          refine ⟨_, List.mem_map.mpr ⟨old, member, if_pos same⟩, rfl⟩
        · rename_i other
          obtain ⟨stored, storedMember, rfl⟩ := known.stored key memory found'
          refine ⟨stored, List.mem_map.mpr ⟨stored, storedMember, if_neg ?_⟩, rfl⟩
          intro clash
          exact other (known.single _ _ _ _ found' found clash)
      · intro key other memory memory' first second ids
        rw [Dict.get?_set] at first second
        split at first
        · split at second
          · rename_i sameFirst sameSecond
            exact sameFirst.trans sameSecond.symm
          · rename_i sameKey _
            cases first
            exact sameKey.trans
              (known.single _ _ _ _ found second (same.symm.trans ids))
        · split at second
          · rename_i sameKey
            cases second
            exact (known.single _ _ _ _ first found (ids.trans same)).trans
              sameKey.symm
          · exact known.single _ _ _ _ first second ids
  | @created item given read unknown flat unused =>
      constructor
      · intro key memory found'
        rw [Dict.get?_set] at found'
        split at found'
        · cases found'
          exact ⟨_, List.mem_append_right _ (List.mem_singleton.mpr rfl), rfl⟩
        · obtain ⟨stored, storedMember, rfl⟩ := known.stored key memory found'
          exact ⟨stored, List.mem_append_left _ storedMember, rfl⟩
      · have absent : ∀ key memory, before.existing.get? key = some memory →
            memory.id ≠ given.id := by
          intro key memory found'
          obtain ⟨stored, storedMember, rfl⟩ := known.stored key memory found'
          exact unused stored storedMember
        intro key other memory memory' first second ids
        rw [Dict.get?_set] at first second
        split at first
        · split at second
          · rename_i sameFirst sameSecond
            exact sameFirst.trans sameSecond.symm
          · cases first
            exact absurd ids.symm (absent _ _ second)
        · split at second
          · cases second
            exact absurd ids (absent _ _ first)
          · exact known.single _ _ _ _ first second ids

/-! One entry. -/

/-- The batch stops at an entry: its checks raise something else than a
`ValueError`, or its scope is one no backend takes. -/
def Halts (unicode : Unicode) (options : ImportOptions) (entry : Dict String Json)
    (error : Exc) : Prop :=
  (readEntry unicode options entry = .error error ∧
    ∀ message, error ≠ .valueError message) ∨
  ∃ item, readEntry unicode options entry = .ok item ∧
    refuseNestedFilters unicode item.scope = .error error

theorem refuseNestedFilters_error {scope : Option (Dict String Json)} {error : Exc}
    (refused : refuseNestedFilters unicode scope = .error error) :
    ∃ message, error = .valueError message := by
  unfold refuseNestedFilters at refused
  split at refused
  · cases refused
  · unfold rejectNestedFilters at refused
    simp only at refused
    split at refused
    · cases refused
    · cases refused
      exact ⟨_, rfl⟩

theorem overwrite_free (accepted : acceptedMetadata unicode item.metadata)
    (dup : Memory) :
    refuseReservedMetadata unicode
      ((item.metadata.map fun metadata => overwritePatch metadata dup).elim []
        MetadataPatch.keys) = .ok () := by
  rw [refuseReservedMetadata_eq_ok]
  cases given : item.metadata with
  | none => exact nofun
  | some metadata =>
      intro key member
      rcases List.mem_append.mp member with set | removed
      · exact not_reserved_of_valid (accepted metadata given).1 set
      · have kept := (List.mem_filter.mp removed).2
        simp only [Bool.and_eq_true, Bool.not_eq_true'] at kept
        exact kept.2

theorem accepted_free {metadata : Option (Dict String Json)}
    (accepted : acceptedMetadata unicode metadata) :
    refuseReservedMetadata unicode (metadata.getD ∅).keys = .ok () := by
  rw [refuseReservedMetadata_eq_ok]
  cases given : metadata with
  | none => exact nofun
  | some metadata =>
      exact fun key member => not_reserved_of_valid (accepted metadata given).1 member

theorem created_inSpace (stamped : Stamped options) (index : Nat) (item : ImportItem)
    (given : Fresh) :
    ((created unicode options index item given).memory options.userId none).inSpace
      options.userId = true := by
  obtain ⟨stamp, some, names⟩ := stamped
  simp [Memory.inSpace, Item.memory, created, Item.added, some, names]

theorem overwritten_inSpace (stamped : Stamped options) (index : Nat)
    (item : ImportItem) (now : String) (dup : Memory) (old : Item) :
    ((overwritten options index item now dup old).memory options.userId
      none).inSpace options.userId = true := by
  obtain ⟨stamp, some, names⟩ := stamped
  simp [Memory.inSpace, Item.memory, overwritten, Item.changed, some, names]

/-- What the call for one entry can do: its step, the step with the memory it wrote
refused by the space check, or a halt. -/
inductive Enters (unicode : Unicode) (options : ImportOptions) (fresh : FreshIds)
    (index : Nat) (entry : Dict String Json) (asked : Nat) (items : List Item)
    (state : ImportState) : Except Exc ImportState × Nat × List Item → Prop
  | stepped {report : Report} {after : Progress} {asked' : Nat}
      (step : Step unicode options index entry ⟨state.existing, items⟩ report after)
      (grows : asked ≤ asked') (stands : Space.Stands fresh asked' after.items) :
      Enters unicode options fresh index entry asked items state
        (.ok ⟨after.existing, state.outcome.report index report⟩, asked', after.items)
  | strayed {report : Report} {after : Progress} {asked' : Nat} {error : Exc}
      (step : Step unicode options index entry ⟨state.existing, items⟩ report after)
      (unstamped : ¬ Stamped options)
      (grows : asked ≤ asked') (stands : Space.Stands fresh asked' after.items) :
      Enters unicode options fresh index entry asked items state
        (.error error, asked', after.items)
  | halted {error : Exc} {asked' : Nat} (halts : Halts unicode options entry error)
      (grows : asked ≤ asked') :
      Enters unicode options fresh index entry asked items state
        (.error error, asked', items)

theorem Enters.checked {report : Report} {after : Progress} {asked' : Nat}
    {memory : Memory} {next : Memory → ImportState}
    (step : Step unicode options index entry ⟨state.existing, items⟩ report after)
    (grows : asked ≤ asked') (stands : Space.Stands fresh asked' after.items)
    (inSpace : Stamped options → memory.inSpace options.userId = true)
    (reported : next memory = ⟨after.existing, state.outcome.report index report⟩) :
    Enters unicode options fresh index entry asked items state
      ((checkSpace (some memory) options.userId).map next, asked', after.items) := by
  by_cases passes : memory.inSpace options.userId = true
  · rw [checkSpace_eq_ok.mpr ⟨rfl, passes⟩, Except.map, reported]
    exact .stepped step grows stands
  · rw [checkSpace, if_neg passes]
    exact .strayed step (fun stamped => passes (inSpace stamped)) grows stands

theorem importEntry_enters (stands : Space.Stands fresh asked items)
    (known : Known options.userId ⟨state.existing, items⟩) :
    Enters unicode options fresh index entry asked items state
      (Fallible.exec (Space.store unicode).machine fresh.supply
        (importEntry unicode options index entry state) asked items) := by
  unfold importEntry
  cases read : readEntry unicode options entry with
  | error error =>
      cases error with
      | valueError message => exact .stepped (.failed read) (Nat.le_refl _) stands
      | _ => exact .halted (.inl ⟨read, nofun⟩) (Nat.le_refl _)
  | ok item =>
      have accepted := readMetadata_eq_ok (readEntry_parts read).2.1
      have create : (options.onConflict ≠ .duplicate →
          state.existing.get? (dedupKey unicode item.content item.scope) = none) →
          Enters unicode options fresh index entry asked items state
            (Fallible.exec (Space.store unicode).machine fresh.supply
              (importCreate options index item
                (dedupKey unicode item.content item.scope) state) asked items) := by
        intro unknown
        cases flat : refuseNestedFilters unicode item.scope with
        | error error =>
            obtain ⟨message, rfl⟩ := refuseNestedFilters_error flat
            rw [importCreate_refused _ flat]
            exact .halted (.inr ⟨item, read, flat⟩) (Nat.le_succ _)
        | ok _ =>
            have unused := stands.unused asked (Nat.le_refl _)
            rw [importCreate_exec _ flat (accepted_free accepted) unused]
            exact .checked (.created (fresh.supply asked) read unknown flat unused)
              (by omega) ((stands.add rfl).later (Nat.le_succ _))
              (fun stamped => created_inSpace stamped index item _) rfl
      simp only
      split
      · rename_i dup found mode
        exact .stepped (.skipped read found mode) (Nat.le_refl _) stands
      · rename_i dup found mode
        obtain ⟨old, member, rfl⟩ := known.stored _ _ found
        have oldFound : Space.find (old.memory options.userId none).id items = some old :=
          find_of_mem stands.ids member
        have kept : Space.Stands fresh (asked + 1) (items.map fun other =>
            if other.id = old.id then
              overwritten options index item (fresh.supply asked).now
                (old.memory options.userId none) old
            else other) := by
          refine (stands.later (Nat.le_succ _)).map fun other _ => ?_
          split
          · rename_i same
            exact same.symm
          · rfl
        rw [importOverwrite_exec _ (overwrite_free accepted _) oldFound]
        exact .checked (.updated (fresh.supply asked).now read found mode oldFound)
          (Nat.le_succ _) kept (fun stamped => overwritten_inSpace stamped index item _ _ _)
          rfl
      · rename_i notSkip notOverwrite
        refine create fun mode => ?_
        cases found : state.existing.get?
            (dedupKey unicode item.content item.scope) with
        | none => rfl
        | some dup =>
            cases conflict : options.onConflict with
            | skip => exact absurd conflict (notSkip dup found)
            | overwrite => exact absurd conflict (notOverwrite dup found)
            | duplicate => exact absurd conflict mode

theorem importEntry_exec (stands : Space.Stands fresh asked items)
    (known : Known options.userId ⟨state.existing, items⟩)
    (stamped : Stamped options) :
    (∃ report after asked',
      Step unicode options index entry ⟨state.existing, items⟩ report after ∧
      Fallible.exec (Space.store unicode).machine fresh.supply
          (importEntry unicode options index entry state) asked items =
        (.ok ⟨after.existing, state.outcome.report index report⟩, asked',
          after.items) ∧
      asked ≤ asked' ∧ Space.Stands fresh asked' after.items) ∨
    ∃ error asked', Halts unicode options entry error ∧
      Fallible.exec (Space.store unicode).machine fresh.supply
          (importEntry unicode options index entry state) asked items =
        (.error error, asked', items) ∧ asked ≤ asked' := by
  have enters := @importEntry_enters unicode options fresh asked index entry items state
    stands known
  generalize Fallible.exec (Space.store unicode).machine fresh.supply
    (importEntry unicode options index entry state) asked items = ran at enters
  cases enters with
  | stepped step grows stands => exact .inl ⟨_, _, _, step, rfl, grows, stands⟩
  | strayed step unstamped => exact absurd stamped unstamped
  | halted halts grows => exact .inr ⟨_, _, halts, rfl, grows⟩

/-! A batch. -/

theorem Known.run {entries : List (Dict String Json)} {before after : Progress}
    {reports : List Report} (known : Known options.userId before)
    (run : Run unicode options index entries before reports after) :
    Known options.userId after := by
  induction run with
  | nil => exact known
  | cons step _ induction => exact induction (known.step step)

/-- A batch runs to its end, or halts at an entry after the ones before it. -/
theorem importEntries_exec (entries : List (Dict String Json))
    (stands : Space.Stands fresh asked items)
    (known : Known options.userId ⟨state.existing, items⟩)
    (stamped : Stamped options) :
    (∃ reports after asked',
      Run unicode options index entries ⟨state.existing, items⟩ reports after ∧
      Fallible.exec (Space.store unicode).machine fresh.supply
          (importEntries unicode options index entries state) asked items =
        (.ok ⟨after.existing, state.outcome.reports index reports⟩, asked',
          after.items) ∧
      asked ≤ asked' ∧ Space.Stands fresh asked' after.items) ∨
    ∃ entry ∈ entries, ∃ error, Halts unicode options entry error ∧
      (Fallible.exec (Space.store unicode).machine fresh.supply
          (importEntries unicode options index entries state) asked items).1 =
        .error error := by
  induction entries generalizing index asked items state with
  | nil =>
      exact .inl ⟨[], ⟨state.existing, items⟩, asked, .nil _, rfl, Nat.le_refl _,
        stands⟩
  | cons entry entries induction =>
      unfold importEntries
      rcases @importEntry_exec unicode options fresh asked index entry items state
        stands known stamped with
        ⟨report, after, asked', step, ran, grows, stands⟩ |
        ⟨error, asked', halts, ran, -⟩
      · rw [Fallible.exec_bind_ok ran]
        rcases @induction asked' (index + 1) after.items
          ⟨after.existing, state.outcome.report index report⟩ stands
          (known.step step) with
          ⟨reports, last, asked'', run, ran, grows', stands⟩ |
          ⟨other, member, error, halts, ran⟩
        · exact .inl ⟨report :: reports, last, asked'', .cons step run, ran,
            Nat.le_trans grows grows', stands⟩
        · exact .inr ⟨other, List.mem_cons_of_mem _ member, error, halts, ran⟩
      · rw [Fallible.exec_bind_error ran]
        exact .inr ⟨entry, List.mem_cons_self, error, halts, rfl⟩

/-! The read before a batch. -/

theorem selected_none (items : List Item) :
    Space.selected unicode none items = items := by
  simp [Space.selected, storedHolds]

theorem firstPage (given : Fresh) (userId : String) (count : Nat)
    (items : List Item) :
    Space.perform unicode given (.listMemories userId none (count : Int) none) items =
      (.ok { memories := (items.take count).map (Item.memory userId none)
             nextCursor := if count < items.length then some (toString (count : Int))
               else none }, items) := by
  have start : (0 : Int) + (count : Int) = count := Int.zero_add _
  simp only [Space.perform, selected_none, paginate, cursorStart]
  refine congrArg (·, items) (congrArg Except.ok ?_)
  simp only [start, List.length_map, Int.ofNat_lt]
  rw [slice_zero (Int.natCast_nonneg count), Int.toNat_natCast, List.map_take]

/-- One page holds what a full read needs. -/
theorem listAll_exec {supply : Nat → Fresh} (userId : String) (limit : Nat)
    (items : List Item) :
    Fallible.exec (Space.store unicode).machine supply (listAll userId limit) asked
        items =
      ((checkSpaces ((items.take (limit + 1)).map (Item.memory userId none))
        userId).map fun _ => ((items.take limit).map (Item.memory userId none),
          decide (limit < items.length)), asked + 1, items) := by
  have called : Fallible.exec (Space.store unicode).machine supply
      (Action.backend (.listMemories userId none
        ((limit + 1 - ([] : List Memory).length : Nat) : Int) none)) asked items =
      (.ok { memories := (items.take (limit + 1)).map (Item.memory userId none)
             nextCursor := if limit + 1 < items.length then
               some (toString ((limit + 1 : Nat) : Int)) else none },
        asked + 1, items) := by
    have page := @firstPage unicode (supply asked) userId (limit + 1) items
    exact congrArg (fun answer : Except Exc ListResult × List Item =>
      (answer.1, asked + 1, answer.2)) page
  unfold listAll
  rw [listAllFrom, Fallible.exec_bind_ok called]
  split
  · rename_i error failed
    rw [failed]
    rfl
  · rename_i checked passed
    rw [passed]
    obtain ⟨rfl, -⟩ := checkSpaces_eq_ok.mp passed
    have taken : (items.take (limit + 1)).length = min (limit + 1) items.length :=
      List.length_take
    have complete : (if limit + 1 < items.length then
        some (toString ((limit + 1 : Nat) : Int)) else none) = none ∨
        (items.take (limit + 1)).map (Item.memory userId none) = [] ∨
        limit < ([] ++ (items.take (limit + 1)).map
          (Item.memory userId none)).length := by
      by_cases more : limit + 1 < items.length
      · refine .inr (.inr ?_)
        rw [List.nil_append, List.length_map, taken]
        omega
      · exact .inl (if_neg more)
    have kept : ([] ++ (items.take (limit + 1)).map (Item.memory userId none)).take
        limit = (items.take limit).map (Item.memory userId none) := by
      rw [List.nil_append, ← List.map_take, List.take_take,
        Nat.min_eq_left (Nat.le_succ limit)]
    have flag : (false || false || decide (limit < ([] ++ (items.take (limit + 1)).map
        (Item.memory userId none)).length) ||
        (if limit + 1 < items.length then
          some (toString ((limit + 1 : Nat) : Int)) else none).isSome) =
        decide (limit < items.length) := by
      rw [List.nil_append, List.length_map, taken]
      by_cases more : limit + 1 < items.length
      · have full : limit < items.length := by omega
        simp [more, full]
      · rw [if_neg more]
        simp only [Bool.or_self, Bool.false_or, Option.isSome_none, Bool.or_false,
          decide_eq_decide]
        omega
    rw [if_pos complete, kept, flag]
    rfl

/-- The index of the memories read, by identity. -/
def indexed (unicode : Unicode) (userId : String) (items : List Item) :
    Dict DedupKey Memory :=
  Dict.ofList (items.map fun item =>
    (item.identity unicode, item.memory userId none))

/-- Where a batch starts: with the memories read before it, in the modes that
read. -/
def start (unicode : Unicode) (options : ImportOptions) (limit : Nat)
    (items : List Item) : Progress where
  existing := if options.onConflict = .duplicate then ∅
    else indexed unicode options.userId (items.take limit)
  items := items

/-- The space check on the memories read. -/
def readable (options : ImportOptions) (limit : Nat) (items : List Item) :
    Except Exc Unit :=
  if options.onConflict = .duplicate then .ok ()
  else (checkSpaces ((items.take (limit + 1)).map
    (Item.memory options.userId none)) options.userId).map fun _ => ()

/-- What a batch reports before its first entry. -/
def unread (options : ImportOptions) (limit : Nat) (items : List Item) :
    ImportOutcome where
  dedupIncomplete := options.onConflict ≠ .duplicate && decide (limit < items.length)

/-- A complete read found all of the space. -/
theorem whole_of_complete {limit : Nat} (mode : options.onConflict ≠ .duplicate)
    (complete : (unread options limit items).dedupIncomplete = false) :
    items.length ≤ limit := by
  simpa [unread, mode] using complete

theorem buildDedupIndex_exec {supply : Nat → Fresh} (userId : String) (limit : Nat)
    (items : List Item) :
    Fallible.exec (Space.store unicode).machine supply
        (buildDedupIndex unicode userId limit) asked items =
      ((checkSpaces ((items.take (limit + 1)).map (Item.memory userId none))
        userId).map fun _ => (indexed unicode userId (items.take limit),
          decide (limit < items.length)), asked + 1, items) := by
  have listed := @listAll_exec unicode asked supply userId limit items
  have built : indexed unicode userId (items.take limit) =
      Dict.ofList (((items.take limit).map (Item.memory userId none)).map
        fun memory => (dedupKey unicode memory.content (some memory.scope), memory)) := by
    rw [List.map_map]
    rfl
  unfold buildDedupIndex
  rcases checkSpaces_cases ((items.take (limit + 1)).map (Item.memory userId none))
      userId with passed | failed
  · rw [passed] at listed ⊢
    rw [Fallible.exec_bind_ok listed, built]
    rfl
  · rw [failed] at listed ⊢
    rw [Fallible.exec_bind_error listed]
    rfl

theorem get?_indexed (userId : String) (items : List Item) (key : DedupKey) :
    (indexed unicode userId items).get? key =
      ((items.filter fun item => item.identity unicode = key).getLast?).map
        (Item.memory userId none) := by
  rw [indexed, Dict.get?_ofList, List.filter_map, List.getLast?_map, Option.map_map]
  rfl

theorem known_indexed (userId : String) {read : List Item}
    (ids : (items.map Item.id).Nodup) (fewer : read ⊆ items) :
    Known userId ⟨indexed unicode userId read, items⟩ := by
  have source : ∀ key memory, (indexed unicode userId read).get? key = some memory →
      ∃ item ∈ items, item.identity unicode = key ∧ memory = item.memory userId none := by
    intro key memory found
    rw [get?_indexed] at found
    obtain ⟨item, last, rfl⟩ := Option.map_eq_some_iff.mp found
    obtain ⟨member, same⟩ := List.mem_filter.mp (List.mem_of_getLast? last)
    exact ⟨item, fewer member, of_decide_eq_true same, rfl⟩
  constructor
  · intro key memory found
    obtain ⟨item, member, -, same⟩ := source key memory found
    exact ⟨item, member, same⟩
  · intro key other memory memory' first second same
    obtain ⟨item, member, rfl, rfl⟩ := source key memory first
    obtain ⟨item', member', rfl, rfl⟩ := source other memory' second
    have found := find_of_mem ids member
    have found' := find_of_mem ids member'
    have equal : item.id = item'.id := same
    rw [equal, found'] at found
    cases found
    rfl

theorem known_start (ids : (items.map Item.id).Nodup) (limit : Nat) :
    Known options.userId (start unicode options limit items) := by
  unfold start
  split
  · exact ⟨by simp, by simp⟩
  · exact known_indexed options.userId ids (List.take_subset limit items)

theorem refuseOnConflict_exec {supply : Nat → Fresh} (onConflict : OnConflict) :
    ∃ asked', asked ≤ asked' ∧
      Fallible.exec (Space.store unicode).machine supply (refuseOnConflict onConflict)
        asked items = (.ok (), asked', items) := by
  unfold refuseOnConflict
  split
  · have called : Fallible.exec (Space.store unicode).machine supply
        (Action.backend .capabilities) asked items =
          (.ok localCapabilities, asked + 1, items) := rfl
    refine ⟨asked + 1, Nat.le_succ _, ?_⟩
    rw [Fallible.exec_bind_ok called]
    simp [localCapabilities]
  · exact ⟨asked, Nat.le_refl _, rfl⟩

/-- A whole import is its batch, once the read before it has passed. -/
theorem importPayload_start {supply : Nat → Fresh} (limit : Nat) :
    ∃ count, asked ≤ count ∧ ∀ entries,
      Fallible.exec (Space.store unicode).machine supply
          (importPayload unicode options entries limit) asked items =
        match readable options limit items with
        | .error error => (.error error, count, items)
        | .ok _ =>
            Fallible.exec (Space.store unicode).machine supply (do
              let state ← importEntries unicode options 0 entries
                { existing := (start unicode options limit items).existing
                  outcome := unread options limit items }
              return state.outcome) count items := by
  obtain ⟨middle, grows, refused⟩ := @refuseOnConflict_exec unicode asked items
    supply options.onConflict
  by_cases mode : options.onConflict = .duplicate
  · refine ⟨middle, grows, fun entries => ?_⟩
    have read : readable options limit items = .ok () := if_pos mode
    unfold importPayload
    rw [Fallible.exec_bind_ok refused, read]
    simp only [start, unread, mode, if_true]
    rfl
  · refine ⟨middle + 1, Nat.le_succ_of_le grows, fun entries => ?_⟩
    have built := @buildDedupIndex_exec unicode middle supply options.userId
      limit items
    have readable_eq : readable options limit items = (checkSpaces
        ((items.take (limit + 1)).map (Item.memory options.userId none))
        options.userId).map fun _ => () := if_neg mode
    unfold importPayload
    rw [Fallible.exec_bind_ok refused]
    simp only [mode, if_false]
    rcases checkSpaces_cases ((items.take (limit + 1)).map
        (Item.memory options.userId none)) options.userId with passed | failed
    · rw [passed] at built readable_eq
      rw [Fallible.exec_bind_ok built, readable_eq]
      simp [start, unread, mode, Except.map]
    · rw [failed] at built readable_eq
      rw [Fallible.exec_bind_error built, readable_eq]
      rfl

/-- What a whole import can do: its read fails, its batch runs, or the batch
halts. -/
inductive Imports (unicode : Unicode) (options : ImportOptions) (fresh : FreshIds)
    (entries : List (Dict String Json)) (limit asked : Nat) (items : List Item) :
    Except Exc ImportOutcome × Nat × List Item → Prop
  | unreadable {error : Exc} {asked' : Nat}
      (failed : readable options limit items = .error error)
      (grows : asked ≤ asked') :
      Imports unicode options fresh entries limit asked items
        (.error error, asked', items)
  | ran {reports : List Report} {after : Progress} {asked' : Nat}
      (read : readable options limit items = .ok ())
      (run : Run unicode options 0 entries (start unicode options limit items) reports
        after)
      (grows : asked ≤ asked') (stands : Space.Stands fresh asked' after.items) :
      Imports unicode options fresh entries limit asked items
        (.ok ((unread options limit items).reports 0 reports), asked', after.items)
  | halted {entry : Dict String Json} {error : Exc} {asked' : Nat}
      {later : List Item} (read : readable options limit items = .ok ())
      (member : entry ∈ entries) (halts : Halts unicode options entry error) :
      Imports unicode options fresh entries limit asked items
        (.error error, asked', later)

theorem importPayload_exec (entries : List (Dict String Json)) (limit : Nat)
    (stands : Space.Stands fresh asked items) (stamped : Stamped options) :
    Imports unicode options fresh entries limit asked items
      (Fallible.exec (Space.store unicode).machine fresh.supply
        (importPayload unicode options entries limit) asked items) := by
  obtain ⟨count, grows, begun⟩ := @importPayload_start unicode options asked items
    fresh.supply limit
  rw [begun entries]
  cases read : readable options limit items with
  | error error => exact .unreadable read grows
  | ok _ =>
      have known : Known options.userId
          ⟨(start unicode options limit items).existing, items⟩ :=
        known_start stands.ids limit
      rcases @importEntries_exec unicode options fresh count 0 items
        ⟨(start unicode options limit items).existing, unread options limit items⟩
        entries (stands.later grows) known stamped with
        ⟨reports, after, asked', run, ran, grows', stands⟩ |
        ⟨entry, member, error, halts, raised⟩
      · simp only
        rw [Fallible.exec_bind_ok ran]
        exact .ran read run (Nat.le_trans grows grows') stands
      · simp only
        rw [Fallible.exec_bind_error (Prod.ext raised rfl)]
        exact .halted read member halts

end Import

end Memcp
