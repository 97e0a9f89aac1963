import Memcp.Policy.Batches
import Memcp.Policy.Identities

/-!
What an import leaves of a space, whether or not it returns, and what a batch
finds there that an index knew.
-/

namespace Memcp

open Python Interaction

namespace Item

/-- A memory still has the content and the scope it had. -/
structure Keeps (old new : Item) : Prop where
  id : new.id = old.id
  content : new.content = old.content
  scope : new.scope = old.scope

theorem Keeps.rfl {item : Item} : Keeps item item := ⟨Eq.refl _, Eq.refl _, Eq.refl _⟩

theorem Keeps.trans {first second third : Item} (keeps : Keeps first second)
    (later : Keeps second third) : Keeps first third where
  id := later.id.trans keeps.id
  content := later.content.trans keeps.content
  scope := later.scope.trans keeps.scope

/-- A memory has an entry's content and the text of its scope. -/
structure Holds (unicode : Unicode) (item : ImportItem) (stored : Item) : Prop where
  content : stored.content = item.content
  scope : stored.scope = scopeAsText unicode (item.scope.getD ∅)

theorem Keeps.holds {unicode : Unicode} {item : ImportItem} {old new : Item}
    (keeps : Keeps old new) (holds : Holds unicode item old) : Holds unicode item new where
  content := keeps.content.trans holds.content
  scope := keeps.scope.trans holds.scope

end Item

namespace Import

variable {unicode : Unicode} {options : ImportOptions} {fresh : FreshIds}
  {asked index limit : Nat} {entry : Dict String Json} {entries : List (Dict String Json)}
  {items : List Item} {before after : Progress} {report : Report} {reports : List Report}
  {state : ImportState} {outcome : ImportOutcome}

/-! A call that ends early leaves what a part of its batch leaves. -/

theorem importEntries_reaches (entries : List (Dict String Json))
    (stands : Space.Stands fresh asked items)
    (known : Known options.userId ⟨state.existing, items⟩) :
    let ran := Fallible.exec (Space.store unicode).machine fresh.supply
      (importEntries unicode options index entries state) asked items
    ∃ count reports after,
      Run unicode options index (entries.take count) ⟨state.existing, items⟩ reports
        after ∧
      ran.2.2 = after.items ∧
      ∀ last, ran.1 = .ok last → entries.take count = entries ∧
        last = ⟨after.existing, state.outcome.reports index reports⟩ := by
  induction entries generalizing index asked items state with
  | nil =>
      refine ⟨0, [], _, .nil _, rfl, ?_⟩
      rintro _ ⟨⟩
      exact ⟨rfl, rfl⟩
  | cons entry entries induction =>
      intro ran
      have enters := @importEntry_enters unicode options fresh asked index entry items state
        stands known
      have bound : ran = Fallible.exec (Space.store unicode).machine fresh.supply
          (importEntry unicode options index entry state >>= fun state =>
            importEntries unicode options (index + 1) entries state) asked items := rfl
      rw [Fallible.exec_bind] at bound
      generalize ran = ran at bound ⊢
      generalize Fallible.exec (Space.store unicode).machine fresh.supply
        (importEntry unicode options index entry state) asked items = first at enters bound
      cases enters with
      | @stepped report after asked' step grows stands =>
          obtain ⟨count, reports, last, run, left, returned⟩ :=
            @induction asked' (index + 1) after.items
              ⟨after.existing, state.outcome.report index report⟩ stands (known.step step)
          refine ⟨count + 1, report :: reports, last, .cons step run, ?_, ?_⟩
          · rw [bound]
            exact left
          · rw [bound]
            intro final same
            obtain ⟨whole, same⟩ := returned final same
            exact ⟨congrArg (List.cons entry) whole, same⟩
      | @strayed report after asked' error step =>
          refine ⟨1, [report], after, .cons step (.nil _), by rw [bound], ?_⟩
          rw [bound]
          exact nofun
      | halted halts grows =>
          refine ⟨0, [], _, .nil _, by rw [bound], ?_⟩
          rw [bound]
          exact nofun

theorem importPayload_reaches (entries : List (Dict String Json)) (limit : Nat)
    (stands : Space.Stands fresh asked items) :
    let ran := Fallible.exec (Space.store unicode).machine fresh.supply
      (importPayload unicode options entries limit) asked items
    ∃ count reports after,
      Run unicode options 0 (entries.take count) (start unicode options limit items)
        reports after ∧
      ran.2.2 = after.items ∧
      ∀ outcome, ran.1 = .ok outcome → entries.take count = entries ∧
        outcome = (unread options limit items).reports 0 reports := by
  intro ran
  obtain ⟨begun, grows, runs⟩ := @importPayload_start unicode options asked items
    fresh.supply limit
  have bound : ran = _ := runs entries
  generalize ran = ran at bound ⊢
  cases read : readable options limit items with
  | error error =>
      rw [read] at bound
      refine ⟨0, [], _, .nil _, by rw [bound]; rfl, ?_⟩
      rw [bound]
      exact nofun
  | ok _ =>
      rw [read] at bound
      obtain ⟨count, reports, after, run, left, returned⟩ :=
        @importEntries_reaches unicode options fresh begun 0 items
          ⟨(start unicode options limit items).existing, unread options limit items⟩
          entries (stands.later grows) (known_start stands.ids limit)
      simp only [Fallible.exec_bind] at bound
      generalize Fallible.exec (Space.store unicode).machine fresh.supply
        (importEntries unicode options 0 entries _) begun items = batch
        at bound left returned
      obtain ⟨reached, asked', later⟩ := batch
      refine ⟨count, reports, after, run, ?_, ?_⟩
      · cases reached with
        | ok last => rw [bound]; exact left
        | error error => rw [bound]; exact left
      · cases reached with
        | ok last =>
            rw [bound]
            rintro _ ⟨⟩
            obtain ⟨whole, rfl⟩ := returned last rfl
            exact ⟨whole, rfl⟩
        | error error =>
            rw [bound]
            exact nofun

/-! What stands in the space after a batch. -/

/-- A known memory has the content of its identity. -/
def Contents (progress : Progress) : Prop :=
  ∀ key memory, progress.existing.get? key = some memory → memory.content = key.1

theorem contents_start (limit : Nat) (items : List Item) :
    Contents (start unicode options limit items) := by
  intro key memory known
  unfold start at known
  split at known
  · simp at known
  · rw [get?_indexed] at known
    obtain ⟨stored, last, rfl⟩ := Option.map_eq_some_iff.mp known
    have identity := of_decide_eq_true
      (List.mem_filter.mp (List.mem_of_getLast? last)).2
    exact congrArg Prod.fst identity

theorem Contents.step (contents : Contents before)
    (step : Step unicode options index entry before report after) : Contents after := by
  cases step with
  | failed | skipped => exact contents
  | updated now read known mode found =>
      intro key memory held
      rw [Dict.get?_set] at held
      split at held
      · rename_i same
        cases held
        rw [same]
        rfl
      · exact contents key memory held
  | created given read unknown flat unused =>
      intro key memory held
      rw [Dict.get?_set] at held
      split at held
      · rename_i same
        cases held
        rw [same]
        rfl
      · exact contents key memory held

theorem Step.holds (step : Step unicode options index entry before report after)
    (known : Known options.userId before) (contents : Contents before)
    (ids : (before.items.map Item.id).Nodup) :
    ∀ stored ∈ after.items, (∃ old ∈ before.items, old.Keeps stored) ∨
      ∃ item, readEntry unicode options entry = .ok item ∧ stored.Holds unicode item := by
  cases step with
  | failed | skipped => exact fun stored member => .inl ⟨stored, member, .rfl⟩
  | @updated item dup old now read held mode found =>
      intro stored member
      obtain ⟨other, otherMember, rfl⟩ := List.mem_map.mp member
      refine .inl ⟨other, otherMember, ?_⟩
      split
      · rename_i same
        obtain ⟨oldMember, oldId⟩ := Space.mem_of_find found
        obtain rfl := List.inj_on_of_nodup_map ids otherMember oldMember
          (same.trans oldId.symm)
        obtain rfl := known.stored_eq ids held found
        exact ⟨rfl, (contents _ _ held).symm, rfl⟩
      · exact .rfl
  | created given read =>
      intro stored member
      rcases List.mem_append.mp member with old | new
      · exact .inl ⟨stored, old, .rfl⟩
      · rw [List.mem_singleton.mp new]
        exact .inr ⟨_, read, rfl, rfl⟩

theorem Run.holds (run : Run unicode options index entries before reports after)
    (known : Known options.userId before) (contents : Contents before)
    (ids : (before.items.map Item.id).Nodup) :
    ∀ stored ∈ after.items, (∃ old ∈ before.items, old.Keeps stored) ∨
      ∃ entry ∈ entries, ∃ item, readEntry unicode options entry = .ok item ∧
        stored.Holds unicode item := by
  induction run with
  | nil => exact fun stored member => .inl ⟨stored, member, .rfl⟩
  | @cons index entry entries before middle after report reports step rest induction =>
      intro stored member
      rcases induction (known.step step) (contents.step step) (step.ids ids) stored member
        with ⟨between, betweenMember, keeps⟩ | ⟨other, later, item, read, holds⟩
      · rcases step.holds known contents ids between betweenMember with
          ⟨old, oldMember, kept⟩ | ⟨item, read, holds⟩
        · exact .inl ⟨old, oldMember, kept.trans keeps⟩
        · exact .inr ⟨entry, List.mem_cons_self, item, read, keeps.holds holds⟩
      · exact .inr ⟨other, List.mem_cons_of_mem _ later, item, read, holds⟩

/-! An identity that is known is found. -/

/-- The report of an entry whose identity is known. -/
def Report.Found (id : String) (report : Report) : Prop :=
  report = .skipped id ∨ report = .updated id

theorem Step.knows (step : Step unicode options index entry before report after)
    (mode : options.onConflict ≠ .duplicate) {key : DedupKey} {dup : Memory}
    (known : before.existing.get? key = some dup) :
    ∃ later, after.existing.get? key = some later ∧ later.id = dup.id := by
  cases step with
  | failed | skipped => exact ⟨dup, known, rfl⟩
  | updated now read held overwrite found =>
      simp only [Dict.get?_set]
      split
      · rename_i same
        rw [same, held] at known
        obtain rfl := Option.some.inj known
        exact ⟨_, rfl, (Space.mem_of_find found).2⟩
      · exact ⟨dup, known, rfl⟩
  | created given read unknown =>
      simp only [Dict.get?_set]
      split
      · rename_i same
        rw [same, unknown mode] at known
        cases known
      · exact ⟨dup, known, rfl⟩

theorem Step.found (step : Step unicode options index entry before report after)
    (mode : options.onConflict ≠ .duplicate) {item : ImportItem} {dup : Memory}
    (read : readEntry unicode options entry = .ok item)
    (known : before.existing.get? (dedupKey unicode item.content item.scope) = some dup) :
    report.Found dup.id := by
  cases step with
  | failed refused => cases refused.symm.trans read
  | skipped same held =>
      cases same.symm.trans read
      obtain rfl := Option.some.inj (held.symm.trans known)
      exact .inl rfl
  | updated now same held =>
      cases same.symm.trans read
      obtain rfl := Option.some.inj (held.symm.trans known)
      exact .inr rfl
  | created given same unknown =>
      cases same.symm.trans read
      cases (unknown mode).symm.trans known

theorem Run.found (run : Run unicode options index entries before reports after)
    (mode : options.onConflict ≠ .duplicate) {item : ImportItem} {dup : Memory} {place : Nat}
    (at_ : entries[place]? = some entry) (read : readEntry unicode options entry = .ok item)
    (known : before.existing.get? (dedupKey unicode item.content item.scope) = some dup) :
    ∃ report, reports[place]? = some report ∧ report.Found dup.id := by
  induction run generalizing dup place with
  | nil => simp at at_
  | cons step rest induction =>
      cases place with
      | zero =>
          obtain rfl := Option.some.inj at_
          exact ⟨_, rfl, step.found mode read known⟩
      | succ place =>
          obtain ⟨later, held, same⟩ := step.knows mode known
          rw [← same]
          exact induction at_ held

end Import

/-- The entry of an index is reported skipped or updated with an id. -/
def ImportOutcome.Finds (outcome : ImportOutcome) (index : Nat) (id : String) : Prop :=
  { index, existingId := id } ∈ outcome.skipped ∨
    { id, index, action := .updated } ∈ outcome.imported

open Import

theorem ImportOutcome.finds_reports {outcome : ImportOutcome} {reports : List Report}
    {place : Nat} {report : Report} {id : String} (at_ : reports[place]? = some report)
    (found : report.Found id) : (outcome.reports 0 reports).Finds place id := by
  rw [ImportOutcome.reports_eq]
  rcases found with rfl | rfl
  · refine .inl (List.mem_append_right _ (mem_listed.mpr ⟨place, _, at_, ?_⟩))
    rw [Nat.zero_add]
    rfl
  · refine .inr (List.mem_append_right _ (mem_listed.mpr ⟨place, _, at_, ?_⟩))
    rw [Nat.zero_add]
    rfl

/-! A whole import. -/

section Imports

variable {unicode : Unicode} {options : ImportOptions} {fresh : FreshIds} {asked : Nat}
  {entries : List (Dict String Json)} {limit : Nat} {items : List Item}

theorem Space.import_holds (stands : Space.Stands fresh asked items) :
    ∀ stored ∈ (Fallible.exec (Space.store unicode).machine fresh.supply
        (importPayload unicode options entries limit) asked items).2.2,
      (∃ old ∈ items, old.Keeps stored) ∨
        ∃ entry ∈ entries, ∃ item, readEntry unicode options entry = .ok item ∧
          stored.Holds unicode item := by
  obtain ⟨count, reports, after, run, left, -⟩ :=
    @importPayload_reaches unicode options fresh asked items entries limit stands
  intro stored member
  rw [left] at member
  rcases run.holds (known_start stands.ids limit) (contents_start limit items) stands.ids
    stored member with kept | ⟨entry, within, rest⟩
  · exact .inl kept
  · exact .inr ⟨entry, List.take_subset _ _ within, rest⟩

/-- A complete read finds every stored memory by its content and scope. -/
theorem Space.import_finds (stands : Space.Stands fresh asked items)
    (mode : options.onConflict ≠ .duplicate) {outcome : ImportOutcome}
    (returned : (Fallible.exec (Space.store unicode).machine fresh.supply
      (importPayload unicode options entries limit) asked items).1 = .ok outcome)
    (complete : outcome.dedupIncomplete = false) {stored : Item} (member : stored ∈ items)
    {place : Nat} {entry : Dict String Json} {item : ImportItem}
    (at_ : entries[place]? = some entry) (read : readEntry unicode options entry = .ok item)
    (concrete : Concrete item.scope) (content : item.content = stored.content)
    (scope : (scopeAsText unicode (item.scope.getD ∅)).Same stored.scope) :
    ∃ found ∈ items, found.content = stored.content ∧ found.scope.Same stored.scope ∧
      outcome.Finds place found.id := by
  obtain ⟨count, reports, after, run, -, ends⟩ :=
    @importPayload_reaches unicode options fresh asked items entries limit stands
  obtain ⟨all, rfl⟩ := ends outcome returned
  rw [all] at run
  have whole : items.length ≤ limit := by
    rw [ImportOutcome.reports_eq] at complete
    exact whole_of_complete mode complete
  have key : dedupKey unicode item.content item.scope = stored.identity unicode := by
    rw [Item.identity_eq, dedupKey, scopeKey_of_concrete concrete, content,
      textKey_eq_iff.mpr scope]
  obtain ⟨found, last⟩ : ∃ found, (items.filter fun item =>
      item.identity unicode = stored.identity unicode).getLast? = some found := by
    rw [← Option.isSome_iff_exists, List.getLast?_isSome]
    intro none
    have absent := List.filter_eq_nil_iff.mp none stored member
    simp at absent
  obtain ⟨foundMember, identity⟩ := List.mem_filter.mp (List.mem_of_getLast? last)
  obtain ⟨sameContent, sameScope⟩ := Item.identity_eq_iff.mp (of_decide_eq_true identity)
  have known : (start unicode options limit items).existing.get?
      (dedupKey unicode item.content item.scope) =
        some (found.memory options.userId none) := by
    rw [key]
    exact (exact_start mode whole _).trans (congrArg (Option.map _) last)
  obtain ⟨report, reported, isFound⟩ := run.found mode at_ read known
  exact ⟨found, foundMember, sameContent, sameScope,
    ImportOutcome.finds_reports reported isFound⟩

end Imports

end Memcp
