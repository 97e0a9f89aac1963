import Memcp.Policy.Identities

/-!
Imports that skip what is known.  Such an import stores only memories of new
identities, and its entries are all settled afterwards: a batch of settled
entries changes nothing.
-/

namespace Memcp

open Python Interaction

/-- A memory that is in `after` and not in `before` shares its content and the
text of its scope with no other memory. -/
def Space.Undoubled (before after : List Item) : Prop :=
  ∀ item ∈ after, (∀ old ∈ before, old.id ≠ item.id) →
    ∀ other ∈ after, other.content = item.content → other.scope.Same item.scope →
      other = item

theorem Space.undoubled_self (items : List Item) : Space.Undoubled items items :=
  fun item member fresh => absurd rfl (fresh item member)

namespace Import

variable {unicode : Unicode} {options : ImportOptions} {index : Nat}
  {entry : Dict String Json} {entries : List (Dict String Json)}
  {before after : Progress} {report : Report} {reports : List Report}
  {origin items : List Item}

/-! New memories. -/

theorem Exact.unknown {userId : String} {progress : Progress} {key : DedupKey}
    (exact : Exact unicode userId progress)
    (unknown : progress.existing.get? key = none) :
    ∀ item ∈ progress.items, item.identity unicode ≠ key := by
  intro item member same
  rw [exact key, Option.map_eq_none_iff, List.getLast?_eq_none_iff] at unknown
  have found : item ∈ progress.items.filter fun item => item.identity unicode = key :=
    List.mem_filter.mpr ⟨member, decide_eq_true same⟩
  rw [unknown] at found
  cases found

theorem Step.undoubled (step : Step unicode options index entry before report after)
    (mode : options.onConflict = .skip)
    (exact : Exact unicode options.userId before)
    (concrete : ∀ item, readEntry unicode options entry = .ok item →
      Concrete item.scope)
    (holds : Space.Undoubled origin before.items) :
    Space.Undoubled origin after.items := by
  cases step with
  | failed | skipped => exact holds
  | updated now read known overwrite => rw [mode] at overwrite; cases overwrite
  | @created item given read unknown flat unused =>
      have skips : options.onConflict ≠ .duplicate := by rw [mode]; exact nofun
      have identity := @identity_created unicode options index item (concrete item read)
        given
      have apart : ∀ other ∈ before.items,
          other.identity unicode ≠
            (Import.created unicode options index item given).identity unicode := by
        rw [identity]
        exact exact.unknown (unknown skips)
      intro stored member isNew other otherMember content scope
      have same : other.identity unicode = stored.identity unicode :=
        Item.identity_eq_iff.mpr ⟨content, scope⟩
      rcases List.mem_append.mp member with old | new
      · rcases List.mem_append.mp otherMember with otherOld | otherNew
        · exact holds stored old isNew other otherOld content scope
        · rw [List.mem_singleton.mp otherNew] at same
          exact absurd same.symm (apart stored old)
      · rcases List.mem_append.mp otherMember with otherOld | otherNew
        · rw [List.mem_singleton.mp new] at same
          exact absurd same (apart other otherOld)
        · rw [List.mem_singleton.mp new, List.mem_singleton.mp otherNew]

/-! Settled entries. -/

/-- The message an entry is refused with. -/
def refusal (unicode : Unicode) (options : ImportOptions)
    (entry : Dict String Json) : Option String :=
  match readEntry unicode options entry with
  | .error (.valueError message) => some message
  | _ => none

/-- An entry is refused, or a memory of its identity is stored. -/
def Settled (unicode : Unicode) (options : ImportOptions) (items : List Item)
    (entry : Dict String Json) : Prop :=
  (∃ message, readEntry unicode options entry = .error (.valueError message)) ∨
    ∃ item, readEntry unicode options entry = .ok item ∧
      ∃ stored ∈ items,
        stored.identity unicode = dedupKey unicode item.content item.scope

theorem Settled.mono {more : List Item} (settled : Settled unicode options items entry)
    (subset : items ⊆ more) : Settled unicode options more entry := by
  rcases settled with refused | ⟨item, read, stored, member, identity⟩
  · exact .inl refused
  · exact .inr ⟨item, read, stored, subset member, identity⟩

theorem readEntry_congr {other : ImportOptions}
    (same : options.scopeValidator = other.scopeValidator) (entry : Dict String Json) :
    readEntry unicode options entry = readEntry unicode other entry := by
  unfold readEntry
  rw [same]

theorem Settled.congr {other : ImportOptions}
    (settled : Settled unicode options items entry)
    (same : options.scopeValidator = other.scopeValidator) :
    Settled unicode other items entry := by
  unfold Settled at settled ⊢
  rwa [readEntry_congr same] at settled

theorem refusal_congr {other : ImportOptions}
    (same : options.scopeValidator = other.scopeValidator) (entry : Dict String Json) :
    refusal unicode options entry = refusal unicode other entry := by
  unfold refusal
  rw [readEntry_congr same]

/-- The failure a report lists. -/
def Report.failure? : Report → Option String
  | .failed message => some message
  | .skipped _ | .updated _ | .created _ => none

theorem Step.failure (step : Step unicode options index entry before report after) :
    report.failure? = refusal unicode options entry := by
  unfold refusal
  cases step with
  | failed read | skipped read | updated now read | created given read =>
      rw [read]
      rfl

theorem Run.failures (run : Run unicode options index entries before reports after) :
    reports.map Report.failure? = entries.map (refusal unicode options) := by
  induction run with
  | nil => rfl
  | cons step rest induction => rw [List.map_cons, List.map_cons, step.failure, induction]

/-- A memory stored for an entry of a batch. -/
def StoredFor (unicode : Unicode) (options : ImportOptions)
    (entries : List (Dict String Json)) (stored : Item) : Prop :=
  ∃ entry ∈ entries, ∃ index item given,
    readEntry unicode options entry = .ok item ∧
      stored = Import.created unicode options index item given

theorem StoredFor.mono {more : List (Dict String Json)} {stored : Item}
    (storedFor : StoredFor unicode options entries stored) (subset : entries ⊆ more) :
    StoredFor unicode options more stored := by
  obtain ⟨entry, member, rest⟩ := storedFor
  exact ⟨entry, subset member, rest⟩

/-- An import that skips only adds memories, each for an entry. -/
theorem Run.grows (run : Run unicode options index entries before reports after)
    (mode : options.onConflict = .skip) :
    ∃ added, after.items = before.items ++ added ∧
      ∀ stored ∈ added, StoredFor unicode options entries stored := by
  induction run with
  | nil progress => exact ⟨[], (List.append_nil _).symm, nofun⟩
  | @cons index entry entries before middle after report reports step rest induction =>
      obtain ⟨added, same, stored⟩ := induction
      have later : ∀ item ∈ added, StoredFor unicode options (entry :: entries) item :=
        fun item member => (stored item member).mono (List.subset_cons_self _ _)
      cases step with
      | failed | skipped => exact ⟨added, same, later⟩
      | updated now read known overwrite => rw [mode] at overwrite; cases overwrite
      | @created item given read =>
          refine ⟨Import.created unicode options index item given :: added, ?_, ?_⟩
          · rw [same, List.append_assoc]
            rfl
          · exact List.forall_mem_cons.mpr
              ⟨⟨entry, List.mem_cons_self, index, item, given, read, rfl⟩, later⟩

theorem Step.settled (step : Step unicode options index entry before report after)
    (exact : Exact unicode options.userId before)
    (mode : options.onConflict = .skip)
    (concrete : ∀ item, readEntry unicode options entry = .ok item →
      Concrete item.scope) :
    Settled unicode options after.items entry := by
  cases step with
  | failed read => exact .inl ⟨_, read⟩
  | skipped read known =>
      rw [exact] at known
      obtain ⟨stored, last, -⟩ := Option.map_eq_some_iff.mp known
      obtain ⟨member, identity⟩ := List.mem_filter.mp (List.mem_of_getLast? last)
      exact .inr ⟨_, read, stored, member, of_decide_eq_true identity⟩
  | updated now read known overwrite => rw [mode] at overwrite; cases overwrite
  | created given read =>
      exact .inr ⟨_, read, _, List.mem_append_right _ List.mem_cons_self,
        identity_created (concrete _ read) given⟩

/-- What an import that skips makes of a space it knows whole. -/
theorem Run.settles (run : Run unicode options index entries before reports after)
    (mode : options.onConflict = .skip)
    (exact : Exact unicode options.userId before)
    (ids : (before.items.map Item.id).Nodup)
    (concrete : ReadsConcrete unicode options entries)
    (holds : Space.Undoubled origin before.items) :
    Space.Undoubled origin after.items ∧
      ∀ entry ∈ entries, Settled unicode options after.items entry := by
  induction run with
  | nil => exact ⟨holds, nofun⟩
  | @cons index entry entries before middle after report reports step rest induction =>
      have first := concrete entry List.mem_cons_self
      obtain ⟨undoubled, settled⟩ := induction (exact.step ids step first)
        (step.ids ids) (fun other member => concrete other (List.mem_cons_of_mem _ member))
        (step.undoubled mode exact first holds)
      refine ⟨undoubled, fun other member => ?_⟩
      rcases List.mem_cons.mp member with rfl | later
      · obtain ⟨added, grown, -⟩ := rest.grows mode
        rw [grown]
        exact (step.settled exact mode first).mono (List.subset_append_left _ _)
      · exact settled other later

/-! A batch of settled entries. -/

/-- A report of an entry that wrote nothing. -/
def Report.IsQuiet : Report → Prop
  | .failed _ | .skipped _ => True
  | .updated _ | .created _ => False

theorem importEntries_settled {state : ImportState}
    (mode : options.onConflict = .skip)
    (exact : Exact unicode options.userId ⟨state.existing, items⟩)
    (settled : ∀ entry ∈ entries, Settled unicode options items entry) :
    ∃ reports,
      importEntries unicode options index entries state =
        pure ⟨state.existing, state.outcome.reports index reports⟩ ∧
      reports.map Report.failure? = entries.map (refusal unicode options) ∧
      ∀ report ∈ reports, report.IsQuiet := by
  induction entries generalizing index state with
  | nil => exact ⟨[], rfl, rfl, nofun⟩
  | cons entry entries induction =>
      have one : ∃ report : Report,
          importEntry unicode options index entry state =
            pure ⟨state.existing, state.outcome.report index report⟩ ∧
          report.failure? = refusal unicode options entry ∧ report.IsQuiet := by
        unfold importEntry refusal
        rcases settled entry List.mem_cons_self with
          ⟨message, read⟩ | ⟨item, read, stored, member, identity⟩
        · rw [read]
          exact ⟨.failed message, rfl, rfl, trivial⟩
        · rw [read]
          cases known : state.existing.get?
              (dedupKey unicode item.content item.scope) with
          | none => exact absurd identity (exact.unknown known stored member)
          | some dup =>
              refine ⟨.skipped dup.id, ?_, rfl, trivial⟩
              simp only [known, mode]
              rfl
      obtain ⟨report, does, failure, quiet⟩ := one
      obtain ⟨reports, rest, failures, quiets⟩ := @induction (index + 1)
        ⟨state.existing, state.outcome.report index report⟩ exact
        fun other member => settled other (List.mem_cons_of_mem _ member)
      refine ⟨report :: reports, ?_, ?_, ?_⟩
      · unfold importEntries
        rw [does]
        exact rest
      · rw [List.map_cons, List.map_cons, failure, failures]
      · exact List.forall_mem_cons.mpr ⟨quiet, quiets⟩

/-! The lists of reports. -/

theorem listed_errors_congr {index : Nat} {first second : List Report}
    (same : first.map Report.failure? = second.map Report.failure?) :
    listed Report.error? index first = listed Report.error? index second := by
  have error_eq : ∀ (index : Nat) (report : Report), report.error? index =
      report.failure?.map fun message => { index, error := message } := by
    intro index report
    cases report <;> rfl
  induction first generalizing index second with
  | nil =>
      rw [List.map_nil] at same
      rw [List.map_eq_nil_iff.mp same.symm]
  | cons report first induction =>
      cases second with
      | nil => cases same
      | cons other second =>
          simp only [List.map_cons, List.cons.injEq] at same
          rw [listed, listed, error_eq, error_eq, same.1, induction same.2]

theorem listed_errors_of_none {index : Nat}
    (none : ∀ report ∈ reports, report.failure? = none) :
    listed Report.error? index reports = [] := by
  apply List.eq_nil_iff_forall_not_mem.mpr
  intro refused member
  obtain ⟨place, report, found, same⟩ := mem_listed.mp member
  have silent := none report (List.mem_of_getElem? found)
  cases report with
  | failed => cases silent
  | _ => cases same

theorem listed_imported_of_quiet {index : Nat} (quiet : ∀ report ∈ reports, report.IsQuiet) :
    listed Report.imported? index reports = [] := by
  apply List.eq_nil_iff_forall_not_mem.mpr
  intro written member
  obtain ⟨place, report, found, same⟩ := mem_listed.mp member
  have silent := quiet report (List.mem_of_getElem? found)
  cases report with
  | failed | skipped => cases same
  | updated | created => exact silent

theorem listed_skipped_of_quiet {index : Nat}
    (quiet : ∀ report ∈ reports, report.IsQuiet) :
    (listed Report.skipped? index reports).map Skipped.index =
      (List.range' index reports.length).filter fun place =>
        place ∉ (listed Report.error? index reports).map ImportError.index := by
  induction reports generalizing index with
  | nil => rfl
  | cons report reports induction =>
      have rest := @induction (index + 1) fun report member =>
        quiet report (List.mem_cons_of_mem _ member)
      have later : ∀ place ∈ (listed Report.error? (index + 1) reports).map
          ImportError.index, index < place := by
        intro place member
        obtain ⟨refused, listed, rfl⟩ := List.mem_map.mp member
        obtain ⟨offset, report, -, same⟩ := mem_listed.mp listed
        cases report with
        | failed message => cases same; exact Nat.lt_of_lt_of_le (Nat.lt_succ_self _) (by simp)
        | _ => cases same
      cases report with
      | failed message =>
          simp only [listed, Report.skipped?, Report.error?, Option.toList_none,
            Option.toList_some, List.nil_append, List.singleton_append, List.map_cons, rest,
            List.length_cons, List.range'_succ, List.mem_cons, true_or, not_true_eq_false,
            decide_false, Bool.false_eq_true, not_false_eq_true, List.filter_cons_of_neg]
          refine List.filter_congr fun place member => ?_
          have above := (List.mem_range'_1.mp member).1
          have apart : place ≠ index := by omega
          simp [apart]
      | skipped id =>
          have absent : index ∉ (listed Report.error? (index + 1) reports).map
              ImportError.index := fun member => Nat.lt_irrefl _ (later index member)
          simp only [listed, Report.skipped?, Report.error?, Option.toList_none,
            Option.toList_some, List.nil_append, List.singleton_append, List.map_cons, rest,
            List.length_cons, List.range'_succ, absent, not_false_eq_true, decide_true,
            List.filter_cons_of_pos]
          rfl
      | updated | created => exact (quiet _ List.mem_cons_self).elim

theorem length_listed (index : Nat) (reports : List Report) :
    (listed Report.imported? index reports).length +
        (listed Report.skipped? index reports).length +
      (listed Report.error? index reports).length = reports.length := by
  induction reports generalizing index with
  | nil => rfl
  | cons report reports induction =>
      have rest := induction (index + 1)
      cases report <;>
        simp only [listed, Report.imported?, Report.skipped?, Report.error?,
          Option.toList_some, Option.toList_none, List.length_append, List.length_cons,
          List.length_nil] <;> omega

/-! Whole imports. -/

/-- What an import that skips leaves of a space it reads whole. -/
structure Settles (unicode : Unicode) (options : ImportOptions)
    (entries : List (Dict String Json)) (items later : List Item)
    (outcome : ImportOutcome) : Prop where
  undoubled : Space.Undoubled items later
  settled : ∀ entry ∈ entries, Settled unicode options later entry
  passing : Passing options.userId later
  added : ∃ added, later = items ++ added ∧
    ∀ stored ∈ added, StoredFor unicode options entries stored
  errors : ∃ reports, outcome.errors = listed Report.error? 0 reports ∧
    reports.map Report.failure? = entries.map (refusal unicode options)

theorem import_settles {fresh : FreshIds} {asked asked' limit : Nat}
    {later : List Item} {outcome : ImportOutcome}
    (mode : options.onConflict = .skip) (stamped : Stamped options)
    (concrete : ReadsConcrete unicode options entries)
    (stands : Space.Stands fresh asked items)
    (ran : Fallible.exec (Space.store unicode).machine fresh.supply
      (importPayload unicode options entries limit) asked items =
        (.ok outcome, asked', later))
    (complete : outcome.dedupIncomplete = false) :
    Settles unicode options entries items later outcome := by
  have skips : options.onConflict ≠ .duplicate := by rw [mode]; exact nofun
  have imports := @importPayload_exec unicode options fresh asked items entries limit
    stands stamped
  rw [ran] at imports
  cases imports with
  | @ran reports after asked' read run grows standsLater =>
      have whole : items.length ≤ limit := by
        rw [ImportOutcome.reports_eq] at complete
        simpa [unread, skips] using complete
      have exact : Exact unicode options.userId (start unicode options limit items) :=
        exact_start skips whole
      have known : Known options.userId (start unicode options limit items) :=
        known_start stands.ids limit
      obtain ⟨undoubled, settled⟩ := run.settles mode exact stands.ids concrete
        (Space.undoubled_self items)
      refine ⟨undoubled, settled, ?_, run.grows mode, reports, ?_, run.failures⟩
      · exact Passing.run stamped (passing_of_readable skips whole read) known
          stands.ids run
      · rw [ImportOutcome.reports_eq]
        rfl

/-- A batch of settled entries, imported again, is refused or skipped. -/
theorem import_settled {supply : Nat → Fresh} {asked limit : Nat}
    (mode : options.onConflict = .skip)
    (settled : ∀ entry ∈ entries, Settled unicode options items entry)
    (passing : Passing options.userId items) (whole : items.length ≤ limit) :
    ∃ reports asked',
      Fallible.exec (Space.store unicode).machine supply
          (importPayload unicode options entries limit) asked items =
        (.ok (({} : ImportOutcome).reports 0 reports), asked', items) ∧
      reports.map Report.failure? = entries.map (refusal unicode options) ∧
      ∀ report ∈ reports, report.IsQuiet := by
  have skips : options.onConflict ≠ .duplicate := by rw [mode]; exact nofun
  obtain ⟨count, -, begun⟩ := @importPayload_start unicode options asked items
    supply limit
  have flag : unread options limit items = {} := by
    simp [unread, Nat.not_lt_of_le whole]
  obtain ⟨reports, does, failures, quiet⟩ := @importEntries_settled unicode options 0
    entries items ⟨(start unicode options limit items).existing, {}⟩ mode
    (exact_start skips whole) settled
  refine ⟨reports, count, ?_, failures, quiet⟩
  rw [begun, readable_of_passing limit passing, flag]
  simp only [does]
  rfl

theorem import_complete {fresh : FreshIds} {asked limit : Nat}
    {outcome : ImportOutcome} (skips : options.onConflict ≠ .duplicate)
    (stands : Space.Stands fresh asked items) (stamped : Stamped options)
    (returned : (Fallible.exec (Space.store unicode).machine fresh.supply
      (importPayload unicode options entries limit) asked items).1 = .ok outcome)
    (complete : outcome.dedupIncomplete = false) : items.length ≤ limit := by
  have imports := @importPayload_exec unicode options fresh asked items entries limit
    stands stamped
  generalize Fallible.exec (Space.store unicode).machine fresh.supply
    (importPayload unicode options entries limit) asked items = ran at returned imports
  cases imports with
  | unreadable | halted => cases returned
  | ran read run grows standsLater =>
      cases returned
      rw [ImportOutcome.reports_eq] at complete
      exact whole_of_complete skips complete

end Import

end Memcp
