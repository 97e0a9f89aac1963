import Memcp.Policy.Migrating
import Memcp.Policy.Repeats

/-!
Importing with skip, by `Policy.import_memories` and by `migrate`: no memory it
creates doubles another, and the same call made again writes nothing.
-/

namespace Memcp

open Python Interaction Import

variable {unicode : Unicode} {fresh : FreshIds} {asked : Nat}

/-- The outcome of a batch of `count` entries that writes nothing and refuses
the entries an earlier outcome lists. -/
structure ImportOutcome.Repeats (again outcome : ImportOutcome) (count : Nat) : Prop where
  imported : again.imported = []
  errors : again.errors = outcome.errors
  skipped : again.skipped.map Skipped.index =
    (List.range count).filter fun index =>
      index ∉ again.errors.map ImportError.index

section Policy

variable {key : Key} {items : List Item} {entries : List (Dict String Json)}

/-- The reports of a settled batch, next to those of an earlier run of it. -/
theorem ImportOutcome.repeats {options : ImportOptions} {outcome : ImportOutcome}
    {reports : List Report} {later : List Item}
    (settles : Settles unicode options entries items later outcome)
    (failures : reports.map Report.failure? = entries.map (refusal unicode options))
    (quiet : ∀ report ∈ reports, report.IsQuiet) :
    (({} : ImportOutcome).reports 0 reports).Repeats outcome entries.length := by
  obtain ⟨earlier, errors, same⟩ := settles.errors
  have length : reports.length = entries.length := by
    simpa using congrArg List.length failures
  rw [ImportOutcome.reports_eq]
  refine ⟨listed_imported_of_quiet quiet, ?_, ?_⟩
  · exact (listed_errors_congr (failures.trans same.symm)).trans errors.symm
  · rw [← length, List.range_eq_range']
    exact listed_skipped_of_quiet quiet

theorem Space.skip_import (stands : Space.Stands fresh asked items)
    {outcome : ImportOutcome}
    (returned : ((Space.store unicode).request unicode fresh.supply key
      (.importMemories entries "skip") asked items).1 = .ok (.imported outcome))
    (complete : outcome.dedupIncomplete = false) :
    let first := (Space.store unicode).request unicode fresh.supply key
      (.importMemories entries "skip") asked items
    let again := (Space.store unicode).request unicode fresh.supply key
      (.importMemories entries "skip") first.2.1 first.2.2
    Space.Undoubled items first.2.2 ∧
      (first.2.2.length ≤ maxExport → ∃ outcome',
        again.1 = .ok (.imported outcome') ∧ outcome'.dedupIncomplete = false) ∧
      ∀ outcome', again.1 = .ok (.imported outcome') →
        outcome'.dedupIncomplete = false →
          again.2.2 = first.2.2 ∧ outcome'.Repeats outcome entries.length := by
  intro first again
  have writer := Space.writer_of_returned rfl returned
  obtain ⟨mode, _, _, checked, -⟩ := Space.import_returned stands returned
  obtain ⟨-, -, named⟩ := checkImportArguments_eq_ok.mp checked
  obtain rfl : OnConflict.skip = mode := Option.some.inj named
  let options := (localPolicy unicode).importOptions key .skip
  have request := @Space.import_request unicode key fresh asked items .skip "skip" entries
    writer checked
  generalize ran : Fallible.exec (Space.store unicode).machine fresh.supply
    (importPayload unicode options entries maxExport) asked items = imported at request
  obtain ⟨reply, count, later⟩ := imported
  have firstEq : first = (reply.map .imported, count + 1, later) := request
  obtain rfl : reply = .ok outcome := by
    have same : reply.map Response.imported = .ok (.imported outcome) :=
      (congrArg Prod.fst firstEq).symm.trans returned
    obtain ⟨held, rfl, same⟩ := map_eq_ok.mp same
    cases same
    rfl
  have settles : Settles unicode options entries items later outcome :=
    import_settles rfl (stamped key .skip) (readsConcrete_policy unicode key .skip entries)
      stands ran complete
  have standsLater : Space.Stands fresh (count + 1) later := by
    have comes := @Space.request_comes unicode key fresh asked items stands
      (.importMemories entries "skip")
    have stood := comes.2.2
    rw [show (Space.store unicode).request unicode fresh.supply key
      (.importMemories entries "skip") asked items = _ from firstEq] at stood
    exact stood
  have repeated := @Space.import_request unicode key fresh (count + 1) later .skip "skip"
    entries writer checked
  let second := Fallible.exec (Space.store unicode).machine fresh.supply
    (importPayload unicode options entries maxExport) (count + 1) later
  have againEq : again = (second.1.map .imported, second.2.1 + 1, second.2.2) := by
    simp only [again, firstEq]
    exact repeated
  rw [againEq, firstEq]
  refine ⟨settles.undoubled, fun whole => ?_, fun outcome' returned' complete' => ?_⟩
  · obtain ⟨reports, count', settled, -⟩ := @import_settled unicode options entries later
      fresh.supply (count + 1) maxExport rfl settles.settled settles.passing whole
    refine ⟨_, congrArg (fun ran => ran.1.map Response.imported) settled, ?_⟩
    rw [ImportOutcome.reports_eq]
  · obtain ⟨held, ran', same⟩ := map_eq_ok.mp returned'
    cases same
    have skips : options.onConflict ≠ .duplicate := by
      simp [options, Policy.importOptions]
    have whole : later.length ≤ maxExport :=
      import_complete skips standsLater (stamped key .skip) ran' complete'
    obtain ⟨reports, count', settled, failures, quiet⟩ := @import_settled unicode options
      entries later fresh.supply (count + 1) maxExport rfl settles.settled
      settles.passing whole
    have secondEq : second = _ := settled
    rw [secondEq] at ran' ⊢
    cases ran'
    exact ⟨rfl, ImportOutcome.repeats settles failures quiet⟩

end Policy

/-! Migrations. -/

/-- What a migration relies on of an operator's scope validator: the scopes it
returns hold no null value and, when the partition is copied onto itself, it
returns the text of such a scope with the same text. -/
structure Migration.Steady (unicode : Unicode) (onto : Prop) (migration : Migration) :
    Prop where
  concrete : ∀ validate, migration.scopeValidator = some validate →
    ∀ stored scope, validate (.ofDict (textScope stored)) = .ok scope → Concrete scope
  settled : onto → ∀ validate, migration.scopeValidator = some validate →
    ∀ stored scope, validate (.ofDict (textScope stored)) = .ok scope →
      ∃ again, validate (.ofDict (storedScope unicode (scope.getD ∅))) = .ok again ∧
        scopeKey unicode again = scopeKey unicode scope

theorem Migration.steady_none {unicode : Unicode} {onto : Prop} {migration : Migration}
    (none : migration.scopeValidator = none) : migration.Steady unicode onto where
  concrete := by rw [none]; exact nofun
  settled _ := by rw [none]; exact nofun

namespace Migration

variable {migration : Migration} {mode : OnConflict} {onto : Prop} {items later : List Item}

theorem stamped (memories : List Memory) :
    Stamped (migration.importOptions mode memories) :=
  ⟨_, rfl, fun _ _ => by simp [copySystem, System.spaceIs, importOptions]⟩

theorem mem_entries {entry : Dict String Json}
    (member : entry ∈ entries (migration.read items)) :
    ∃ item ∈ items, entry = migration.wire item := by
  rw [entries_read] at member
  obtain ⟨item, taken, rfl⟩ := List.mem_map.mp member
  exact ⟨item, List.mem_of_mem_take taken, rfl⟩

theorem Steady.concrete_of_reads (steady : migration.Steady unicode onto) {item : Item}
    {scope : Option (Dict String Json)} (reads : migration.ReadsScope item scope) :
    Concrete scope := by
  unfold ReadsScope at reads
  cases given : migration.scopeValidator with
  | some validate =>
      rw [given] at reads
      exact steady.concrete validate given _ _ reads
  | none =>
      rw [given] at reads
      simp only at reads
      rw [reads]
      exact concrete_textScope item.scope

theorem Steady.readsConcrete (steady : migration.Steady unicode onto)
    (memories : List Memory) :
    ReadsConcrete unicode (migration.importOptions mode memories)
      (entries (migration.read items)) := by
  intro entry member read held
  obtain ⟨item, -, same⟩ := mem_entries member
  rw [same] at held
  exact steady.concrete_of_reads (readsScope_of_read held)

theorem Steady.reads_stored (steady : migration.Steady unicode onto) (copied : onto)
    {memories again : List Memory} {stored : Item}
    (storedFor : StoredFor unicode (migration.importOptions mode memories)
      (entries (migration.read items)) stored) :
    ∃ read, readEntry unicode (migration.importOptions mode again)
        (migration.wire stored) = .ok read ∧
      dedupKey unicode read.content read.scope = stored.identity unicode := by
  obtain ⟨entry, member, index, item, given, held, rfl⟩ := storedFor
  obtain ⟨original, -, same⟩ := mem_entries member
  rw [same] at held
  have reads := readsScope_of_read held
  obtain ⟨content, metadata, -⟩ := readEntry_parts held
  have accepted := readMetadata_eq_ok metadata
  let stored := created unicode (migration.importOptions mode memories) index item given
  have validMetadata : validateMetadata unicode stored.metadata false = .ok () ∧
      checkMetadataSize stored.metadata none = .ok () := by
    change validateMetadata unicode (item.metadata.getD ∅) false = .ok () ∧
      checkMetadataSize (item.metadata.getD ∅) none = .ok ()
    cases held : item.metadata with
    | none => exact ⟨rfl, by decide⟩
    | some metadata => exact accepted metadata held
  have rescoped : ∃ scope, migration.ReadsScope stored scope ∧
      scopeKey unicode scope = textKey stored.scope := by
    have concrete := steady.concrete_of_reads reads
    have key : scopeKey unicode item.scope = textKey stored.scope :=
      scopeKey_of_concrete concrete
    unfold ReadsScope at reads ⊢
    cases validator : migration.scopeValidator with
    | some validate =>
        rw [validator] at reads
        obtain ⟨scope, returned, same⟩ := steady.settled copied validate validator _ _ reads
        exact ⟨scope, returned, same.trans key⟩
    | none => exact ⟨_, rfl, scopeKey_textScope unicode stored.scope⟩
  obtain ⟨scope, readsScope, same⟩ := rescoped
  have read := @readEntry_wire unicode migration mode again stored scope
    (readContent_eq_ok content) validMetadata.1 validMetadata.2 readsScope
  refine ⟨_, read, ?_⟩
  rw [Item.identity_eq]
  exact congrArg _ same

end Migration

/-- The report of a migration that writes nothing and refuses the entries an
earlier report lists. -/
structure MigrationReport.Repeats (again report : MigrationReport) : Prop where
  imported : again.imported = 0
  errors : again.errors = report.errors
  skipped : again.skipped + again.errors.length = again.exported

namespace LocalBackends

variable {ι : Type} [DecidableEq ι] {backends : LocalBackends ι} {place : Side → ι}
  {state : backends.State unicode} {canRecord : Bool} {migration : Migration}

/-- What a migration that returns did. -/
theorem Moves.returned {supply : Nat → Fresh} {spaces later : ι → Spaces}
    {report : MigrationReport}
    (moves : Moves unicode place supply canRecord migration asked spaces (.ok report) later) :
    let source := spaces (place .source) migration.partition
    ∃ mode outcome left count count', asked ≤ count ∧
      migration.Accepted canRecord mode ∧ migration.Readable source ∧
      migration.imports unicode mode supply source count
        (spaces (place .target) migration.landing) = (.ok outcome, count', left) ∧
      report = migration.report (migration.read source)
        (decide (migration.limit < source.length)) outcome ∧
      later = Function.update spaces (place .target)
        (Function.update (spaces (place .target)) migration.landing left) := by
  generalize same : (Except.ok report : Except Exc MigrationReport) = reply at moves
  cases moves with
  | refused | unreadable => cases same
  | imported count count' grows accepted read ran =>
      obtain ⟨outcome, rfl, rfl⟩ := map_eq_ok.mp same.symm
      exact ⟨_, outcome, _, count, count', grows, accepted, read, ran, rfl, rfl⟩

/-- The entries of the same migration made again are settled, and refused as
they were. -/
theorem settled_again {mode : OnConflict} {spaces later : ι → Spaces}
    {outcome : ImportOutcome} {left : List Item}
    (steady : migration.Steady unicode
      (place .source = place .target ∧ migration.partition = migration.landing))
    (whole : left.length ≤ migration.limit)
    (settles : Settles unicode (migration.importOptions mode
        (migration.read (spaces (place .source) migration.partition)))
      (Migration.entries (migration.read (spaces (place .source) migration.partition)))
      (spaces (place .target) migration.landing) left outcome)
    (leaves : later = Function.update spaces (place .target)
      (Function.update (spaces (place .target)) migration.landing left)) :
    let again := migration.read (later (place .source) migration.partition)
    (∀ entry ∈ Migration.entries again,
        Settled unicode (migration.importOptions mode again) left entry) ∧
      ∀ reports : List Report, reports.map Report.failure? =
          (Migration.entries again).map
            (refusal unicode (migration.importOptions mode again)) →
        listed Report.error? 0 reports = outcome.errors := by
  intro again
  let before := migration.read (spaces (place .source) migration.partition)
  have validator : (migration.importOptions mode before).scopeValidator =
      (migration.importOptions mode again).scopeValidator := rfl
  obtain ⟨earlier, errors, failures⟩ := settles.errors
  by_cases onto : place .source = place .target ∧ migration.partition = migration.landing
  · obtain ⟨added, grown, stored⟩ := settles.added
    have source : spaces (place .source) migration.partition =
        spaces (place .target) migration.landing := by rw [onto.1, onto.2]
    have landed : later (place .source) migration.partition = left := by
      rw [leaves, onto.1, onto.2, Function.update_self, Function.update_self]
    have short : (spaces (place .source) migration.partition).length ≤ migration.limit := by
      rw [source]
      refine Nat.le_trans ?_ whole
      rw [grown, List.length_append]
      exact Nat.le_add_right _ _
    have entries_before : Migration.entries before =
        (spaces (place .source) migration.partition).map migration.wire := by
      rw [migration.entries_read, List.take_of_length_le short]
    have entries_again : Migration.entries again =
        Migration.entries before ++ added.map migration.wire := by
      rw [entries_before, migration.entries_read, landed, List.take_of_length_le whole,
        grown, List.map_append, source]
    have readsAgain : ∀ item ∈ added, ∃ read, readEntry unicode
        (migration.importOptions mode again) (migration.wire item) = .ok read ∧
          dedupKey unicode read.content read.scope = item.identity unicode :=
      fun item member => steady.reads_stored onto (stored item member)
    refine ⟨fun entry member => ?_, fun reports same => ?_⟩
    · rw [entries_again] at member
      rcases List.mem_append.mp member with old | new
      · exact (settles.settled entry old).congr validator
      · obtain ⟨item, found, rfl⟩ := List.mem_map.mp new
        obtain ⟨read, held, identity⟩ := readsAgain item found
        refine .inr ⟨read, held, item, ?_, identity.symm⟩
        rw [grown]
        exact List.mem_append_right _ found
    · -- The memories stored by the first call are read again without an error.
      let silent : List Report := added.map fun _ => .skipped ""
      have none : (added.map migration.wire).map
          (refusal unicode (migration.importOptions mode again)) =
            silent.map Report.failure? := by
        rw [List.map_map, List.map_map]
        refine List.map_congr_left fun item member => ?_
        obtain ⟨read, held, -⟩ := readsAgain item member
        simp only [Function.comp_apply, refusal, held, Report.failure?]
      have first : (Migration.entries before).map
          (refusal unicode (migration.importOptions mode again)) =
            earlier.map Report.failure? := by
        rw [failures]
        exact List.map_congr_left fun entry _ => (refusal_congr validator entry).symm
      rw [entries_again, List.map_append, none, first, ← List.map_append] at same
      rw [listed_errors_congr same, listed_append, errors,
        @listed_errors_of_none silent _ (by simp [silent, Report.failure?]), List.append_nil]
  · have source : later (place .source) migration.partition =
        spaces (place .source) migration.partition := by
      rw [leaves]
      rcases eq_or_ne (place .source) (place .target) with same | differ
      · have apart : migration.partition ≠ migration.landing := fun equal =>
          onto ⟨same, equal⟩
        rw [same, Function.update_self, Function.update_of_ne apart]
      · rw [Function.update_of_ne differ]
    have again_eq : again = before := congrArg migration.read source
    rw [again_eq]
    refine ⟨settles.settled, fun reports same => ?_⟩
    rw [errors]
    exact listed_errors_congr (same.trans failures.symm)

theorem readable_again {spaces later : ι → Spaces} {left : List Item}
    (readable : migration.Readable (spaces (place .source) migration.partition))
    (passing : Passing migration.landing left)
    (leaves : later = Function.update spaces (place .target)
      (Function.update (spaces (place .target)) migration.landing left)) :
    migration.Readable (later (place .source) migration.partition) := by
  rw [leaves]
  rcases eq_or_ne (place .source) (place .target) with same | differ
  · rw [same] at readable ⊢
    rw [Function.update_self]
    rcases eq_or_ne migration.partition migration.landing with equal | apart
    · intro item member
      rw [equal, Function.update_self] at member
      rw [equal]
      exact passing item (List.mem_of_mem_take member)
    · rw [Function.update_of_ne apart]
      exact readable
  · rw [Function.update_of_ne differ]
    exact readable

theorem Moves.settled {supply : Nat → Fresh} {spaces after : ι → Spaces}
    {reply : Except Exc MigrationReport} {report : MigrationReport}
    (moves : Moves unicode place supply canRecord migration asked spaces reply after)
    (accepted : migration.Accepted canRecord .skip)
    (readable : migration.Readable (spaces (place .source) migration.partition))
    (whole : (spaces (place .target) migration.landing).length ≤ migration.limit)
    (passing : Passing migration.landing (spaces (place .target) migration.landing))
    (settled :
      let read := migration.read (spaces (place .source) migration.partition)
      (∀ entry ∈ Migration.entries read, Settled unicode
          (migration.importOptions .skip read)
          (spaces (place .target) migration.landing) entry) ∧
        ∀ reports : List Report, reports.map Report.failure? =
            (Migration.entries read).map
              (refusal unicode (migration.importOptions .skip read)) →
          listed Report.error? 0 reports = report.errors) :
    ∃ report', reply = .ok report' ∧ report'.dedupIncomplete = false ∧ after = spaces ∧
      report'.Repeats report := by
  cases moves with
  | refused message none => exact absurd accepted (none _)
  | unreadable error _ failed => exact absurd readable failed
  | @imported mode outcome left count count' _ accepted' read ran =>
      obtain rfl : OnConflict.skip = mode :=
        Option.some.inj (accepted.named.symm.trans accepted'.named)
      let memories := migration.read (spaces (place .source) migration.partition)
      obtain ⟨reports, asked', does, failures, quiet⟩ := @import_settled unicode
        (migration.importOptions .skip memories) (Migration.entries memories)
        (spaces (place .target) migration.landing) supply count migration.limit rfl
        settled.1 passing whole
      have alone : migration.imports unicode .skip supply
          (spaces (place .source) migration.partition) count
          (spaces (place .target) migration.landing) = _ := does
      rw [alone] at ran
      cases ran
      have length : reports.length = memories.length := by
        simpa [Migration.entries] using congrArg List.length failures
      have lists := length_listed 0 reports
      have imported := @listed_imported_of_quiet _ 0 quiet
      rw [ImportOutcome.reports_eq]
      refine ⟨_, rfl, rfl, spaces_unchanged _ _ _, ?_, ?_, ?_⟩
      · simp [Migration.report, imported]
      · simpa [Migration.report] using settled.2 reports failures
      · simp only [imported, List.length_nil, Nat.zero_add] at lists
        simpa [Migration.report] using lists.trans length

/-- A migration that skips and returns tells whether it read the target whole. -/
theorem Moves.whole {spaces after : ι → Spaces} {report : MigrationReport}
    (moves : Moves unicode place fresh.supply canRecord migration asked spaces (.ok report)
      after)
    (accepted : migration.Accepted canRecord .skip)
    (stands : Space.Stands fresh asked (spaces (place .target) migration.landing))
    (complete : report.dedupIncomplete = false) :
    (spaces (place .target) migration.landing).length ≤ migration.limit := by
  obtain ⟨mode, outcome, left, count, count', grows, accepted', -, ran, rfl, -⟩ :=
    moves.returned
  obtain rfl : OnConflict.skip = mode :=
    Option.some.inj (accepted.named.symm.trans accepted'.named)
  have skips : (migration.importOptions .skip (migration.read
      (spaces (place .source) migration.partition))).onConflict ≠ .duplicate := by
    simp [Migration.importOptions]
  exact import_complete skips (stands.later grows) (Migration.stamped _)
    (congrArg Prod.fst ran) complete

/-- What a migration that skips and returns leaves, when it read the target
whole. -/
theorem Moves.settles {spaces later : ι → Spaces} {report : MigrationReport}
    (moves : Moves unicode place fresh.supply canRecord migration asked spaces (.ok report)
      later)
    (stands : Space.Stands fresh asked (spaces (place .target) migration.landing))
    (skip : migration.onConflict = "skip")
    (steady : migration.Steady unicode
      (place .source = place .target ∧ migration.partition = migration.landing))
    (complete : report.dedupIncomplete = false) :
    ∃ outcome left, migration.Accepted canRecord .skip ∧
      migration.Readable (spaces (place .source) migration.partition) ∧
      Settles unicode (migration.importOptions .skip
          (migration.read (spaces (place .source) migration.partition)))
        (Migration.entries (migration.read (spaces (place .source) migration.partition)))
        (spaces (place .target) migration.landing) left outcome ∧
      outcome.errors = report.errors ∧
      later = Function.update spaces (place .target)
        (Function.update (spaces (place .target)) migration.landing left) := by
  obtain ⟨mode, outcome, left, count, count', grows, accepted, readable, ran, rfl, leaves⟩ :=
    moves.returned
  obtain rfl : OnConflict.skip = mode := by
    have named := accepted.named
    rw [skip] at named
    exact Option.some.inj named
  have settles := import_settles rfl (Migration.stamped _) (steady.readsConcrete _)
    (stands.later grows) ran complete
  exact ⟨outcome, left, accepted, readable, settles, rfl, leaves⟩

/-- A migration that skips, and the same migration again. -/
theorem Moves.again {spaces later after : ι → Spaces} {report : MigrationReport}
    {reply : Except Exc MigrationReport} {asked' : Nat}
    (first : Moves unicode place fresh.supply canRecord migration asked spaces (.ok report)
      later)
    (again : Moves unicode place fresh.supply canRecord migration asked' later reply after)
    (stands : Space.Stands fresh asked (spaces (place .target) migration.landing))
    (standsLater : Space.Stands fresh asked' (later (place .target) migration.landing))
    (skip : migration.onConflict = "skip")
    (steady : migration.Steady unicode
      (place .source = place .target ∧ migration.partition = migration.landing))
    (complete : report.dedupIncomplete = false) :
    let landed := later (place .target) migration.landing
    Space.Undoubled (spaces (place .target) migration.landing) landed ∧
      (landed.length ≤ migration.limit → ∃ report',
        reply = .ok report' ∧ report'.dedupIncomplete = false) ∧
      ∀ report', reply = .ok report' → report'.dedupIncomplete = false →
        after = later ∧ report'.Repeats report := by
  intro landed
  obtain ⟨outcome, left, accepted, readable, settles, errors, leaves⟩ :=
    first.settles stands skip steady complete
  have target : later (place .target) migration.landing = left := by
    rw [leaves, Function.update_self, Function.update_self]
  -- The second call finds its batch settled, once it reads the target whole.
  have repeats : left.length ≤ migration.limit → ∃ report',
      reply = .ok report' ∧ report'.dedupIncomplete = false ∧ after = later ∧
        report'.Repeats report := by
    intro whole
    have settled := settled_again steady whole settles leaves
    rw [errors] at settled
    rw [← target] at whole settled
    exact again.settled accepted (readable_again readable settles.passing leaves) whole
      (target ▸ settles.passing) settled
  have landedEq : landed = left := target
  refine ⟨?_, fun whole => ?_, fun report' returned complete' => ?_⟩
  · rw [landedEq]
    exact settles.undoubled
  · obtain ⟨report', returns, flag, -⟩ := repeats (target ▸ whole)
    exact ⟨report', returns, flag⟩
  · rw [returned] at again
    have whole := again.whole accepted standsLater complete'
    obtain ⟨report'', returns, -, unchanged, repeated⟩ := repeats (target ▸ whole)
    obtain rfl : report' = report'' := Except.ok.inj (returned.symm.trans returns)
    exact ⟨unchanged, repeated⟩

theorem skip_migration (stands : backends.Stands fresh asked state)
    (skip : migration.onConflict = "skip")
    (steady : migration.Steady unicode
      (place .source = place .target ∧ migration.partition = migration.landing))
    {report : MigrationReport} :
    let call := backends.migrate unicode place fresh.supply canRecord migration
    let first := call asked state
    let again := call first.2.1 first.2.2
    let landed := backends.spaces first.2.2 (place .target) migration.landing
    first.1 = .ok report → report.dedupIncomplete = false →
      Space.Undoubled (backends.spaces state (place .target) migration.landing) landed ∧
        (landed.length ≤ migration.limit → ∃ report',
          again.1 = .ok report' ∧ report'.dedupIncomplete = false) ∧
        ∀ report', again.1 = .ok report' → report'.dedupIncomplete = false →
          backends.spaces again.2.2 = backends.spaces first.2.2 ∧
            report'.Repeats report := by
  have moved := @migrate_moves unicode ι _ backends place fresh asked state stands
    canRecord migration
  simp only
  generalize backends.migrate unicode place fresh.supply canRecord migration asked state =
    first at moved ⊢
  obtain ⟨reply, count, later⟩ := first
  obtain ⟨moves, -, standsFirst⟩ := moved
  have movesAgain := (@migrate_moves unicode ι _ backends place fresh count later
    standsFirst canRecord migration).1
  simp only at moves movesAgain ⊢
  generalize backends.migrate unicode place fresh.supply canRecord migration count later =
    again at movesAgain ⊢
  rintro rfl complete
  have target : Space.Stands fresh asked
      (backends.spaces state (place .target) migration.landing) :=
    LocalBackend.stands (stands (place .target)) migration.landing
  have landed : Space.Stands fresh count
      (backends.spaces later (place .target) migration.landing) :=
    LocalBackend.stands (standsFirst (place .target)) migration.landing
  exact moves.again movesAgain target landed skip steady complete

end LocalBackends

/-- The same import by a policy, made again on a local backend. -/
theorem LocalBackend.skip_import {backend : LocalBackend}
    {state : (backend.store unicode).State} {key : Key} {entries : List (Dict String Json)}
    {outcome : ImportOutcome}
    (stands : (backend.representation unicode).Stands fresh asked state) :
    let spaces := (backend.representation unicode).spaces
    let call := (backend.store unicode).request unicode fresh.supply key
      (.importMemories entries "skip")
    let first := call asked state
    let again := call first.2.1 first.2.2
    let landed := spaces first.2.2 key.grant.space
    first.1 = .ok (.imported outcome) → outcome.dedupIncomplete = false →
      Space.Undoubled (spaces state key.grant.space) landed ∧
        (landed.length ≤ maxExport → ∃ outcome',
          again.1 = .ok (.imported outcome') ∧ outcome'.dedupIncomplete = false) ∧
        ∀ outcome', again.1 = .ok (.imported outcome') →
          outcome'.dedupIncomplete = false →
            spaces again.2.2 = spaces first.2.2 ∧
              outcome'.Repeats outcome entries.length := by
  intro spaces call first again landed returned complete
  have own := LocalBackend.stands stands key.grant.space
  obtain ⟨reply, count, standsFirst, spacesFirst⟩ := Representation.request_eq stands key
    (.importMemories entries "skip")
  obtain ⟨replyAgain, -, -, spacesAgain⟩ := Representation.request_eq standsFirst key
    (.importMemories entries "skip")
  have skip := @Space.skip_import unicode fresh asked key (spaces state key.grant.space)
    entries own outcome (reply.symm.trans returned) complete
  let alone := (Space.store unicode).request unicode fresh.supply key
    (.importMemories entries "skip") asked (spaces state key.grant.space)
  have counted : first.2.1 = alone.2.1 := count
  have left : spaces first.2.2 =
      Function.update (spaces state) key.grant.space alone.2.2 := spacesFirst
  have landed_eq : landed = alone.2.2 := by
    simp only [landed, left, Function.update_self]
  obtain ⟨undoubled, returns, repeats⟩ := skip
  have again_eq : again.1 = ((Space.store unicode).request unicode fresh.supply key
      (.importMemories entries "skip") alone.2.1 alone.2.2).1 := by
    rw [← counted, ← landed_eq]
    exact replyAgain
  have unchanged : ((Space.store unicode).request unicode fresh.supply key
      (.importMemories entries "skip") alone.2.1 alone.2.2).2.2 = alone.2.2 →
        spaces again.2.2 = spaces first.2.2 := by
    intro same
    rw [← counted, ← landed_eq] at same
    exact spacesAgain.trans ((congrArg _ same).trans (Function.update_eq_self _ _))
  rw [again_eq, landed_eq]
  refine ⟨undoubled, returns, fun outcome' returned' complete' => ?_⟩
  obtain ⟨same, repeated⟩ := repeats outcome' returned' complete'
  exact ⟨unchanged same, repeated⟩

/-- Importing with skip doubles no memory, and made again it writes nothing, by a
policy or by a migration. -/
theorem skip_is_idempotent (unicode : Unicode) (fresh : FreshIds) :
    (∀ (backend : LocalBackend) (asked : Nat) (state : (backend.store unicode).State)
        (key : Key) (entries : List (Dict String Json)) (outcome : ImportOutcome),
      (backend.representation unicode).Stands fresh asked state →
      let spaces := (backend.representation unicode).spaces
      let call := (backend.store unicode).request unicode fresh.supply key
        (.importMemories entries "skip")
      let first := call asked state
      let again := call first.2.1 first.2.2
      let landed := spaces first.2.2 key.grant.space
      first.1 = .ok (.imported outcome) → outcome.dedupIncomplete = false →
        Space.Undoubled (spaces state key.grant.space) landed ∧
          (landed.length ≤ maxExport → ∃ outcome',
            again.1 = .ok (.imported outcome') ∧ outcome'.dedupIncomplete = false) ∧
          ∀ outcome', again.1 = .ok (.imported outcome') →
            outcome'.dedupIncomplete = false →
              spaces again.2.2 = spaces first.2.2 ∧
                outcome'.Repeats outcome entries.length) ∧
    ∀ (ι : Type) [DecidableEq ι] (backends : LocalBackends ι) (place : Side → ι)
        (asked : Nat) (state : backends.State unicode) (canRecord : Bool)
        (migration : Migration) (report : MigrationReport),
      backends.Stands fresh asked state → migration.onConflict = "skip" →
      migration.Steady unicode
        (place .source = place .target ∧ migration.partition = migration.landing) →
      let call := backends.migrate unicode place fresh.supply canRecord migration
      let first := call asked state
      let again := call first.2.1 first.2.2
      let landed := backends.spaces first.2.2 (place .target) migration.landing
      first.1 = .ok report → report.dedupIncomplete = false →
        Space.Undoubled (backends.spaces state (place .target) migration.landing) landed ∧
          (landed.length ≤ migration.limit → ∃ report',
            again.1 = .ok report' ∧ report'.dedupIncomplete = false) ∧
          ∀ report', again.1 = .ok report' → report'.dedupIncomplete = false →
            backends.spaces again.2.2 = backends.spaces first.2.2 ∧
              report'.Repeats report := by
  constructor
  · intro backend asked state key entries outcome stands
    exact LocalBackend.skip_import stands
  · intro ι _ backends place asked state canRecord migration report stands skip steady
    exact LocalBackends.skip_migration stands skip steady

/-- Two empty stores, the first of which is given one memory in space `s`. -/
def holdingRun (backends : LocalBackends Bool) : Nat × backends.State .ascii :=
  let added := ((backends false).store .ascii).request .ascii FreshIds.tally.supply
    ⟨"ann", ⟨"s", .writer⟩⟩
    (.add "note" (.obj [("run_id", .str "a")]) none false) 0
    ((backends false).store .ascii).initial
  (added.2.1, fun
    | false => added.2.2
    | true => ((backends true).store .ascii).initial)

theorem holdingRun_stands (backends : LocalBackends Bool) :
    backends.Stands FreshIds.tally (holdingRun backends).1 (holdingRun backends).2 := by
  let key : Key := ⟨"ann", ⟨"s", .writer⟩⟩
  have added := (Representation.request_eq
    (((backends false).representation .ascii).stands_initial FreshIds.tally) key
    (.add "note" (.obj [("run_id", .str "a")]) none false)).2.2.1
  intro place
  cases place with
  | false => exact added
  | true =>
      have initial := ((backends true).representation .ascii).stands_initial FreshIds.tally
      exact ⟨initial.valid, fun n _ => initial.unused n (Nat.zero_le n)⟩

theorem skip_is_idempotent_note :
    let backends : LocalBackends Bool := fun _ => .inMemory
    let place : Side → Bool := fun | .source => false | .target => true
    let migration : Migration := { partition := "s", operator := "ops" }
    let key : Key := ⟨"ann", ⟨"s", .writer⟩⟩
    let entry : Dict String Json := Dict.ofList [("content", .str "note")]
    let held := holdingRun backends
    let imported := ((backends false).store .ascii).request .ascii FreshIds.tally.supply key
      (.importMemories [entry, entry] "skip") held.1 (held.2 false)
    let migrated := backends.migrate .ascii place FreshIds.tally.supply true migration
      held.1 held.2
    Space.Undoubled (((backends false).representation .ascii).spaces (held.2 false) "s")
        (((backends false).representation .ascii).spaces imported.2.2 "s") ∧
      Space.Undoubled (backends.spaces held.2 true "s")
        (backends.spaces migrated.2.2 true "s") := by
  intro backends place migration key entry held imported migrated
  obtain ⟨byPolicy, byMigration⟩ := skip_is_idempotent .ascii FreshIds.tally
  have stands := holdingRun_stands backends
  have reported : imported.1 = .ok (.imported {
      imported := [{ id := "aaaaa", index := 0, action := .created }]
      skipped := [{ index := 1, existingId := "aaaaa" }] }) := by decide +kernel
  have report : migrated.1 = .ok {
      source := "source"
      target := "target"
      exported := 1
      imported := 1 } := by decide +kernel
  -- Written out, so that the two sides are compared before either is run.
  have migrated_eq : migrated = backends.migrate .ascii place FreshIds.tally.supply true
    migration held.1 held.2 := rfl
  rw [migrated_eq]
  exact ⟨(byPolicy (backends false) held.1 (held.2 false) key [entry, entry] _ (stands false)
      reported rfl).1,
    (byMigration Bool backends place held.1 held.2 true migration _ stands rfl
      (Migration.steady_none rfl) report rfl).1⟩

/-! The scope validators left out. -/

/-- A validator that rewrites a run id to a longer one. -/
def lengthened : Json → Except Exc (Option (Dict String Json))
  | .obj [("run_id", .str text)] =>
      .ok (some (Dict.ofList [("run_id", .str (text ++ "x"))]))
  | _ => refused "scope needs a run_id"

/-- A validator that rewrites every scope to one with a null value. -/
def nulled (_ : Json) : Except Exc (Option (Dict String Json)) :=
  .ok (some (Dict.ofList [("run_id", .null)]))

/-- What a migration of space `s` reports, and what it reports when made again. -/
def copiedTwice (place : Side → Bool)
    (validator : Json → Except Exc (Option (Dict String Json))) :
    Except Exc MigrationReport × Except Exc MigrationReport :=
  let backends : LocalBackends Bool := fun _ => .inMemory
  let migration : Migration :=
    { partition := "s", operator := "ops", scopeValidator := some validator }
  let call := backends.migrate .ascii place FreshIds.tally.supply true migration
  let first := call (holdingRun backends).1 (holdingRun backends).2
  (first.1, (call first.2.1 first.2.2).1)

/-- Copied onto itself with a lengthening validator, or elsewhere with one that
returns null values, a partition is copied again by the second call. -/
theorem rewritten_scopes_are_copied_again :
    let report : MigrationReport :=
      { source := "source", target := "target", exported := 1, imported := 1 }
    copiedTwice (fun _ => false) lengthened =
        (.ok report, .ok { report with exported := 2, skipped := 1 }) ∧
      copiedTwice (fun | .source => false | .target => true) nulled =
        (.ok report, .ok report) := by
  decide +kernel

end Memcp
