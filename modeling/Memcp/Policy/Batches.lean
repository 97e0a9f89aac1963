import Memcp.Policy.Requests

/-!
A batch taken apart: what its reports list, and what its entries make of the
space one after another.
-/

namespace Memcp

open Python Interaction

namespace Import

/-! The three lists of an outcome. -/

def Report.imported? (index : Nat) : Report → Option Imported
  | .updated id => some { id, index, action := .updated }
  | .created id => some { id, index, action := .created }
  | .failed _ | .skipped _ => none

def Report.skipped? (index : Nat) : Report → Option Skipped
  | .skipped existingId => some { index, existingId }
  | .failed _ | .updated _ | .created _ => none

def Report.error? (index : Nat) : Report → Option ImportError
  | .failed error => some { index, error }
  | .skipped _ | .updated _ | .created _ => none

variable {β : Type}

/-- What reports, the first of which has `index`, list. -/
def listed (read : Nat → Report → Option β) : Nat → List Report → List β
  | _, [] => []
  | index, report :: reports =>
      (read index report).toList ++ listed read (index + 1) reports

theorem listed_append (read : Nat → Report → Option β) (index : Nat)
    (first second : List Report) :
    listed read index (first ++ second) =
      listed read index first ++ listed read (index + first.length) second := by
  induction first generalizing index with
  | nil => rfl
  | cons report first induction =>
      have shifted : index + 1 + first.length = index + (first.length + 1) := by omega
      simp only [List.cons_append, listed, induction, List.append_assoc,
        List.length_cons, shifted]

theorem mem_listed {read : Nat → Report → Option β} {index : Nat}
    {reports : List Report} {value : β} :
    value ∈ listed read index reports ↔
      ∃ place report, reports[place]? = some report ∧
        read (index + place) report = some value := by
  induction reports generalizing index with
  | nil => simp [listed]
  | cons head reports induction =>
      rw [listed, List.mem_append, Option.mem_toList, induction]
      constructor
      · rintro (first | ⟨place, report, found, same⟩)
        · exact ⟨0, head, rfl, first⟩
        · refine ⟨place + 1, report, found, ?_⟩
          rw [← same]
          congr 1
          omega
      · rintro ⟨place, report, found, same⟩
        cases place with
        | zero =>
            cases found
            exact .inl same
        | succ place =>
            refine .inr ⟨place, report, found, ?_⟩
            rw [← same]
            congr 1
            omega

end Import

open Import

theorem ImportOutcome.reports_eq (outcome : ImportOutcome) (index : Nat)
    (reports : List Report) :
    outcome.reports index reports = {
      imported := outcome.imported ++ listed Report.imported? index reports
      skipped := outcome.skipped ++ listed Report.skipped? index reports
      errors := outcome.errors ++ listed Report.error? index reports
      dedupIncomplete := outcome.dedupIncomplete } := by
  induction reports generalizing outcome index with
  | nil => simp [ImportOutcome.reports, listed]
  | cons report reports induction =>
      rw [ImportOutcome.reports, induction]
      cases report <;>
        simp [ImportOutcome.report, listed, Report.imported?, Report.skipped?,
          Report.error?]

/-! Two batches one after the other. -/

theorem ImportOutcome.reports_append (outcome : ImportOutcome) (index : Nat)
    (first second : List Report) :
    outcome.reports index (first ++ second) =
      (outcome.reports index first).reports (index + first.length) second := by
  rw [reports_eq, reports_eq, reports_eq]
  simp only [listed_append, List.append_assoc]

theorem importEntries_append (unicode : Unicode) (options : ImportOptions)
    (index : Nat) (first second : List (Dict String Json)) (state : ImportState) :
    importEntries unicode options index (first ++ second) state = (do
      let state ← importEntries unicode options index first state
      importEntries unicode options (index + first.length) second state) := by
  induction first generalizing index state with
  | nil => rfl
  | cons entry first induction =>
      have shifted : index + (first.length + 1) = index + 1 + first.length := by omega
      simp only [List.cons_append, importEntries, induction, List.length_cons, shifted]
      exact (Fallible.bind_assoc _ _ _).symm

namespace Import

variable {unicode : Unicode} {options : ImportOptions} {index place : Nat}
  {entry : Dict String Json} {entries : List (Dict String Json)}
  {before after : Progress} {report : Report} {reports : List Report}

theorem Run.of_nil (run : Run unicode options index [] before reports after) :
    reports = [] ∧ after = before := by
  cases run
  exact ⟨rfl, rfl⟩

theorem Run.of_cons
    (run : Run unicode options index (entry :: entries) before reports after) :
    ∃ report middle rest, reports = report :: rest ∧
      Step unicode options index entry before report middle ∧
      Run unicode options (index + 1) entries middle rest after := by
  cases run with
  | cons step run => exact ⟨_, _, _, rfl, step, run⟩

theorem Run.length (run : Run unicode options index entries before reports after) :
    reports.length = entries.length := by
  induction run with
  | nil => rfl
  | cons step rest induction => simp only [List.length_cons, induction]

variable {fresh : FreshIds} {asked : Nat} {items : List Item} {state : ImportState}

/-- A batch that returns, on any machine, taken apart at the entry of a place. -/
theorem importEntries_at {Supply : Type} {machine : Machine effects Supply}
    {supply : Nat → Supply} {asked' : Nat} {before after : machine.State}
    {last : ImportState}
    (returned : Fallible.exec machine supply
      (importEntries unicode options index entries state) asked before =
        (.ok last, asked', after))
    (short : place < entries.length) :
    let batch := fun entries => Fallible.exec machine supply
      (importEntries unicode options index entries state) asked before
    ∃ middle count left next count' left',
      batch (entries.take place) = (.ok middle, count, left) ∧
      Fallible.exec machine supply
          (importEntry unicode options (index + place) entries[place] middle) count
          left = (.ok next, count', left') ∧
      batch (entries.take (place + 1)) = (.ok next, count', left') ∧
      Fallible.exec machine supply
          (importEntries unicode options (index + (place + 1)) (entries.drop (place + 1))
            next) count' left' = (.ok last, asked', after) := by
  intro batch
  have split : entries.take (place + 1) = entries.take place ++ [entries[place]] :=
    List.take_succ_eq_append_getElem short
  have place_eq : (entries.take place).length = place :=
    List.length_take_of_le (Nat.le_of_lt short)
  have succ_eq : (entries.take (place + 1)).length = place + 1 :=
    List.length_take_of_le short
  rw [← List.take_append_drop (place + 1) entries, importEntries_append, succ_eq]
    at returned
  obtain ⟨next, count', left', first, rest⟩ := Fallible.exec_bind_eq_ok returned
  have parted := first
  rw [split, importEntries_append, place_eq] at parted
  obtain ⟨middle, count, left, earlier, one⟩ := Fallible.exec_bind_eq_ok parted
  obtain ⟨_, _, _, entry, done⟩ := Fallible.exec_bind_eq_ok one
  cases done
  exact ⟨middle, count, left, next, count', left', earlier, entry, first, rest⟩

theorem batch_at (stands : Space.Stands fresh asked items)
    (known : Known options.userId ⟨state.existing, items⟩)
    (stamped : Stamped options)
    (through : ∀ entry ∈ entries, ∀ error, ¬ Halts unicode options entry error)
    (short : place < entries.length) :
    let batch := fun some => Fallible.exec (Space.store unicode).machine fresh.supply
      (importEntries unicode options 0 some state) asked items
    ∃ before report later reports,
      (batch (entries.take place)).2.2 = before.items ∧
      (batch (entries.take (place + 1))).2.2 = later.items ∧
      (before.items.map Item.id).Nodup ∧ Known options.userId before ∧
      Step unicode options place entries[place] before report later ∧
      reports[place]? = some report ∧
      ∃ last, (batch entries).1 = .ok ⟨last, state.outcome.reports 0 reports⟩ := by
  intro batch
  have none : ∀ {some : List (Dict String Json)}, some ⊆ entries →
      ¬ ∃ entry ∈ some, ∃ error, Halts unicode options entry error :=
    fun subset ⟨entry, member, error, halts⟩ =>
      through entry (subset member) error halts
  have place_eq : (entries.take place).length = place :=
    List.length_take_of_le (Nat.le_of_lt short)
  obtain ⟨first, before, asked₁, run₁, ran₁, -, stands₁⟩ :=
    (@importEntries_exec unicode options fresh asked 0 items state (entries.take place)
      stands known stamped).resolve_right fun ⟨entry, member, error, halts, _⟩ =>
        none (List.take_subset _ _) ⟨entry, member, error, halts⟩
  have known₁ : Known options.userId before := known.run run₁
  obtain ⟨report, later, asked₂, step, ran₂, -, stands₂⟩ :=
    (@importEntry_exec unicode options fresh asked₁ place entries[place] before.items
      ⟨before.existing, state.outcome.reports 0 first⟩ stands₁ known₁
      stamped).resolve_right fun ⟨error, _, halts, _⟩ =>
        none (List.Subset.refl _) ⟨entries[place], List.getElem_mem short, error, halts⟩
  obtain ⟨rest, last, asked₃, run₃, ran₃, -⟩ :=
    (@importEntries_exec unicode options fresh asked₂ (place + 1) later.items
      ⟨later.existing, (state.outcome.reports 0 first).report place report⟩
      (entries.drop (place + 1)) stands₂ (known₁.step step)
      stamped).resolve_right fun ⟨entry, member, error, halts, _⟩ =>
        none (List.drop_subset _ _) ⟨entry, member, error, halts⟩
  have reached : batch (entries.take (place + 1)) = (.ok ⟨later.existing,
      (state.outcome.reports 0 first).report place report⟩, asked₂, later.items) := by
    have split : entries.take (place + 1) = entries.take place ++ [entries[place]] :=
      List.take_succ_eq_append_getElem short
    simp only [batch, split, importEntries_append, place_eq, Nat.zero_add]
    rw [Fallible.exec_bind_ok ran₁, importEntries, Fallible.exec_bind_ok ran₂]
    rfl
  have ended : batch entries = (.ok ⟨last.existing,
      ((state.outcome.reports 0 first).report place report).reports (place + 1) rest⟩,
      asked₃, last.items) := by
    have length : (entries.take (place + 1)).length = place + 1 :=
      List.length_take_of_le short
    have whole : batch entries =
        batch (entries.take (place + 1) ++ entries.drop (place + 1)) := by
      rw [List.take_append_drop]
    rw [whole]
    simp only [batch, importEntries_append, length, Nat.zero_add] at reached ⊢
    rw [Fallible.exec_bind_ok reached, ran₃]
  have reports_length : first.length = place := run₁.length.trans place_eq
  refine ⟨before, report, later, first ++ report :: rest, ?_, ?_, stands₁.ids, known₁,
    step, ?_, last.existing, ?_⟩
  · exact congrArg (fun ran => ran.2.2) ran₁
  · rw [reached]
  · rw [List.getElem?_append_right (Nat.le_of_eq reports_length), reports_length,
      Nat.sub_self]
    rfl
  · have joined : state.outcome.reports 0 (first ++ report :: rest) =
        ((state.outcome.reports 0 first).report place report).reports (place + 1)
          rest := by
      rw [ImportOutcome.reports_append, reports_length, Nat.zero_add]
      rfl
    rw [joined, ended]

end Import

/-! An import request taken apart. -/

section Requests

variable {unicode : Unicode} {key : Key} {fresh : FreshIds} {asked : Nat}
  {items : List Item} {entries : List (Dict String Json)} {onConflict : String}
  {outcome : ImportOutcome}

/-- What an import request leaves of a space. -/
def Space.imported (unicode : Unicode) (fresh : FreshIds) (key : Key)
    (onConflict : String) (asked : Nat) (items : List Item)
    (entries : List (Dict String Json)) : List Item :=
  ((Space.store unicode).request unicode fresh.supply key
    (.importMemories entries onConflict) asked items).2.2

/-- The entry of a place finds what the entries before it leave, and leaves what
the entries up to it do. -/
theorem Space.import_at (stands : Space.Stands fresh asked items)
    (returned : ((Space.store unicode).request unicode fresh.supply key
      (.importMemories entries onConflict) asked items).1 = .ok (.imported outcome))
    {place : Nat} (short : place < entries.length) :
    let after := Space.imported unicode fresh key onConflict asked items
    ∃ mode before report later reports,
      OnConflict.ofText onConflict = some mode ∧
      after (entries.take place) = before.items ∧
      after (entries.take (place + 1)) = later.items ∧
      (before.items.map Item.id).Nodup ∧
      Known key.grant.space before ∧
      Import.Step unicode ((localPolicy unicode).importOptions key mode) place
        entries[place] before report later ∧
      reports[place]? = some report ∧
      outcome = (unread ((localPolicy unicode).importOptions key mode) maxExport
        items).reports 0 reports := by
  intro after
  have writer := Space.writer_of_returned rfl returned
  obtain ⟨mode, _, _, checked, read, -, -, -⟩ := Space.import_returned stands returned
  let options := (localPolicy unicode).importOptions key mode
  obtain ⟨-, few, named⟩ := checkImportArguments_eq_ok.mp checked
  obtain ⟨count, grows, begun⟩ := @importPayload_start unicode options asked items
    fresh.supply maxExport
  let state : ImportState :=
    ⟨(start unicode options maxExport items).existing, unread options maxExport items⟩
  have known : Known options.userId ⟨state.existing, items⟩ :=
    known_start stands.ids maxExport
  obtain ⟨before, report, later, reports, left, reached, ids, knownBefore, step,
    reported, last, ended⟩ := @batch_at unicode options place entries fresh count items
      state (stands.later grows) known (stamped key mode) (fun _ _ _ => not_halts) short
  -- What a part of the batch leaves, which is `items` for no entries at all.
  have part : ∀ some : List (Dict String Json), some.length ≤ entries.length →
      after some = (Fallible.exec (Space.store unicode).machine fresh.supply
        (importEntries unicode options 0 some state) count items).2.2 := by
    intro some fewer
    cases some with
    | nil =>
        obtain ⟨did, -⟩ := @Space.request_comes unicode key fresh asked items stands
          (.importMemories [] onConflict)
        simp only [after, Space.imported]
        generalize (Space.store unicode).request unicode fresh.supply key
          (.importMemories [] onConflict) asked items = ran at did
        obtain ⟨reply, count, left⟩ := ran
        cases did with
        | kept => rfl
        | imported checked =>
            exact absurd rfl (checkImportArguments_eq_ok.mp checked).1
    | cons entry some =>
        have checked : (localPolicy unicode).checkImportArguments (entry :: some)
            onConflict = .ok mode :=
          checkImportArguments_eq_ok.mpr ⟨nofun, Nat.le_trans fewer few, named⟩
        simp only [after, Space.imported, Space.import_request writer checked]
        rw [begun, read]
        simp only
        rw [Fallible.exec_bind]
        rcases Fallible.exec (Space.store unicode).machine fresh.supply
          (importEntries unicode options 0 (entry :: some) _) count items with
          ⟨reached, _, _⟩
        cases reached with
        | ok reached => rfl
        | error error => rfl
  refine ⟨mode, before, report, later, reports, named, ?_, ?_, ids, knownBefore, step,
    reported, ?_⟩
  · rw [part _ (by simp), left]
  · rw [part _ (by simp), reached]
  · rw [Space.import_request writer checked, begun, read] at returned
    simp only at returned
    have whole : (Fallible.exec (Space.store unicode).machine fresh.supply
        (importEntries unicode options 0 entries state) count items) = (.ok ⟨last,
          (unread options maxExport items).reports 0 reports⟩, _, _) :=
      Prod.ext ended rfl
    rw [Fallible.exec_bind_ok whole] at returned
    cases returned
    rfl

theorem Space.listed_short (stands : Space.Stands fresh asked items)
    (returned : ((Space.store unicode).request unicode fresh.supply key
      (.importMemories entries onConflict) asked items).1 = .ok (.imported outcome)) :
    (∀ refusal ∈ outcome.errors, refusal.index < entries.length) ∧
      ∀ written ∈ outcome.imported, written.index < entries.length := by
  obtain ⟨mode, reports, _, -, -, run, rfl, -⟩ := Space.import_returned stands returned
  rw [ImportOutcome.reports_eq, ← run.length]
  have bounded : ∀ {place : Nat} {report : Report}, reports[place]? = some report →
      0 + place < reports.length := fun found => by
    rw [Nat.zero_add]
    exact (List.getElem?_eq_some_iff.mp found).1
  constructor
  · intro refusal member
    obtain ⟨place, report, found, same⟩ := mem_listed.mp member
    cases report with
    | failed message =>
        cases same
        exact bounded found
    | _ => cases same
  · intro written member
    obtain ⟨place, report, found, same⟩ := mem_listed.mp member
    cases report with
    | updated id | created id =>
        cases same
        exact bounded found
    | _ => cases same

end Requests

end Memcp
