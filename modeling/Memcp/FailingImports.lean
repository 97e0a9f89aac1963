import Memcp.CompleteReads
import Memcp.Policy.Failing
import Memcp.SkipImports

/-!
An import with skip from a backend whose add and get calls may raise.  An entry
whose add raises stores nothing.  One whose read-back raises is stored, reported
as an error and not remembered.
-/

namespace Memcp

open Python Interaction

namespace Import

section Steps

variable (unicode : Unicode) (options : ImportOptions) (fresh : FreshIds)
  (faults : Nat → Fault)

/-- What one entry can do whose first call is the call `asked`, with the number
of the call after it. -/
inductive FaultyStep (index : Nat) (entry : Dict String Json) (asked : Nat)
    (before : Progress) : Report → Nat → Progress → Prop
  | refused {message : String}
      (read : readEntry unicode options entry = .error (.valueError message)) :
      FaultyStep index entry asked before (.failed message) asked before
  | skipped {item : ImportItem} {dup : Memory}
      (read : readEntry unicode options entry = .ok item)
      (known : before.existing.get? (dedupKey unicode item.content item.scope) =
        some dup) :
      FaultyStep index entry asked before (.skipped dup.id) asked before
  | lost {item : ImportItem} {status : Int} {body : String}
      (read : readEntry unicode options entry = .ok item)
      (raises : faults asked = some (status, body)) :
      FaultyStep index entry asked before (.failed (clientMessage status)) (asked + 1)
        before
  | unread {item : ImportItem} {status : Int} {body : String}
      (read : readEntry unicode options entry = .ok item)
      (unknown : before.existing.get? (dedupKey unicode item.content item.scope) = none)
      (added : faults asked = none)
      (raises : faults (asked + 1) = some (status, body)) :
      FaultyStep index entry asked before (.failed (clientMessage status)) (asked + 2) {
        existing := before.existing
        items := before.items ++
          [created unicode options index item (fresh.supply asked)] }
  | created {item : ImportItem}
      (read : readEntry unicode options entry = .ok item)
      (unknown : before.existing.get? (dedupKey unicode item.content item.scope) = none)
      (added : faults asked = none) (readBack : faults (asked + 1) = none) :
      FaultyStep index entry asked before (.created (fresh.supply asked).id)
        (asked + 2) {
          existing := before.existing.set (dedupKey unicode item.content item.scope)
            ((created unicode options index item (fresh.supply asked)).memory
              options.userId none)
          items := before.items ++
            [created unicode options index item (fresh.supply asked)] }

/-- A whole batch, with one report an entry. -/
inductive FaultyRun : (index : Nat) → List (Dict String Json) → Nat → Progress →
    List Report → Nat → Progress → Prop
  | nil {index asked : Nat} (progress : Progress) :
      FaultyRun index [] asked progress [] asked progress
  | cons {index asked count asked' : Nat} {entry : Dict String Json}
      {entries : List (Dict String Json)} {before middle after : Progress}
      {report : Report} {reports : List Report}
      (step : FaultyStep unicode options fresh faults index entry asked before report
        count middle)
      (rest : FaultyRun (index + 1) entries count middle reports asked' after) :
      FaultyRun index (entry :: entries) asked before (report :: reports) asked' after

end Steps

variable {unicode : Unicode} {options : ImportOptions} {fresh : FreshIds}
  {faults : Nat → Fault} {index asked count place : Nat} {entry : Dict String Json}
  {entries : List (Dict String Json)} {before after : Progress} {report : Report}
  {reports : List Report} {items : List Item} {state : ImportState} {item : ImportItem}

/-! What a step keeps. -/

theorem FaultyStep.stands
    (step : FaultyStep unicode options fresh faults index entry asked before report count
      after) (stands : Space.Stands fresh asked before.items) :
    Space.Stands fresh count after.items := by
  cases step with
  | refused => exact stands
  | skipped => exact stands
  | lost => exact stands.later (Nat.le_succ asked)
  | unread => exact (stands.add rfl).later (Nat.le_succ _)
  | created => exact (stands.add rfl).later (Nat.le_succ _)

theorem FaultyStep.knows
    (step : FaultyStep unicode options fresh faults index entry asked before report count
      after) {key : DedupKey} (known : before.existing.get? key ≠ none) :
    after.existing.get? key ≠ none := by
  cases step with
  | refused => exact known
  | skipped => exact known
  | lost => exact known
  | unread => exact known
  | created =>
      rw [Dict.get?_set]
      split
      · exact Option.some_ne_none _
      · exact known

theorem FaultyRun.knows
    (run : FaultyRun unicode options fresh faults index entries asked before reports count
      after) {key : DedupKey} (known : before.existing.get? key ≠ none) :
    after.existing.get? key ≠ none := by
  induction run with
  | nil => exact known
  | cons step rest induction => exact induction (step.knows known)

theorem FaultyRun.length
    (run : FaultyRun unicode options fresh faults index entries asked before reports count
      after) : reports.length = entries.length := by
  induction run with
  | nil => rfl
  | cons step rest induction => simp only [List.length_cons, induction]

theorem FaultyRun.stands
    (run : FaultyRun unicode options fresh faults index entries asked before reports count
      after) (stands : Space.Stands fresh asked before.items) :
    Space.Stands fresh count after.items := by
  induction run with
  | nil => exact stands
  | cons step rest induction => exact induction (step.stands stands)

/-! The runs of the code on one space. -/

/-- Run on one space whose calls may raise. -/
abbrev execFaulty {α : Type} (unicode : Unicode) (fresh : FreshIds)
    (faults : Nat → Fault) (action : Action α) (asked : Nat) (items : List Item) :
    Except Exc α × Nat × List Item :=
  Fallible.exec (Space.store unicode).failing (fresh.faulty faults) action asked items

theorem attempt_faulty {call : BackendCall} {reply : Except Exc call.Result}
    {later : List Item}
    (performed : (Space.store unicode).performOr (fresh.supply asked) (faults asked) call
      items = (reply, later)) :
    execFaulty unicode fresh faults (Action.backend call).attempt asked items =
      (attempted reply, asked + 1, later) := by
  have called : execFaulty unicode fresh faults (Action.backend call) asked items =
      (((Space.store unicode).performOr (fresh.supply asked) (faults asked) call
          items).1, asked + 1,
        ((Space.store unicode).performOr (fresh.supply asked) (faults asked) call
          items).2) := rfl
  unfold execFaulty at called ⊢
  rw [attempt_exec, called, performed]

theorem importCreate_lost (key : DedupKey) {status : Int} {body : String}
    (raises : faults asked = some (status, body)) :
    execFaulty unicode fresh faults (importCreate options index item key state) asked
        items =
      (.ok (state.addError index (clientMessage status)), asked + 1, items) := by
  have performed : (Space.store unicode).performOr (fresh.supply asked) (faults asked)
      (.add options.userId item.content item.scope item.metadata false
        (options.stamp.map fun stamp => stamp index none)) items =
      (.error (.memoryAPIError status body), items) := by
    rw [raises]
    exact Store.performOr_some rfl
  unfold importCreate execFaulty
  rw [Fallible.exec_bind_ok (attempt_faulty performed)]
  rfl

theorem importCreate_nested (key : DedupKey) {message : String}
    (added : faults asked = none)
    (nested : refuseNestedFilters unicode item.scope = .error (.valueError message)) :
    execFaulty unicode fresh faults (importCreate options index item key state) asked
        items =
      (.error (.valueError message), asked + 1, items) := by
  have performed : (Space.store unicode).performOr (fresh.supply asked) (faults asked)
      (.add options.userId item.content item.scope item.metadata false
        (options.stamp.map fun stamp => stamp index none)) items =
      (.error (.valueError message), items) := by
    rw [added]
    simp only [Store.performOr_none, Space.perform, Space.add, nested]
  unfold importCreate execFaulty
  rw [Fallible.exec_bind_error (attempt_faulty performed)]

/-- An add that goes through, and what becomes of its read-back. -/
theorem importCreate_added (key : DedupKey) (added : faults asked = none)
    (flat : refuseNestedFilters unicode item.scope = .ok ())
    (free : refuseReservedMetadata unicode (item.metadata.getD ∅).keys = .ok ())
    (unused : ∀ other ∈ items, other.id ≠ (fresh.supply asked).id)
    (passes : ((created unicode options index item (fresh.supply asked)).memory
      options.userId none).inSpace options.userId = true) :
    let stored := created unicode options index item (fresh.supply asked)
    execFaulty unicode fresh faults (importCreate options index item key state) asked
        items =
      (.ok ((faults (asked + 1)).elim
          (state.addImported key (stored.memory options.userId none)
            (fresh.supply asked).id index .created)
          fun raised => state.addError index (clientMessage raised.1)),
        asked + 2, items ++ [stored]) := by
  intro stored
  have performed : (Space.store unicode).performOr (fresh.supply asked) (faults asked)
      (.add options.userId item.content item.scope item.metadata false
        (options.stamp.map fun stamp => stamp index none)) items =
      (.ok (.many [{ id := (fresh.supply asked).id,
                     createdAt := (fresh.supply asked).now }]), items ++ [stored]) := by
    rw [added]
    simp only [Store.performOr_none, Space.perform, Space.add, flat, free]
    rfl
  unfold importCreate execFaulty
  rw [Fallible.exec_bind_ok (attempt_faulty performed)]
  simp only [AddReturn.items, importReadBack]
  cases fault : faults (asked + 1) with
  | some raised =>
      have fetched : (Space.store unicode).performOr (fresh.supply (asked + 1))
          (faults (asked + 1)) (.get options.userId (fresh.supply asked).id)
          (items ++ [stored]) =
          (.error (.memoryAPIError raised.1 raised.2), items ++ [stored]) := by
        rw [fault]
        exact Store.performOr_some rfl
      rw [Fallible.exec_bind_ok (attempt_faulty fetched)]
      rfl
  | none =>
      have found : Space.find (fresh.supply asked).id (items ++ [stored]) = some stored :=
        @find_append_self items stored unused
      have fetched : (Space.store unicode).performOr (fresh.supply (asked + 1))
          (faults (asked + 1)) (.get options.userId (fresh.supply asked).id)
          (items ++ [stored]) =
          (.ok (some (stored.memory options.userId none)), items ++ [stored]) := by
        rw [fault]
        simp only [Store.performOr_none, Space.perform, found, Option.map_some]
      have passed : checkSpace (some (stored.memory options.userId none))
          options.userId = .ok (stored.memory options.userId none) :=
        checkSpace_eq_ok.mpr ⟨rfl, passes⟩
      rw [Fallible.exec_bind_ok (attempt_faulty fetched)]
      simp only [passed]
      rfl

/-- What an entry does that no check halts. -/
theorem importEntry_faulty {next : ImportState} {later : List Item}
    (mode : options.onConflict = .skip) (stamped : Stamped options)
    (stands : Space.Stands fresh asked items)
    (returned : execFaulty unicode fresh faults
      (importEntry unicode options index entry state) asked items =
        (.ok next, count, later)) :
    ∃ report, next.outcome = state.outcome.report index report ∧
      FaultyStep unicode options fresh faults index entry asked ⟨state.existing, items⟩
        report count ⟨next.existing, later⟩ := by
  unfold importEntry at returned
  cases read : readEntry unicode options entry with
  | error error =>
      rw [read] at returned
      cases error with
      | valueError message =>
          cases returned
          exact ⟨.failed message, rfl, .refused read⟩
      | _ => cases returned
  | ok item =>
      rw [read] at returned
      simp only [mode] at returned
      cases known : state.existing.get? (dedupKey unicode item.content item.scope) with
      | some dup =>
          rw [known] at returned
          cases returned
          exact ⟨.skipped dup.id, rfl, .skipped read known⟩
      | none =>
          rw [known] at returned
          simp only at returned
          cases fault : faults asked with
          | some raised =>
              rw [importCreate_lost _ fault] at returned
              cases returned
              exact ⟨.failed (clientMessage raised.1), rfl, .lost read fault⟩
          | none =>
              have accepted := readMetadata_eq_ok (readEntry_parts read).2.1
              cases flat : refuseNestedFilters unicode item.scope with
              | error error =>
                  obtain ⟨message, rfl⟩ := refuseNestedFilters_error flat
                  rw [importCreate_nested _ fault flat] at returned
                  cases returned
              | ok _ =>
                  rw [importCreate_added _ fault flat (accepted_free accepted)
                    (stands.unused asked (Nat.le_refl _))
                    (created_inSpace stamped index item _)] at returned
                  cases fault' : faults (asked + 1) with
                  | some raised =>
                      rw [fault'] at returned
                      cases returned
                      exact ⟨.failed (clientMessage raised.1), rfl,
                        .unread read known fault fault'⟩
                  | none =>
                      rw [fault'] at returned
                      cases returned
                      exact ⟨.created (fresh.supply asked).id, rfl,
                        .created read known fault fault'⟩

theorem importEntries_faulty {last : ImportState} {later : List Item}
    (mode : options.onConflict = .skip) (stamped : Stamped options)
    (stands : Space.Stands fresh asked items)
    (returned : execFaulty unicode fresh faults
      (importEntries unicode options index entries state) asked items =
        (.ok last, count, later)) :
    ∃ reports, last.outcome = state.outcome.reports index reports ∧
      FaultyRun unicode options fresh faults index entries asked ⟨state.existing, items⟩
        reports count ⟨last.existing, later⟩ := by
  induction entries generalizing index asked items state with
  | nil =>
      cases returned
      exact ⟨[], rfl, .nil _⟩
  | cons entry entries induction =>
      unfold importEntries at returned
      obtain ⟨next, middle, left, first, rest⟩ := Fallible.exec_bind_eq_ok returned
      obtain ⟨report, outcome, step⟩ := importEntry_faulty mode stamped stands first
      obtain ⟨reports, outcome', run⟩ := induction (step.stands stands) rest
      refine ⟨report :: reports, ?_, .cons step run⟩
      rw [outcome', outcome]
      rfl

theorem batch_faulty {last : ImportState} {asked' : Nat} {later : List Item}
    (mode : options.onConflict = .skip) (stamped : Stamped options)
    (stands : Space.Stands fresh asked items)
    (returned : execFaulty unicode fresh faults
      (importEntries unicode options 0 entries state) asked items =
        (.ok last, asked', later)) (short : place < entries.length) :
    let batch := fun entries => execFaulty unicode fresh faults
      (importEntries unicode options 0 entries state) asked items
    ∃ middle count left next count' left' first report rest,
      batch (entries.take place) = (.ok middle, count, left) ∧
      batch (entries.take (place + 1)) = (.ok next, count', left') ∧
      FaultyRun unicode options fresh faults 0 (entries.take place) asked
        ⟨state.existing, items⟩ first count ⟨middle.existing, left⟩ ∧
      FaultyStep unicode options fresh faults place entries[place] count
        ⟨middle.existing, left⟩ report count' ⟨next.existing, left'⟩ ∧
      FaultyRun unicode options fresh faults (place + 1) (entries.drop (place + 1)) count'
        ⟨next.existing, left'⟩ rest asked' ⟨last.existing, later⟩ ∧
      last.outcome = state.outcome.reports 0 (first ++ report :: rest) := by
  intro batch
  obtain ⟨middle, count, left, next, count', left', earlier, one, upTo, remaining⟩ :=
    importEntries_at returned short
  rw [Nat.zero_add] at one remaining
  obtain ⟨first, outcome, run⟩ := importEntries_faulty mode stamped stands earlier
  have stands' : Space.Stands fresh count left := run.stands stands
  obtain ⟨report, outcome', step⟩ := importEntry_faulty mode stamped stands' one
  obtain ⟨rest, outcome'', run'⟩ :=
    importEntries_faulty mode stamped (step.stands stands') remaining
  have placed : 0 + first.length = place := by
    rw [Nat.zero_add, run.length]
    exact List.length_take_of_le (Nat.le_of_lt short)
  refine ⟨middle, count, left, next, count', left', first, report, rest, earlier, upTo,
    run, step, run', ?_⟩
  rw [ImportOutcome.reports_append, placed, outcome'', outcome', outcome]
  rfl

/-! What each entry of a batch does. -/

/-- The add that is the call `asked` goes through, and its read-back raises. -/
def Unread (faults : Nat → Fault) (asked : Nat) : Prop :=
  faults asked = none ∧ faults (asked + 1) ≠ none

theorem unread_of_raised {status : Int} {body : String} (added : faults asked = none)
    (raises : faults (asked + 1) = some (status, body)) : Unread faults asked := by
  refine ⟨added, ?_⟩
  rw [raises]
  exact Option.some_ne_none _

theorem FaultyStep.stores
    (step : FaultyStep unicode options fresh faults index entry asked before report count
      after) :
    after.items = before.items ∨ ∃ stored, after.items = before.items ++ [stored] := by
  cases step with
  | refused => exact .inl rfl
  | skipped => exact .inl rfl
  | lost => exact .inl rfl
  | unread => exact .inr ⟨_, rfl⟩
  | created => exact .inr ⟨_, rfl⟩

theorem FaultyStep.failed {message : String}
    (step : FaultyStep unicode options fresh faults index entry asked before
      (.failed message) count after) :
    after.items = before.items ∨ Unread faults asked := by
  cases step with
  | refused => exact .inl rfl
  | lost => exact .inl rfl
  | unread read unknown added raises => exact .inr (unread_of_raised added raises)

/-- A memory stored for an entry is one whose identity was not known, and is known
after it unless it can't be read back. -/
theorem FaultyStep.stored {stored : Item}
    (concrete : ∀ item, readEntry unicode options entry = .ok item → Concrete item.scope)
    (step : FaultyStep unicode options fresh faults index entry asked before report count
      after) (same : after.items = before.items ++ [stored]) :
    before.existing.get? (stored.identity unicode) = none ∧
      (after.existing.get? (stored.identity unicode) ≠ none ∨ Unread faults asked) := by
  have grown : before.items ≠ before.items ++ [stored] := fun same => by
    simpa using congrArg List.length same
  cases step with
  | refused => exact absurd same grown
  | skipped => exact absurd same grown
  | lost => exact absurd same grown
  | unread read unknown added raises =>
      obtain rfl := List.singleton_inj.mp (List.append_cancel_left same)
      rw [identity_created (concrete _ read)]
      exact ⟨unknown, .inr (unread_of_raised added raises)⟩
  | created read unknown added readBack =>
      obtain rfl := List.singleton_inj.mp (List.append_cancel_left same)
      rw [identity_created (concrete _ read)]
      refine ⟨unknown, .inl ?_⟩
      rw [Dict.get?_set_self]
      exact Option.some_ne_none _

section Batch

variable {last : ImportState} {asked' : Nat} {later : List Item}

/-- The entries a batch reports as errors store nothing, but for those it can't read
back. -/
theorem batch_errors (mode : options.onConflict = .skip) (stamped : Stamped options)
    (stands : Space.Stands fresh asked items) (outcome : state.outcome.errors = [])
    (returned : execFaulty unicode fresh faults
      (importEntries unicode options 0 entries state) asked items =
        (.ok last, asked', later)) :
    let batch := fun entries => execFaulty unicode fresh faults
      (importEntries unicode options 0 entries state) asked items
    ∀ error ∈ last.outcome.errors, error.index < entries.length ∧
      ((batch (entries.take (error.index + 1))).2.2 =
          (batch (entries.take error.index)).2.2 ∨
        Unread faults (batch (entries.take error.index)).2.1) := by
  intro batch error member
  have short : error.index < entries.length := by
    obtain ⟨reports, same, run⟩ := importEntries_faulty mode stamped stands returned
    rw [same, ImportOutcome.reports_eq, outcome, List.nil_append, mem_listed] at member
    obtain ⟨place, report, found, same⟩ := member
    obtain ⟨bound, -⟩ := List.getElem?_eq_some_iff.mp found
    rw [run.length] at bound
    cases report with
    | failed message =>
        cases same
        simpa using bound
    | _ => cases same
  refine ⟨short, ?_⟩
  obtain ⟨middle, count, left, next, count', left', first, report, rest, earlier, upTo,
    run, step, -, same⟩ := batch_faulty mode stamped stands returned short
  have place : first.length = error.index :=
    run.length.trans (List.length_take_of_le (Nat.le_of_lt short))
  rw [same, ImportOutcome.reports_eq, outcome, List.nil_append, mem_listed] at member
  obtain ⟨found, other, at_place, listed⟩ := member
  have index : found = error.index := by
    cases other with
    | failed message =>
        cases listed
        exact (Nat.zero_add found).symm
    | _ => cases listed
  subst index
  rw [List.getElem?_append_right (Nat.le_of_eq place), place, Nat.sub_self] at at_place
  cases at_place
  cases report with
  | failed message =>
      simp only [batch, earlier, upTo]
      exact step.failed
  | _ => cases listed

/-- A memory a batch stores has an identity that was not known before, and that no
earlier entry stored, but for those it can't read back. -/
theorem batch_identities (mode : options.onConflict = .skip) (stamped : Stamped options)
    (concrete : ReadsConcrete unicode options entries)
    (stands : Space.Stands fresh asked items)
    (returned : execFaulty unicode fresh faults
      (importEntries unicode options 0 entries state) asked items =
        (.ok last, asked', later)) (short : place < entries.length) {stored : Item} :
    let batch := fun entries => execFaulty unicode fresh faults
      (importEntries unicode options 0 entries state) asked items
    (batch (entries.take (place + 1))).2.2 =
        (batch (entries.take place)).2.2 ++ [stored] →
      state.existing.get? (stored.identity unicode) = none ∧
      ∀ earlier < place, ∀ other : Item,
        (batch (entries.take (earlier + 1))).2.2 =
            (batch (entries.take earlier)).2.2 ++ [other] →
          other.identity unicode = stored.identity unicode →
            Unread faults (batch (entries.take earlier)).2.1 := by
  intro batch grown
  obtain ⟨middle, count, left, next, count', left', first, report, rest, before, upTo,
    run, step, -, -⟩ := batch_faulty mode stamped stands returned short
  simp only [batch, before, upTo] at grown
  obtain ⟨unknown, -⟩ :=
    step.stored (concrete _ (List.getElem_mem short)) grown
  constructor
  · by_contra known
    exact run.knows known unknown
  · intro earlier precedes other grown' same
    have short' : earlier < (entries.take place).length := by
      rw [List.length_take_of_le (Nat.le_of_lt short)]
      exact precedes
    obtain ⟨middle', count₁, left₁, next', count₂, left₂, first', report', rest', before',
      upTo', -, step', run', -⟩ := batch_faulty mode stamped stands before short'
    rw [List.take_take, Nat.min_eq_left (Nat.le_of_lt precedes)] at before'
    rw [List.take_take, Nat.min_eq_left precedes] at upTo'
    simp only [batch, before', upTo'] at grown' ⊢
    rw [List.getElem_take] at step'
    obtain ⟨-, known | unread⟩ :=
      step'.stored (concrete _ (List.getElem_mem (Nat.lt_trans precedes short))) grown'
    · rw [same] at known
      exact absurd unknown (run'.knows known)
    · exact unread

end Batch

/-! A whole import. -/

theorem listAll_quiet (space : String) (limit : Nat) :
    Safe (fun _ (effect : Effect) => effect.mayRaise = false) (fun _ _ => True)
      (listAll space limit) [] := by
  refine Safe.mono (listAllFrom_bounded (Nat.zero_le limit)) ?_ fun _ _ _ => trivial
  intro past effect asks
  cases effect with
  | audit entry => rfl
  | backend call =>
      obtain ⟨count, cursor, -, rfl⟩ := asks
      rfl

/-- The read before a batch makes no call that may raise. -/
theorem buildDedupIndex_faulty (userId : String) (limit : Nat) :
    execFaulty unicode fresh faults (buildDedupIndex unicode userId limit) asked items =
      ((checkSpaces ((items.take (limit + 1)).map (Item.memory userId none))
        userId).map fun _ => (indexed unicode userId (items.take limit),
          decide (limit < items.length)), asked + 1, items) := by
  have quiet : Safe (fun _ (effect : Effect) => effect.mayRaise = false)
      (fun _ _ => True) (buildDedupIndex unicode userId limit) [] :=
    Fallible.safe_bind (Safe.mono (listAll_quiet userId limit)
      (fun _ _ never => never) fun _ _ _ => trivial) (fun _ _ _ => trivial)
      fun _ _ _ => trivial
  have same := @Store.exec_failing _ (Space.store unicode) _ _ quiet fresh faults asked
    items
  exact same.trans (buildDedupIndex_exec userId limit items)

theorem importPayload_faulty (mode : options.onConflict = .skip) (limit : Nat)
    {outcome : ImportOutcome}
    (returned : (execFaulty unicode fresh faults
      (importPayload unicode options entries limit) asked items).1 = .ok outcome) :
    let state : ImportState :=
      ⟨(start unicode options limit items).existing, unread options limit items⟩
    ∀ entries, execFaulty unicode fresh faults
        (importPayload unicode options entries limit) asked items =
      execFaulty unicode fresh faults (do
        let state ← importEntries unicode options 0 entries state
        return state.outcome) (asked + 1) items := by
  intro state
  have built := @buildDedupIndex_faulty unicode fresh faults asked items options.userId
    limit
  have skips : options.onConflict ≠ .duplicate := by simp [mode]
  have refuses : execFaulty unicode fresh faults (refuseOnConflict options.onConflict) asked
      items = (.ok (), asked, items) := by
    rw [mode]
    rfl
  rcases checkSpaces_cases ((items.take (limit + 1)).map
      (Item.memory options.userId none)) options.userId with passed | failed
  · intro entries
    rw [passed] at built
    unfold importPayload execFaulty
    rw [Fallible.exec_bind_ok refuses]
    simp only [skips, if_false]
    rw [Fallible.exec_bind_ok built]
    simp [state, start, unread, skips]
  · rw [failed] at built
    unfold importPayload execFaulty at returned
    rw [Fallible.exec_bind_ok refuses] at returned
    simp only [skips, if_false] at returned
    rw [Fallible.exec_bind_error built] at returned
    cases returned

/-- What the parts of an import leave of its space, entry by entry. -/
theorem import_faulty {limit : Nat} {outcome : ImportOutcome}
    (mode : options.onConflict = .skip) (stamped : Stamped options)
    (concrete : ReadsConcrete unicode options entries)
    (stands : Space.Stands fresh asked items)
    (returned : (execFaulty unicode fresh faults
      (importPayload unicode options entries limit) asked items).1 = .ok outcome)
    (complete : outcome.dedupIncomplete = false) :
    let ran := fun place => execFaulty unicode fresh faults
      (importPayload unicode options (entries.take place) limit) asked items
    let calls := fun place => (ran place).2.1
    let left := fun place => (ran place).2.2
    (∀ place < entries.length, left (place + 1) = left place ∨
      ∃ stored, left (place + 1) = left place ++ [stored]) ∧
    (∀ error ∈ outcome.errors, error.index < entries.length ∧
      (left (error.index + 1) = left error.index ∨
        Unread faults (calls error.index))) ∧
    ∀ place < entries.length, ∀ stored, left (place + 1) = left place ++ [stored] →
      (∀ held ∈ items, held.identity unicode ≠ stored.identity unicode) ∧
      ∀ earlier < place, ∀ other, left (earlier + 1) = left earlier ++ [other] →
        other.identity unicode = stored.identity unicode →
          Unread faults (calls earlier) := by
  intro ran calls left
  let begun : ImportState :=
    ⟨(start unicode options limit items).existing, unread options limit items⟩
  let batch := fun entries => execFaulty unicode fresh faults
    (importEntries unicode options 0 entries begun) (asked + 1) items
  have parted := importPayload_faulty mode limit returned
  have stands' : Space.Stands fresh (asked + 1) items := stands.later (Nat.le_succ asked)
  have reached : ∀ place, (ran place).2 = (batch (entries.take place)).2 := by
    intro place
    simp only [ran, parted, batch, execFaulty]
    rw [Fallible.exec_bind]
    rcases Fallible.exec (Space.store unicode).failing (fresh.faulty faults)
      (importEntries unicode options 0 (entries.take place) begun) (asked + 1) items with
      ⟨outcome, count, later⟩
    cases outcome with
    | ok last => rfl
    | error error => rfl
  have whole : ∃ last count later,
      batch entries = (.ok last, count, later) ∧ last.outcome = outcome := by
    rw [parted entries] at returned
    generalize whole : execFaulty unicode fresh faults (do
      let state ← importEntries unicode options 0 entries begun
      return state.outcome) (asked + 1) items = ended at returned
    obtain ⟨reply, count, later⟩ := ended
    cases returned
    obtain ⟨last, _, _, ended, same⟩ := Fallible.exec_bind_eq_ok whole
    cases same
    exact ⟨last, count, later, ended, rfl⟩
  obtain ⟨last, count, later, ended, rfl⟩ := whole
  have skips : options.onConflict ≠ .duplicate := by simp [mode]
  have whole : items.length ≤ limit := by
    obtain ⟨reports, same, -⟩ := importEntries_faulty mode stamped stands' ended
    rw [same, ImportOutcome.reports_eq] at complete
    exact whole_of_complete skips complete
  simp only [calls, left, reached]
  refine ⟨fun place short => ?_, batch_errors mode stamped stands' rfl ended,
    fun place short stored grown => ?_⟩
  · obtain ⟨_, _, _, _, _, _, _, _, _, before, upTo, -, step, -⟩ :=
      batch_faulty mode stamped stands' ended short
    simp only [batch, before, upTo]
    exact step.stores
  · obtain ⟨unknown, apart⟩ :=
      batch_identities mode stamped concrete stands' ended short grown
    exact ⟨(exact_start skips whole).unknown unknown, apart⟩

end Import

/-! Imports of a local backend. -/

open Import

/-- The imports with skip that the program makes: a client's, and those of a
migration. -/
inductive SkipBatch (unicode : Unicode) :
    ImportOptions → List (Dict String Json) → Prop
  | imported (key : Key) (entries : List (Dict String Json)) :
      SkipBatch unicode ((localPolicy unicode).importOptions key .skip) entries
  | migrated {migration : Migration} (items : List Item)
      (steady : migration.Steady unicode False) :
      SkipBatch unicode (migration.importOptions .skip (migration.read items))
        (Migration.entries (migration.read items))

section SkipBatch

variable {unicode : Unicode} {options : ImportOptions} {entries : List (Dict String Json)}

theorem SkipBatch.mode (batch : SkipBatch unicode options entries) :
    options.onConflict = .skip := by
  cases batch with
  | imported key entries => rfl
  | migrated items steady => rfl

theorem SkipBatch.stamped (batch : SkipBatch unicode options entries) :
    Stamped options := by
  cases batch with
  | imported key entries => exact Memcp.stamped key .skip
  | migrated items steady => exact Migration.stamped _

theorem SkipBatch.concrete (batch : SkipBatch unicode options entries) :
    ReadsConcrete unicode options entries := by
  cases batch with
  | imported key entries => exact readsConcrete_policy unicode key .skip entries
  | migrated items steady => exact steady.readsConcrete _

end SkipBatch

section Imports

variable {unicode : Unicode} {fresh : FreshIds} {asked : Nat}

/-- An import on a backend whose calls with a fault raise. -/
def LocalBackend.importFaulty (backend : LocalBackend) (unicode : Unicode)
    (fresh : FreshIds) (faults : Nat → Fault) (options : ImportOptions)
    (limit asked : Nat) (state : (backend.store unicode).State)
    (entries : List (Dict String Json)) :
    Except Exc ImportOutcome × Nat × (backend.store unicode).State :=
  Fallible.exec (backend.store unicode).failing (fresh.faulty faults)
    (importPayload unicode options entries limit) asked state

/-- An entry stores `item`: what the entries up to it leave is what the ones before
it leave, and that. -/
def Stores (space : String) (left : Nat → Spaces) (place : Nat) (item : Item) : Prop :=
  left (place + 1) = Function.update (left place) space (left place space ++ [item])

/-- Of the entries of a batch imported with skip after a complete read, each stores
at most one memory, one listed as an error stores none, and no two store memories of
one identity or of one the space had: but for an entry whose add goes through and
whose read-back raises. -/
theorem skip_import_under_failures {backend : LocalBackend} {faults : Nat → Fault}
    {options : ImportOptions} {entries : List (Dict String Json)} {limit : Nat}
    {state : (backend.store unicode).State} {outcome : ImportOutcome}
    (stands : (backend.representation unicode).Stands fresh asked state)
    (batch : SkipBatch unicode options entries)
    (returned : (backend.importFaulty unicode fresh faults options limit asked state
      entries).1 = .ok outcome) (complete : outcome.dedupIncomplete = false) :
    let ran := fun place => backend.importFaulty unicode fresh faults options limit asked
      state (entries.take place)
    let calls := fun place => (ran place).2.1
    let left := fun place => (backend.representation unicode).spaces (ran place).2.2
    let space := options.userId
    (∀ place < entries.length, left (place + 1) = left place ∨
      ∃ item, Stores space left place item) ∧
    (∀ error ∈ outcome.errors, error.index < entries.length ∧
      (left (error.index + 1) = left error.index ∨
        Unread faults (calls error.index))) ∧
    ∀ place < entries.length, ∀ item, Stores space left place item →
      (∀ held ∈ (backend.representation unicode).spaces state space,
        held.identity unicode ≠ item.identity unicode) ∧
      ∀ earlier < place, ∀ other, Stores space left earlier other →
        other.identity unicode = item.identity unicode →
          Unread faults (calls earlier) := by
  intro ran calls left space
  let before := (backend.representation unicode).spaces state
  let own := fun some => execFaulty unicode fresh faults
    (importPayload unicode options some limit) asked (before space)
  have alone : ∀ some,
      let ran := backend.importFaulty unicode fresh faults options limit asked state some
      ran.1 = (own some).1 ∧ ran.2.1 = (own some).2.1 ∧
        (backend.representation unicode).spaces ran.2.2 =
          Function.update before space (own some).2.2 := by
    intro some
    have confined : Safe (fun _ => Effect.within space) (fun _ _ => True)
        (importPayload unicode options some limit) [] :=
      Safe.mono (Action.Within.importPayload options some limit [])
        (fun _ _ allowed => allowed) fun _ _ _ => trivial
    exact Representation.exec_failing confined stands faults
  have counts : ∀ place, calls place = (own (entries.take place)).2.1 :=
    fun place => (alone _).2.1
  have leaves : ∀ place,
      left place = Function.update before space (own (entries.take place)).2.2 :=
    fun place => (alone _).2.2
  have stores_iff : ∀ place item, Stores space left place item ↔
      (own (entries.take (place + 1))).2.2 =
        (own (entries.take place)).2.2 ++ [item] := by
    intro place item
    unfold Stores
    rw [leaves, leaves, Function.update_idem, Function.update_self]
    constructor
    · intro same
      simpa using congrFun same space
    · intro same
      rw [same]
  obtain ⟨stores, errors, identities⟩ := import_faulty batch.mode batch.stamped
    batch.concrete (LocalBackend.stands stands space)
    ((alone entries).1.symm.trans returned) complete
  refine ⟨fun place short => ?_, fun error member => ?_,
    fun place short item stored => ?_⟩
  · rcases stores place short with kept | ⟨item, grown⟩
    · left
      rw [leaves, leaves]
      exact congrArg _ kept
    · exact .inr ⟨item, (stores_iff place item).mpr grown⟩
  · obtain ⟨short, kept | unread⟩ := errors error member
    · refine ⟨short, .inl ?_⟩
      rw [leaves, leaves]
      exact congrArg _ kept
    · refine ⟨short, .inr ?_⟩
      rw [counts]
      exact unread
  · obtain ⟨new, apart⟩ := identities place short item ((stores_iff place item).mp stored)
    refine ⟨new, fun earlier precedes other stored' same => ?_⟩
    rw [counts]
    exact apart earlier precedes other ((stores_iff earlier other).mp stored') same

/-! Two entries of one identity, the first of which can't be read back. -/

def noteTwice : List (Dict String Json) :=
  [Dict.ofList [("content", .str "note")], Dict.ofList [("content", .str "note")]]

def thirdCallDown (asked : Nat) : Fault :=
  if asked = 2 then some (503, "down") else none

/-- What an import of the first entries of `noteTwice` into an empty store does. -/
def importNotes (place : Nat) :
    Except Exc ImportOutcome × Nat × (LocalBackend.inMemory.store .ascii).State :=
  LocalBackend.inMemory.importFaulty .ascii FreshIds.tally thirdCallDown
    ((localPolicy .ascii).importOptions ⟨"ann", ⟨"s", .writer⟩⟩ .skip) maxExport 0
    (InMemory.store .ascii).initial (noteTwice.take place)

theorem skip_import_under_failures_note :
    let calls := fun place => (importNotes place).2.1
    let left := fun place =>
      (LocalBackend.inMemory.representation .ascii).spaces (importNotes place).2.2
    (∀ place < 2, left (place + 1) = left place ∨ ∃ item, Stores "s" left place item) ∧
    (∀ error ∈ [(⟨0, clientMessage 503⟩ : ImportError)], error.index < 2 ∧
      (left (error.index + 1) = left error.index ∨
        Unread thirdCallDown (calls error.index))) ∧
    ∀ place < 2, ∀ item, Stores "s" left place item →
      (∀ held ∈ (LocalBackend.inMemory.representation .ascii).spaces
        (InMemory.store .ascii).initial "s",
          held.identity .ascii ≠ item.identity .ascii) ∧
      ∀ earlier < place, ∀ other, Stores "s" left earlier other →
        other.identity .ascii = item.identity .ascii →
          Unread thirdCallDown (calls earlier) :=
  @skip_import_under_failures .ascii FreshIds.tally 0 .inMemory thirdCallDown
    ((localPolicy .ascii).importOptions ⟨"ann", ⟨"s", .writer⟩⟩ .skip) noteTwice maxExport
    (InMemory.store .ascii).initial
    { imported := [⟨"aaaa", 1, .created⟩], errors := [⟨0, clientMessage 503⟩] }
    (Representation.stands_initial FreshIds.tally) (.imported _ _) (by decide +kernel) rfl

/-- The entry listed as an error is stored, and its identity a second time. -/
theorem unread_note_is_stored_again :
    let identities := fun place =>
      ((LocalBackend.inMemory.representation .ascii).spaces (importNotes place).2.2
        "s").map (Item.identity .ascii)
    (importNotes 2).1 = .ok {
        imported := [⟨"aaaa", 1, .created⟩], errors := [⟨0, clientMessage 503⟩] } ∧
      identities 0 = [] ∧ identities 1 = [("note", [])] ∧
      identities 2 = [("note", []), ("note", [])] := by
  decide +kernel

end Imports

end Memcp
