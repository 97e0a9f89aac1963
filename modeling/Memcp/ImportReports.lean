import Memcp.CompleteReads

/-!
What an import reports.  Whichever of the backend's calls fail, each entry of
the batch is in one of the three lists, and what was not refused or skipped took
one call that stores.
-/

namespace Memcp

open Python Interaction

/-- An `add` or an `update`. -/
def Effect.stores : Effect → Bool
  | .backend (.add ..) => true
  | .backend (.update ..) => true
  | _ => false

def storingCalls (trace : Trace effects) : Nat :=
  trace.countP fun event => event.call.stores

/-- An `add` that extracts nothing reports at most one memory. -/
def AddsOne : Event effects → Prop
  | ⟨.backend (.add _ _ _ _ false _), .ok result⟩ => result.items.length ≤ 1
  | _ => True

namespace ImportOutcome

def importedAt (outcome : ImportOutcome) : List Nat := outcome.imported.map Imported.index

def skippedAt (outcome : ImportOutcome) : List Nat := outcome.skipped.map Skipped.index

def errorsAt (outcome : ImportOutcome) : List Nat := outcome.errors.map ImportError.index

end ImportOutcome

/-- How many entries pass and are not among the skipped. -/
def unskipped (passes : Dict String Json → Bool) (skipped : List Nat)
    (entries : List (Dict String Json)) : Nat :=
  entries.zipIdx.countP fun entry => passes entry.1 && entry.2 ∉ skipped

/-- The report of a batch whose entries are checked by `passes`. -/
structure Reports (passes : Dict String Json → Bool) (onConflict : OnConflict)
    (entries : List (Dict String Json)) (outcome : ImportOutcome) (calls : Nat) :
    Prop where
  once : (outcome.importedAt ++ outcome.skippedAt ++ outcome.errorsAt).Perm
    (List.range entries.length)
  imported : outcome.importedAt.Pairwise (· < ·)
  skipped : outcome.skippedAt.Pairwise (· < ·)
  errors : outcome.errorsAt.Pairwise (· < ·)
  skips : onConflict ≠ .skip → outcome.skipped = []
  calls : calls = unskipped passes outcome.skippedAt entries

theorem pairwise_lt_concat {indices : List Nat} {index : Nat}
    (increasing : indices.Pairwise (· < ·)) (below : ∀ other ∈ indices, other < index) :
    (indices ++ [index]).Pairwise (· < ·) := by
  apply List.pairwise_append.mpr
  refine ⟨increasing, List.pairwise_singleton _ _, ?_⟩
  simpa using below

section Unskipped

variable {passes : Dict String Json → Bool} {skipped : List Nat}
  {entries : List (Dict String Json)} (entry : Dict String Json)

theorem unskipped_concat (below : ∀ index ∈ skipped, index < entries.length) :
    unskipped passes skipped (entries ++ [entry]) =
      unskipped passes skipped entries + if passes entry then 1 else 0 := by
  have fresh : entries.length ∉ skipped := fun listed =>
    Nat.lt_irrefl _ (below _ listed)
  simp [unskipped, List.zipIdx_append, List.countP_append, List.countP_cons, fresh]

theorem unskipped_skip :
    unskipped passes (skipped ++ [entries.length]) (entries ++ [entry]) =
      unskipped passes skipped entries := by
  have before : entries.zipIdx.countP (fun entry =>
        passes entry.1 && entry.2 ∉ skipped ++ [entries.length]) =
      entries.zipIdx.countP fun entry => passes entry.1 && entry.2 ∉ skipped := by
    apply List.countP_congr
    intro pair member
    have bound : pair.2 < entries.length := by
      simpa using (List.mem_zipIdx member).2.1
    simp [Nat.ne_of_lt bound]
  rw [unskipped, List.zipIdx_append, List.countP_append, before]
  simp [unskipped]

end Unskipped

theorem range_concat (entries : List (Dict String Json)) (entry : Dict String Json) :
    List.range (entries ++ [entry]).length =
      List.range entries.length ++ [entries.length] := by
  rw [List.length_append]
  exact List.range_succ

namespace Reports

variable {passes : Dict String Json → Bool} {onConflict : OnConflict}
  {entries : List (Dict String Json)} {state : ImportState} {calls : Nat}
  {entry : Dict String Json}

theorem below {outcome : ImportOutcome}
    (reports : Reports passes onConflict entries outcome calls) {index : Nat}
    (listed : index ∈ outcome.importedAt ∨ index ∈ outcome.skippedAt ∨
      index ∈ outcome.errorsAt) : index < entries.length := by
  rw [← List.mem_range, ← reports.once.mem_iff]
  simpa [or_assoc] using listed

theorem addError (reports : Reports passes onConflict entries state.outcome calls)
    (error : String) :
    Reports passes onConflict (entries ++ [entry])
      (state.addError entries.length error).outcome
      (calls + if passes entry then 1 else 0) := by
  have errorsAt : (state.addError entries.length error).outcome.errorsAt =
      state.outcome.errorsAt ++ [entries.length] := by
    simp [ImportState.addError, ImportOutcome.errorsAt]
  refine ⟨?_, reports.imported, reports.skipped, ?_, reports.skips, ?_⟩
  · rw [errorsAt, ← List.append_assoc, range_concat]
    exact reports.once.append_right _
  · rw [errorsAt]
    exact pairwise_lt_concat reports.errors fun other listed =>
      reports.below (.inr (.inr listed))
  · rw [reports.calls]
    exact (unskipped_concat entry fun index listed =>
      reports.below (.inr (.inl listed))).symm

theorem addSkipped (reports : Reports passes onConflict entries state.outcome calls)
    (existingId : String) (skips : onConflict = .skip) :
    Reports passes onConflict (entries ++ [entry])
      (state.addSkipped entries.length existingId).outcome calls := by
  have skippedAt : (state.addSkipped entries.length existingId).outcome.skippedAt =
      state.outcome.skippedAt ++ [entries.length] := by
    simp [ImportState.addSkipped, ImportOutcome.skippedAt]
  refine ⟨?_, reports.imported, ?_, reports.errors, absurd skips, ?_⟩
  · rw [skippedAt, range_concat]
    refine List.Perm.trans ?_ (reports.once.append_right [entries.length])
    simp only [List.append_assoc]
    exact (List.perm_append_comm.append_left _).append_left _
  · rw [skippedAt]
    exact pairwise_lt_concat reports.skipped fun other listed =>
      reports.below (.inr (.inl listed))
  · rw [skippedAt, unskipped_skip]
    exact reports.calls

theorem addImported (reports : Reports passes onConflict entries state.outcome calls)
    (key : DedupKey) (memory : Memory) (id : String) (action : ImportAction)
    (passed : passes entry = true) :
    Reports passes onConflict (entries ++ [entry])
      (state.addImported key memory id entries.length action).outcome (calls + 1) := by
  have importedAt : (state.addImported key memory id entries.length
      action).outcome.importedAt = state.outcome.importedAt ++ [entries.length] := by
    simp [ImportState.addImported, ImportOutcome.importedAt]
  refine ⟨?_, ?_, reports.skipped, reports.errors, reports.skips, ?_⟩
  · rw [importedAt, range_concat]
    refine List.Perm.trans ?_ (reports.once.append_right [entries.length])
    simp only [List.append_assoc]
    refine List.Perm.append_left _ ?_
    rw [← List.append_assoc state.outcome.skippedAt]
    exact List.perm_append_comm
  · rw [importedAt]
    exact pairwise_lt_concat reports.imported fun other listed => reports.below (.inl listed)
  · have more := @unskipped_concat passes state.outcome.skippedAt entries entry
      fun index listed => reports.below (.inr (.inl listed))
    rw [if_pos passed, ← reports.calls] at more
    exact more.symm

end Reports

/-! The loop. -/

section Entries

variable {unicode : Unicode} {options : ImportOptions} {onConflict : OnConflict}
  {entries : List (Dict String Json)} {entry : Dict String Json} {key : DedupKey}
  {state : ImportState} {past : Trace effects}

/-- Whether an entry is refused before any conflict is looked for. -/
def passesChecks (unicode : Unicode) (options : ImportOptions)
    (entry : Dict String Json) : Bool :=
  (readEntry unicode options entry).toBool

/-- If the code returns, it has reported the entries. -/
abbrev Reporting (unicode : Unicode) (options : ImportOptions)
    (entries : List (Dict String Json)) : Action ImportState → Trace effects → Prop :=
  SafeWhile AddsOne (fun _ _ => True) fun later outcome =>
    ∀ state, outcome = .ok state →
      Reports (passesChecks unicode options) options.onConflict entries state.outcome
        (storingCalls later)

theorem storingCalls_concat (past : Trace effects) (event : Event effects) :
    storingCalls (past ++ [event]) =
      storingCalls past + if event.call.stores then 1 else 0 := by
  simp [storingCalls, List.countP_append, List.countP_cons]

variable (passes : passesChecks unicode options entry = true)
  (reports : Reports (passesChecks unicode options) options.onConflict entries
    state.outcome (storingCalls past))
include passes reports

/-- A call that stores was made for the entry, and a failure is reported. -/
theorem reports_failed {later : Trace effects}
    (calls : storingCalls later = storingCalls past + 1) (error : String) :
    Reports (passesChecks unicode options) options.onConflict (entries ++ [entry])
      (state.addError entries.length error).outcome (storingCalls later) := by
  have more := @Reports.addError _ _ _ _ _ entry reports error
  rwa [if_pos passes, ← calls] at more

/-- Such a call was made, and its memory is reported. -/
theorem reports_imported {later : Trace effects}
    (calls : storingCalls later = storingCalls past + 1) (memory : Memory) (id : String)
    (action : ImportAction) :
    Reports (passesChecks unicode options) options.onConflict (entries ++ [entry])
      (state.addImported key memory id entries.length action).outcome
      (storingCalls later) := by
  rw [calls]
  exact reports.addImported key memory id action passes

theorem importOverwrite_reports (item : ImportItem) (dup : Memory) :
    Reporting unicode options (entries ++ [entry])
      (importOverwrite options entries.length item key dup state) past := by
  refine Action.safeWhile_attempt trivial ?_ ?_ ?_
  · intro error _ _ state raised
    cases raised
  · rintro status body _ state ⟨⟩
    exact reports_failed passes reports (storingCalls_concat past _) _
  · intro updated _
    refine Fallible.safeWhile_check (fun error failed state raised => ?_)
      fun checked passed _ state returned => ?_
    · cases raised
    · cases returned
      exact reports_imported passes reports (storingCalls_concat past _) _ _ _

theorem importReadBack_reports {event : Event effects} (stores : event.call.stores = true)
    (added : AddResult) :
    Reporting unicode options (entries ++ [entry])
      (importReadBack options entries.length key [added] state) (past ++ [event]) := by
  have calls : ∀ reply, storingCalls (past ++ [event] ++
      [⟨.backend (.get options.userId added.id), reply⟩]) = storingCalls past + 1 := by
    intro reply
    rw [storingCalls_concat, storingCalls_concat, if_pos stores]
    rfl
  refine Action.safeWhile_attempt trivial ?_ ?_ ?_
  · intro error _ _ state raised
    cases raised
  · rintro status body _ state ⟨⟩
    exact reports_failed passes reports (calls _) _
  · intro stored _
    refine Fallible.safeWhile_check (fun error failed state raised => ?_)
      fun checked passed _ state returned => ?_
    · cases raised
    · cases returned
      exact reports_imported passes reports (calls _) _ _ _

theorem importCreate_reports (item : ImportItem) :
    Reporting unicode options (entries ++ [entry])
      (importCreate options entries.length item key state) past := by
  refine Action.safeWhile_attempt trivial ?_ ?_ ?_
  · intro error _ _ state raised
    cases raised
  · rintro status body _ state ⟨⟩
    exact reports_failed passes reports (storingCalls_concat past _) _
  · intro result adds
    cases result with
    | one added => exact importReadBack_reports passes reports rfl added
    | many items =>
        cases items with
        | nil =>
            rintro _ state ⟨⟩
            exact reports_failed passes reports (storingCalls_concat past _) _
        | cons added others =>
            have alone : others = [] :=
              List.eq_nil_of_length_eq_zero (Nat.le_zero.mp (Nat.le_of_succ_le_succ adds))
            subst alone
            exact importReadBack_reports passes reports rfl added

omit passes in
theorem importEntry_reports :
    Reporting unicode options (entries ++ [entry])
      (importEntry unicode options entries.length entry state) past := by
  unfold importEntry
  split
  case h_1 message read =>
      rintro _ state ⟨⟩
      have more := @Reports.addError _ _ _ _ _ entry reports message
      rwa [passesChecks, read] at more
  case h_2 error other read =>
      rintro _ state ⟨⟩
  case h_3 item read =>
      have passes : passesChecks unicode options entry = true := by
        rw [passesChecks, read]
        rfl
      simp only
      split
      case h_1 dup found skips =>
          rintro _ state ⟨⟩
          exact reports.addSkipped dup.id skips
      case h_2 dup found overwrites => exact importOverwrite_reports passes reports item dup
      case h_3 => exact importCreate_reports passes reports item

omit passes in
/-- By induction on what is left of the batch: each entry keeps the report. -/
theorem importEntries_reports (rest : List (Dict String Json)) :
    Reporting unicode options (entries ++ rest)
      (importEntries unicode options entries.length rest state) past := by
  induction rest generalizing entries state past with
  | nil =>
      rintro _ state ⟨⟩
      rw [List.append_nil]
      exact reports
  | cons entry rest induction =>
      refine Fallible.safeWhile_bind (importEntry_reports reports) ?_ ?_
      · intro later error _ state raised
        cases raised
      · intro later state reported
        have tail := induction (reported state rfl)
        rwa [List.length_append, List.append_assoc] at tail

end Entries

/-! The reads before the loop, and the whole call. -/

section Payload

variable {unicode : Unicode} {options : ImportOptions} {past : Trace effects}

/-- Code that stores nothing, whatever it is told. -/
abbrev StoresNothing {α : Type} (action : Action α) (past : Trace effects) : Prop :=
  SafeWhile AddsOne (fun _ _ => True)
    (fun later _ => storingCalls later = storingCalls past) action past

theorem listAll_storesNothing (space : String) (limit : Nat) :
    StoresNothing (listAll space limit) past := by
  have grows : ∀ (later : Trace effects) (effect : Effect) (reply : effect.Reply),
      AsksForSome space effect → storingCalls later = storingCalls past →
        storingCalls (later ++ [⟨effect, reply⟩]) = storingCalls past := by
    intro later effect reply asks same
    rw [storingCalls_concat]
    cases effect with
    | audit entry => exact asks.elim
    | backend call =>
        obtain ⟨count, cursor, -, rfl⟩ := asks
        exact same
  exact Safe.mono (Safe.maintain grows rfl (listAllFrom_bounded (Nat.zero_le limit)))
    (fun _ _ _ _ => trivial) fun _ _ same _ => same.1

theorem buildDedupIndex_storesNothing (space : String) (limit : Nat) :
    StoresNothing (buildDedupIndex unicode space limit) past :=
  Fallible.safeWhile_bind (listAll_storesNothing space limit) (fun _ _ same => same)
    fun _ _ same _ => same

theorem importPayload_reports (entries : List (Dict String Json)) (limit : Nat) :
    SafeWhile AddsOne (fun _ _ => True) (fun later outcome =>
        ∀ value, outcome = .ok value →
          Reports (passesChecks unicode options) options.onConflict entries value
            (storingCalls later))
      (importPayload unicode options entries limit) [] := by
  have able : StoresNothing (refuseOnConflict options.onConflict) [] := by
    unfold refuseOnConflict
    split
    · refine SafeWhile.ask trivial fun reply _ => ?_
      cases reply with
      | error error => exact fun _ => rfl
      | ok capabilities =>
          simp only [Program.done_bind]
          split
          · exact fun _ => rfl
          · exact fun _ => rfl
    · exact fun _ => rfl
  have stores : ∀ past existing incomplete, storingCalls past = 0 →
      SafeWhile AddsOne (fun _ _ => True) (fun later outcome =>
        ∀ value, outcome = .ok value →
          Reports (passesChecks unicode options) options.onConflict entries value
            (storingCalls later)) (do
        let state ← importEntries unicode options 0 entries
          { existing, outcome := { dedupIncomplete := incomplete } }
        return state.outcome : Action ImportOutcome) past := by
    intro past existing incomplete none
    have start : Reports (passesChecks unicode options) options.onConflict []
        { dedupIncomplete := incomplete } (storingCalls past) :=
      ⟨.refl _, .nil, .nil, .nil, fun _ => rfl, none⟩
    refine Fallible.safeWhile_bind (@importEntries_reports unicode options []
      { existing, outcome := { dedupIncomplete := incomplete } } past start entries) ?_ ?_
    · intro later error _ value raised
      cases raised
    · rintro later state reported _ value ⟨⟩
      exact reported state rfl
  refine Fallible.safeWhile_bind able ?_ fun later _ none => ?_
  · intro later error _ value raised
    cases raised
  · simp only
    split
    · exact stores later _ _ none
    · refine Fallible.safeWhile_bind
        (buildDedupIndex_storesNothing options.userId limit) ?_ ?_
      · intro later error _ value raised
        cases raised
      · intro later' read same
        exact stores later' _ _ (same.trans none)

end Payload

/-- On a backend whose `add` reports at most one memory, whatever else it
answers or raises, an import that returns has reported every entry once. -/
theorem import_reports_every_entry_once (unicode : Unicode) (options : ImportOptions)
    (entries : List (Dict String Json)) (limit : Nat) (environment : Environment)
    (adds : ∀ past effect, AddsOne ⟨effect, environment past effect⟩) :
    let run := Program.against environment (importPayload unicode options entries limit) []
    ∀ outcome, run.2 = .ok outcome →
      Reports (passesChecks unicode options) options.onConflict entries outcome
        (storingCalls run.1) := by
  intro run outcome returned
  have safe := @importPayload_reports unicode options entries limit
  have reported := safe.post_of_against adds (by simp)
  exact reported outcome returned

/-- A backend that holds `x` and can't take `down`. -/
def holdingX : Environment
  | _, .backend (.listMemories ..) =>
      .ok { memories := [{
        id := "a", content := "x", partition := "s"
        system := { space := some (.str "s") } }] }
  | _, .backend (.add _ content ..) =>
      if content = "down" then .error (.memoryAPIError 503 "")
      else .ok (.many [{ id := "b" }])
  | _, .backend (.get ..) =>
      .ok (some {
        id := "b", content := "y", partition := "s"
        system := { space := some (.str "s") } })
  | _, .backend _ => .error (.other "NotImplementedError")
  | _, .audit _ => ()

/-- One entry of each kind: skipped, refused, failed and stored. -/
def mixed : List (Dict String Json) :=
  ["x", "", "down", "y"].map fun content => Dict.ofList [("content", .str content)]

theorem import_reports_every_entry_once_mixed :
    let options : ImportOptions := {
      userId := "s", onConflict := .skip, scopeValidator := none, stamp := none }
    let run := Program.against holdingX (importPayload .ascii options mixed 10) []
    Reports (passesChecks .ascii options) .skip mixed
      { imported := [⟨"b", 3, .created⟩], skipped := [⟨0, "a"⟩]
        errors := [⟨1, "content must not be empty"⟩, ⟨2, clientMessage 503⟩] }
      (storingCalls run.1) := by
  intro options run
  have adds : ∀ past effect, AddsOne ⟨effect, holdingX past effect⟩ := by
    intro past effect
    cases effect with
    | audit entry => trivial
    | backend call =>
        cases call with
        | add partition content scope metadata infer system =>
            cases infer with
            | true => trivial
            | false =>
                by_cases down : content = "down"
                · simp [AddsOne, holdingX, down]
                · simp [AddsOne, holdingX, down, AddReturn.items]
        | _ => trivial
  exact import_reports_every_entry_once .ascii options mixed 10 holdingX adds
    { imported := [⟨"b", 3, .created⟩], skipped := [⟨0, "a"⟩]
      errors := [⟨1, "content must not be empty"⟩, ⟨2, clientMessage 503⟩] } (by decide +kernel)

end Memcp
