import Memcp.Policy.Guarantees

/-!
Complete reads.  A read of every page is described against a backend that
answers as it likes, and against one that pages through a fixed list.
-/

namespace Memcp

open Python Interaction

/-! Backends that page through a list. -/

/-- The pages a reader may be given that has read the first `read` memories of
`all` and asks for `count` more. -/
structure ListResult.Continues (all : List Memory) (read count : Nat)
    (page : ListResult) : Prop where
  size : page.memories.length ≤ count
  progress : read < all.length → page.memories ≠ []
  next : page.memories = (all.drop read).take page.memories.length
  cursor : page.nextCursor.isSome ↔ read + page.memories.length < all.length

/-- The last calls of `past` read `read` memories page by page, and `cursor`
goes on from there. -/
inductive Walked (environment : Environment) (space : String) :
    Trace effects → Nat → Option String → Prop
  | start (past : Trace effects) : Walked environment space past 0 none
  | next {past : Trace effects} {read : Nat} {cursor : Option String}
      (walked : Walked environment space past read cursor) {count : Int}
      {page : ListResult} {next : String}
      (answered : environment past
        (.backend (.listMemories space none count cursor)) = .ok page)
      (more : page.nextCursor = some next) :
      Walked environment space
        (past ++ [⟨.backend (.listMemories space none count cursor), .ok page⟩])
        (read + page.memories.length) (some next)

/-- The backend answers every reader of the space with a next page of `all`. -/
def Conforming (environment : Environment) (space : String) (all : List Memory) :
    Prop :=
  ∀ past read cursor, Walked environment space past read cursor →
    ∀ count : Nat, 0 < count → ∃ page : ListResult,
      environment past (.backend (.listMemories space none count cursor)) =
        .ok page ∧ page.Continues all read count

/-- Whether a reply is a page marked incomplete. -/
def replyIncomplete : (effect : Effect) → effect.Reply → Bool
  | .backend (.listMemories ..), .ok page => page.incomplete
  | _, _ => false

/-- Whether some page was marked incomplete. -/
def marked (past : Trace effects) : Bool :=
  past.any fun event => replyIncomplete event.call event.reply

/-! Reads of a backend that answers as it likes. -/

/-- A call for at least one memory of the whole space. -/
def AsksForSome (space : String) : Effect → Prop
  | .backend call =>
      ∃ (count : Nat) (cursor : Option String),
        0 < count ∧ call = .listMemories space none count cursor
  | .audit _ => False

theorem listAllFrom_bounded {space : String} {limit : Nat} {memories : List Memory}
    {incomplete : Bool} {cursor : Option String} {past : Trace effects}
    (room : memories.length ≤ limit) :
    Safe (fun _ => AsksForSome space)
      (fun later outcome =>
        later.length + memories.length ≤ past.length + (limit + 1) ∧
          ∀ result, outcome = .ok result → result.1.length ≤ limit)
      (listAllFrom space limit memories incomplete cursor) past := by
  induction left : limit + 1 - memories.length using Nat.strong_induction_on
    generalizing memories incomplete cursor past with
  | _ turns induction =>
    rw [listAllFrom_eq]
    have asked : Safe (fun _ => AsksForSome space)
        (fun later (_ : Except Exc ListResult) => later.length = past.length + 1)
        (Action.backend (.listMemories space none
          ((limit + 1 - memories.length : Nat) : Int) cursor)) past :=
      ⟨⟨_, _, by omega, rfl⟩, fun reply => List.length_append⟩
    refine Fallible.safe_bind asked (fun later error called => ?_)
      fun later page called => ?_
    · exact ⟨by omega, nofun⟩
    · split
      case isFalse => exact ⟨by omega, nofun⟩
      case isTrue =>
        split
        case isTrue =>
          refine ⟨by omega, ?_⟩
          rintro _ ⟨⟩
          exact List.length_take_le _ _
        case isFalse unfinished =>
          simp only [not_or, not_lt, List.length_append] at unfinished
          obtain ⟨-, some, room'⟩ := unfinished
          have added : 0 < page.memories.length := List.length_pos_iff.mpr some
          have rest := @induction (limit + 1 - (memories ++ page.memories).length)
            (by simp only [List.length_append]; omega) (memories ++ page.memories)
            (incomplete || page.incomplete) page.nextCursor later
            (by simpa using room') rfl
          refine Safe.mono rest (fun _ _ asks => asks) fun ended outcome bound => ?_
          refine ⟨?_, bound.2⟩
          have counted := bound.1
          simp only [List.length_append] at counted
          omega

/-! Reads of a backend that pages through a list. -/

theorem take_of_last {α : Type} {all : List α} {read limit : Nat}
    (last : read = limit + 1 ∨ all.length ≤ read) (room : read ≤ limit + 1) :
    all.take read = all.take (limit + 1) := by
  rcases last with rfl | last
  · rfl
  · rw [List.take_of_length_le last, List.take_of_length_le (by omega)]

section Pages

variable {environment : Environment} {space : String} {all : List Memory}
  {limit : Nat}

theorem ListResult.Continues.reads {read count : Nat} {page : ListResult}
    (continues : page.Continues all read count) :
    all.take read ++ page.memories = all.take (read + page.memories.length) := by
  rw [List.take_add, ← continues.next]

/-- The call of a turn that has read `read` memories. -/
abbrev listCall (space : String) (limit read : Nat) (cursor : Option String) :
    BackendCall :=
  .listMemories space none ((limit + 1 - read : Nat) : Int) cursor

theorem listAllFrom_answered {memories : List Memory} {incomplete : Bool}
    {cursor : Option String} {past : Trace effects} {page : ListResult}
    (answered : environment past
      (.backend (listCall space limit memories.length cursor)) = .ok page) :
    Program.against environment
      (listAllFrom space limit memories incomplete cursor) past =
      let past' := past ++
        [⟨.backend (listCall space limit memories.length cursor), .ok page⟩]
      if page.memories.all (·.inSpace space) then
        if page.nextCursor = none ∨ page.memories = [] ∨
            limit < (memories ++ page.memories).length then
          (past', .ok ((memories ++ page.memories).take limit,
            incomplete || page.incomplete ||
              limit < (memories ++ page.memories).length || page.nextCursor.isSome))
        else
          Program.against environment
            (listAllFrom space limit (memories ++ page.memories)
              (incomplete || page.incomplete) page.nextCursor) past'
      else (past', .error (.policyError .internalError internalErrorMsg)) := by
  rw [listAllFrom_eq, Fallible.against_bind]
  simp only [Action.backend, Program.call, Program.against, answered]
  split
  · split <;> rfl
  · rfl

/-- What a read of `all` up to `limit` is to end in. -/
def ReadsThrough (space : String) (all : List Memory) (limit : Nat)
    (run : Trace effects × Except Exc (List Memory × Bool)) : Prop :=
  run.2 =
    if (all.take (limit + 1)).all (·.inSpace space) then
      .ok (all.take limit, decide (limit < all.length) || marked run.1)
    else .error (.policyError .internalError internalErrorMsg)

theorem listAllFrom_conforming (conforming : Conforming environment space all)
    {past : Trace effects} {read : Nat} {cursor : Option String} {incomplete : Bool}
    (walked : Walked environment space past read cursor)
    (room : read ≤ limit) (inside : read ≤ all.length)
    (passed : (all.take read).all (·.inSpace space) = true)
    (noted : incomplete = marked past) :
    ReadsThrough space all limit (Program.against environment
      (listAllFrom space limit (all.take read) incomplete cursor) past) := by
  induction left : limit + 1 - read using Nat.strong_induction_on
    generalizing read incomplete cursor past with
  | _ turns induction =>
    have length : (all.take read).length = read := List.length_take_of_le inside
    obtain ⟨page, answered, continues⟩ :=
      conforming past read cursor walked (limit + 1 - read) (by omega)
    have given : read + page.memories.length ≤ limit + 1 := by
      have := continues.size
      omega
    have held : read + page.memories.length ≤ all.length := by
      have bound := congrArg List.length continues.next
      simp only [List.length_take, List.length_drop] at bound
      omega
    have reads := continues.reads
    have marks : (incomplete || page.incomplete) = marked (past ++
        [⟨.backend (listCall space limit read cursor), .ok page⟩]) := by
      simp [marked, noted, replyIncomplete]
    have answered' : environment past
        (.backend (listCall space limit (all.take read).length cursor)) =
          .ok page := by
      rw [length]
      exact answered
    have turn := @listAllFrom_answered environment space limit (all.take read)
      incomplete cursor past page answered'
    rw [reads, length, List.length_take_of_le held, marks] at turn
    rw [turn]
    simp only
    split
    case isFalse outside =>
      -- The failing page is part of what the check covers.
      have fails : ¬ (all.take (limit + 1)).all (·.inSpace space) = true := by
        intro inSpace
        apply outside
        have shorter : all.take (read + page.memories.length) <+:
            all.take (limit + 1) := List.take_prefix_take_left given
        rw [← reads] at shorter
        simp only [List.all_eq_true] at inSpace ⊢
        intro memory member
        exact inSpace memory (shorter.subset (List.mem_append_right _ member))
      exact (if_neg fails).symm
    case isTrue passes =>
      have passed' : (all.take (read + page.memories.length)).all
          (·.inSpace space) = true := by
        rw [← reads, List.all_append, passed, passes]
        rfl
      split
      case isTrue stops =>
        have last : read + page.memories.length = limit + 1 ∨
            all.length ≤ read + page.memories.length := by
          rcases stops with none | empty | full
          · right
            have done := continues.cursor
            simp only [none, Option.isSome_none, Bool.false_eq_true, false_iff,
              not_lt] at done
            exact done
          · right
            by_contra left
            exact continues.progress (by omega) empty
          · left
            omega
        have whole := take_of_last last given
        have same : (all.take (read + page.memories.length)).take limit =
            all.take limit := by
          rw [whole, List.take_take, min_eq_left (by omega)]
        have flag : (decide (limit < read + page.memories.length) ||
            page.nextCursor.isSome) = decide (limit < all.length) := by
          rw [Bool.eq_iff_iff]
          simp only [Bool.or_eq_true, decide_eq_true_eq, continues.cursor]
          omega
        unfold ReadsThrough
        rw [if_pos (whole ▸ passed'), same, Bool.or_assoc, flag, Bool.or_comm]
      case isFalse unfinished =>
        simp only [not_or, not_lt] at unfinished
        obtain ⟨more, some, room'⟩ := unfinished
        have added : 0 < page.memories.length := List.length_pos_iff.mpr some
        obtain ⟨next, more⟩ := Option.ne_none_iff_exists'.mp more
        rw [more]
        exact induction _ (by omega) (walked.next answered more) room' held passed'
          rfl rfl

theorem listAll_conforming (conforming : Conforming environment space all)
    {past : Trace effects} (unmarked : marked past = false) :
    ReadsThrough space all limit
      (Program.against environment (listAll space limit) past) :=
  listAllFrom_conforming conforming (.start past) (Nat.zero_le _) (Nat.zero_le _) rfl
    unmarked.symm

/-- A read that returned without a mark returned every memory of `all`. -/
theorem ReadsThrough.complete {later : Trace effects} {memories : List Memory}
    (reads : ReadsThrough space all limit (later, .ok (memories, false))) :
    memories = all := by
  unfold ReadsThrough at reads
  split at reads
  · simp only [Except.ok.injEq, Prod.mk.injEq] at reads
    obtain ⟨rfl, flag⟩ := reads
    have short : ¬ limit < all.length := by
      intro long
      simp [long] at flag
    exact List.take_of_length_le (by omega)
  · cases reads

theorem listAll_returned {past later : Trace effects} {memories : List Memory}
    {flag : Bool}
    (ran : Program.against environment (listAll space limit) past =
      (later, .ok (memories, flag))) :
    ∀ memory ∈ memories, Returned later memory := by
  obtain ⟨trace, extends', runs⟩ :=
    Program.runs_against environment (listAll space limit) past
  rw [ran] at extends' runs
  obtain rfl : later = past ++ trace := extends'
  have keeps := @listAll_keeps (localPolicy .ascii) ⟨"", ⟨space, .reader⟩⟩ past limit
  intro memory member
  exact (Safe.post_of_runs keeps runs _ rfl memory member).2.returned

end Pages

/-! Imports. -/

section Import

variable {unicode : Unicode} {options : ImportOptions} {past : Trace effects}
  {state : ImportState} {flag : Bool}

/-- Storing entries leaves the note on the dedup read as it is. -/
abbrev Noted (flag : Bool) (_ : Trace effects) (state : ImportState) : Prop :=
  state.outcome.dedupIncomplete = flag

/-- `action` calls the backend and nothing else, and `post` holds of what it
returns. -/
abbrev Action.Calls {α : Type} (post : Trace effects → α → Prop) (action : Action α)
    (past : Trace effects) : Prop :=
  Fallible.Keeps (fun _ effect => Effect.isCall effect = true) post action past

theorem backend_any (call : BackendCall) :
    Action.Calls (fun _ _ => True) (Action.backend call) past :=
  Action.keeps_backend rfl fun _ => trivial

theorem importReadBack_noted {index : Nat} {key : DedupKey} {items : List AddResult}
    (noted : Noted flag past state) :
    Action.Calls (Noted flag)
      (importReadBack options index key items state) past := by
  induction items generalizing past state with
  | nil => exact .pure noted
  | cons item items induction =>
      refine .bind (Action.keeps_attempt (backend_any _)) fun later result _ _ => ?_
      cases result with
      | error status => exact induction noted
      | ok stored => exact .check fun checked _ => induction noted

theorem importEntry_noted {index : Nat} {entry : Dict String Json}
    (noted : Noted flag past state) :
    Action.Calls (Noted flag)
      (importEntry unicode options index entry state) past := by
  unfold importEntry
  split
  · exact .pure noted
  · exact .throw _
  · simp only
    split
    · exact .pure noted
    · refine .bind (Action.keeps_attempt (backend_any _)) fun later result _ _ => ?_
      cases result with
      | error status => exact .pure noted
      | ok updated => exact .check fun checked _ => .pure noted
    · refine .bind (Action.keeps_attempt (backend_any _)) fun later result _ _ => ?_
      cases result with
      | error status => exact .pure noted
      | ok result =>
          cases result with
          | one item => exact importReadBack_noted noted
          | many items =>
              cases items with
              | nil => exact .pure noted
              | cons head tail => exact importReadBack_noted noted

theorem importEntries_noted {index : Nat} {entries : List (Dict String Json)}
    (noted : Noted flag past state) :
    Action.Calls (Noted flag)
      (importEntries unicode options index entries state) past := by
  induction entries generalizing index past state with
  | nil => exact .pure noted
  | cons entry entries induction =>
      exact .bind (importEntry_noted noted) fun _ _ _ noted => induction noted

theorem refuseOnConflict_unmarked (onConflict : OnConflict) :
    Action.Calls (fun later _ => marked later = false)
      (refuseOnConflict onConflict) [] := by
  unfold refuseOnConflict
  split
  · have supported : Action.Calls
        (fun later _ => marked later = false) (Action.backend .capabilities) [] :=
      Action.keeps_backend rfl fun _ => rfl
    refine .bind supported fun later capabilities _ unmarked => ?_
    split
    · exact .throw _
    · exact .pure unmarked
  · exact .pure rfl

variable {environment : Environment} {all : List Memory} {limit : Nat}

/-- An import whose entries are checked against the memories `existing`. -/
def importAgainst (unicode : Unicode) (options : ImportOptions)
    (existing : List Memory) (memories : List (Dict String Json)) :
    Action ImportOutcome := do
  let state ← importEntries unicode options 0 memories {
    existing := Dict.ofList (existing.map fun memory =>
      (dedupKey unicode memory.content (some memory.scope), memory)) }
  return state.outcome

theorem listAll_calls {space : String} {limit : Nat} :
    Action.Calls (fun _ _ => True) (listAll space limit) past := by
  refine Safe.mono (listAllFrom_bounded (Nat.zero_le limit)) ?_ fun _ _ _ _ _ => trivial
  intro later effect asks
  cases effect with
  | backend call => rfl
  | audit entry => exact asks.elim

theorem importPayload_calls {entries : List (Dict String Json)} {limit : Nat} :
    Action.Calls (fun _ _ => True)
      (importPayload unicode options entries limit) [] := by
  have store : ∀ past state, Action.Calls (fun _ _ => True) (do
      let state ← importEntries unicode options 0 entries state
      return state.outcome) past :=
    fun past state => .bind (importEntries_noted rfl) fun _ _ _ _ => .pure trivial
  have index : ∀ past, Action.Calls (fun _ _ => True)
      (buildDedupIndex unicode options.userId limit) past :=
    fun past => .bind listAll_calls fun _ _ _ _ => .pure trivial
  refine .bind (refuseOnConflict_unmarked _) fun later _ _ _ => ?_
  simp only
  split
  · exact store later _
  · exact .bind (index later) fun later _ _ _ => store later _

theorem importEntries_outcome_noted {seen later : Trace effects}
    {memories : List (Dict String Json)} {outcome : ImportOutcome}
    (noted : state.outcome.dedupIncomplete = flag)
    (ran : Program.against environment (do
      let state ← importEntries unicode options 0 memories state
      return state.outcome : Action ImportOutcome) seen = (later, .ok outcome)) :
    outcome.dedupIncomplete = flag := by
  obtain ⟨trace, grown, runs⟩ := Program.runs_against environment (do
    let state ← importEntries unicode options 0 memories state
    return state.outcome : Action ImportOutcome) seen
  rw [ran] at runs
  have keeps : Action.Calls
      (fun _ (outcome : ImportOutcome) => outcome.dedupIncomplete = flag) (do
        let state ← importEntries unicode options 0 memories state
        return state.outcome : Action ImportOutcome) seen :=
    .bind (importEntries_noted noted) fun _ _ _ noted => .pure noted
  exact Safe.post_of_runs keeps runs outcome rfl

/-- The dedup read of an import that returns, and the rest of its run. -/
theorem importPayload_reads {memories : List (Dict String Json)}
    {later : Trace effects} {outcome : ImportOutcome}
    (dedups : options.onConflict ≠ .duplicate)
    (ran : Program.against environment
      (importPayload unicode options memories limit) [] = (later, .ok outcome))
    (complete : outcome.dedupIncomplete = false) :
    ∃ refused seen existing, marked refused = false ∧
      Program.against environment (listAll options.userId limit) refused =
        (seen, .ok (existing, false)) ∧
      Program.against environment
        (importAgainst unicode options existing memories) seen =
          (later, .ok outcome) := by
  unfold importPayload at ran
  rw [Fallible.against_bind] at ran
  obtain ⟨trace, grown, runs⟩ :=
    Program.runs_against environment (refuseOnConflict options.onConflict) []
  have unmarked := Safe.post_of_runs (refuseOnConflict_unmarked options.onConflict) runs
  rcases refused : Program.against environment
    (refuseOnConflict options.onConflict) [] with ⟨past, answer⟩
  rw [refused] at ran grown unmarked
  cases answer with
  | error error => cases ran
  | ok =>
      simp only [if_neg dedups, buildDedupIndex] at ran
      rw [Fallible.against_bind, Fallible.against_bind] at ran
      rcases listed : Program.against environment
        (listAll options.userId limit) past with ⟨seen, answer⟩
      rw [listed] at ran
      cases answer with
      | error error => cases ran
      | ok result =>
          obtain ⟨existing, flag⟩ := result
          obtain rfl : outcome.dedupIncomplete = flag :=
            importEntries_outcome_noted rfl ran
          refine ⟨past, seen, existing, ?_, ?_, ?_⟩
          · rw [show past = [] ++ trace from grown]
            exact unmarked () rfl
          · rw [listed, complete]
          · rw [complete] at ran
            exact ran

end Import

theorem complete_reads_are_complete (unicode : Unicode) (environment : Environment)
    (space : String) (limit : Nat) :
    let run := Program.against environment (listAll space limit) []
    (run.1.length ≤ limit + 1 ∧ (∀ event ∈ run.1, AsksForSome space event.call) ∧
      ∀ result, run.2 = .ok result → result.1.length ≤ limit) ∧
    ∀ all, Conforming environment space all →
      ReadsThrough space all limit run ∧
      (∀ payload,
        (Program.against environment (exportPayload space limit) []).2 = .ok payload →
        payload.truncated = false →
        payload.memories = all.map serializeMemory ∧ payload.count = all.length) ∧
      ∀ options entries later outcome, options.userId = space →
        options.onConflict ≠ .duplicate →
        Program.against environment (importPayload unicode options entries limit) [] =
          (later, .ok outcome) →
        outcome.dedupIncomplete = false →
        ∃ seen, (∀ memory ∈ all, Returned seen memory) ∧
          Program.against environment (importAgainst unicode options all entries)
            seen = (later, .ok outcome) := by
  intro run
  refine ⟨?_, fun all conforming => ⟨?_, ?_, ?_⟩⟩
  · have bounded := @listAllFrom_bounded space limit [] false none [] (Nat.zero_le _)
    have ended := Safe.post_of_against bounded environment
    have counted : run.1.length + 0 ≤ 0 + (limit + 1) := ended.1
    refine ⟨by omega, ?_, ended.2⟩
    intro event member
    obtain ⟨before, after, split⟩ := List.append_of_mem member
    exact Safe.guard_of_against bounded environment split
  · exact listAll_conforming conforming rfl
  · intro payload returned complete
    have reads := @listAll_conforming environment space all limit conforming [] rfl
    rw [exportPayload, Fallible.against_bind] at returned
    rcases listed : Program.against environment (listAll space limit) [] with
      ⟨later, outcome⟩
    rw [listed] at returned reads
    cases outcome with
    | error error => cases returned
    | ok result =>
        obtain ⟨memories, truncated⟩ := result
        cases returned
        obtain rfl : truncated = false := complete
        obtain rfl := reads.complete
        exact ⟨rfl, rfl⟩
  · rintro options entries later outcome rfl dedups ran complete
    obtain ⟨past, seen, existing, unmarked, listed, rest⟩ :=
      importPayload_reads dedups ran complete
    have reads := @listAll_conforming environment options.userId all limit conforming
      past unmarked
    rw [listed] at reads
    obtain rfl := reads.complete
    exact ⟨seen, listAll_returned listed, rest⟩

/-! A space of two memories, read one a page. -/

def pagedAlpha : Memory := { id := "a", content := "alpha", partition := "s" }

def pagedBeta : Memory := { id := "b", content := "beta", partition := "s" }

/-- Pages of one memory; every id an add reports reads back as `alpha`. -/
def pagingTwo : Environment
  | _, .audit _ => ()
  | _, .backend (.listMemories _ _ _ none) =>
      .ok { memories := [pagedAlpha], nextCursor := some "1" }
  | _, .backend (.listMemories _ _ _ (some _)) => .ok { memories := [pagedBeta] }
  | _, .backend (.add ..) => .ok (.one { id := "a" })
  | _, .backend (.get ..) => .ok (some pagedAlpha)
  | _, .backend _ => .error (.memoryAPIError 500 "")

theorem conforming_pagingTwo : Conforming pagingTwo "s" [pagedAlpha, pagedBeta] := by
  intro past read cursor walked count some
  cases walked with
  | start =>
      refine ⟨_, rfl, ?_, ?_, rfl, ?_⟩ <;> simp
      omega
  | @next past read cursor walked _ page next answered more =>
      cases cursor with
      | none =>
          cases walked
          cases answered
          refine ⟨_, rfl, ?_, ?_, rfl, ?_⟩ <;> simp
          omega
      | some cursor =>
          cases answered
          cases more

theorem complete_reads_are_complete_two :
    let run := Program.against pagingTwo (listAll "s" 2) []
    let options : ImportOptions := {
      userId := "s"
      onConflict := .skip
      scopeValidator := none
      stamp := none }
    let outcome : ImportOutcome := { skipped := [{ index := 0, existingId := "b" }] }
    let entries := [Dict.ofList [("content", Json.str "beta")]]
    run.1.length ≤ 3 ∧ run.2 = .ok ([pagedAlpha, pagedBeta], false) ∧
      ∃ seen, (∀ memory ∈ [pagedAlpha, pagedBeta], Returned seen memory) ∧
        (Program.against pagingTwo (importAgainst .ascii options
          [pagedAlpha, pagedBeta] entries) seen).2 = .ok outcome := by
  intro run options outcome entries
  obtain ⟨bounded, conforming⟩ := complete_reads_are_complete .ascii pagingTwo "s" 2
  obtain ⟨reads, -, imports⟩ := conforming _ conforming_pagingTwo
  refine ⟨bounded.1, reads.trans (by decide +kernel), ?_⟩
  have skipped : (Program.against pagingTwo
      (importPayload .ascii options entries 2) []).2 = .ok outcome := by
    decide +kernel
  obtain ⟨seen, known, ran⟩ :=
    imports options entries _ outcome rfl nofun (Prod.ext rfl skipped) rfl
  exact ⟨seen, known, congrArg Prod.snd ran⟩

theorem duplicate_import_reads_nothing :
    let options : ImportOptions := {
      userId := "s"
      onConflict := .duplicate
      scopeValidator := none
      stamp := none }
    let run := Program.against pagingTwo (importPayload .ascii options
      [Dict.ofList [("content", .str "alpha")]] 10) []
    Conforming pagingTwo "s" [pagedAlpha, pagedBeta] ∧
      run.2 = .ok { imported := [{ id := "a", index := 0, action := .created }] } ∧
      ¬ Returned run.1 pagedBeta := by
  intro options run
  have others : pagedBeta ∉ run.1.flatMap fun event =>
      replyMemories event.call event.reply := by
    decide +kernel
  refine ⟨conforming_pagingTwo, by decide +kernel, ?_⟩
  rw [returned_iff]
  exact others

end Memcp
