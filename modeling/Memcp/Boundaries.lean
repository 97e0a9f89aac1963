import Memcp.Scoring

/-!
A boundary stands between two tokens, one of them a run character, so the loops
that look at a token's neighbours find them.
-/

namespace Memcp.Keyword

open Python

/-- Every boundary stands between two tokens that would pair without it. -/
def WellPlaced (tokens : List Token) : Prop :=
  ∀ front back, tokens = front ++ boundary :: back →
    ∃ before after, front.getLast? = some before ∧ back.head? = some after ∧
      Linked before after

namespace WellPlaced

variable {left right tokens : List Token}

theorem of_forall (inside : ∀ token ∈ tokens, token ≠ boundary) : WellPlaced tokens := by
  rintro front back rfl
  exact absurd rfl (inside boundary (by simp))

theorem append (placed : WellPlaced left) (after : WellPlaced right) :
    WellPlaced (left ++ right) := by
  intro front back split
  rcases List.append_eq_append_iff.mp split with ⟨rest, rfl, same⟩ | ⟨rest, rfl, same⟩
  · obtain ⟨x, y, last, head, linked⟩ := after rest back same
    exact ⟨x, y, by simp [List.getLast?_append, last], head, linked⟩
  · cases rest with
    | nil =>
        obtain ⟨x, y, last, _⟩ := after [] back same.symm
        cases last
    | cons first rest =>
        obtain ⟨rfl, rfl⟩ := List.cons.inj same
        obtain ⟨x, y, last, head, linked⟩ := placed front rest rfl
        exact ⟨x, y, last, by simp [List.head?_append, head], linked⟩

theorem between (placed : WellPlaced left) (after : WellPlaced right) {x y : Token}
    (last : left.getLast? = some x) (head : right.head? = some y) (linked : Linked x y) :
    WellPlaced (left ++ boundary :: right) := by
  intro front back split
  rcases List.append_eq_append_iff.mp split with ⟨rest, rfl, same⟩ | ⟨rest, rfl, same⟩
  · cases rest with
    | nil =>
        obtain ⟨-, rfl⟩ := List.cons.inj same
        exact ⟨x, y, by simpa using last, head, linked⟩
    | cons first rest =>
        obtain ⟨-, rfl⟩ := List.cons.inj same
        obtain ⟨x, y, last, head, linked⟩ := after rest back rfl
        refine ⟨x, y, ?_, head, linked⟩
        simp [List.getLast?_append, List.getLast?_cons, last]
  · cases rest with
    | nil =>
        obtain ⟨-, rfl⟩ := List.cons.inj same
        rw [List.append_nil] at last
        exact ⟨x, y, last, head, linked⟩
    | cons first rest =>
        obtain ⟨rfl, rfl⟩ := List.cons.inj same
        obtain ⟨x, y, last, head, linked⟩ := placed front rest rfl
        exact ⟨x, y, last, by simp [List.head?_append, head], linked⟩

theorem bounded (placed : WellPlaced tokens) : Bounded tokens := by
  constructor
  · intro head
    obtain ⟨rest, rfl⟩ := List.head?_eq_some_iff.mp head
    obtain ⟨x, y, last, _⟩ := placed [] rest rfl
    cases last
  · intro last
    obtain ⟨front, rfl⟩ := List.getLast?_eq_some_iff.mp last
    obtain ⟨x, y, _, head, _⟩ := placed front [] rfl
    cases head

theorem joined (placed : WellPlaced left) (after : WellPlaced right) :
    WellPlaced (joined left right) := by
  by_cases none : right = []
  · rw [none, joined_nil]
    exact placed
  · rw [joined_of_ne_nil left none, seam]
    split
    · rename_i beside
      obtain ⟨y, head⟩ := Option.isSome_iff_exists.mp (List.isSome_head?.mpr none)
      obtain ⟨x, last⟩ : ∃ x, left.getLast? = some x := by
        cases last : left.getLast? with
        | none => simp [last] at beside
        | some x => exact ⟨x, rfl⟩
      rw [last, head] at beside
      rw [List.append_assoc]
      refine placed.between after last head ⟨?_, ?_, by simpa using beside⟩
      · rintro rfl
        exact placed.bounded.2 last
      · rintro rfl
        exact after.bounded.1 head
    · rw [List.append_nil]
      exact placed.append after

end WellPlaced

/-! The tokenizer's token lists. -/

variable {unicode : Unicode}

theorem Scan.emit_tokens (scan : Scan) (token : Token) :
    (scan.emit token).tokens =
      if scan.gap then joined scan.tokens [token] else scan.tokens ++ [token] := by
  rw [emit_eq, joined_of_ne_nil _ (by simp)]
  cases scan.gap <;> simp

theorem WellPlaced.foldl_emit {scan : Scan} (placed : WellPlaced scan.tokens)
    {tokens : List Token} (inside : ∀ token ∈ tokens, token ≠ boundary) :
    WellPlaced (tokens.foldl Scan.emit scan).tokens := by
  induction tokens generalizing scan with
  | nil => exact placed
  | cons token rest induction =>
      obtain ⟨head, tail⟩ := List.forall_mem_cons.mp inside
      have single : WellPlaced [token] := .of_forall (by simpa using head)
      refine @induction (scan.emit token) ?_ tail
      rw [Scan.emit_tokens]
      split
      · exact placed.joined single
      · exact placed.append single

theorem WellPlaced.writes {scan after : Scan} (placed : WellPlaced scan.tokens)
    (writes : Scan.Writes scan after) : WellPlaced after.tokens := by
  obtain ⟨written, inside, tokens⟩ := writes.tokens
  rw [tokens]
  exact placed.foldl_emit inside

section Space

variable (space : unicode.isAlnum ' ' = false)
include space

theorem wellPlaced_tokensOf (text : List Char) : WellPlaced (tokensOf unicode text) := by
  have read : ∀ scan : Scan, WellPlaced scan.tokens → scan.word.head? ≠ some ' ' →
      WellPlaced ((text.foldl (Scan.step unicode) scan).flush unicode).tokens := by
    induction text with
    | nil =>
        intro scan placed word
        exact placed.writes (Scan.writes_flush space word)
    | cons c rest induction =>
        intro scan placed word
        have writes := Scan.writes_step space word c
        exact induction _ (placed.writes writes) writes.word
  exact read {} (.of_forall nofun) nofun

theorem wellPlaced_tokenize (text : List Char) : WellPlaced (tokenize unicode text) := by
  have ascii : ∀ text, WellPlaced (asciiTokens text) := by
    intro text
    apply WellPlaced.of_forall
    rintro token member rfl
    have plain := forall_of_mem_runsFrom (by simp) (fun _ _ keeps => keeps) member
    cases plain ' ' (List.mem_singleton_self _)
  rw [tokenize]
  split
  · exact ascii _
  · refine List.foldlRecOn _ _ (.of_forall (by simp)) fun tokens placed piece _ => ?_
    rw [addPiece_eq, pieceTokens]
    split
    · exact placed.joined (ascii piece)
    · exact placed.joined (wellPlaced_tokensOf space piece)

end Space

/-! What the loops over the tokens find beside one. -/

theorem groupsFrom_append (previous : Token) (groups : List (List Token))
    (before after : List Token) :
    groupsFrom previous groups (before ++ after) =
      groupsFrom (before.getLast?.getD previous) (groupsFrom previous groups before)
        after := by
  induction before generalizing previous groups with
  | nil => rfl
  | cons token rest induction =>
      have last : (token :: rest).getLast?.getD previous = rest.getLast?.getD token := by
        rw [List.getLast?_cons, Option.getD_some]
      rw [List.cons_append, groupsFrom, groupsFrom, last]
      split
      · exact induction _ _
      · split
        · exact induction _ _
        · exact induction _ _

theorem appendLast_groupsFrom (before : List Token) (token : Token) {previous : Token}
    (last : before.getLast?.getD boundary = previous) (inside : previous ≠ boundary) :
    before.getLast? = some previous ∧ ∃ front group,
      groupsFrom boundary [] before = front ++ [group ++ [previous]] ∧
        appendLast (groupsFrom boundary [] before) token =
          front ++ [group ++ [previous, token]] := by
  obtain ⟨ended, grouped⟩ := grouped_start.run before
  rw [List.nil_append] at grouped
  obtain rfl : previous = ended := last.symm.trans grouped.last
  obtain ⟨front, group, groups⟩ := grouped.ends inside
  refine ⟨(grouped.last_iff inside).mpr rfl, front, group, groups, ?_⟩
  simp [groups, appendLast]

section Neighbours

variable {α : Type} {front : List α} {before : α} (item : α) (back : List α)

theorem itemAt_previous (ends : front.getLast? = some before) :
    itemAt (front ++ item :: back) ((front.length : Int) - 1) = some before := by
  obtain ⟨front, rfl⟩ := List.getLast?_eq_some_iff.mp ends
  rw [itemAt_before _ (by simp)]
  simp

theorem itemAt_next (front : List α) :
    itemAt (front ++ item :: back) ((front.length : Int) + 1) = back.head? := by
  rw [itemAt_after]
  simp [List.head?_eq_getElem?, List.getElem?_append_right]

end Neighbours

theorem WellPlaced.beside {tokens : List Token} (placed : WellPlaced tokens) {i : Nat}
    (space : tokens[i]? = some boundary) :
    0 < i ∧ ∃ before after, Linked before after ∧
      itemAt tokens ((i : Int) - 1) = some before ∧
      itemAt tokens ((i : Int) + 1) = some after := by
  obtain ⟨below, item⟩ := List.getElem?_eq_some_iff.mp space
  have split : tokens = tokens.take i ++ boundary :: tokens.drop (i + 1) := by
    rw [← item, List.cons_getElem_drop_succ, List.take_append_drop]
  have place : (tokens.take i).length = i := List.length_take_of_le below.le
  obtain ⟨before, after, last, head, linked⟩ := placed _ _ split
  have left := itemAt_previous boundary (tokens.drop (i + 1)) last
  have right := itemAt_next boundary (tokens.drop (i + 1)) (tokens.take i)
  rw [← split, place] at left right
  exact ⟨(placed.bounded.inside space).1, before, after, linked, left, right.trans head⟩

/-- Only the boundaries between run characters are left. -/
theorem WellPlaced.unspaced_split {tokens : List Token} (placed : WellPlaced tokens)
    {front back : List Token} (split : unspaced tokens = front ++ boundary :: back) :
    front.getLast?.any isRunToken = true ∧ back.head?.any isRunToken = true := by
  rw [unspaced_eq] at split
  obtain ⟨first, second, filtered, rfl, ends⟩ := List.map_eq_append_iff.mp split
  obtain ⟨⟨space, i⟩, rest, rfl, rfl, rfl⟩ := List.map_eq_cons_iff.mp ends
  obtain ⟨left, right, entries, rfl, shown⟩ := List.filter_eq_append_iff.mp filtered
  obtain ⟨dropped, later, rfl, refused, kept, rfl⟩ := List.filter_eq_cons_iff.mp shown
  rw [← List.append_assoc] at entries
  obtain ⟨before, rest, rfl, earlier, following⟩ := List.zipIdx_eq_append_iff.mp entries
  obtain ⟨token, after, rfl, place, rfl⟩ := List.zipIdx_eq_cons_iff.mp following.symm
  rw [Nat.zero_add] at place
  obtain ⟨rfl, rfl⟩ := Prod.mk.inj place
  obtain ⟨x, y, last, head, linked⟩ := placed before after rfl
  have runs : isRunToken x = true ∧ isRunToken y = true := by
    simpa [keptAt, itemAt_previous boundary after last, itemAt_next, head] using kept
  have inside : ∀ token i, token ≠ boundary →
      keptAt (before ++ boundary :: after) (token, i) = true := by
    intro token i inside
    simp [keptAt, inside]
  constructor
  · have first : left.filter (keptAt (before ++ boundary :: after)) =
        before.zipIdx.filter (keptAt (before ++ boundary :: after)) := by
      rw [← earlier, List.filter_append, List.filter_eq_nil_iff.mpr refused,
        List.append_nil]
    obtain ⟨init, split⟩ := List.getLast?_eq_some_iff.mp last
    have kept := inside x init.length linked.1
    rw [first]
    generalize keptAt (before ++ boundary :: after) = keep at kept
    rw [split, List.zipIdx_append, List.filter_append]
    simp [kept, runs.1]
  · obtain ⟨tail, split⟩ := List.head?_eq_some_iff.mp head
    have kept := inside y (0 + before.length + 1) linked.2.1
    generalize keptAt (before ++ boundary :: after) = keep at kept
    rw [split, List.zipIdx_cons, List.filter_cons_of_pos kept]
    simp [runs.2]

/-- Boundaries are well placed, and what reads the tokens beside them finds them. -/
theorem boundaries_are_well_placed (unicode : Unicode)
    (space : unicode.isAlnum ' ' = false) (text : List Char) :
    WellPlaced (tokenize unicode text) ∧
      (∀ i : Nat, (tokenize unicode text)[i]? = some boundary →
        0 < i ∧ ∃ before after, Linked before after ∧
          itemAt (tokenize unicode text) ((i : Int) - 1) = some before ∧
          itemAt (tokenize unicode text) ((i : Int) + 1) = some after) ∧
      (∀ front back, unspaced (tokenize unicode text) = front ++ boundary :: back →
        front.getLast?.any isRunToken = true ∧ back.head?.any isRunToken = true) ∧
      ∀ before token after, ∃ previous groups,
        before.getLast?.getD boundary = previous ∧
        groupsFrom boundary [] before = groups ∧
        groupsFrom boundary [] (before ++ token :: after) =
          groupsFrom previous groups (token :: after) ∧
        (token ≠ boundary → previous ≠ boundary →
          isRunToken previous = true ∨ isRunToken token = true →
          before.getLast? = some previous ∧
          groupsFrom boundary [] (before ++ token :: after) =
            groupsFrom token (appendLast groups token) after ∧
          ∃ front group, groups = front ++ [group ++ [previous]] ∧
            appendLast groups token = front ++ [group ++ [previous, token]]) := by
  have placed := wellPlaced_tokenize space text
  refine ⟨placed, fun i => placed.beside, fun front back => placed.unspaced_split, ?_⟩
  intro before token after
  have reached := groupsFrom_append boundary [] before (token :: after)
  refine ⟨_, _, rfl, rfl, reached, fun inside linked run => ?_⟩
  obtain ⟨last, front, group, groups, appended⟩ :=
    appendLast_groupsFrom before token rfl linked
  refine ⟨last, ?_, front, group, groups, appended⟩
  rw [reached, groupsFrom, if_neg inside, if_pos ⟨linked, run⟩]

theorem boundaries_are_well_placed_goTokyo :
    tokenize hanTables "東京 は Go".toList =
        [['東'], ['京'], boundary, ['は'], boundary, ['g', 'o']] ∧
      unspaced (tokenize hanTables "東京 は Go".toList) =
        [['東'], ['京'], boundary, ['は'], ['g', 'o']] ∧
      WellPlaced (tokenize hanTables "東京 は Go".toList) :=
  ⟨by decide +kernel, by decide +kernel,
    (boundaries_are_well_placed hanTables (by decide) "東京 は Go".toList).1⟩

end Memcp.Keyword
