import Memcp.Backends.Keyword
import Mathlib.Data.List.Infix

/-!
The pairs a content holds, read off its tokens: the neighbours of which one is
a run character, and the run characters themselves.
-/

namespace Memcp

theorem pair_infix_concat {α : Type} {x y last : α} {items : List α} :
    [x, y] <:+: items ++ [last] ↔
      [x, y] <:+: items ∨ items.getLast? = some x ∧ y = last := by
  rw [List.infix_concat_iff, List.suffix_concat_iff, or_comm]
  refine or_congr_right ?_
  constructor
  · rintro (none | ⟨front, same, ends⟩)
    · cases none
    · obtain ⟨rfl, rfl⟩ : front = [x] ∧ y = last := by
        have parts : front ++ [last] = [x] ++ [y] := same.symm
        simpa [eq_comm] using List.append_inj' parts rfl
      obtain ⟨before, rfl⟩ := ends
      simp
  · rintro ⟨final, rfl⟩
    obtain ⟨before, rfl⟩ := List.getLast?_eq_some_iff.mp final
    exact .inr ⟨[x], rfl, List.suffix_append _ _⟩

namespace Keyword

/-- Tokens that pair: words stand beside a run, never beside words. -/
def Linked (x y : Token) : Prop :=
  x ≠ boundary ∧ y ≠ boundary ∧ (isRunToken x = true ∨ isRunToken y = true)

/-- What the groups hold after the tokens read so far. -/
structure Grouped (read : List Token) (previous : Token)
    (groups : List (List Token)) : Prop where
  last : read.getLast?.getD boundary = previous
  ends : previous ≠ boundary → ∃ front group, groups = front ++ [group ++ [previous]]
  filled : ∀ group ∈ groups, group ≠ []
  neighbours : ∀ x y, (∃ group ∈ groups, [x, y] <:+: group) ↔
    [x, y] <:+: read ∧ Linked x y
  members : ∀ token, (∃ group ∈ groups, token ∈ group) ↔
    token ∈ read ∧ token ≠ boundary

theorem grouped_start : Grouped [] boundary [] where
  last := rfl
  ends := nofun
  filled := nofun
  neighbours x y := by simp
  members token := by simp

namespace Grouped

variable {read : List Token} {previous token : Token} {groups : List (List Token)}

theorem last_iff (grouped : Grouped read previous groups) {x : Token}
    (inside : x ≠ boundary) : read.getLast? = some x ↔ previous = x := by
  rw [← grouped.last]
  cases read.getLast? with
  | none => simpa using Ne.symm inside
  | some last => simp

theorem space (grouped : Grouped read previous groups) :
    Grouped (read ++ [boundary]) boundary groups where
  last := by simp
  ends := fun none => absurd rfl none
  filled := grouped.filled
  neighbours x y := by
    rw [grouped.neighbours, pair_infix_concat]
    constructor
    · exact fun ⟨within, linked⟩ => ⟨.inl within, linked⟩
    · rintro ⟨within | ⟨-, rfl⟩, linked⟩
      · exact ⟨within, linked⟩
      · exact absurd rfl linked.2.1
  members item := by
    rw [grouped.members]
    grind

theorem link (grouped : Grouped read previous groups) (inside : token ≠ boundary)
    (linked : previous ≠ boundary ∧ (isRunToken previous ∨ isRunToken token)) :
    Grouped (read ++ [token]) token (appendLast groups token) := by
  obtain ⟨front, group, rfl⟩ := grouped.ends linked.1
  have appended : appendLast (front ++ [group ++ [previous]]) token =
      front ++ [group ++ [previous] ++ [token]] := by
    simp [appendLast]
  rw [appended]
  refine ⟨by simp, fun _ => ⟨front, group ++ [previous], rfl⟩, ?_, fun x y => ?_,
    fun item => ?_⟩
  · intro part member
    rcases List.mem_append.mp member with member | member
    · exact grouped.filled part (List.mem_append_left _ member)
    · rw [List.mem_singleton.mp member]
      simp
  · rw [pair_infix_concat, or_and_right, ← grouped.neighbours]
    simp only [List.mem_append, List.mem_singleton, or_and_right, exists_or,
      exists_eq_left]
    rw [pair_infix_concat, List.getLast?_concat, Option.some_inj, or_assoc]
    refine or_congr_right (or_congr_right ?_)
    constructor
    · rintro ⟨rfl, rfl⟩
      have last := (grouped.last_iff linked.1).mpr rfl
      exact ⟨⟨last, rfl⟩, linked.1, inside, linked.2⟩
    · rintro ⟨⟨last, rfl⟩, pair⟩
      exact ⟨(grouped.last_iff pair.1).mp last, rfl⟩
  · have before := grouped.members item
    simp only [List.mem_append, List.mem_singleton, or_and_right, exists_or,
      exists_eq_left] at before ⊢
    grind

theorem start (grouped : Grouped read previous groups) (inside : token ≠ boundary)
    (apart : ¬(previous ≠ boundary ∧ (isRunToken previous ∨ isRunToken token))) :
    Grouped (read ++ [token]) token (groups ++ [[token]]) := by
  refine ⟨by simp, fun _ => ⟨groups, [], rfl⟩, ?_, fun x y => ?_, fun item => ?_⟩
  · intro part member
    rcases List.mem_append.mp member with member | member
    · exact grouped.filled part member
    · rw [List.mem_singleton.mp member]
      simp
  · rw [pair_infix_concat, or_and_right, ← grouped.neighbours]
    simp only [List.mem_append, List.mem_singleton, or_and_right, exists_or,
      exists_eq_left]
    refine or_congr_right ?_
    constructor
    · exact fun pair => absurd pair.length_le (by simp)
    · rintro ⟨⟨last, rfl⟩, pair⟩
      have same := (grouped.last_iff pair.1).mp last
      exact absurd (same ▸ ⟨pair.1, pair.2.2⟩) apart
  · have before := grouped.members item
    simp only [List.mem_append, List.mem_singleton, or_and_right, exists_or,
      exists_eq_left] at before ⊢
    grind

theorem run (grouped : Grouped read previous groups) (tokens : List Token) :
    ∃ last, Grouped (read ++ tokens) last (groupsFrom previous groups tokens) := by
  induction tokens generalizing read previous groups with
  | nil => exact ⟨previous, by simpa [groupsFrom] using grouped⟩
  | cons token rest induction =>
      rw [List.append_cons, groupsFrom]
      split
      · rename_i same
        subst same
        exact induction grouped.space
      · rename_i inside
        split
        · rename_i linked
          exact induction (grouped.link inside linked)
        · rename_i apart
          exact induction (grouped.start inside apart)

end Grouped

theorem mem_zipWith_tail {p : Token} (group : List Token) :
    p ∈ List.zipWith (· ++ ·) group group.tail ↔
      ∃ x y, [x, y] <:+: group ∧ p = x ++ y := by
  induction group with
  | nil => simp
  | cons first rest induction =>
      cases rest with
      | nil =>
          simp only [List.tail_cons, List.zipWith_nil_right, List.not_mem_nil, false_iff,
            not_exists, not_and]
          exact fun x y pair => absurd pair.length_le (by simp)
      | cons second rest =>
          simp only [List.tail_cons, List.zipWith_cons_cons, List.mem_cons,
            List.infix_cons_iff, or_and_right, exists_or] at induction ⊢
          rw [induction]
          refine or_congr_left ?_
          constructor
          · rintro rfl
            exact ⟨first, second, ⟨rest, rfl⟩, rfl⟩
          · rintro ⟨x, y, ⟨rest, same⟩, rfl⟩
            cases same
            rfl

theorem mem_contentPairs {tokens : List Token} {p : Token} :
    p ∈ contentPairs (wordsAndRuns tokens).2 ↔
      (∃ x y, ([x, y] <:+: tokens ∧ Linked x y) ∧ p = x ++ y) ∨
        p ∈ tokens ∧ isRunToken p = true := by
  obtain ⟨last, grouped⟩ := grouped_start.run tokens
  rw [List.nil_append] at grouped
  simp only [contentPairs, wordsAndRuns, List.mem_append, List.mem_flatMap,
    List.mem_filter, List.mem_flatten]
  constructor
  · rintro (⟨group, ⟨member, run⟩, pair⟩ | ⟨⟨group, ⟨member, -⟩, within⟩, run⟩)
    · rw [pairs] at pair
      split at pair
      · rename_i lone
        obtain ⟨token, rfl⟩ := List.length_eq_one_iff.mp lone
        cases List.mem_singleton.mp pair
        rw [List.any_cons, List.any_nil, Bool.or_false] at run
        have read := (grouped.members p).mp ⟨[p], member, pair⟩
        exact .inr ⟨read.1, run⟩
      · obtain ⟨x, y, infix_, rfl⟩ := (mem_zipWith_tail group).mp pair
        exact .inl ⟨x, y, (grouped.neighbours x y).mp ⟨group, member, infix_⟩, rfl⟩
    · exact .inr ⟨((grouped.members p).mp ⟨group, member, within⟩).1, run⟩
  · rintro (⟨x, y, near, rfl⟩ | ⟨read, run⟩)
    · obtain ⟨group, member, within⟩ := (grouped.neighbours x y).mpr near
      have run : group.any isRunToken = true := by
        rw [List.any_eq_true]
        rcases near.2.2.2 with run | run
        · exact ⟨x, within.subset (by simp), run⟩
        · exact ⟨y, within.subset (by simp), run⟩
      have long := within.length_le
      refine .inl ⟨group, ⟨member, run⟩, ?_⟩
      rw [pairs, if_neg]
      · exact (mem_zipWith_tail group).mpr ⟨x, y, within, rfl⟩
      · rw [List.length_cons, List.length_cons] at long
        omega
    · have inside : p ≠ boundary := fun same => by subst same; cases run
      obtain ⟨group, member, within⟩ := (grouped.members p).mpr ⟨read, inside⟩
      exact .inr ⟨⟨group, ⟨member, List.any_eq_true.mpr ⟨p, within, run⟩⟩, within⟩, run⟩

/-! The content's boundaries next to a word are dropped. -/

/-- No boundary at either end, as the tokenizer leaves its tokens. -/
def Bounded (tokens : List Token) : Prop :=
  tokens.head? ≠ some boundary ∧ tokens.getLast? ≠ some boundary

theorem itemAt_before {α : Type} (items : List α) {i : Nat} (positive : 0 < i) :
    itemAt items ((i : Int) - 1) = items[i - 1]? := by
  rw [itemAt, if_neg (by omega)]
  congr 1
  omega

theorem itemAt_after {α : Type} (items : List α) (i : Nat) :
    itemAt items ((i : Int) + 1) = items[i + 1]? := by
  rw [itemAt, if_neg (by omega)]
  congr 1

theorem Bounded.inside {tokens : List Token} (bounded : Bounded tokens) {i : Nat}
    (space : tokens[i]? = some boundary) : 0 < i ∧ i + 1 < tokens.length := by
  have within := (List.getElem?_eq_some_iff.mp space).1
  constructor
  · rcases Nat.eq_zero_or_pos i with rfl | positive
    · rw [← List.head?_eq_getElem?] at space
      exact absurd space bounded.1
    · exact positive
  · by_contra last
    have same : i = tokens.length - 1 := by omega
    rw [same, ← List.getLast?_eq_getElem?] at space
    exact bounded.2 space

/-- Whether `unspaced` keeps the token at a position. -/
def keptAt (tokens : List Token) (entry : Token × Nat) : Bool :=
  entry.1 ≠ boundary ||
    ((itemAt tokens ((entry.2 : Int) - 1)).any isRunToken &&
      (itemAt tokens ((entry.2 : Int) + 1)).any isRunToken)

theorem unspaced_eq (tokens : List Token) :
    unspaced tokens = (tokens.zipIdx.filter (keptAt tokens)).map Prod.fst := rfl

theorem keptAt_within (left right : List Token) {tokens : List Token}
    (bounded : Bounded tokens) {token : Token} {i : Nat}
    (at_ : tokens[i]? = some token) :
    keptAt (left ++ tokens ++ right) (token, i + left.length) =
      keptAt tokens (token, i) := by
  have within (j : Nat) (below : j < tokens.length) :
      (left ++ tokens ++ right)[j + left.length]? = tokens[j]? := by
    rw [List.append_assoc, List.getElem?_append_right (by omega), Nat.add_sub_cancel,
      List.getElem?_append_left below]
  by_cases space : token = boundary
  · subst space
    obtain ⟨positive, below⟩ := bounded.inside at_
    have before := within (i - 1) (by omega)
    have after := within (i + 1) below
    rw [show i - 1 + left.length = i + left.length - 1 by omega] at before
    rw [show i + 1 + left.length = i + left.length + 1 by omega] at after
    simp only [keptAt, itemAt_before _ positive, itemAt_after,
      itemAt_before _ (show 0 < i + left.length by omega), before, after]
  · simp [keptAt, space]

/-- The same boundaries are dropped whatever stands around the tokens. -/
theorem infix_of_bounded (left right : List Token) {tokens : List Token}
    (bounded : Bounded tokens) :
    unspaced tokens <:+: unspaced (left ++ tokens ++ right) := by
  have middle : ((tokens.zipIdx left.length).filter
      (keptAt (left ++ tokens ++ right))).map Prod.fst = unspaced tokens := by
    have shifted := List.map_snd_add_zipIdx_eq_zipIdx (l := tokens) (n := left.length)
      (k := 0)
    rw [Nat.add_zero] at shifted
    rw [← shifted, List.filter_map, List.map_map, unspaced_eq]
    have same : tokens.zipIdx.filter (keptAt (left ++ tokens ++ right) ∘
        Prod.map id (· + left.length)) = tokens.zipIdx.filter (keptAt tokens) :=
      List.filter_congr fun entry member =>
        keptAt_within left right bounded (List.mem_zipIdx_iff_getElem?.mp member)
    rw [same]
    rfl
  rw [unspaced_eq (left ++ tokens ++ right), List.zipIdx_append, List.zipIdx_append,
    List.filter_append, List.filter_append, List.map_append, List.map_append,
    Nat.zero_add, middle]
  exact List.infix_append _ _ _

theorem isPhraseOf_iff {query content : List Token} :
    isPhraseOf query content = true ↔ query ≠ [] ∧ query <:+: content := by
  simp only [isPhraseOf, ne_eq, Bool.and_eq_true, decide_eq_true_eq, List.any_eq_true,
    List.mem_range]
  refine and_congr_right fun _ => ?_
  constructor
  · rintro ⟨i, -, same⟩
    exact same ▸ (List.take_prefix _ _).isInfix.trans (List.drop_suffix _ _).isInfix
  · rintro ⟨front, back, rfl⟩
    exact ⟨front.length, by simp; omega, by simp⟩

end Keyword

end Memcp
