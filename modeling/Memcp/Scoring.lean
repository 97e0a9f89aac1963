import Memcp.Backends.Tokenizer
import Memcp.Backends.Pairs
import Mathlib.Algebra.Order.Field.Rat
import Mathlib.Algebra.Order.BigOperators.Group.List
import Mathlib.Tactic.Linarith
import Mathlib.Tactic.Positivity
import Mathlib.Tactic.NormNum

/-!
The keyword score: every index and division it reaches is defined, it lies in
(0, 1], and more text around a content never lowers it.
-/

namespace Memcp.Keyword

open Python

variable {unicode : Unicode}

/-! The tokenizer leaves no boundary at either end. -/

theorem Bounded.concat {tokens : List Token} (bounded : Bounded tokens) {token : Token}
    (inside : token ≠ boundary) (between : List Token)
    (start : tokens = [] → between = []) : Bounded (tokens ++ between ++ [token]) := by
  constructor
  · by_cases none : tokens = []
    · simpa [none, start none] using inside
    · rw [List.append_assoc, List.head?_append_of_ne_nil _ none]
      exact bounded.1
  · simpa using inside

theorem seam_none (first : Option Token) : seam none first = [] := rfl

theorem Bounded.joined {tokens part : List Token} (bounded : Bounded tokens)
    (after : Bounded part) : Bounded (joined tokens part) := by
  by_cases noPart : part = []
  · simpa [noPart] using bounded
  · refine ⟨?_, getLast?_joined tokens noPart ▸ after.2⟩
    by_cases none : tokens = []
    · rw [none, nil_joined]
      exact after.1
    · rw [joined_of_ne_nil tokens noPart, List.append_assoc,
        List.head?_append_of_ne_nil _ none]
      exact bounded.1

theorem bounded_of_forall {tokens : List Token}
    (inside : ∀ token ∈ tokens, token ≠ boundary) : Bounded tokens :=
  ⟨fun first => inside _ (List.mem_of_head? first) rfl,
    fun last => inside _ (List.mem_of_getLast? last) rfl⟩

namespace Scan

/-- What a scan has read starts and ends with a token. -/
structure Sound (scan : Scan) : Prop where
  tokens : Bounded scan.tokens
  word : scan.word.head? ≠ some ' '

variable {scan : Scan}

theorem Sound.emit (sound : scan.Sound) {token : Token} (inside : token ≠ boundary) :
    (scan.emit token).Sound := by
  rw [emit_eq]
  refine ⟨sound.tokens.concat inside _ fun none => ?_, sound.word⟩
  rw [none, List.getLast?_nil, seam_none, ite_self]

theorem Sound.foldl_emit (sound : scan.Sound) {tokens : List Token}
    (inside : ∀ token ∈ tokens, token ≠ boundary) : (tokens.foldl Scan.emit scan).Sound := by
  induction tokens generalizing scan with
  | nil => exact sound
  | cons token rest induction =>
      obtain ⟨head, tail⟩ := List.forall_mem_cons.mp inside
      exact induction (sound.emit head) tail

/-- Tokens are written, none of them a boundary, and no word starts with a space. -/
structure Writes (scan after : Scan) : Prop where
  tokens : ∃ written : List Token, (∀ token ∈ written, token ≠ boundary) ∧
    after.tokens = (written.foldl Scan.emit scan).tokens
  word : after.word.head? ≠ some ' '

theorem Writes.rfl (word : scan.word.head? ≠ some ' ') : Writes scan scan :=
  ⟨⟨[], nofun, Eq.refl _⟩, word⟩

theorem Writes.letter {after : Scan} (writes : Writes scan after) {c : Char}
    (first : after.word = [] → c ≠ ' ') :
    Writes scan { after with word := after.word ++ [c] } := by
  refine ⟨writes.tokens, ?_⟩
  by_cases none : after.word = []
  · simpa [none] using first none
  · rw [List.head?_append_of_ne_nil _ none]
    exact writes.word

section Space

variable (space : unicode.isAlnum ' ' = false) (word : scan.word.head? ≠ some ' ')
include space word

theorem pending_inside : ∀ token ∈ scan.pending unicode, token ≠ boundary := by
  rintro token member rfl
  rcases List.mem_append.mp member with read | read
  · split at read
    · cases read
    · rw [← List.mem_singleton.mp read] at word
      exact word rfl
  · split at read
    · cases read
    · have letters := (List.mem_filter.mp read).2
      simp [boundary, space] at letters

theorem writes_flush : Writes scan (scan.flush unicode) := by
  rw [flush_eq]
  exact ⟨⟨_, pending_inside space word, rfl⟩, by simp⟩

theorem writes_emit {token : Token} (inside : token ≠ boundary) :
    Writes scan ((scan.flush unicode).emit token) := by
  rw [flush_eq, emit_with]
  refine ⟨⟨scan.pending unicode ++ [token], ?_, ?_⟩, by simp⟩
  · intro other member
    rcases List.mem_append.mp member with earlier | last
    · exact pending_inside space word other earlier
    · exact List.mem_singleton.mp last ▸ inside
  · rw [List.foldl_append]
    rfl

/-- What one step does to the tokens. -/
theorem writes_step (c : Char) : Writes scan (scan.step unicode c) := by
  have flushed := writes_flush space word
  unfold Scan.step
  split
  · exact .rfl word
  · split
    · exact ⟨flushed.tokens, flushed.word⟩
    · split
      · split
        · exact ⟨⟨[], nofun, rfl⟩, word⟩
        · exact ⟨flushed.tokens, flushed.word⟩
      · have again : (if scan.segment = [] then scan else scan.flush unicode).flush unicode =
            scan.flush unicode := by
          split
          · rfl
          · exact flush_flush scan
        have read : Writes scan (if scan.segment = [] then scan else scan.flush unicode) := by
          split
          · exact .rfl word
          · exact flushed
        simp only [again]
        generalize (if scan.segment = [] then scan else scan.flush unicode) = begun at read
        split
        · rename_i run
          split
          · apply writes_emit space word
            rintro same
            rw [(List.cons.inj same).1] at run
            cases run
          · exact flushed
        · split
          · rename_i letter
            apply read.letter
            rintro - rfl
            rw [space] at letter
            cases letter
          · split
            · split
              · exact read
              · rename_i filled
                exact read.letter fun none => absurd none filled
            · exact ⟨flushed.tokens, flushed.word⟩

end Space

theorem Sound.writes (sound : scan.Sound) {after : Scan} (writes : Writes scan after) :
    after.Sound := by
  obtain ⟨written, inside, tokens⟩ := writes.tokens
  exact ⟨tokens ▸ (sound.foldl_emit inside).tokens, writes.word⟩

end Scan

theorem bounded_tokensOf (space : unicode.isAlnum ' ' = false) (text : List Char) :
    Bounded (tokensOf unicode text) := by
  have sound : (text.foldl (Scan.step unicode) {}).Sound :=
    List.foldlRecOn text _ ⟨bounded_of_forall nofun, nofun⟩
      fun _ sound c _ => sound.writes (Scan.writes_step space sound.word c)
  exact (sound.writes (Scan.writes_flush space sound.word)).tokens

theorem bounded_asciiTokens (text : List Char) : Bounded (asciiTokens text) := by
  refine bounded_of_forall fun token member same => ?_
  have plain := forall_of_mem_runsFrom (by simp) (fun _ _ keeps => keeps) member
  have bad := plain ' ' (by rw [same]; exact List.mem_singleton_self _)
  cases bad

theorem bounded_tokenize (space : unicode.isAlnum ' ' = false) (text : List Char) :
    Bounded (tokenize unicode text) := by
  rw [tokenize]
  split
  · exact bounded_asciiTokens _
  · refine List.foldlRecOn _ _ (bounded_of_forall (by simp)) fun tokens bounded piece _ => ?_
    rw [addPiece_eq, pieceTokens]
    split
    · exact bounded.joined (bounded_asciiTokens piece)
    · exact bounded.joined (bounded_tokensOf space piece)

/-! What Python raises where an index or a division is not defined. -/

inductive Undefined where
  | indexError
  | zeroDivisionError
deriving DecidableEq

namespace Raising

/-- `items[index]`. -/
def item {α : Type} (items : List α) (index : Int) : Except Undefined α :=
  match itemAt items index with
  | some item => .ok item
  | none => .error .indexError

def appendLast (groups : List (List Token)) (token : Token) :
    Except Undefined (List (List Token)) := do
  let group ← item groups (-1)
  return groups.dropLast ++ [group ++ [token]]

def groupsFrom : (previous : Token) → (groups : List (List Token)) →
    List Token → Except Undefined (List (List Token))
  | _, groups, [] => .ok groups
  | previous, groups, token :: rest =>
      if token = boundary then groupsFrom token groups rest
      else if previous ≠ boundary ∧ (isRunToken previous ∨ isRunToken token) then do
        groupsFrom token (← appendLast groups token) rest
      else groupsFrom token (groups ++ [[token]]) rest

def wordsAndRuns (tokens : List Token) :
    Except Undefined (List Token × List (List Token)) := do
  let groups ← groupsFrom boundary [] tokens
  return (tokens.filter fun token => token ≠ boundary && !isRunToken token,
    groups.filter (·.any isRunToken))

/-- Whether the token at a position stays: only a boundary looks at its
neighbours, and at the second one only if the first is a run token. -/
def keptAt (tokens : List Token) (entry : Token × Nat) : Except Undefined Bool := do
  if entry.1 ≠ boundary then return true
  else if isRunToken (← item tokens ((entry.2 : Int) - 1)) then
    return isRunToken (← item tokens ((entry.2 : Int) + 1))
  else return false

def unspacedFrom (tokens : List Token) :
    List (Token × Nat) → Except Undefined (List Token)
  | [] => .ok []
  | entry :: rest => do
      let keeps ← keptAt tokens entry
      let kept ← unspacedFrom tokens rest
      return if keeps then entry.1 :: kept else kept

def unspaced (tokens : List Token) : Except Undefined (List Token) :=
  unspacedFrom tokens tokens.zipIdx

/-- `credit / count`. -/
def divide (credit : ℚ) (count : Nat) : Except Undefined ℚ :=
  if count = 0 then .error .zeroDivisionError else .ok (credit / (count : ℚ))

def runCredit (held : List Token) (run : List Token) : Except Undefined ℚ :=
  divide ((pairs run).countP (· ∈ held)) (pairs run).length

def score (unicode : Unicode) (query content : String) :
    Except Undefined (Option ℚ) := do
  let queryTokens := tokenize unicode query.toList
  let contentTokens := tokenize unicode content.toList
  if isPhraseOf queryTokens contentTokens then return some 1
  else
    let (queryWords, queryRuns) ← wordsAndRuns queryTokens
    let counted := countedWords unicode query.toList queryWords queryRuns
    if counted = [] ∧ queryRuns = [] then return none
    else
      let (contentWords, contentRuns) ← wordsAndRuns (← unspaced contentTokens)
      let held := contentPairs contentRuns
      let credits ← queryRuns.mapM (runCredit held)
      let credit : ℚ := (counted.countP (tokenMatches · contentWords) : ℚ) + credits.sum
      if credit = 0 then return none
      else return some (← divide credit (counted.length + queryRuns.length))

theorem item_of_some {α : Type} {items : List α} {index : Int} {found : α}
    (within : itemAt items index = some found) : item items index = .ok found := by
  rw [item, within]

theorem appendLast_eq {groups : List (List Token)} (filled : groups ≠ [])
    (token : Token) : appendLast groups token = .ok (Keyword.appendLast groups token) := by
  obtain ⟨front, group, rfl⟩ := List.eq_nil_or_concat groups |>.resolve_left filled
  have last : itemAt (front ++ [group]) (-1) = some group := by
    simp [itemAt]
  rw [List.concat_eq_append, appendLast, item_of_some last]
  simp [Keyword.appendLast]

theorem groupsFrom_eq {previous : Token} {groups : List (List Token)}
    (filled : previous ≠ boundary → groups ≠ []) (tokens : List Token) :
    groupsFrom previous groups tokens =
      .ok (Keyword.groupsFrom previous groups tokens) := by
  induction tokens generalizing previous groups with
  | nil => rfl
  | cons token rest induction =>
      rw [groupsFrom, Keyword.groupsFrom]
      split
      · apply induction
        rename_i space
        exact fun inside => absurd space inside
      · split
        · rename_i linked
          rw [appendLast_eq (filled linked.1)]
          apply induction
          exact fun _ => by simp [Keyword.appendLast]
        · apply induction
          exact fun _ => by simp

theorem wordsAndRuns_eq (tokens : List Token) :
    wordsAndRuns tokens = .ok (Keyword.wordsAndRuns tokens) := by
  rw [wordsAndRuns, groupsFrom_eq fun none => absurd rfl none]
  rfl

theorem keptAt_eq {tokens : List Token} (bounded : Bounded tokens) {token : Token}
    {i : Nat} (at_ : tokens[i]? = some token) :
    keptAt tokens (token, i) = .ok (Keyword.keptAt tokens (token, i)) := by
  by_cases space : token = boundary
  · subst space
    obtain ⟨positive, below⟩ := bounded.inside at_
    obtain ⟨before, first⟩ : ∃ before, tokens[i - 1]? = some before :=
      ⟨_, List.getElem?_eq_getElem (by omega)⟩
    obtain ⟨after, second⟩ : ∃ after, tokens[i + 1]? = some after :=
      ⟨_, List.getElem?_eq_getElem below⟩
    rw [← itemAt_before tokens positive] at first
    rw [← itemAt_after] at second
    simp only [keptAt, Keyword.keptAt, item_of_some first, item_of_some second, first,
      second]
    cases run : isRunToken before <;> simp [run, bind, Except.bind, pure, Except.pure]
  · simp [keptAt, Keyword.keptAt, space]
    rfl

theorem unspaced_eq {tokens : List Token} (bounded : Bounded tokens) :
    unspaced tokens = .ok (Keyword.unspaced tokens) := by
  have read (entries : List (Token × Nat))
      (within : ∀ entry ∈ entries, tokens[entry.2]? = some entry.1) :
      unspacedFrom tokens entries =
        .ok ((entries.filter (Keyword.keptAt tokens)).map Prod.fst) := by
    induction entries with
    | nil => rfl
    | cons entry rest induction =>
        obtain ⟨head, tail⟩ := List.forall_mem_cons.mp within
        rw [unspacedFrom, keptAt_eq bounded head, induction tail, List.filter_cons]
        cases Keyword.keptAt tokens (entry.1, entry.2) <;> rfl
  exact read tokens.zipIdx fun entry member => List.mem_zipIdx_iff_getElem?.mp member

end Raising

theorem ne_nil_of_mem_runs {tokens : List Token} {run : List Token}
    (member : run ∈ (wordsAndRuns tokens).2) : run ≠ [] := by
  have marked := (List.mem_filter.mp member).2
  rintro rfl
  cases marked

theorem length_pairs {run : List Token} (filled : run ≠ []) : 0 < (pairs run).length := by
  rw [pairs]
  split
  · exact List.length_pos_iff.mpr filled
  · have long := List.length_pos_iff.mpr filled
    simp only [List.length_zipWith, List.length_tail]
    omega

namespace Raising

theorem divide_eq (credit : ℚ) {count : Nat} (positive : 0 < count) :
    divide credit count = .ok (credit / (count : ℚ)) :=
  if_neg (Nat.ne_of_gt positive)

theorem runCredit_eq (held : List Token) {run : List Token} (filled : run ≠ []) :
    runCredit held run = .ok (Keyword.runCredit held run) :=
  divide_eq _ (length_pairs filled)

theorem mapM_runCredit_eq (held : List Token) {runs : List (List Token)}
    (filled : ∀ run ∈ runs, run ≠ []) :
    runs.mapM (runCredit held) = .ok (runs.map (Keyword.runCredit held)) := by
  induction runs with
  | nil => rfl
  | cons run rest induction =>
      obtain ⟨head, tail⟩ := List.forall_mem_cons.mp filled
      rw [List.mapM_cons, runCredit_eq held head, induction tail]
      rfl

theorem units_pos {counted : List Token} {runs : List (List Token)}
    (some : ¬(counted = [] ∧ runs = [])) : 0 < counted.length + runs.length := by
  by_contra none
  apply some
  constructor
  · apply List.length_eq_zero_iff.mp
    omega
  · apply List.length_eq_zero_iff.mp
    omega

theorem score_eq (space : unicode.isAlnum ' ' = false) (query content : String) :
    score unicode query content = .ok (Keyword.score unicode query content) := by
  rw [score, Keyword.score]
  dsimp only
  split
  · rfl
  · rw [wordsAndRuns_eq, unspaced_eq (bounded_tokenize space _)]
    simp only [bind, Except.bind]
    split
    · rfl
    · rename_i some
      rw [wordsAndRuns_eq]
      dsimp only
      rw [mapM_runCredit_eq _ fun _ => ne_nil_of_mem_runs]
      simp only
      split
      · rfl
      · rw [divide_eq _ (units_pos some)]
        rfl

end Raising

theorem runCredit_nonneg (held run : List Token) : 0 ≤ runCredit held run := by
  rw [runCredit]
  positivity

theorem runCredit_le_one (held run : List Token) : runCredit held run ≤ 1 := by
  rw [runCredit]
  apply div_le_one_of_le₀
  · exact_mod_cast List.countP_le_length
  · positivity

/-- What a query's words and runs earn, at most one each. -/
theorem credit_bounds (counted contentWords held : List Token)
    (runs : List (List Token)) :
    let credit : ℚ := (counted.countP (tokenMatches · contentWords) : ℚ) +
      (runs.map (runCredit held)).sum
    0 ≤ credit ∧ credit ≤ ((counted.length + runs.length : Nat) : ℚ) := by
  have words : ((counted.countP (tokenMatches · contentWords) : Nat) : ℚ) ≤
      counted.length := by
    exact_mod_cast List.countP_le_length
  have low : 0 ≤ (runs.map (runCredit held)).sum := by
    apply List.sum_nonneg
    intro credit member
    obtain ⟨run, -, rfl⟩ := List.mem_map.mp member
    exact runCredit_nonneg held run
  have high : (runs.map (runCredit held)).sum ≤ (runs.length : ℚ) := by
    have each := List.sum_le_card_nsmul (runs.map (runCredit held)) 1 fun credit member => by
      obtain ⟨run, -, rfl⟩ := List.mem_map.mp member
      exact runCredit_le_one held run
    simpa using each
  push_cast
  constructor
  · positivity
  · linarith

theorem score_range {query content : String} {s : ℚ}
    (hit : score unicode query content = some s) : 0 < s ∧ s ≤ 1 := by
  rw [score] at hit
  dsimp only at hit
  split at hit
  · cases hit
    norm_num
  · split at hit
    · cases hit
    · rename_i some
      split at hit
      · cases hit
      · rename_i nonzero
        cases hit
        have units : (0 : ℚ) < ((_ + _ : Nat) : ℚ) :=
          Nat.cast_pos.mpr (Raising.units_pos some)
        obtain ⟨low, high⟩ := credit_bounds _ _ _ _
        exact ⟨div_pos (lt_of_le_of_ne low (Ne.symm nonzero)) units,
          (div_le_one units).mpr high⟩

/-- Python raises nothing, the score lies in (0, 1], and no group handed to
`pairs` is empty. -/
theorem score_defined_and_in_range (unicode : Unicode)
    (space : unicode.isAlnum ' ' = false) (query content : String) :
    Raising.score unicode query content = .ok (score unicode query content) ∧
      (∀ s, score unicode query content = some s → 0 < s ∧ s ≤ 1) ∧
      ∀ run ∈ (wordsAndRuns (tokenize unicode query.toList)).2 ++
        (wordsAndRuns (unspaced (tokenize unicode content.toList))).2, run ≠ [] := by
  refine ⟨Raising.score_eq space query content, fun _ => score_range, ?_⟩
  intro run member
  rcases List.mem_append.mp member with asked | held
  · exact ne_nil_of_mem_runs asked
  · exact ne_nil_of_mem_runs held

/-- 東京 against 東京都 and a word. -/
theorem score_defined_and_in_range_tokyo :
    score hanTables "東京 office" "東京都" = some (1 / 2) ∧ (0 : ℚ) < 1 / 2 ∧
      (1 / 2 : ℚ) ≤ 1 := by
  have half : score hanTables "東京 office" "東京都" = some (1 / 2) := by decide +kernel
  exact ⟨half, (score_defined_and_in_range hanTables rfl "東京 office" "東京都").2.1 _ half⟩

/-! More content holds more. -/

theorem piecewise_append (front back : List Char) :
    piecewise unicode (front ++ ' ' :: back) =
      joined (piecewise unicode front) (piecewise unicode back) := by
  rw [piecewise, splitSpace, runsOf, runsFrom_append rfl, List.foldl_append,
    foldl_addPiece]
  rfl

theorem tokenMatches_mono {queryToken : Token} {few many : List Token} (more : few ⊆ many)
    (hit : tokenMatches queryToken few = true) : tokenMatches queryToken many = true := by
  have any_mono {test : Token → Bool} (holds : few.any test = true) :
      many.any test = true := by
    obtain ⟨token, member, passes⟩ := List.any_eq_true.mp holds
    exact List.any_eq_true.mpr ⟨token, more member, passes⟩
  unfold tokenMatches at hit ⊢
  split
  · rfl
  · rename_i absent
    rw [if_neg fun member => absent (more member)] at hit
    split at hit
    · cases hit
    · rename_i long
      rw [if_neg long]
      split at hit
      · rename_i segmented
        rw [if_pos segmented]
        exact any_mono hit
      · rename_i segmented
        rw [if_neg segmented]
        exact any_mono hit

theorem runCredit_mono {few many : List Token} (more : few ⊆ many) (run : List Token) :
    runCredit few run ≤ runCredit many run := by
  rw [runCredit, runCredit]
  have counts : (pairs run).countP (· ∈ few) ≤ (pairs run).countP (· ∈ many) := by
    apply List.countP_mono_left
    intro pair _ held
    exact decide_eq_true (more (of_decide_eq_true held))
  gcongr

/-- What a content holds is held wherever its tokens stand. -/
theorem wordsAndRuns_mono {few many : List Token} (within : few <:+: many) :
    (wordsAndRuns few).1 ⊆ (wordsAndRuns many).1 ∧
      contentPairs (wordsAndRuns few).2 ⊆ contentPairs (wordsAndRuns many).2 := by
  constructor
  · intro word member
    obtain ⟨read, plain⟩ := List.mem_filter.mp member
    exact List.mem_filter.mpr ⟨within.subset read, plain⟩
  · intro pair member
    rw [mem_contentPairs] at member ⊢
    rcases member with ⟨x, y, ⟨near, linked⟩, rfl⟩ | ⟨read, run⟩
    · exact .inl ⟨x, y, ⟨near.trans within, linked⟩, rfl⟩
    · exact .inr ⟨within.subset read, run⟩

theorem credit_mono {fewWords manyWords few many : List Token}
    (words : fewWords ⊆ manyWords) (pairs : few ⊆ many) (counted : List Token)
    (runs : List (List Token)) :
    (counted.countP (tokenMatches · fewWords) : ℚ) + (runs.map (runCredit few)).sum ≤
      (counted.countP (tokenMatches · manyWords) : ℚ) +
        (runs.map (runCredit many)).sum := by
  apply add_le_add
  · apply Nat.cast_le.mpr
    apply List.countP_mono_left
    exact fun _ _ hit => tokenMatches_mono words hit
  · apply List.sum_le_sum
    exact fun run _ => runCredit_mono pairs run

theorem score_mono {query content whole : String} {left right : List Token}
    (bounded : Bounded (tokenize unicode content.toList))
    (around : tokenize unicode whole.toList =
      left ++ tokenize unicode content.toList ++ right)
    {s : ℚ} (hit : score unicode query content = some s) :
    ∃ t, score unicode query whole = some t ∧ s ≤ t := by
  by_cases phrase : isPhraseOf (tokenize unicode query.toList)
      (tokenize unicode whole.toList) = true
  · refine ⟨1, ?_, (score_range hit).2⟩
    rw [score]
    exact if_pos phrase
  · have noPhrase : ¬isPhraseOf (tokenize unicode query.toList)
        (tokenize unicode content.toList) = true := by
      intro inside
      apply phrase
      rw [isPhraseOf_iff] at inside ⊢
      exact ⟨inside.1, around ▸ inside.2.trans (List.infix_append _ _ _)⟩
    have more := wordsAndRuns_mono (infix_of_bounded left right bounded)
    rw [← around] at more
    rw [score] at hit ⊢
    dsimp only at hit ⊢
    rw [if_neg noPhrase] at hit
    rw [if_neg phrase]
    split at hit
    · cases hit
    · rename_i some
      rw [if_neg some]
      split at hit
      · cases hit
      · rename_i nonzero
        cases hit
        have positive := lt_of_le_of_ne' (credit_bounds _ _ _ _).1 nonzero
        have larger := credit_mono more.1 more.2
          (countedWords unicode query.toList (wordsAndRuns (tokenize unicode query.toList)).1
            (wordsAndRuns (tokenize unicode query.toList)).2)
          (wordsAndRuns (tokenize unicode query.toList)).2
        refine ⟨_, if_neg (ne_of_gt (positive.trans_le larger)), ?_⟩
        gcongr

/-- `a + " " + content + " " + b`. -/
def surrounded (a content b : String) : String := a ++ " " ++ content ++ " " ++ b

/-- NFKC and lowercasing treat the two sides of a space apart; NFKC leaves ASCII
as it is, and a space is no letter. -/
structure SplitsAtSpaces (unicode : Unicode) : Prop where
  nfkc : ∀ front back,
    unicode.nfkc (front ++ ' ' :: back) = unicode.nfkc front ++ ' ' :: unicode.nfkc back
  lower : ∀ front back,
    unicode.lower (front ++ ' ' :: back) =
      unicode.lower front ++ ' ' :: unicode.lower back
  nfkc_ascii : ∀ text : List Char, text.all isAscii = true → unicode.nfkc text = text
  space_alnum : unicode.isAlnum ' ' = false

theorem tokenize_surrounded (splits : SplitsAtSpaces unicode)
    (a content b : String) :
    tokenize unicode (surrounded a content b).toList =
      joined (joined (tokenize unicode a.toList) (tokenize unicode content.toList))
        (tokenize unicode b.toList) := by
  have text : (surrounded a content b).toList =
      a.toList ++ ' ' :: (content.toList ++ ' ' :: b.toList) := by
    simp [surrounded]
  rw [tokenize_eq_piecewise splits.nfkc_ascii, text, splits.nfkc, splits.nfkc, splits.lower,
    splits.lower, piecewise_append, piecewise_append, ← joined_assoc,
    tokenize_eq_piecewise splits.nfkc_ascii, tokenize_eq_piecewise splits.nfkc_ascii,
    tokenize_eq_piecewise splits.nfkc_ascii]

/-- A content that hits goes on hitting, no lower, whatever is written around
it, and a query inside a content is a phrase of it. -/
theorem more_text_never_hides (unicode : Unicode) (splits : SplitsAtSpaces unicode) :
    (∀ query a content b s, score unicode query content = some s →
      ∃ t, score unicode query (surrounded a content b) = some t ∧ s ≤ t) ∧
    ∀ query a b, tokenize unicode query.toList ≠ [] →
      score unicode query (surrounded a query b) = some 1 := by
  constructor
  · intro query a content b s hit
    obtain ⟨left, right, around⟩ := infix_joined (tokenize unicode a.toList)
      (tokenize unicode content.toList) (tokenize unicode b.toList)
    rw [← tokenize_surrounded splits] at around
    exact score_mono (bounded_tokenize splits.space_alnum _) around.symm hit
  · intro query a b some
    rw [score]
    apply if_pos
    rw [isPhraseOf_iff, tokenize_surrounded splits]
    exact ⟨some, infix_joined _ _ _⟩

theorem splitsAtSpaces_hanTables : SplitsAtSpaces hanTables where
  nfkc _ _ := rfl
  lower front back := by simp [hanTables, Unicode.ascii]
  nfkc_ascii _ _ := rfl
  space_alnum := rfl

/-- 京都 in a sentence of two scripts. -/
theorem more_text_never_hides_kyoto :
    (∃ t, score hanTables "京都 trip" (surrounded "東京" "京都" "office") = some t ∧
      (1 / 2 : ℚ) ≤ t) ∧
    score hanTables "京都" (surrounded "東京" "京都" "office") = some 1 := by
  have always := more_text_never_hides hanTables splitsAtSpaces_hanTables
  exact ⟨always.1 _ "東京" "京都" "office" (1 / 2) (by decide +kernel),
    always.2 "京都" "東京" "office" (by decide +kernel)⟩

end Memcp.Keyword
