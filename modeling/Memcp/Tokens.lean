import Memcp.Backends.Tokenizer
import Mathlib.Data.List.Induction

/-!
The tokens of a text without dictionary scripts hold its letters and digits,
each once and in order.
-/

namespace Memcp.Keyword

open Python

/-- What the tables say of the characters that stand in no word. -/
structure Wordless (unicode : Unicode) : Prop where
  format : ∀ c, unicode.category c = "Cf" → unicode.isAlnum c = false
  space : unicode.isAlnum ' ' = false

/-- A character of the per-character ranges, alone. -/
def IsRun (token : Token) : Prop := ∃ c, isUnspaced c = true ∧ token = [c]

/-- A word starts with a letter or a digit and holds no run character. -/
structure IsWord (unicode : Unicode) (token : Token) : Prop where
  starts : token.head?.any unicode.isAlnum = true
  spaced : ∀ c ∈ token, isUnspaced c = false

/-- The characters of the tokens, without the boundaries. -/
def held (tokens : List Token) : List Char :=
  (tokens.filter fun token => token ≠ boundary).flatten

theorem held_append (left right : List Token) :
    held (left ++ right) = held left ++ held right := by
  rw [held, List.filter_append, List.flatten_append, held, held]

theorem held_seam (last first : Option Token) : held (seam last first) = [] := by
  unfold seam
  split
  · rfl
  · rfl

variable {unicode : Unicode}

theorem IsWord.ne_boundary (tables : Wordless unicode) {token : Token}
    (word : IsWord unicode token) : token ≠ boundary := by
  rintro rfl
  have starts := word.starts
  rw [boundary, List.head?_cons, Option.any_some, tables.space] at starts
  cases starts

theorem IsRun.ne_boundary {token : Token} (run : IsRun token) : token ≠ boundary := by
  obtain ⟨c, unspaced, rfl⟩ := run
  intro same
  obtain rfl := List.head_eq_of_cons_eq same
  cases unspaced

theorem not_isWordMark {c : Char} (plain : isSegmentedChar c = false) :
    isWordMark c = false := by
  simp only [isSegmentedChar, Bool.or_eq_false_iff, Bool.and_eq_false_iff,
    decide_eq_false_iff_not] at plain
  simp only [isWordMark, List.mem_cons, List.not_mem_nil, or_false, decide_eq_false_iff_not]
  omega

namespace Scan

/-- A scan that has read `text`, of which it holds the letters and digits. -/
structure Reads (unicode : Unicode) (text : List Char) (scan : Scan) : Prop where
  tokens : ∀ token ∈ scan.tokens,
    token = boundary ∨ IsRun token ∨ IsWord unicode token
  word : scan.word = [] ∨ IsWord unicode scan.word
  segment : scan.segment = []
  letters : (held scan.tokens ++ scan.word).filter unicode.isAlnum =
    text.filter unicode.isAlnum

variable {text : List Char} {scan : Scan}

theorem Reads.empty : Reads unicode [] {} :=
  ⟨by simp, .inl rfl, rfl, rfl⟩

/-- A character that is neither a letter nor a digit adds nothing. -/
theorem Reads.pass (reads : scan.Reads unicode text) {c : Char}
    (other : unicode.isAlnum c = false) : scan.Reads unicode (text ++ [c]) := by
  refine ⟨reads.tokens, reads.word, reads.segment, ?_⟩
  rw [reads.letters, List.filter_append]
  simp [other]

theorem Reads.gap (reads : scan.Reads unicode text) :
    ({ scan with gap := true } : Scan).Reads unicode text :=
  ⟨reads.tokens, reads.word, reads.segment, reads.letters⟩

theorem held_emit (scan : Scan) {token : Token} (inside : token ≠ boundary) :
    held (scan.emit token).tokens = held scan.tokens ++ token := by
  have between : held (if scan.gap = true then
      seam scan.tokens.getLast? (some token) else []) = [] := by
    split
    · exact held_seam _ _
    · rfl
  have last : held [token] = token := by
    simp [held, inside]
  rw [emit_eq]
  simp only [held_append, between, last, List.append_nil]

/-- Between the tokens stand boundaries only. -/
theorem mem_emit {scan : Scan} {token other : Token}
    (member : other ∈ (scan.emit token).tokens) :
    other ∈ scan.tokens ∨ other = boundary ∨ other = token := by
  rw [emit_eq] at member
  simp only [List.mem_append, List.mem_singleton] at member
  rcases member with (earlier | between) | last
  · exact .inl earlier
  · refine .inr (.inl ?_)
    unfold seam at between
    split at between
    · split at between
      · exact List.mem_singleton.mp between
      · cases between
    · cases between
  · exact .inr (.inr last)

theorem Reads.flush (tables : Wordless unicode) (reads : scan.Reads unicode text) :
    (scan.flush unicode).Reads unicode text := by
  have words : scan.flushWord.Reads unicode text := by
    unfold flushWord
    split
    · exact reads
    · rename_i filled
      have word := reads.word.resolve_left filled
      refine ⟨?_, .inl rfl, (emit_segment scan _).trans reads.segment, ?_⟩
      · intro token member
        rcases mem_emit member with earlier | same | rfl
        · exact reads.tokens token earlier
        · exact .inl same
        · exact .inr (.inr word)
      · rw [held_emit scan (word.ne_boundary tables), List.append_nil]
        exact reads.letters
  rw [Scan.flush, flushSegment, if_pos words.segment]
  exact words

/-- A run character is a token, or a sign that is dropped. -/
theorem Reads.run (reads : scan.Reads unicode text)
    (noWord : scan.word = []) {c : Char} (run : isUnspaced c = true) :
    (scan.emit [c]).Reads unicode (text ++ [c]) := by
  have kind : IsRun [c] := ⟨c, run, rfl⟩
  refine ⟨?_, .inl ((emit_word scan _).trans noWord),
    (emit_segment scan _).trans reads.segment, ?_⟩
  · intro token member
    rcases mem_emit member with earlier | same | rfl
    · exact reads.tokens token earlier
    · exact .inl same
    · exact .inr (.inl kind)
  · have letters := reads.letters
    rw [noWord, List.append_nil] at letters
    rw [held_emit scan kind.ne_boundary, emit_word, noWord, List.append_nil,
      List.filter_append, List.filter_append, letters]

/-- A letter, a digit or a mark goes on a word, and only a letter or a digit
starts one. -/
theorem Reads.letter (reads : scan.Reads unicode text) {c : Char}
    (spaced : isUnspaced c = false)
    (starts : scan.word = [] → unicode.isAlnum c = true) :
    ({ scan with word := scan.word ++ [c] } : Scan).Reads unicode (text ++ [c]) := by
  refine ⟨reads.tokens, .inr ?_, reads.segment, ?_⟩
  · rcases reads.word with none | word
    · rw [none, List.nil_append]
      exact ⟨by simpa using starts none, by simpa using spaced⟩
    · refine ⟨?_, ?_⟩
      · have filled : scan.word ≠ [] := by
          intro none
          have starts := word.starts
          rw [none] at starts
          cases starts
        rw [List.head?_append_of_ne_nil _ filled]
        exact word.starts
      · intro d member
        rcases List.mem_append.mp member with earlier | last
        · exact word.spaced d earlier
        · rw [List.mem_singleton.mp last]
          exact spaced
  · rw [← List.append_assoc, List.filter_append, reads.letters, List.filter_append]

theorem Reads.step (tables : Wordless unicode) (reads : scan.Reads unicode text)
    {c : Char} (plain : isSegmentedChar c = false) :
    (scan.step unicode c).Reads unicode (text ++ [c]) := by
  unfold Scan.step
  rw [not_isWordMark plain, plain, if_pos reads.segment]
  simp only [Bool.false_and, Bool.false_eq_true, if_false]
  split
  · rename_i format
    exact reads.pass (tables.format c format.1)
  · split
    · rename_i run
      split
      · exact (reads.flush tables).run (flush_word scan) run
      · rename_i dropped
        simp only [Bool.or_eq_true, not_or, Bool.not_eq_true] at dropped
        exact (reads.flush tables).pass dropped.1
    · rename_i spaced
      rw [Bool.not_eq_true] at spaced
      split
      · rename_i letter
        exact reads.letter spaced fun _ => letter
      · rename_i other
        rw [Bool.not_eq_true] at other
        split
        · split
          · exact reads.pass other
          · rename_i filled
            exact reads.letter spaced fun none => absurd none filled
        · exact ((reads.flush tables).pass other).gap

theorem reads_foldl (tables : Wordless unicode)
    (plain : ∀ c ∈ text, isSegmentedChar c = false) :
    (text.foldl (step unicode) {}).Reads unicode text := by
  induction text using List.reverseRecOn with
  | nil => exact .empty
  | append_singleton text c induction =>
      rw [List.foldl_append]
      exact (induction fun d member => plain d (List.mem_append_left _ member)).step tables
        (plain c (List.mem_append_right _ List.mem_cons_self))

end Scan

theorem tokens_keep_letters (unicode : Unicode) (tables : Wordless unicode)
    (folded : List Char) (plain : ∀ c ∈ folded, isSegmentedChar c = false) :
    let tokens := tokensOf unicode folded
    let words := tokens.filter fun token => token ≠ boundary
    words.flatten.filter unicode.isAlnum = folded.filter unicode.isAlnum ∧
      (∀ token ∈ tokens, token ≠ []) ∧
      ∀ token ∈ words,
        (∃ c, isUnspaced c = true ∧ token = [c]) ∨
          token.head?.any unicode.isAlnum = true ∧ ∀ c ∈ token, isUnspaced c = false := by
  have reads := (Scan.reads_foldl tables plain).flush tables
  refine ⟨?_, ?_, ?_⟩
  · have letters := reads.letters
    rw [Scan.flush_word, List.append_nil] at letters
    exact letters
  · intro token member none
    rcases reads.tokens token member with same | ⟨c, -, same⟩ | word
    · rw [none] at same
      cases same
    · rw [none] at same
      cases same
    · have starts := word.starts
      rw [none] at starts
      cases starts
  · intro token member
    obtain ⟨member, inside⟩ := List.mem_filter.mp member
    rcases reads.tokens token member with same | run | word
    · simp [same] at inside
    · exact .inl run
    · exact .inr ⟨word.starts, word.spaced⟩

theorem wordless_hanTables : Wordless hanTables where
  format c format := absurd format (hanTables_category c).1
  space := by decide +kernel

theorem tokens_keep_letters_goTokyo :
    let tokens := tokensOf hanTables "go 東京-7".toList
    tokens = [['g', 'o'], boundary, ['東'], ['京'], boundary, ['7']] ∧
      (tokens.filter fun token => token ≠ boundary).flatten.filter hanTables.isAlnum =
        "go 東京-7".toList.filter hanTables.isAlnum :=
  have plain : ("go 東京-7".toList.all fun c => !isSegmentedChar c) = true := by
    decide +kernel
  ⟨by decide +kernel, (tokens_keep_letters hanTables wordless_hanTables "go 東京-7".toList
    fun c member => by simpa using List.all_eq_true.mp plain c member).1⟩

end Memcp.Keyword
