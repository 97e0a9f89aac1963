import Memcp.Backends.Keyword

/-!
The tokens of a text are those of its pieces between spaces, joined.  Both
paths of the tokenizer come to that.
-/

namespace Memcp.Keyword

open Python

variable {unicode : Unicode}

/-- What every version of the tables says of spaces and of ASCII. -/
structure Lawful (unicode : Unicode) : Prop where
  nfkc_ascii : ∀ text : List Char, text.all isAscii = true → unicode.nfkc text = text
  lower_small : ∀ text, ∀ c ∈ unicode.lower text, isAscii c = true → c.isUpper = false
  space_alnum : ∀ c, isSpace c = true → unicode.isAlnum c = false
  space_mark : ∀ c, isSpace c = true → isMark unicode c = false
  space_format : ∀ c, isSpace c = true → unicode.category c ≠ "Cf"
  ascii_alnum : ∀ c, isAscii c = true → unicode.isAlnum c = c.isAlphanum
  ascii_mark : ∀ c, isAscii c = true → isMark unicode c = false
  ascii_format : ∀ c, isAscii c = true → unicode.category c ≠ "Cf"

/-- What stands between tokens and those of a text a space away. -/
def seam (last first : Option Token) : List Token :=
  if last.any isRunToken || last.isSome && first.any isRunToken then [boundary]
  else []

/-- Tokens written after others, with a space between the two texts. -/
def joined (tokens part : List Token) : List Token :=
  if part = [] then tokens
  else tokens ++ seam tokens.getLast? part.head? ++ part

@[simp] theorem joined_nil (tokens : List Token) : joined tokens [] = tokens := by
  simp [joined]

@[simp] theorem nil_joined (part : List Token) : joined [] part = part := by
  by_cases empty : part = [] <;> simp [joined, seam, empty]

theorem joined_of_ne_nil (tokens : List Token) {part : List Token}
    (filled : part ≠ []) :
    joined tokens part = tokens ++ seam tokens.getLast? part.head? ++ part :=
  if_neg filled

theorem joined_append (tokens : List Token) {part : List Token} (filled : part ≠ [])
    (more : List Token) :
    joined tokens (part ++ more) = joined tokens part ++ more := by
  have long : part ++ more ≠ [] := by simp [filled]
  have head : (part ++ more).head? = part.head? := List.head?_append_of_ne_nil _ filled
  rw [joined_of_ne_nil tokens long, joined_of_ne_nil tokens filled, head,
    List.append_assoc _ part]

theorem getLast?_joined (tokens : List Token) {part : List Token}
    (filled : part ≠ []) :
    (joined tokens part).getLast? = part.getLast? := by
  rw [joined_of_ne_nil tokens filled, List.getLast?_append_of_ne_nil _ filled]

theorem joined_assoc (first second third : List Token) :
    joined (joined first second) third = joined first (joined second third) := by
  by_cases noThird : third = []
  · simp [noThird]
  · by_cases noSecond : second = []
    · simp [noSecond]
    · rw [joined_of_ne_nil _ noThird, getLast?_joined first noSecond,
        joined_of_ne_nil second noThird, List.append_assoc second,
        joined_append first noSecond, List.append_assoc]

theorem prefix_joined (tokens part : List Token) : tokens <+: joined tokens part := by
  by_cases empty : part = []
  · simp [empty]
  · rw [joined_of_ne_nil tokens empty, List.append_assoc]
    exact List.prefix_append _ _

theorem suffix_joined (tokens part : List Token) : part <:+ joined tokens part := by
  by_cases empty : part = []
  · simp [empty]
  · rw [joined_of_ne_nil tokens empty]
    exact List.suffix_append _ _

theorem infix_joined (left tokens right : List Token) :
    tokens <:+: joined (joined left tokens) right :=
  (suffix_joined left tokens).isInfix.trans (prefix_joined _ right).isInfix

/-! The pieces of a text. -/

def pieceTokens (unicode : Unicode) (piece : List Char) : List Token :=
  if piece.all isAscii then asciiTokens piece else tokensOf unicode piece

theorem addPiece_eq (tokens : List Token) (piece : List Char) :
    addPiece unicode tokens piece = joined tokens (pieceTokens unicode piece) := by
  have last : decide (tokens ≠ []) = tokens.getLast?.isSome := by
    cases tokens <;> simp [List.getLast?_cons]
  simp only [addPiece, last]
  rw [← pieceTokens]
  unfold joined seam
  split
  · rfl
  · split <;> simp

/-- The tokens of a normalized and lowercased text, piece by piece. -/
def piecewise (unicode : Unicode) (folded : List Char) : List Token :=
  (splitSpace folded).foldl (addPiece unicode) []

theorem foldl_addPiece (tokens : List Token) (pieces : List (List Char)) :
    pieces.foldl (addPiece unicode) tokens =
      joined tokens (pieces.foldl (addPiece unicode) []) := by
  induction pieces generalizing tokens with
  | nil => simp
  | cons piece rest induction =>
      simp only [List.foldl_cons, addPiece_eq, nil_joined]
      rw [induction, induction (pieceTokens unicode piece), joined_assoc]

/-- A tokenizer that takes a space for a seam takes a text piece by piece. -/
theorem foldl_pieces {tokens : List Char → List Token} (empty : tokens [] = [])
    (split : ∀ front c back, isSpace c = true →
      tokens (front ++ c :: back) = joined (tokens front) (tokens back))
    (text : List Char) :
    tokens text = (splitSpace text).foldl (fun before piece =>
      joined before (tokens piece)) [] := by
  suffices read : ∀ before run, joined before (tokens (run ++ text)) =
      (runsFrom (fun c => !isSpace c) run text).foldl (fun before piece =>
        joined before (tokens piece)) before from
    (nil_joined _).symm.trans (read [] [])
  induction text with
  | nil =>
      intro before run
      rw [runsFrom, List.append_nil]
      split
      · rename_i same
        rw [same, empty, joined_nil, List.foldl_nil]
      · rfl
  | cons c rest induction =>
      intro before run
      rw [runsFrom]
      cases space : isSpace c with
      | false => simpa using induction before (run ++ [c])
      | true =>
          simp only [Bool.not_true, Bool.false_eq_true, ↓reduceIte]
          rw [split run c rest space, ← joined_assoc]
          split
          · rename_i same
            rw [same, empty, joined_nil]
            exact induction before []
          · exact induction _ []

theorem isUnspaced_of_isSpace {c : Char} (space : isSpace c = true) :
    isUnspaced c = false := by
  simp only [isSpace, Bool.or_eq_true, Bool.and_eq_true, decide_eq_true_eq,
    beq_iff_eq] at space
  simp only [isUnspaced, Bool.or_eq_false_iff, Bool.and_eq_false_iff,
    decide_eq_false_iff_not, beq_eq_false_iff_ne]
  omega

/-! The general path: a space ends what is being read and leaves a gap. -/

namespace Scan

/-- A scan that goes on from earlier tokens, a gap after them. -/
def after (earlier : List Token) (scan : Scan) : Scan :=
  { scan with
    tokens := joined earlier scan.tokens
    gap := scan.gap || scan.tokens = [] }

variable (earlier : List Token) (scan : Scan)

theorem emit_eq (token : Token) :
    scan.emit token =
      { scan with
        tokens := scan.tokens ++
          (if scan.gap then seam scan.tokens.getLast? (some token) else []) ++ [token]
        gap := false } := by
  have beside : scan.tokens.getLast?.any (fun last =>
      isRunToken last || isRunToken token) =
        (scan.tokens.getLast?.any isRunToken ||
          scan.tokens.getLast?.isSome && (some token).any isRunToken) := by
    cases scan.tokens.getLast? <;> simp
  rw [emit, beside, seam]
  cases scan.gap with
  | false => simp
  | true =>
      simp only [Bool.true_and, ↓reduceIte]
      split <;> simp

theorem emit_after (token : Token) :
    (scan.after earlier).emit token = (scan.emit token).after earlier := by
  by_cases none : scan.tokens = []
  · simp [emit_eq, after, none, seam, joined]
  · rw [emit_eq, emit_eq]
    simp only [after, none, decide_false, Bool.or_false, getLast?_joined earlier none,
      List.append_assoc, joined_append earlier none]
    simp

theorem flushWord_after :
    (scan.after earlier).flushWord = scan.flushWord.after earlier := by
  unfold flushWord
  split
  · rename_i none
    rw [if_pos]
    exact none
  · rename_i some
    rw [if_neg, emit_after]
    · rfl
    · exact some

theorem foldl_emit_after (tokens : List Token) :
    tokens.foldl emit (scan.after earlier) = (tokens.foldl emit scan).after earlier := by
  induction tokens generalizing scan with
  | nil => rfl
  | cons token rest induction =>
      rw [List.foldl_cons, emit_after, induction, List.foldl_cons]

theorem flushSegment_after :
    (scan.after earlier).flushSegment unicode =
      (scan.flushSegment unicode).after earlier := by
  unfold flushSegment
  split
  · rename_i none
    rw [if_pos]
    exact none
  · rename_i some
    rw [if_neg, foldl_emit_after]
    · rfl
    · exact some

theorem flush_after :
    (scan.after earlier).flush unicode = (scan.flush unicode).after earlier := by
  rw [flush, flushWord_after, flushSegment_after, flush]

theorem step_after (c : Char) :
    (scan.after earlier).step unicode c = (scan.step unicode c).after earlier := by
  have word : (scan.after earlier).word = scan.word := rfl
  have segment : (scan.after earlier).segment = scan.segment := rfl
  unfold step
  simp only [word, segment, flush_after, ← apply_ite (after earlier)]
  split
  · rfl
  · split
    · rfl
    · split
      · rfl
      · generalize (if scan.segment = [] then scan else scan.flush unicode) = scan
        split
        · rw [emit_after, ← apply_ite (after earlier)]
        · split
          · rfl
          · split
            · split
              · rw [if_pos]
                assumption
              · rw [if_neg]
                · rfl
                · assumption
            · rfl

theorem foldl_step_after (text : List Char) :
    text.foldl (step unicode) (scan.after earlier) =
      (text.foldl (step unicode) scan).after earlier := by
  induction text generalizing scan with
  | nil => rfl
  | cons c rest induction =>
      rw [List.foldl_cons, step_after, induction, List.foldl_cons]

@[simp] theorem emit_word (token : Token) : (scan.emit token).word = scan.word := by
  rw [emit_eq]

@[simp] theorem emit_segment (token : Token) :
    (scan.emit token).segment = scan.segment := by
  rw [emit_eq]

theorem emit_with (token : Token) (word segment : List Char) :
    ({ scan with word, segment } : Scan).emit token =
      { scan.emit token with word, segment } := by
  rw [emit_eq, emit_eq]

theorem foldl_emit_with (tokens : List Token) (word segment : List Char) :
    tokens.foldl emit { scan with word, segment } =
      { tokens.foldl emit scan with word, segment } := by
  induction tokens generalizing scan with
  | nil => rfl
  | cons token rest induction =>
      rw [List.foldl_cons, emit_with, induction, List.foldl_cons]

theorem foldl_emit_segment (tokens : List Token) :
    (tokens.foldl emit scan).segment = scan.segment := by
  have kept := congrArg Scan.segment (foldl_emit_with scan tokens scan.word scan.segment)
  exact kept

/-- The tokens a flush writes. -/
def pending (unicode : Unicode) : List Token :=
  (if scan.word = [] then [] else [scan.word]) ++
    if scan.segment = [] then [] else Keyword.segment unicode scan.segment

theorem flushWord_eq :
    scan.flushWord =
      { (if scan.word = [] then [] else [scan.word]).foldl emit scan with word := [] } := by
  unfold flushWord
  split
  · rename_i none
    rw [List.foldl_nil, ← none]
  · rfl

theorem flushSegment_eq :
    scan.flushSegment unicode =
      { (if scan.segment = [] then [] else Keyword.segment unicode scan.segment).foldl
          emit scan with segment := [] } := by
  unfold flushSegment
  split
  · rename_i none
    rw [List.foldl_nil, ← none]
  · rfl

theorem flush_eq :
    scan.flush unicode =
      { (scan.pending unicode).foldl emit scan with word := [], segment := [] } := by
  have segment : scan.flushWord.segment = scan.segment := by
    rw [flushWord_eq]
    exact foldl_emit_segment scan _
  rw [flush, flushSegment_eq, segment, flushWord_eq, pending, List.foldl_append]
  generalize (if scan.word = [] then [] else [scan.word]).foldl emit scan = written
  generalize (if scan.segment = [] then [] else Keyword.segment unicode scan.segment) = tokens
  have later := foldl_emit_with written tokens [] written.segment
  exact congrArg (fun scan : Scan => ({ scan with segment := [] } : Scan)) later

theorem flush_word : (scan.flush unicode).word = [] := by
  rw [flush_eq]

theorem flush_segment : (scan.flush unicode).segment = [] := by
  rw [flush_eq]

theorem flush_of_empty (noWord : scan.word = []) (noSegment : scan.segment = []) :
    scan.flush unicode = scan := by
  rw [flush, flushWord, if_pos noWord, flushSegment, if_pos noSegment]

theorem flush_flush : (scan.flush unicode).flush unicode = scan.flush unicode :=
  flush_of_empty _ (flush_word scan) (flush_segment scan)

theorem step_separator {c : Char} (format : unicode.category c ≠ "Cf")
    (wordMark : isWordMark c = false) (segmented : isSegmentedChar c = false)
    (run : isUnspaced c = false) (alnum : unicode.isAlnum c = false)
    (mark : isMark unicode c = false) :
    scan.step unicode c = { scan.flush unicode with gap := true } := by
  simp only [step, format, wordMark, segmented, run, alnum, mark, false_and,
    Bool.false_and, Bool.false_eq_true, ↓reduceIte]
  split
  · rfl
  · rw [flush_flush]

theorem step_space (lawful : Lawful unicode) {c : Char} (space : isSpace c = true) :
    scan.step unicode c = ({} : Scan).after (scan.flush unicode).tokens := by
  have code := space
  simp only [isSpace, Bool.or_eq_true, Bool.and_eq_true, decide_eq_true_eq,
    beq_iff_eq] at code
  rw [step_separator scan (lawful.space_format c space) _ _ (isUnspaced_of_isSpace space)
    (lawful.space_alnum c space) (lawful.space_mark c space)]
  · simp only [after, flush_word, flush_segment, joined_nil, decide_true, Bool.or_true]
  · simp only [isWordMark, List.mem_cons, List.not_mem_nil, or_false,
      decide_eq_false_iff_not]
    omega
  · simp only [isSegmentedChar, Bool.or_eq_false_iff, Bool.and_eq_false_iff,
      decide_eq_false_iff_not]
    omega

end Scan

theorem tokensOf_append (lawful : Lawful unicode) (front : List Char) {c : Char}
    (back : List Char) (space : isSpace c = true) :
    tokensOf unicode (front ++ c :: back) =
      joined (tokensOf unicode front) (tokensOf unicode back) := by
  rw [tokensOf, List.foldl_append, List.foldl_cons, Scan.step_space _ lawful space,
    Scan.foldl_step_after, Scan.flush_after]
  rfl

/-! The fast path: the words of ASCII text. -/

/-- ASCII text as `lower` leaves it. -/
def SmallAscii (text : List Char) : Prop :=
  ∀ c ∈ text, isAscii c = true ∧ c.isUpper = false

theorem isAsciiTokenChar_of_isSpace {c : Char} (space : isSpace c = true) :
    isAsciiTokenChar c = false := by
  simp only [isSpace, Bool.or_eq_true, Bool.and_eq_true, decide_eq_true_eq,
    beq_iff_eq] at space
  simp only [isAsciiTokenChar, Bool.or_eq_false_iff, Bool.and_eq_false_iff,
    decide_eq_false_iff_not]
  omega

theorem isAscii_of_isAsciiTokenChar {c : Char} (token : isAsciiTokenChar c = true) :
    isAscii c = true := by
  simp only [isAsciiTokenChar, Bool.or_eq_true, Bool.and_eq_true,
    decide_eq_true_eq] at token
  simp only [isAscii, decide_eq_true_eq]
  omega

theorem isUnspaced_of_isAscii {c : Char} (ascii : isAscii c = true) :
    isUnspaced c = false := by
  simp only [isAscii, decide_eq_true_eq] at ascii
  simp only [isUnspaced, Bool.or_eq_false_iff, Bool.and_eq_false_iff,
    decide_eq_false_iff_not, beq_eq_false_iff_ne]
  omega

theorem isRunToken_of_isAscii {token : Token} (ascii : token.all isAscii = true) :
    isRunToken token = false := by
  cases token with
  | nil => rfl
  | cons c rest =>
      rw [List.all_cons, Bool.and_eq_true] at ascii
      exact isUnspaced_of_isAscii ascii.1

theorem isRunToken_of_mem_asciiTokens {text : List Char} {token : Token}
    (member : token ∈ asciiTokens text) : isRunToken token = false :=
  isRunToken_of_isAscii (List.all_eq_true.mpr (forall_of_mem_runsFrom (by simp)
    (fun _ _ => isAscii_of_isAsciiTokenChar) member))

theorem joined_of_plain {tokens part : List Token}
    (plain : ∀ token ∈ tokens ++ part, isRunToken token = false) :
    joined tokens part = tokens ++ part := by
  by_cases none : part = []
  · simp [none]
  · rw [joined_of_ne_nil tokens none, seam, if_neg, List.append_nil]
    simp only [Bool.or_eq_true, Bool.and_eq_true, Option.any_eq_true, not_or, not_exists,
      not_and, Bool.not_eq_true]
    refine ⟨fun token last => ?_, fun _ token first => ?_⟩
    · exact plain token (List.mem_append_left _ (List.mem_of_getLast? last))
    · exact plain token (List.mem_append_right _ (List.mem_of_head? first))

theorem asciiTokens_append (front : List Char) {c : Char} (back : List Char)
    (space : isSpace c = true) :
    asciiTokens (front ++ c :: back) = joined (asciiTokens front) (asciiTokens back) := by
  rw [joined_of_plain]
  · exact runsFrom_append (isAsciiTokenChar_of_isSpace space) [] front back
  · intro token member
    rcases List.mem_append.mp member with member | member
    · exact isRunToken_of_mem_asciiTokens member
    · exact isRunToken_of_mem_asciiTokens member

theorem isAsciiTokenChar_eq {c : Char} (small : c.isUpper = false) :
    isAsciiTokenChar c = c.isAlphanum := by
  delta Char.isAlphanum Char.isAlpha
  rw [small, Bool.false_or]
  rfl

/-- Where no token is a run character, words follow each other with nothing
between. -/
theorem Scan.flush_plain (scan : Scan)
    (plain : ∀ token ∈ scan.tokens, isRunToken token = false)
    (word : scan.word.all isAscii = true) (noSegment : scan.segment = []) :
    (scan.flush unicode).tokens =
      scan.tokens ++ if scan.word = [] then [] else [scan.word] := by
  by_cases none : scan.word = []
  · rw [Scan.flush_of_empty scan none noSegment, if_pos none, List.append_nil]
  · have seamless : seam scan.tokens.getLast? (some scan.word) = [] := by
      rw [seam, if_neg]
      simp only [Option.any_some, isRunToken_of_isAscii word, Bool.and_false,
        Bool.or_false, Option.any_eq_true, not_exists, not_and, Bool.not_eq_true]
      exact fun token last => plain token (List.mem_of_getLast? last)
    rw [Scan.flush, Scan.flushWord, if_neg none, Scan.flushSegment, if_pos, if_neg none]
    · simp [Scan.emit_eq, seamless]
    · simp [noSegment]

/-- On ASCII text the general path reads words only. -/
theorem scan_ascii (lawful : Lawful unicode) {text : List Char} (small : SmallAscii text)
    (scan : Scan) (plain : ∀ token ∈ scan.tokens, isRunToken token = false)
    (word : scan.word.all isAscii = true) (noSegment : scan.segment = []) :
    ((text.foldl (Scan.step unicode) scan).flush unicode).tokens =
      scan.tokens ++ runsFrom isAsciiTokenChar scan.word text := by
  induction text generalizing scan with
  | nil => exact Scan.flush_plain scan plain word noSegment
  | cons c rest induction =>
      obtain ⟨⟨ascii, lower⟩, later⟩ := List.forall_mem_cons.mp small
      have code := ascii
      simp only [isAscii, decide_eq_true_eq] at code
      have wordMark : isWordMark c = false := by
        simp only [isWordMark, List.mem_cons, List.not_mem_nil, or_false,
          decide_eq_false_iff_not]
        omega
      have segmented : isSegmentedChar c = false := by
        simp only [isSegmentedChar, Bool.or_eq_false_iff, Bool.and_eq_false_iff,
          decide_eq_false_iff_not]
        omega
      have run := isUnspaced_of_isAscii ascii
      have alnum := (lawful.ascii_alnum c ascii).trans (isAsciiTokenChar_eq lower).symm
      rw [List.foldl_cons, runsFrom]
      cases kept : isAsciiTokenChar c with
      | true =>
          have stepped : scan.step unicode c = { scan with word := scan.word ++ [c] } := by
            simp [Scan.step, lawful.ascii_format c ascii, wordMark, segmented, run, alnum,
              kept, noSegment]
          rw [stepped, if_pos rfl]
          exact induction later _ plain (by simp [word, ascii]) noSegment
      | false =>
          have flushed := @Scan.flush_plain unicode scan plain word noSegment
          rw [Scan.step_separator scan (lawful.ascii_format c ascii) wordMark segmented
            run (alnum.trans kept) (lawful.ascii_mark c ascii)]
          rw [induction later]
          · simp only [Bool.false_eq_true, ↓reduceIte, flushed, Scan.flush_word]
            split <;> simp
          · intro token member
            rw [flushed] at member
            rcases List.mem_append.mp member with member | member
            · exact plain token member
            · split at member
              · simp at member
              · exact List.mem_singleton.mp member ▸ isRunToken_of_isAscii word
          · simp [Scan.flush_word]
          · exact Scan.flush_segment scan

theorem tokensOf_ascii (lawful : Lawful unicode) {text : List Char}
    (small : SmallAscii text) : tokensOf unicode text = asciiTokens text :=
  scan_ascii lawful small {} (by simp) rfl rfl

theorem tokensOf_nil : tokensOf unicode [] = [] := rfl

theorem tokensOf_eq_piecewise (lawful : Lawful unicode) {text : List Char}
    (small : ∀ c ∈ text, isAscii c = true → c.isUpper = false) :
    tokensOf unicode text = piecewise unicode text := by
  rw [foldl_pieces tokensOf_nil fun front _ back => tokensOf_append lawful front back]
  refine List.foldl_ext _ _ [] fun tokens piece member => ?_
  have within := forall_of_mem_runsFrom (by simp) (fun c read _ => small c read) member
  rw [addPiece_eq, pieceTokens]
  split
  · rename_i ascii
    rw [tokensOf_ascii lawful]
    intro c read
    have plain := List.all_eq_true.mp ascii c read
    exact ⟨plain, within c read plain⟩
  · rfl

theorem asciiTokens_eq_piecewise {text : List Char} (ascii : text.all isAscii = true) :
    asciiTokens text = piecewise unicode text := by
  rw [foldl_pieces rfl fun front _ back => asciiTokens_append front back]
  refine List.foldl_ext _ _ [] fun tokens piece member => ?_
  have within := forall_of_mem_runsFrom (by simp)
    (fun c read _ => List.all_eq_true.mp ascii c read) member
  rw [addPiece_eq, pieceTokens, if_pos (List.all_eq_true.mpr within)]

theorem isAscii_toLower {c : Char} (ascii : isAscii c = true) :
    isAscii c.toLower = true := by
  simp only [isAscii, decide_eq_true_eq] at ascii ⊢
  delta Char.toLower
  split
  · rename_i capital
    have top : c.toNat ≤ 90 := UInt32.le_iff_toNat_le.mp capital.2
    change (c.val + 32).toNat < 128
    rw [UInt32.toNat_add]
    refine (Nat.mod_le _ _).trans_lt ?_
    change c.toNat + 32 < 128
    omega
  · exact ascii

theorem tokenize_eq_piecewise
    (nfkc_ascii : ∀ text : List Char, text.all isAscii = true → unicode.nfkc text = text)
    (text : List Char) :
    tokenize unicode text = piecewise unicode (unicode.lower (unicode.nfkc text)) := by
  rw [tokenize]
  split
  · rename_i ascii
    rw [nfkc_ascii text ascii]
    have codes : ∀ c ∈ text, isAscii c = true := List.all_eq_true.mp ascii
    apply asciiTokens_eq_piecewise
    rw [unicode.lower_ascii text fun c read => of_decide_eq_true (codes c read),
      List.all_map]
    exact List.all_eq_true.mpr fun c read => isAscii_toLower (codes c read)
  · rfl

theorem tokenize_eq_tokensOf (lawful : Lawful unicode) (text : List Char) :
    tokenize unicode text = tokensOf unicode (unicode.lower (unicode.nfkc text)) := by
  rw [tokenize_eq_piecewise lawful.nfkc_ascii, tokensOf_eq_piecewise lawful]
  exact lawful.lower_small _

/-- The fast path's tokens are the general path's. -/
theorem tokenize_eq_tokenizeAny (unicode : Unicode) (lawful : Lawful unicode)
    (text : List Char) : tokenize unicode text = tokenizeAny unicode text :=
  tokenize_eq_tokensOf lawful text

/-- The tables of ASCII text and of the Han characters. -/
def hanTables : Unicode :=
  { Unicode.ascii with
    isAlnum c := c.isAlphanum || isUnspaced c
    category c := if isUnspaced c then "Lo" else Unicode.ascii.category c }

theorem hanTables_category (c : Char) :
    hanTables.category c ≠ "Cf" ∧ isMark hanTables c = false := by
  simp only [isMark, hanTables, Unicode.ascii]
  repeat' split
  all_goals decide

theorem lawful_hanTables : Lawful hanTables where
  nfkc_ascii _ _ := rfl
  lower_small text c member ascii := by
    obtain ⟨d, -, rfl⟩ := List.mem_map.mp member
    delta Char.isUpper Char.toLower
    split <;> grind [UInt32.toNat_add]
  space_alnum c space := by
    have run := isUnspaced_of_isSpace space
    simp only [isSpace, Bool.or_eq_true, Bool.and_eq_true, decide_eq_true_eq,
      beq_iff_eq] at space
    simp only [hanTables, run, Bool.or_false]
    delta Char.isAlphanum Char.isAlpha Char.isUpper Char.isLower Char.isDigit
    simp only [UInt32.le_iff_toNat_le, Char.toNat_val, ge_iff_le,
      decide_eq_false_iff_not, Bool.or_eq_false_iff, Bool.and_eq_false_iff]
    change (¬(65 ≤ c.toNat ∧ c.toNat ≤ 90) ∧ (¬97 ≤ c.toNat ∨ ¬c.toNat ≤ 122)) ∧
      (¬48 ≤ c.toNat ∨ ¬c.toNat ≤ 57)
    omega
  space_mark c _ := (hanTables_category c).2
  space_format c _ := (hanTables_category c).1
  ascii_alnum c ascii := by
    simp [hanTables, isUnspaced_of_isAscii ascii]
  ascii_mark c _ := (hanTables_category c).2
  ascii_format c _ := (hanTables_category c).1

theorem tokenize_eq_tokenizeAny_goTokyo :
    tokenize hanTables "Go 東京".toList = [['g', 'o'], boundary, ['東'], ['京']] ∧
      tokenize hanTables "Go 東京".toList = tokenizeAny hanTables "Go 東京".toList :=
  ⟨by decide +kernel, tokenize_eq_tokenizeAny hanTables lawful_hanTables _⟩

end Memcp.Keyword
