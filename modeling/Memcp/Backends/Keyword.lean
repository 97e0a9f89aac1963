import Memcp.Python.Text
import Mathlib.Algebra.Order.Field.Rat

/-!
Keyword scoring for the backends that have no model behind them.  Text is
tokenized in any script; a query scores the share of its words and
per-character runs that the content holds.
-/

namespace Memcp.Keyword

open Python

abbrev Token := List Char

instance : LawfulBEq Token := inferInstance

def minQueryToken : Nat := 3
def sharedPrefix : Nat := 4

/-- Scripts tokenized per character and matched by pairs: Han, kana, Hangul. -/
def isUnspaced (c : Char) : Bool :=
  let code := c.toNat
  (0x1100 ≤ code && code ≤ 0x11ff) || (0x3005 ≤ code && code ≤ 0x3007) ||
    code == 0x303b || (0x3040 ≤ code && code ≤ 0x30ff) ||
    (0x3130 ≤ code && code ≤ 0x318f) || (0x31f0 ≤ code && code ≤ 0x31ff) ||
    (0x3400 ≤ code && code ≤ 0x4dbf) || (0x4e00 ≤ code && code ≤ 0x9fff) ||
    (0xac00 ≤ code && code ≤ 0xd7af) || (0xf900 ≤ code && code ≤ 0xfaff) ||
    (0x20000 ≤ code && code ≤ 0x3ffff)

/-- Scripts segmented into words by a dictionary: Thai, Lao, Myanmar, Khmer. -/
def isSegmentedChar (c : Char) : Bool :=
  let code := c.toNat
  (0x0e00 ≤ code && code ≤ 0x0eff) || (0x1000 ≤ code && code ≤ 0x109f) ||
    (0x1780 ≤ code && code ≤ 0x17ff)

def isAsciiTokenChar (c : Char) : Bool :=
  (97 ≤ c.toNat && c.toNat ≤ 122) || (48 ≤ c.toNat && c.toNat ≤ 57)

def asciiTokens (text : List Char) : List Token := runsOf isAsciiTokenChar text

/-- Repetition and abbreviation marks the dictionaries keep in a word. -/
def isWordMark (c : Char) : Bool :=
  c.toNat ∈ [0x0e46, 0x0e2f, 0x0ec6, 0x0eaf, 0x17d7]

/-- The letters NFKC splits that the dictionaries only know whole. -/
def recompose : List (Char × Char × Char) :=
  [('\u0e4d', '\u0e32', '\u0e33'), ('\u0ecd', '\u0eb2', '\u0eb3'),
    ('\u0eab', '\u0e99', '\u0edc'), ('\u0eab', '\u0ea1', '\u0edd')]

def boundary : Token := [' ']

def isMark (unicode : Unicode) (c : Char) : Bool :=
  startsWith (unicode.category c) "M"

def isRunToken (token : Token) : Bool := token.head?.any isUnspaced

def isSegmented (token : Token) : Bool := token.head?.any isSegmentedChar

/-! The spellings of a toned SARA AM: in Thai the tone comes first, in Lao it
stands between the two halves. -/

def isThaiTone (c : Char) : Bool := 0x0e48 ≤ c.toNat && c.toNat ≤ 0x0e4b

def isLaoTone (c : Char) : Bool := 0x0ec8 ≤ c.toNat && c.toNat ≤ 0x0ecb

/-- `_THAI_LATE_TONE.sub`: NIKHAHIT, AA, tone. -/
def thaiLateTone : List Char → List Char
  | a :: tail@(b :: c :: rest) =>
      if a = '\u0e4d' ∧ b = '\u0e32' ∧ isThaiTone c then
        c :: a :: b :: thaiLateTone rest
      else a :: thaiLateTone tail
  | text => text

/-- `_LAO_LATE_TONE.sub`: NIGGAHITA, AA, tone. -/
def laoLateTone : List Char → List Char
  | a :: tail@(b :: c :: rest) =>
      if a = '\u0ecd' ∧ b = '\u0eb2' ∧ isLaoTone c then
        a :: c :: b :: laoLateTone rest
      else a :: laoLateTone tail
  | text => text

/-- `_THAI_TONED_SARA_AM.sub`: NIKHAHIT, tone, before AA. -/
def thaiTonedSaraAm : List Char → List Char
  | a :: tail@(b :: rest) =>
      if a = '\u0e4d' ∧ isThaiTone b ∧ rest.head? = some '\u0e32' then
        b :: a :: thaiTonedSaraAm rest
      else a :: thaiTonedSaraAm tail
  | text => text

/-- `_LAO_TONED_SARA_AM.sub`: tone, NIGGAHITA, before AA. -/
def laoTonedSaraAm : List Char → List Char
  | a :: tail@(b :: rest) =>
      if isLaoTone a ∧ b = '\u0ecd' ∧ rest.head? = some '\u0eb2' then
        b :: a :: laoTonedSaraAm rest
      else a :: laoTonedSaraAm tail
  | text => text

/-- The text handed to the dictionaries. -/
def respell (text : List Char) : List Char :=
  let spelled := laoTonedSaraAm (thaiTonedSaraAm (laoLateTone (thaiLateTone text)))
  recompose.foldl (fun text split =>
    replacePair split.1 split.2.1 [split.2.2] text) spelled

def segment (unicode : Unicode) (text : List Char) : List Token :=
  (unicode.wordBreak (respell text)).filter (·.any unicode.isAlnum)

/-! `_tokens_of`: one pass over the characters. -/

structure Scan where
  tokens : List Token := []
  word : List Char := []
  segment : List Char := []
  gap : Bool := false

namespace Scan

def emit (scan : Scan) (token : Token) : Scan :=
  if scan.gap && scan.tokens.getLast?.any (fun last =>
      isRunToken last || isRunToken token) then
    { scan with tokens := scan.tokens ++ [boundary, token], gap := false }
  else { scan with tokens := scan.tokens ++ [token], gap := false }

def flushWord (scan : Scan) : Scan :=
  if scan.word = [] then scan else { scan.emit scan.word with word := [] }

def flushSegment (unicode : Unicode) (scan : Scan) : Scan :=
  if scan.segment = [] then scan
  else { (Keyword.segment unicode scan.segment).foldl emit scan with segment := [] }

def flush (unicode : Unicode) (scan : Scan) : Scan :=
  scan.flushWord.flushSegment unicode

def step (unicode : Unicode) (scan : Scan) (c : Char) : Scan :=
  if unicode.category c = "Cf" ∧ c ≠ '\u200b' then
    -- Joiners and soft hyphens sit inside words.
    scan
  else if isWordMark c then { scan.flush unicode with gap := true }
  else if isSegmentedChar c && !unicode.isDigit c then
    let scan := if scan.word = [] then scan else scan.flush unicode
    { scan with segment := scan.segment ++ [c] }
  else
    let scan := if scan.segment = [] then scan else scan.flush unicode
    if isUnspaced c then
      let scan := scan.flush unicode
      if unicode.isAlnum c || isMark unicode c then scan.emit [c] else scan
    else if unicode.isAlnum c then { scan with word := scan.word ++ [c] }
    else if isMark unicode c then
      -- A mark belongs to the letter before it; alone, it is dropped.
      if scan.word = [] then scan else { scan with word := scan.word ++ [c] }
    else { scan.flush unicode with gap := true }

end Scan

def tokensOf (unicode : Unicode) (folded : List Char) : List Token :=
  ((folded.foldl (Scan.step unicode) {}).flush unicode).tokens

def tokenizeAny (unicode : Unicode) (text : List Char) : List Token :=
  tokensOf unicode (unicode.lower (unicode.nfkc text))

/-- The tokens of one piece between spaces, added to those before it. -/
def addPiece (unicode : Unicode) (tokens : List Token) (piece : List Char) :
    List Token :=
  let part := if piece.all isAscii then asciiTokens piece else tokensOf unicode piece
  if part = [] then tokens
  else if tokens.getLast?.any isRunToken || tokens ≠ [] && part.head?.any isRunToken then
    tokens ++ boundary :: part
  else tokens ++ part

def tokenize (unicode : Unicode) (text : List Char) : List Token :=
  if text.all isAscii then asciiTokens (unicode.lower text)
  else (splitSpace (unicode.lower (unicode.nfkc text))).foldl (addPiece unicode) []

/-! Words and per-character runs. -/

/-- `groups[-1].append(token)`. -/
def appendLast (groups : List (List Token)) (token : Token) : List (List Token) :=
  groups.dropLast ++ [groups.getLast?.getD [] ++ [token]]

def groupsFrom : (previous : Token) → (groups : List (List Token)) →
    List Token → List (List Token)
  | _, groups, [] => groups
  | previous, groups, token :: rest =>
      if token = boundary then groupsFrom token groups rest
      else if previous ≠ boundary ∧ (isRunToken previous ∨ isRunToken token) then
        groupsFrom token (appendLast groups token) rest
      else groupsFrom token (groups ++ [[token]]) rest

def wordsAndRuns (tokens : List Token) : List Token × List (List Token) :=
  (tokens.filter fun token => token ≠ boundary && !isRunToken token,
    (groupsFrom boundary [] tokens).filter (·.any isRunToken))

/-- `items[index]`, a negative index counting from the end. -/
def itemAt {α : Type} (items : List α) (index : Int) : Option α :=
  if index < 0 then
    if -index ≤ items.length then items[(index + items.length).toNat]? else none
  else items[index.toNat]?

/-- Content tokens without the boundaries between a word and a run. -/
def unspaced (tokens : List Token) : List Token :=
  (tokens.zipIdx.filter fun (token, i) =>
    token ≠ boundary ||
      ((itemAt tokens ((i : Int) - 1)).any isRunToken &&
        (itemAt tokens ((i : Int) + 1)).any isRunToken)).map Prod.fst

def pairs (run : List Token) : List Token :=
  if run.length = 1 then run else List.zipWith (· ++ ·) run run.tail

def tokenMatches (queryToken : Token) (contentTokens : List Token) : Bool :=
  if queryToken ∈ contentTokens then true
  else if queryToken.length < sharedPrefix then false
  else if isSegmented queryToken then
    contentTokens.any queryToken.isPrefixOf
  else contentTokens.any (queryToken.take sharedPrefix).isPrefixOf

/-- Whether the query's tokens appear in the content, in order and adjacent. -/
def isPhraseOf (queryTokens contentTokens : List Token) : Bool :=
  queryTokens ≠ [] &&
    (List.range (contentTokens.length + 1 - queryTokens.length)).any fun i =>
      (contentTokens.drop i).take queryTokens.length = queryTokens

/-! Scoring. -/

/-- The short words that tell memories apart: those in capitals or with a
digit. -/
def marked (unicode : Unicode) (query : List Char) : List Token :=
  ((tokensOf unicode (unicode.nfkc query)).filter fun word =>
    (unicode.isUpper word && word ≠ ['I']) || word.any unicode.isDigit).map
      unicode.lower

/-- The words of the query that count. -/
def countedWords (unicode : Unicode) (query : List Char) (words : List Token)
    (runs : List (List Token)) : List Token :=
  if runs ≠ [] ∨ words.any isSegmented then
    words.filter fun word =>
      minQueryToken ≤ word.length || isSegmented word || word ∈ runs.flatten ||
        word ∈ marked unicode query
  else words.filter fun word => minQueryToken ≤ word.length

def contentPairs (runs : List (List Token)) : List Token :=
  runs.flatMap pairs ++ runs.flatten.filter isRunToken

/-- The share of a run's pairs that the content holds. -/
def runCredit (contentPairs : List Token) (run : List Token) : ℚ :=
  ((pairs run).countP (· ∈ contentPairs) : ℚ) / ((pairs run).length : ℚ)

/-- Relevance in [0, 1], or none when the content is not a hit at all. -/
def score (unicode : Unicode) (query content : String) : Option ℚ :=
  let queryTokens := tokenize unicode query.toList
  let contentTokens := tokenize unicode content.toList
  if isPhraseOf queryTokens contentTokens then some 1
  else
    let (queryWords, queryRuns) := wordsAndRuns queryTokens
    let counted := countedWords unicode query.toList queryWords queryRuns
    if counted = [] ∧ queryRuns = [] then none
    else
      let (contentWords, contentRuns) := wordsAndRuns (unspaced contentTokens)
      let held := contentPairs contentRuns
      let credit : ℚ := (counted.countP (tokenMatches · contentWords) : ℚ) +
        (queryRuns.map (runCredit held)).sum
      if credit = 0 then none
      else some (credit / ((counted.length + queryRuns.length : Nat) : ℚ))

end Memcp.Keyword
