import Mathlib.Data.String.Basic
import Mathlib.Data.List.Sort
import Mathlib.Data.List.TakeWhile

/-!
The parts of Python's `str` the program uses.  Text is a `String`, a sequence
of Unicode scalar values.  What depends on the tables of a Unicode version is
a parameter.
-/

namespace Python

/-- The tables behind `str.lower`, `unicodedata` and ICU.  `wordBreak` is
`WordBreaker(text, "und")`. -/
structure Unicode where
  lower : List Char → List Char
  nfkc : List Char → List Char
  category : Char → String
  isAlnum : Char → Bool
  isDigit : Char → Bool
  isUpper : List Char → Bool
  isPrintable : Char → Bool
  decimal : Char → Option Nat
  wordBreak : List Char → List (List Char)
  /-- On ASCII text `lower` changes the letters A to Z only. -/
  lower_ascii : ∀ text : List Char, (∀ c ∈ text, c.toNat < 128) →
    lower text = text.map Char.toLower

/-- The tables of ASCII text, which every Unicode version agrees on. -/
def Unicode.ascii : Unicode where
  lower := List.map Char.toLower
  nfkc := id
  category c :=
    if c.isUpper then "Lu" else if c.isLower then "Ll"
    else if c.isDigit then "Nd" else if c = ' ' then "Zs"
    else if c.toNat < 32 || c.toNat = 127 then "Cc" else "Po"
  isAlnum := Char.isAlphanum
  isDigit := Char.isDigit
  isUpper text := text.any Char.isUpper && !text.any Char.isLower
  isPrintable c := 32 ≤ c.toNat && c.toNat < 127
  decimal c := if c.isDigit then some (c.toNat - '0'.toNat) else none
  wordBreak text := [text]
  lower_ascii _ _ := rfl

/-- `str.isspace` of one character. -/
def isSpace (c : Char) : Bool :=
  let code := c.toNat
  (9 ≤ code && code ≤ 13) || (28 ≤ code && code ≤ 32) || code == 0x85 ||
    code == 0xa0 || code == 0x1680 || (0x2000 ≤ code && code ≤ 0x200a) ||
    code == 0x2028 || code == 0x2029 || code == 0x202f || code == 0x205f ||
    code == 0x3000

def isAscii (c : Char) : Bool := c.toNat < 128

/-- Drop characters that pass a test from both ends. -/
def stripOf (drop : Char → Bool) (text : List Char) : List Char :=
  ((text.dropWhile drop).reverse.dropWhile drop).reverse

/-- `str.strip()`. -/
def strip (text : String) : String :=
  String.ofList (stripOf isSpace text.toList)

/-- `text.startswith(start)`. -/
def startsWith (text start : String) : Bool :=
  start.toList.isPrefixOf text.toList

/-- The maximal runs of characters that pass a test; `run` is the one being
read. -/
def runsFrom (keep : Char → Bool) : (run : List Char) → List Char → List (List Char)
  | run, [] => if run = [] then [] else [run]
  | run, c :: rest =>
      if keep c then runsFrom keep (run ++ [c]) rest
      else if run = [] then runsFrom keep [] rest
      else run :: runsFrom keep [] rest

def runsOf (keep : Char → Bool) (text : List Char) : List (List Char) :=
  runsFrom keep [] text

/-- `str.split()`. -/
def splitSpace (text : List Char) : List (List Char) :=
  runsOf (fun c => !isSpace c) text

/-- `text.replace(old, new)` for an `old` of two characters. -/
def replacePair (first second : Char) (new : List Char) : List Char → List Char
  | [] => []
  | [c] => [c]
  | a :: tail@(b :: rest) =>
      if a = first ∧ b = second then new ++ replacePair first second new rest
      else a :: replacePair first second new tail

theorem runsFrom_append {keep : Char → Bool} {c : Char} (ends : keep c = false)
    (run front back : List Char) :
    runsFrom keep run (front ++ c :: back) =
      runsFrom keep run front ++ runsFrom keep [] back := by
  induction front generalizing run with
  | nil => by_cases none : run = [] <;> simp [runsFrom, ends, none]
  | cons first rest induction =>
      by_cases kept : keep first = true
      · simp [runsFrom, kept, induction]
      · by_cases none : run = [] <;> simp [runsFrom, kept, none, induction]

theorem forall_of_mem_runsFrom {keep : Char → Bool} {holds : Char → Prop}
    {run text : List Char} (before : ∀ c ∈ run, holds c)
    (reads : ∀ c ∈ text, keep c = true → holds c) {part : List Char}
    (member : part ∈ runsFrom keep run text) : ∀ c ∈ part, holds c := by
  induction text generalizing run with
  | nil =>
      by_cases none : run = []
      · simp [runsFrom, none] at member
      · simp only [runsFrom, none, ↓reduceIte, List.mem_singleton] at member
        exact member ▸ before
  | cons c rest induction =>
      obtain ⟨head, tail⟩ := List.forall_mem_cons.mp reads
      rw [runsFrom] at member
      split at member
      · rename_i keeps
        refine induction (fun d within => ?_) tail member
        rcases List.mem_append.mp within with within | within
        · exact before d within
        · exact List.mem_singleton.mp within ▸ head keeps
      · split at member
        · exact induction (by simp) tail member
        · rcases List.mem_cons.mp member with rfl | later
          · exact before
          · exact induction (by simp) tail later

theorem dropWhile_of_head {drop : Char → Bool} {text : List Char}
    (head : ∀ c, text.head? = some c → drop c = false) :
    text.dropWhile drop = text := by
  cases text with
  | nil => rfl
  | cons first rest => simp [head first rfl]

/-- What is dropped at the ends, around a text neither end of which is. -/
theorem stripOf_append {drop : Char → Bool} {lead core trail : List Char}
    (leads : ∀ c ∈ lead, drop c = true) (trails : ∀ c ∈ trail, drop c = true)
    (head : ∀ c, core.head? = some c → drop c = false)
    (last : ∀ c, core.getLast? = some c → drop c = false) :
    stripOf drop (lead ++ (core ++ trail)) = core := by
  rw [stripOf, List.dropWhile_append_of_pos leads]
  cases core with
  | nil =>
      have none : trail.dropWhile drop = [] := List.dropWhile_eq_nil_iff.mpr trails
      simp [none]
  | cons first rest =>
      have front : (first :: rest ++ trail).dropWhile drop = first :: rest ++ trail :=
        dropWhile_of_head fun c same => head c same
      have back : (first :: rest).reverse.dropWhile drop = (first :: rest).reverse :=
        dropWhile_of_head fun c same => last c (List.head?_reverse ▸ same)
      have trailing : ∀ c ∈ trail.reverse, drop c = true := by simpa using trails
      rw [front, List.reverse_append, List.dropWhile_append_of_pos trailing, back,
        List.reverse_reverse]

theorem stripOf_of_forall {drop : Char → Bool} {text : List Char}
    (kept : ∀ c ∈ text, drop c = false) : stripOf drop text = text := by
  have stripped := @stripOf_append drop [] text [] nofun nofun
    (fun c same => kept c (List.mem_of_head? same))
    (fun c same => kept c (List.mem_of_getLast? same))
  simpa using stripped

theorem strip_of_forall {text : String}
    (kept : ∀ c ∈ text.toList, isSpace c = false) : strip text = text := by
  rw [strip, stripOf_of_forall kept, String.ofList_toList]

/-! `repr` of a string, as error messages quote it. -/

private def hexDigits (width value : Nat) : List Char :=
  let digits := Nat.toDigits 16 value
  List.replicate (width - digits.length) '0' ++ digits

private def reprChar (unicode : Unicode) (quote c : Char) : List Char :=
  if c = quote || c = '\\' then ['\\', c]
  else if c = '\t' then ['\\', 't']
  else if c = '\n' then ['\\', 'n']
  else if c = '\r' then ['\\', 'r']
  else if c.toNat < 32 || c.toNat = 127 then '\\' :: 'x' :: hexDigits 2 c.toNat
  else if c.toNat < 127 || unicode.isPrintable c then [c]
  else if c.toNat < 0x100 then '\\' :: 'x' :: hexDigits 2 c.toNat
  else if c.toNat < 0x10000 then '\\' :: 'u' :: hexDigits 4 c.toNat
  else '\\' :: 'U' :: hexDigits 8 c.toNat

def repr (unicode : Unicode) (text : String) : String :=
  let quote :=
    if '\'' ∈ text.toList ∧ '"' ∉ text.toList then '"' else '\''
  String.ofList (quote :: text.toList.flatMap (reprChar unicode quote) ++ [quote])

/-- `sorted` of a list of strings, by code point. -/
def sorted (texts : List String) : List String :=
  texts.insertionSort (· ≤ ·)

/-- `repr` of a list of strings. -/
def reprList (unicode : Unicode) (texts : List String) : String :=
  "[" ++ ", ".intercalate (texts.map (repr unicode)) ++ "]"

/-! `int(text)`. -/

/-- Digits in groups joined by single underscores. -/
private def digitsOf (unicode : Unicode) :
    (afterDigit : Bool) → List Char → Option (List Nat)
  | afterDigit, [] => if afterDigit then some [] else none
  | true, '_' :: rest => digitsOf unicode false rest
  | _, c :: rest => do
      let digit ← unicode.decimal c
      let digits ← digitsOf unicode true rest
      return digit :: digits

/-- The most digits `int` converts; a longer text is a `ValueError`. -/
def maxStrDigits : Nat := 4300

def parseInt (unicode : Unicode) (text : String) : Option Int := do
  let body := stripOf isSpace text.toList
  let (negative, digits) := match body with
    | '-' :: rest => (true, rest)
    | '+' :: rest => (false, rest)
    | rest => (false, rest)
  let digits ← digitsOf unicode false digits
  if digits.length > maxStrDigits then none
  else
    let value : Int := (digits.foldl (fun value digit => 10 * value + digit) 0 : Nat)
    return if negative then -value else value

/-- `int` reads the ASCII digits as the numbers they are. -/
def Unicode.ReadsDigits (unicode : Unicode) : Prop :=
  ∀ c : Char, c.isDigit = true → unicode.decimal c = some (c.toNat - '0'.toNat)

private theorem digitsOf_eq {unicode : Unicode} (reads : unicode.ReadsDigits)
    {text : List Char} (digits : ∀ c ∈ text, c.isDigit = true) (afterDigit : Bool)
    (filled : text = [] → afterDigit = true) :
    digitsOf unicode afterDigit text = some (text.map fun c => c.toNat - '0'.toNat) := by
  induction text generalizing afterDigit with
  | nil => simp [digitsOf, filled rfl]
  | cons c rest induction =>
      obtain ⟨head, tail⟩ := List.forall_mem_cons.mp digits
      have plain : c ≠ '_' := by
        rintro rfl
        cases head
      have later := induction tail true fun _ => rfl
      rw [digitsOf.eq_def]
      split
      · contradiction
      · rename_i same
        exact absurd (List.cons.inj same).1 plain
      · rename_i same
        obtain ⟨rfl, rfl⟩ := List.cons.inj same
        rw [reads _ head, later]
        rfl

/-- What `int` makes of a number's own text. -/
theorem parseInt_toString {unicode : Unicode} (reads : unicode.ReadsDigits) (i : Int) :
    parseInt unicode (toString i) =
      if maxStrDigits < (Nat.toDigits 10 i.natAbs).length then none else some i := by
  have digits : ∀ c ∈ Nat.toDigits 10 i.natAbs, c.isDigit = true := fun c member =>
    Nat.isDigit_of_mem_toDigits (by decide) (by decide) member
  have value : ((Nat.toDigits 10 i.natAbs).map fun c => c.toNat - '0'.toNat).foldl
      (fun value digit => 10 * value + digit) 0 = i.natAbs := by
    rw [List.foldl_map]
    exact Nat.ofDigitChars_ten_toDigits
  have read := digitsOf_eq reads digits false (by simp)
  have spaceless : ∀ c ∈ Nat.toDigits 10 i.natAbs, isSpace c = false := by
    intro c member
    have digit := digits c member
    simp only [Char.isDigit, UInt32.le_iff_toNat_le, ge_iff_le, Bool.and_eq_true,
      decide_eq_true_eq, Char.toNat_val] at digit
    change 48 ≤ c.toNat ∧ c.toNat ≤ 57 at digit
    simp only [isSpace, Bool.or_eq_false_iff, Bool.and_eq_false_iff,
      decide_eq_false_iff_not, beq_eq_false_iff_ne]
    omega
  have text : (toString i).toList =
      if 0 ≤ i then Nat.toDigits 10 i.natAbs else '-' :: Nat.toDigits 10 i.natAbs := by
    rw [Int.toString_eq_repr, Int.repr_eq_if]
    split
    · rw [Nat.toList_repr, show i.toNat = i.natAbs by omega]
    · rw [String.toList_append, Nat.toList_repr, show (-i).toNat = i.natAbs by omega]
      rfl
  rw [parseInt, text]
  by_cases natural : 0 ≤ i
  · rw [if_pos natural, stripOf_of_forall spaceless]
    dsimp only
    split
    · rename_i same
      cases digits '-' (by simp [same])
    · rename_i same
      cases digits '+' (by simp [same])
    · simp only [read, Option.bind_eq_bind, Option.bind_some, List.length_map, value]
      split
      · rfl
      · simp only [Bool.false_eq_true, ↓reduceIte, pure, Option.some.injEq]
        omega
  · rw [if_neg natural, stripOf_of_forall]
    · simp only [read, Option.bind_eq_bind, Option.bind_some, List.length_map, value]
      split
      · rfl
      · simp only [↓reduceIte, pure, Option.some.injEq]
        omega
    · exact List.forall_mem_cons.mpr ⟨by decide, spaceless⟩

end Python
