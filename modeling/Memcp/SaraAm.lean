import Memcp.Backends.Tokenizer
import Memcp.Data.Triples

/-!
A toned SARA AM reaches the dictionaries in one spelling, whichever of the three
orders it is typed in and whatever stands around it.
-/

namespace Memcp.Keyword

open Python

/-! The spellings. -/

inductive Script where
  | thai
  | lao
  deriving DecidableEq

/-- Where the tone mark stands to NIKHAHIT and AA. -/
inductive ToneOrder where
  | toneFirst
  | toneBetween
  | toneLast
  deriving DecidableEq

namespace Script

def nikhahit : Script → Char
  | thai => '\u0e4d'
  | lao => '\u0ecd'

def aa : Script → Char
  | thai => '\u0e32'
  | lao => '\u0eb2'

def isTone : Script → Char → Bool
  | thai => isThaiTone
  | lao => isLaoTone

/-- A toned SARA AM as it is typed. -/
def spelling (script : Script) (tone : Char) : ToneOrder → List Char
  | .toneFirst => [tone, script.nikhahit, script.aa]
  | .toneBetween => [script.nikhahit, tone, script.aa]
  | .toneLast => [script.nikhahit, script.aa, tone]

/-- The order the dictionary knows. -/
def own : Script → ToneOrder
  | thai => .toneFirst
  | lao => .toneBetween

/-- The other order with the tone mark before AA. -/
def other : Script → ToneOrder
  | thai => .toneBetween
  | lao => .toneFirst

/-- The tone mark of three characters in an order. -/
def toneAt (a b c : Char) : ToneOrder → Char
  | .toneFirst => a
  | .toneBetween => b
  | .toneLast => c

/-- A toned SARA AM in an order is written in the script's own. -/
def rewriting (script : Script) (order : ToneOrder) (a b c : Char) : Option (List Char) :=
  let tone := toneAt a b c order
  if script.isTone tone ∧ [a, b, c] = script.spelling tone order then
    some (script.spelling tone script.own)
  else none

end Script

/-- A letter a toned SARA AM is written after. -/
def isConsonant (c : Char) : Bool :=
  let code := c.toNat
  (0x0e01 ≤ code && code ≤ 0x0e2e) || (0x0e81 ≤ code && code ≤ 0x0eae) ||
    (0x0edc ≤ code && code ≤ 0x0edf)

/-! The four rewrites. -/

theorem rewriting_own {script : Script} {order : ToneOrder} {a b c : Char}
    (tone : script.isTone (Script.toneAt a b c order) = true)
    (spelled : [a, b, c] = script.spelling (Script.toneAt a b c order) order) :
    script.rewriting order a b c =
      some (script.spelling (Script.toneAt a b c order) script.own) :=
  if_pos ⟨tone, spelled⟩

theorem rewriting_none {script : Script} {order : ToneOrder} {a b c : Char}
    (apart : script.isTone (Script.toneAt a b c order) = true →
      [a, b, c] ≠ script.spelling (Script.toneAt a b c order) order) :
    script.rewriting order a b c = none :=
  if_neg fun found => apart found.1 found.2

theorem of_rewriting {script : Script} {order : ToneOrder} {a b c : Char}
    {new : List Char} (found : script.rewriting order a b c = some new) :
    script.isTone (Script.toneAt a b c order) = true ∧
      new = script.spelling (Script.toneAt a b c order) script.own := by
  obtain ⟨matched, same⟩ := Option.ite_none_right_eq_some.mp found
  exact ⟨matched.1, (Option.some.inj same).symm⟩

theorem thaiLateTone_eq (text : List Char) :
    thaiLateTone text = text.replaceTriples (Script.thai.rewriting .toneLast) := by
  fun_induction thaiLateTone text with
  | case1 a b c rest spelled induction =>
      obtain ⟨rfl, rfl, tone⟩ := spelled
      have found := @rewriting_own .thai .toneLast '\u0e4d' '\u0e32' c tone rfl
      rw [List.replaceTriples_match found, induction]
      rfl
  | case2 a b c rest other induction =>
      have none : Script.thai.rewriting .toneLast a b c = none :=
        rewriting_none fun tone same => other (by cases same; exact ⟨rfl, rfl, tone⟩)
      rw [induction, List.replaceTriples, none]
  | case3 text short =>
      rw [List.replaceTriples]
      exact short

theorem laoLateTone_eq (text : List Char) :
    laoLateTone text = text.replaceTriples (Script.lao.rewriting .toneLast) := by
  fun_induction laoLateTone text with
  | case1 a b c rest spelled induction =>
      obtain ⟨rfl, rfl, tone⟩ := spelled
      have found := @rewriting_own .lao .toneLast '\u0ecd' '\u0eb2' c tone rfl
      rw [List.replaceTriples_match found, induction]
      rfl
  | case2 a b c rest other induction =>
      have none : Script.lao.rewriting .toneLast a b c = none :=
        rewriting_none fun tone same => other (by cases same; exact ⟨rfl, rfl, tone⟩)
      rw [induction, List.replaceTriples, none]
  | case3 text short =>
      rw [List.replaceTriples]
      exact short

/-- The two that look ahead leave the AA they look at for the next match, which
can't start with it. -/
theorem thaiTonedSaraAm_eq (text : List Char) :
    thaiTonedSaraAm text = text.replaceTriples (Script.thai.rewriting .toneBetween) := by
  fun_induction thaiTonedSaraAm text with
  | case1 a b rest spelled induction =>
      obtain ⟨rfl, tone, ahead⟩ := spelled
      obtain ⟨rest, rfl⟩ := List.head?_eq_some_iff.mp ahead
      have found := @rewriting_own .thai .toneBetween '\u0e4d' b '\u0e32' tone rfl
      have aa : List.replaceTriples (Script.thai.rewriting .toneBetween) ('\u0e32' :: rest) =
          '\u0e32' :: rest.replaceTriples (Script.thai.rewriting .toneBetween) :=
        List.replaceTriples_cons fun x y _ _ => rewriting_none fun _ same => by
          cases same
      rw [List.replaceTriples_match found, induction, aa]
      rfl
  | case2 a b rest other induction =>
      refine (congrArg (List.cons a) induction).trans (List.replaceTriples_cons ?_).symm
      rintro _ c rest ⟨⟩
      refine rewriting_none fun tone same => other ?_
      cases same
      exact ⟨rfl, tone, rfl⟩
  | case3 text short =>
      rw [List.replaceTriples]
      rintro a b c rest rfl
      exact short a b (c :: rest) rfl

theorem laoTonedSaraAm_eq (text : List Char) :
    laoTonedSaraAm text = text.replaceTriples (Script.lao.rewriting .toneFirst) := by
  fun_induction laoTonedSaraAm text with
  | case1 a b rest spelled induction =>
      obtain ⟨tone, rfl, ahead⟩ := spelled
      obtain ⟨rest, rfl⟩ := List.head?_eq_some_iff.mp ahead
      have found := @rewriting_own .lao .toneFirst a '\u0ecd' '\u0eb2' tone rfl
      have aa : List.replaceTriples (Script.lao.rewriting .toneFirst) ('\u0eb2' :: rest) =
          '\u0eb2' :: rest.replaceTriples (Script.lao.rewriting .toneFirst) :=
        List.replaceTriples_cons fun x y _ _ => rewriting_none fun tone _ => by
          cases tone
      rw [List.replaceTriples_match found, induction, aa]
      rfl
  | case2 a b rest other induction =>
      refine (congrArg (List.cons a) induction).trans (List.replaceTriples_cons ?_).symm
      rintro _ c rest ⟨⟩
      refine rewriting_none fun tone same => other ?_
      cases same
      exact ⟨tone, rfl, rfl⟩
  | case3 text short =>
      rw [List.replaceTriples]
      rintro a b c rest rfl
      exact short a b (c :: rest) rfl

/-- The text after the four rewrites. -/
def spelled (text : List Char) : List Char :=
  laoTonedSaraAm (thaiTonedSaraAm (laoLateTone (thaiLateTone text)))

theorem respell_eq (text : List Char) :
    respell text = recompose.foldl (fun text split =>
      replacePair split.1 split.2.1 [split.2.2] text) (spelled text) := rfl

/-! What stands around a toned SARA AM is rewritten by itself. -/

section Around

variable {script : Script} {order : ToneOrder} {c tone : Char}

/-- The characters of a toned SARA AM. -/
def IsPart (script : Script) (c : Char) : Prop :=
  script.isTone c = true ∨ c = script.nikhahit ∨ c = script.aa

theorem isPart_of_mem (isTone : script.isTone tone = true)
    (member : c ∈ script.spelling tone order) : IsPart script c := by
  have parts : c = tone ∨ c = script.nikhahit ∨ c = script.aa := by
    cases order <;> simp only [Script.spelling, List.mem_cons, List.not_mem_nil,
      or_false] at member
    all_goals tauto
  rcases parts with rfl | same
  · exact .inl isTone
  · exact .inr same

theorem inert_of_not_isPart (foreign : ¬ IsPart script c) :
    List.Inert (script.rewriting order) c := by
  have apart : ∀ x y z, c ∈ [x, y, z] → script.rewriting order x y z = none := by
    intro x y z member
    refine rewriting_none fun isTone same => foreign ?_
    rw [same] at member
    exact isPart_of_mem isTone member
  constructor
  · intro x y
    exact apart c x y (by simp)
  · intro x y
    exact apart x c y (by simp)
  · intro x y
    exact apart x y c (by simp)

theorem not_isPart_of_isConsonant (consonant : isConsonant c = true) :
    ¬ IsPart script c := by
  rintro (isTone | rfl | rfl)
  · simp only [isConsonant, Bool.or_eq_true, Bool.and_eq_true,
      decide_eq_true_eq] at consonant
    cases script <;> simp only [Script.isTone, isThaiTone, isLaoTone, Bool.and_eq_true,
      decide_eq_true_eq] at isTone
    all_goals omega
  · cases script <;> cases consonant
  · cases script <;> cases consonant

/-- Thai ends where Lao begins. -/
theorem IsPart.script_iff (part : IsPart script c) :
    c.toNat < 0x0e80 ↔ script = .thai := by
  rcases part with isTone | rfl | rfl
  · cases script <;> simp only [Script.isTone, isThaiTone, isLaoTone, Bool.and_eq_true,
      decide_eq_true_eq] at isTone
    · exact iff_of_true (by omega) rfl
    · exact iff_of_false (by omega) (by simp)
  · cases script <;> decide
  · cases script <;> decide

theorem IsPart.not_of_ne {foreign : Script} (part : IsPart foreign c)
    (apart : script ≠ foreign) : ¬ IsPart script c := by
  intro own
  have agree := own.script_iff.symm.trans part.script_iff
  cases script <;> cases foreign <;> simp at apart agree

theorem inert_of_mem {foreign : Script} {order' : ToneOrder} (apart : script ≠ foreign)
    (isTone : script.isTone tone = true) (member : c ∈ script.spelling tone order) :
    List.Inert (foreign.rewriting order') c := by
  apply inert_of_not_isPart
  exact (isPart_of_mem isTone member).not_of_ne apart.symm

end Around

/-! A toned SARA AM is rewritten into its script's own order. -/

section Spellings

variable {script : Script} {order : ToneOrder} {tone : Char} {text : List Char}

theorem nikhahit_ne_aa (script : Script) : script.nikhahit ≠ script.aa := by
  cases script <;> decide

theorem isTone_nikhahit (script : Script) : script.isTone script.nikhahit = false := by
  cases script <;> decide

theorem isTone_aa (script : Script) : script.isTone script.aa = false := by
  cases script <;> decide

/-- A tone mark after AA is moved; one that is not is left for later. -/
theorem late_spelling (isTone : script.isTone tone = true)
    (free : text.head?.any script.isTone = false) :
    (script.spelling tone order ++ text).replaceTriples (script.rewriting .toneLast) =
      script.spelling tone (if order = .toneLast then script.own else order) ++
        text.replaceTriples (script.rewriting .toneLast) := by
  have unmoved : ∀ a b c, (script.isTone c = true → a ≠ script.nikhahit ∨ b ≠ script.aa) →
      script.rewriting .toneLast a b c = none := by
    intro a b c apart
    refine rewriting_none fun late same => ?_
    cases same
    rcases apart late with other | other
    · exact other rfl
    · exact other rfl
  have toneless : tone ≠ script.nikhahit ∧ tone ≠ script.aa := by
    constructor
    · rintro rfl
      simp [isTone_nikhahit] at isTone
    · rintro rfl
      simp [isTone_aa] at isTone
  cases order with
  | toneLast => exact List.replaceTriples_match (rewriting_own isTone rfl) text
  | toneFirst =>
      refine List.replaceTriples_skip ?_ ?_ ?_
      · exact unmoved _ _ _ fun _ => .inl toneless.1
      · intro x found
        refine unmoved _ _ _ fun late => ?_
        rw [show text.head? = some x from found, Option.any_some, late] at free
        cases free
      · intro x y
        exact unmoved _ _ _ fun _ => .inl (nikhahit_ne_aa script).symm
  | toneBetween =>
      refine List.replaceTriples_skip ?_ ?_ ?_
      · exact unmoved _ _ _ fun _ => .inr toneless.2
      · intro x _
        exact unmoved _ _ _ fun _ => .inl toneless.1
      · intro x y
        exact unmoved _ _ _ fun _ => .inl (nikhahit_ne_aa script).symm

/-- A tone mark before AA is put where the script has it. -/
theorem toned_spelling (isTone : script.isTone tone = true) (early : order ≠ .toneLast) :
    (script.spelling tone order ++ text).replaceTriples (script.rewriting script.other) =
      script.spelling tone script.own ++
        text.replaceTriples (script.rewriting script.other) := by
  have aa : ∀ x y, script.rewriting script.other script.aa x y = none := by
    intro x y
    refine rewriting_none fun found same => ?_
    cases script with
    | thai => cases same
    | lao => cases found
  by_cases rewritten : order = script.other
  · rw [rewritten]
    cases script with
    | thai => exact List.replaceTriples_match (rewriting_own isTone rfl) text
    | lao => exact List.replaceTriples_match (rewriting_own isTone rfl) text
  · obtain rfl : order = script.own := by
      cases script <;> cases order <;> simp_all [Script.own, Script.other]
    cases script with
    | thai =>
        refine List.replaceTriples_skip ?_ ?_ aa
        · refine rewriting_none fun _ same => ?_
          cases same
          cases isTone
        · intro x _
          refine rewriting_none fun found _ => ?_
          cases found
    | lao =>
        refine List.replaceTriples_skip ?_ ?_ aa
        · refine rewriting_none fun found _ => ?_
          cases found
        · intro x _
          refine rewriting_none fun _ same => ?_
          cases same

theorem spelled_eq (text : List Char) :
    spelled text = (((text.replaceTriples (Script.thai.rewriting .toneLast)).replaceTriples
      (Script.lao.rewriting .toneLast)).replaceTriples
        (Script.thai.rewriting .toneBetween)).replaceTriples (Script.lao.rewriting .toneFirst) := by
  rw [spelled, laoTonedSaraAm_eq, thaiTonedSaraAm_eq, laoLateTone_eq, thaiLateTone_eq]

theorem free_replaceTriples {foreign : Script} {order' : ToneOrder}
    (apart : script ≠ foreign) (free : text.head?.any script.isTone = false) :
    (text.replaceTriples (foreign.rewriting order')).head?.any script.isTone = false := by
  rcases text with _ | ⟨a, _ | ⟨b, _ | ⟨c, rest⟩⟩⟩
  · simp [List.replaceTriples]
  · simpa [List.replaceTriples] using free
  · simpa [List.replaceTriples] using free
  · cases found : foreign.rewriting order' a b c with
    | none => simpa [List.replaceTriples, found] using free
    | some new =>
        rw [List.replaceTriples_match found]
        obtain ⟨isTone, rfl⟩ := of_rewriting found
        obtain ⟨head, tail, listed⟩ : ∃ head tail,
            foreign.spelling (Script.toneAt a b c order') foreign.own = head :: tail := by
          cases foreign <;> exact ⟨_, _, rfl⟩
        have part : IsPart foreign head :=
          isPart_of_mem isTone (by rw [listed]; exact List.mem_cons_self)
        rw [listed, List.cons_append, List.head?_cons, Option.any_some,
          Bool.eq_false_iff]
        intro own
        exact part.not_of_ne apart (.inl own)

/-- Whatever its order, it comes out in the script's own, and the text after it as
without it. -/
theorem spelled_spelling (isTone : script.isTone tone = true)
    (free : text.head?.any script.isTone = false) :
    spelled (script.spelling tone order ++ text) =
      script.spelling tone script.own ++ spelled text := by
  let early := if order = .toneLast then script.own else order
  have notLast : early ≠ .toneLast := by
    cases script <;> cases order <;> simp [early, Script.own]
  rw [spelled_eq, spelled_eq]
  cases script with
  | thai =>
      have foreign : ∀ order order', ∀ c ∈ Script.thai.spelling tone order,
          List.Inert (Script.lao.rewriting order') c :=
        fun _ _ _ member => inert_of_mem (by simp) isTone member
      have toned := @toned_spelling .thai early tone
      rw [late_spelling isTone free, List.replaceTriples_block (foreign early .toneLast)]
      exact (congrArg _ (toned isTone notLast)).trans
        (List.replaceTriples_block (foreign .toneFirst .toneFirst) _)
  | lao =>
      have foreign : ∀ order order', ∀ c ∈ Script.lao.spelling tone order,
          List.Inert (Script.thai.rewriting order') c :=
        fun _ _ _ member => inert_of_mem (by simp) isTone member
      rw [List.replaceTriples_block (foreign order .toneLast)]
      have toned := @toned_spelling .lao early tone
      rw [late_spelling isTone (free_replaceTriples (by simp) free),
        List.replaceTriples_block (foreign early .toneBetween)]
      exact toned isTone notLast

theorem spelled_append {c : Char} (consonant : isConsonant c = true)
    (front back : List Char) :
    spelled (front ++ c :: back) = spelled front ++ c :: spelled back := by
  have inert : ∀ script order, List.Inert (Script.rewriting script order) c :=
    fun script _ => inert_of_not_isPart (not_isPart_of_isConsonant consonant)
  simp only [spelled_eq, List.replaceTriples_append (inert _ _)]

/-- In a text it comes out in the script's own order, and the text around it as
without it. -/
theorem spelled_within {front back : List Char} (isTone : script.isTone tone = true)
    (ends : front.getLast?.any isConsonant = true)
    (free : back.head?.any script.isTone = false) :
    spelled (front ++ script.spelling tone order ++ back) =
      spelled front ++ script.spelling tone script.own ++ spelled back := by
  obtain ⟨c, last, consonant⟩ := (Option.any_eq_true _ _).mp ends
  obtain ⟨front, rfl⟩ := List.getLast?_eq_some_iff.mp last
  have before := spelled_append consonant front []
  rw [List.append_assoc, List.append_assoc, List.singleton_append,
    spelled_append consonant, spelled_spelling isTone free, before]
  simp [spelled, thaiLateTone, laoLateTone, thaiTonedSaraAm, laoTonedSaraAm]

end Spellings

/-! The scan of a text. -/

/-- A character a scan goes past without reading it. -/
def skipped (unicode : Unicode) (c : Char) : Bool :=
  unicode.category c = "Cf" && c ≠ '\u200b'

/-- The characters of a text a scan reads. -/
def shown (unicode : Unicode) (text : List Char) : List Char :=
  text.filter fun c => !skipped unicode c

/-- A character a scan reads into the segment it hands to the dictionaries. -/
structure Joins (unicode : Unicode) (c : Char) : Prop where
  shown : skipped unicode c = false
  wordMark : isWordMark c = false
  segmented : isSegmentedChar c = true
  digit : unicode.isDigit c = false

/-- What every version of the tables says of the consonants, tone marks and vowel
signs. -/
structure LettersJoin (unicode : Unicode) : Prop where
  format : ∀ c, isConsonant c = true ∨ (∃ script, IsPart script c) →
    unicode.category c ≠ "Cf"
  digit : ∀ c, isConsonant c = true ∨ (∃ script, IsPart script c) →
    unicode.isDigit c = false

section Scans

variable {unicode : Unicode} {scan : Scan} {c : Char}

theorem step_skipped (skips : skipped unicode c = true) : scan.step unicode c = scan := by
  simp only [skipped, Bool.and_eq_true, decide_eq_true_eq] at skips
  exact if_pos skips

theorem tokensOf_shown (text : List Char) :
    tokensOf unicode text = tokensOf unicode (shown unicode text) := by
  have read : ∀ scan : Scan, text.foldl (Scan.step unicode) scan =
      (shown unicode text).foldl (Scan.step unicode) scan := by
    induction text with
    | nil => exact fun _ => rfl
    | cons c text induction =>
        intro scan
        unfold shown at induction ⊢
        cases skips : skipped unicode c with
        | true =>
            rw [List.foldl_cons, step_skipped skips, List.filter_cons_of_neg (by simp [skips])]
            exact induction scan
        | false =>
            rw [List.foldl_cons, List.filter_cons_of_pos (by simp [skips]), List.foldl_cons]
            exact induction _
  rw [tokensOf, tokensOf, read]

theorem segmented_of_letter (letter : isConsonant c = true ∨ ∃ script, IsPart script c) :
    isWordMark c = false ∧ isSegmentedChar c = true := by
  simp only [isWordMark, isSegmentedChar, List.mem_cons, List.not_mem_nil, or_false,
    decide_eq_false_iff_not, Bool.or_eq_true, Bool.and_eq_true, decide_eq_true_eq]
  rcases letter with consonant | ⟨script, isTone | rfl | rfl⟩
  · simp only [isConsonant, Bool.or_eq_true, Bool.and_eq_true,
      decide_eq_true_eq] at consonant
    omega
  · cases script <;> simp only [Script.isTone, isThaiTone, isLaoTone, Bool.and_eq_true,
      decide_eq_true_eq] at isTone
    all_goals omega
  · cases script <;> decide
  · cases script <;> decide

theorem LettersJoin.joins (tables : LettersJoin unicode)
    (letter : isConsonant c = true ∨ ∃ script, IsPart script c) : Joins unicode c where
  shown := by simp [skipped, tables.format c letter]
  wordMark := (segmented_of_letter letter).1
  segmented := (segmented_of_letter letter).2
  digit := tables.digit c letter

theorem step_joins (joins : Joins unicode c) (noWord : scan.word = []) :
    scan.step unicode c = { scan with segment := scan.segment ++ [c] } := by
  have shown : ¬(unicode.category c = "Cf" ∧ c ≠ '\u200b') := by
    have shown := joins.shown
    simp only [skipped, Bool.and_eq_false_iff, decide_eq_false_iff_not] at shown
    tauto
  simp only [Scan.step, if_neg shown, joins.wordMark, joins.segmented, joins.digit,
    noWord, Bool.not_false, Bool.and_self, Bool.false_eq_true, if_true, if_false]

/-- After it no word is being read: one before it is written first. -/
theorem step_joins_ends (joins : Joins unicode c) :
    (scan.step unicode c).word = [] ∧ ∃ segment,
      (scan.step unicode c).segment = segment ++ [c] := by
  by_cases noWord : scan.word = []
  · rw [step_joins joins noWord]
    exact ⟨noWord, scan.segment, rfl⟩
  · have shown : ¬(unicode.category c = "Cf" ∧ c ≠ '\u200b') := by
      have shown := joins.shown
      simp only [skipped, Bool.and_eq_false_iff, decide_eq_false_iff_not] at shown
      tauto
    have flushed : scan.step unicode c =
        { scan.flush unicode with segment := (scan.flush unicode).segment ++ [c] } := by
      simp only [Scan.step, if_neg shown, joins.wordMark, joins.segmented, joins.digit,
        if_neg noWord, Bool.not_false, Bool.and_self, Bool.false_eq_true, if_true, if_false]
    rw [flushed]
    exact ⟨Scan.flush_word scan, _, rfl⟩

/-- Any other character ends the segment first. -/
theorem step_ends (shown : skipped unicode c = false) (other : ¬ Joins unicode c)
    (segment : scan.segment ≠ []) :
    scan.step unicode c = (scan.flush unicode).step unicode c := by
  have flushed : (scan.flush unicode).segment = [] := Scan.flush_segment scan
  unfold Scan.step
  split
  · rename_i skips
    simp [skipped, skips] at shown
  · split
    · rw [Scan.flush_flush]
    · split
      · rename_i wordMark joins
        simp only [Bool.and_eq_true, Bool.not_eq_true'] at joins
        exact absurd ⟨shown, Bool.eq_false_iff.mpr wordMark, joins.1, joins.2⟩ other
      · rfl

/-- Where no word is read, a flush writes the tokens of the segment. -/
theorem flush_with {segment : List Char} (noWord : scan.word = []) (filled : segment ≠ []) :
    ({ scan with segment } : Scan).flush unicode =
      { (Keyword.segment unicode segment).foldl Scan.emit scan with
        word := [], segment := [] } := by
  have written := Scan.foldl_emit_with scan (Keyword.segment unicode segment) scan.word segment
  rw [Scan.flush_eq, Scan.pending, if_pos noWord, if_neg filled, List.nil_append, written]

/-- Scans that have read segments the dictionaries take for the same, whatever follows
that starts with no `free` character, come to the same tokens. -/
theorem foldl_alike {free : Char → Bool} {first second : List Char} (noWord : scan.word = [])
    (filled : first ≠ [] ∧ second ≠ [])
    (alike : ∀ text, text.head?.any free = false →
      segment unicode (first ++ text) = segment unicode (second ++ text))
    {text : List Char} (shows : ∀ c ∈ text, skipped unicode c = false)
    (read : List Char) (starts : (read ++ text).head?.any free = false) :
    (text.foldl (Scan.step unicode) { scan with segment := first ++ read }).flush unicode =
      (text.foldl (Scan.step unicode)
        { scan with segment := second ++ read }).flush unicode := by
  induction text generalizing read with
  | nil =>
      rw [List.append_nil] at starts
      rw [List.foldl_nil, List.foldl_nil, flush_with noWord (by simp [filled.1]),
        flush_with noWord (by simp [filled.2]), alike read starts]
  | cons c text induction =>
      obtain ⟨shown, shows⟩ := List.forall_mem_cons.mp shows
      rw [List.foldl_cons, List.foldl_cons]
      by_cases joins : Joins unicode c
      · have grows : ∀ segment : List Char,
            ({ scan with segment := segment ++ read } : Scan).step unicode c =
              { scan with segment := segment ++ (read ++ [c]) } := by
          intro segment
          have stepped := @step_joins unicode { scan with segment := segment ++ read } c
            joins noWord
          rw [stepped, List.append_assoc]
        rw [grows, grows]
        exact induction shows (read ++ [c]) (by simpa using starts)
      · have begins : read.head?.any free = false := by
          cases read with
          | nil => rfl
          | cons head read => exact starts
        have ended : ∀ segment : List Char, segment ≠ [] →
            ({ scan with segment := segment ++ read } : Scan).step unicode c =
              ({ (Keyword.segment unicode (segment ++ read)).foldl Scan.emit scan with
                word := [], segment := [] } : Scan).step unicode c := by
          intro segment filled
          have filled' : segment ++ read ≠ [] := by simp [filled]
          rw [step_ends shown joins filled', flush_with noWord filled']
        rw [ended first filled.1, ended second filled.2, alike read begins]

theorem foldl_joins {text : List Char} (joins : ∀ c ∈ text, Joins unicode c)
    (noWord : scan.word = []) :
    text.foldl (Scan.step unicode) scan = { scan with segment := scan.segment ++ text } := by
  induction text generalizing scan with
  | nil => simp
  | cons c text induction =>
      obtain ⟨head, tail⟩ := List.forall_mem_cons.mp joins
      rw [List.foldl_cons, step_joins head noWord]
      refine (@induction { scan with segment := scan.segment ++ [c] } tail noWord).trans ?_
      rw [List.append_assoc, List.singleton_append]

end Scans

section Contexts

variable {unicode : Unicode} {script : Script} {tone : Char} {front back : List Char}

theorem respell_congr (isTone : script.isTone tone = true)
    (ends : front.getLast?.any isConsonant = true)
    (free : back.head?.any script.isTone = false) (order order' : ToneOrder) :
    respell (front ++ script.spelling tone order ++ back) =
      respell (front ++ script.spelling tone order' ++ back) := by
  rw [respell_eq, respell_eq, spelled_within isTone ends free,
    spelled_within isTone ends free]

theorem tokensOf_congr (tables : LettersJoin unicode) (isTone : script.isTone tone = true)
    (ends : (shown unicode front).getLast?.any isConsonant = true)
    (free : (shown unicode back).head?.any script.isTone = false)
    (order order' : ToneOrder) :
    tokensOf unicode (front ++ script.spelling tone order ++ back) =
      tokensOf unicode (front ++ script.spelling tone order' ++ back) := by
  have letters : ∀ order, ∀ c ∈ script.spelling tone order, Joins unicode c :=
    fun _ _ member => tables.joins (.inr ⟨script, isPart_of_mem isTone member⟩)
  have shown_eq : ∀ order, shown unicode (front ++ script.spelling tone order ++ back) =
      shown unicode front ++ (script.spelling tone order ++ shown unicode back) := by
    intro order
    have kept : shown unicode (script.spelling tone order) = script.spelling tone order :=
      List.filter_eq_self.mpr fun c member => by simp [(letters order c member).shown]
    unfold shown at kept ⊢
    rw [List.filter_append, List.filter_append, kept, List.append_assoc]
  have shows : ∀ c ∈ shown unicode back, skipped unicode c = false := by
    intro c member
    simpa using (List.mem_filter.mp member).2
  rw [tokensOf_shown, shown_eq, tokensOf_shown (front ++ script.spelling tone order' ++ back), shown_eq]
  generalize shown unicode front = front at ends ⊢
  generalize shown unicode back = back at free shows ⊢
  obtain ⟨c, last, consonant⟩ := (Option.any_eq_true _ _).mp ends
  obtain ⟨front, rfl⟩ := List.getLast?_eq_some_iff.mp last
  -- What the scan holds when it comes to the tone.
  obtain ⟨noWord, segment, read⟩ := @step_joins_ends unicode
    (front.foldl (Scan.step unicode) {}) c (tables.joins (.inl consonant))
  have folded : ∀ order, (front ++ [c] ++ (script.spelling tone order ++ back)).foldl
      (Scan.step unicode) {} = back.foldl (Scan.step unicode)
        { (front.foldl (Scan.step unicode) {}).step unicode c with
          segment := segment ++ [c] ++ script.spelling tone order } := by
    intro order
    rw [List.foldl_append, List.foldl_append, List.foldl_append, List.foldl_cons,
      List.foldl_nil, foldl_joins (letters order) noWord, read]
  rw [tokensOf, folded, tokensOf, folded]
  have filled : ∀ order, segment ++ [c] ++ script.spelling tone order ≠ [] := by
    intro order
    simp
  have alike : ∀ text : List Char, text.head?.any script.isTone = false →
      Keyword.segment unicode (segment ++ [c] ++ script.spelling tone order ++ text) =
        Keyword.segment unicode (segment ++ [c] ++ script.spelling tone order' ++ text) := by
    intro text free
    have ends : (segment ++ [c]).getLast?.any isConsonant = true := by simpa using consonant
    rw [Keyword.segment, respell_congr isTone ends free order order', Keyword.segment]
  have same := foldl_alike noWord ⟨filled order, filled order'⟩ alike shows [] free
  rw [List.append_nil, List.append_nil] at same
  rw [same]

end Contexts

/-- However a toned SARA AM is typed after a consonant, the dictionaries are handed
one text, and a text holding it has the same tokens. -/
theorem toned_sara_am_has_one_spelling (script : Script) (tone : Char)
    (isTone : script.isTone tone = true) (order order' : ToneOrder) :
    (∀ before after : List Char, before.getLast?.any isConsonant = true →
      after.head?.any script.isTone = false →
        respell (before ++ script.spelling tone order ++ after) =
            respell (before ++ script.spelling tone order' ++ after) ∧
          ∀ unicode : Unicode,
            segment unicode (before ++ script.spelling tone order ++ after) =
              segment unicode (before ++ script.spelling tone order' ++ after)) ∧
      ∀ unicode : Unicode, LettersJoin unicode → Lawful unicode →
        ∀ before after : List Char,
          (shown unicode before).getLast?.any isConsonant = true →
          (shown unicode after).head?.any script.isTone = false →
          ∀ text text' : List Char,
            unicode.lower (unicode.nfkc text) =
              before ++ script.spelling tone order ++ after →
            unicode.lower (unicode.nfkc text') =
              before ++ script.spelling tone order' ++ after →
            tokenize unicode text = tokenize unicode text' := by
  constructor
  · intro before after ends free
    have same := respell_congr isTone ends free order order'
    refine ⟨same, fun unicode => ?_⟩
    rw [segment, same, segment]
  · intro unicode tables lawful before after ends free text text' typed typed'
    rw [tokenize_eq_tokensOf lawful, typed, tokensOf_congr tables isTone ends free order order',
      tokenize_eq_tokensOf lawful, typed']

/-- The tables of ASCII text and of the Thai letters. -/
def thaiTables : Unicode :=
  { Unicode.ascii with
    nfkc text := text.flatMap fun c =>
      if c = '\u0e33' then ['\u0e4d', '\u0e32'] else [c]
    isAlnum c := c.isAlphanum || isConsonant c || c = '\u0e32' || c = '\u0e33'
    category c :=
      if isConsonant c || c = '\u0e32' || c = '\u0e33' then "Lo"
      else if isThaiTone c || c = '\u0e4d' then "Mn"
      else Unicode.ascii.category c }

theorem thaiTables_category (c : Char) :
    thaiTables.category c ≠ "Cf" ∧
      (isMark thaiTables c = true → isThaiTone c = true ∨ c = '\u0e4d') := by
  simp only [isMark, thaiTables, Unicode.ascii]
  split
  · exact ⟨by decide, fun mark => absurd mark (by decide)⟩
  · split
    · rename_i mark
      simp only [Bool.or_eq_true, decide_eq_true_eq] at mark
      exact ⟨by decide, fun _ => mark⟩
    · repeat' split
      all_goals exact ⟨by decide, fun mark => absurd mark (by decide)⟩

theorem lettersJoin_thaiTables : LettersJoin thaiTables where
  format c _ := (thaiTables_category c).1
  digit c letter := by
    have segmented := (segmented_of_letter letter).2
    simp only [isSegmentedChar, Bool.or_eq_true, Bool.and_eq_true,
      decide_eq_true_eq] at segmented
    simp only [thaiTables, Unicode.ascii]
    delta Char.isDigit
    simp only [UInt32.le_iff_toNat_le, Char.toNat_val, ge_iff_le, Bool.and_eq_false_iff,
      decide_eq_false_iff_not]
    change ¬48 ≤ c.toNat ∨ ¬c.toNat ≤ 57
    omega

theorem thaiTables_plain {c : Char} (plain : isSpace c = true ∨ isAscii c = true) :
    thaiTables.isAlnum c = c.isAlphanum ∧ isMark thaiTables c = false := by
  have unsegmented : isSegmentedChar c = false := by
    simp only [isSpace, isAscii, Bool.or_eq_true, Bool.and_eq_true, decide_eq_true_eq,
      beq_iff_eq] at plain
    simp only [isSegmentedChar, Bool.or_eq_false_iff, Bool.and_eq_false_iff,
      decide_eq_false_iff_not]
    omega
  have foreign : ¬(isConsonant c = true ∨ ∃ script, IsPart script c) := fun letter =>
    absurd (segmented_of_letter letter).2 (Bool.eq_false_iff.mp unsegmented)
  obtain ⟨consonant, parts⟩ := not_or.mp foreign
  have thai : ¬IsPart .thai c := fun part => parts ⟨_, part⟩
  have whole : c ≠ '\u0e33' := by
    rintro rfl
    cases unsegmented
  obtain ⟨isTone, nikhahit, aa⟩ := by simpa only [IsPart, not_or] using thai
  constructor
  · simp [thaiTables, consonant, whole, show c ≠ '\u0e32' from aa]
  · refine Bool.eq_false_iff.mpr fun mark => ?_
    rcases (thaiTables_category c).2 mark with mark | mark
    · exact isTone mark
    · exact nikhahit mark

theorem lawful_thaiTables : Lawful thaiTables where
  nfkc_ascii text ascii := by
    have kept : ∀ c ∈ text, (if c = '\u0e33' then ['\u0e4d', '\u0e32'] else [c]) = [c] := by
      intro c member
      refine if_neg ?_
      rintro rfl
      exact absurd (List.all_eq_true.mp ascii _ member) (by decide)
    simp only [thaiTables]
    rw [List.flatMap_congr kept, List.flatMap_singleton']
  lower_small := lawful_hanTables.lower_small
  space_alnum c space := by
    have plain := lawful_hanTables.space_alnum c space
    simp only [hanTables, Bool.or_eq_false_iff] at plain
    exact (thaiTables_plain (.inl space)).1.trans plain.1
  space_mark c space := (thaiTables_plain (.inl space)).2
  space_format c _ := (thaiTables_category c).1
  ascii_alnum c ascii := (thaiTables_plain (.inr ascii)).1
  ascii_mark c ascii := (thaiTables_plain (.inr ascii)).2
  ascii_format c _ := (thaiTables_category c).1

theorem toned_sara_am_has_one_spelling_water :
    tokenize thaiTables "\u0e19\u0e49\u0e33".toList =
      tokenize thaiTables "\u0e19\u0e33\u0e49".toList :=
  (toned_sara_am_has_one_spelling .thai '\u0e49' (by decide) .toneFirst .toneLast).2
    thaiTables lettersJoin_thaiTables lawful_thaiTables ['\u0e19'] [] (by decide +kernel)
    (by decide +kernel) _ _ (by decide +kernel) (by decide +kernel)

end Memcp.Keyword
