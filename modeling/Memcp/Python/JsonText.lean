import Memcp.Python.Json

/-! `json.dumps(value)`: ASCII text, with a space after each separator. -/

namespace Python

namespace Json

/-- `\uXXXX` of a UTF-16 code unit. -/
def unitEscape (unit : Nat) : List Char :=
  let digits := Nat.toDigits 16 unit
  '\\' :: 'u' :: (List.replicate (4 - digits.length) '0' ++ digits)

/-- A character beyond U+FFFF is escaped as its two surrogates. -/
def asciiEscape (c : Char) : List Char :=
  if c.toNat < 127 then escapeChar c
  else if c.toNat < 0x10000 then unitEscape c.toNat
  else unitEscape (0xD800 + (c.toNat - 0x10000) / 0x400) ++
    unitEscape (0xDC00 + (c.toNat - 0x10000) % 0x400)

def asciiStr (text : String) : String :=
  String.ofList ('"' :: (text.toList.flatMap asciiEscape ++ ['"']))

mutual

def asciiDumps : Json → String
  | .null => "null"
  | .bool value => if value then "true" else "false"
  | .int value => toString value
  | .float value => dumpsFloat value
  | .str value => asciiStr value
  | .list items => "[" ++ ", ".intercalate (asciiItems items) ++ "]"
  | .obj fields => "\x7b" ++ ", ".intercalate (asciiFields fields) ++ "\x7d"

def asciiItems : List Json → List String
  | [] => []
  | item :: items => item.asciiDumps :: asciiItems items

def asciiFields : List (String × Json) → List String
  | [] => []
  | (key, value) :: fields =>
      (asciiStr key ++ ": " ++ value.asciiDumps) :: asciiFields fields

end

/-! The text is printable ASCII, whatever the value holds. -/

/-- From the space to the tilde. -/
def IsGraphic (c : Char) : Prop := 32 ≤ c.toNat ∧ c.toNat < 127

instance (c : Char) : Decidable (IsGraphic c) := inferInstanceAs (Decidable (_ ∧ _))

def Graphic (text : String) : Prop := ∀ c ∈ text.toList, IsGraphic c

instance (text : String) : Decidable (Graphic text) :=
  List.decidableBAll IsGraphic text.toList

theorem Graphic.append {left right : String} (first : Graphic left)
    (second : Graphic right) : Graphic (left ++ right) := by
  intro c member
  rw [String.toList_append] at member
  exact (List.mem_append.mp member).elim (first c) (second c)

theorem Graphic.ofList {chars : List Char} (each : ∀ c ∈ chars, IsGraphic c) :
    Graphic (String.ofList chars) := by
  intro c member
  rw [String.toList_ofList] at member
  exact each c member

theorem Graphic.intercalate {separator : String} (between : Graphic separator) :
    ∀ texts : List String, (∀ text ∈ texts, Graphic text) →
      Graphic (separator.intercalate texts)
  | [], _ => by
      rw [String.intercalate_nil]
      decide
  | [text], each => by
      rw [String.intercalate_singleton]
      exact each text List.mem_cons_self
  | text :: next :: texts, each => by
      rw [String.intercalate_cons_cons]
      have rest := Graphic.intercalate between (next :: texts) fun other member =>
        each other (List.mem_cons_of_mem _ member)
      exact ((each text List.mem_cons_self).append between).append rest

theorem isGraphic_digitChar {digit : Nat} (below : digit < 16) :
    IsGraphic digit.digitChar := by
  have each : ∀ digit : Fin 16, IsGraphic (Nat.digitChar digit) := by decide
  exact each ⟨digit, below⟩

theorem isGraphic_of_mem_toDigits {base : Nat} (one : 1 < base) (most : base ≤ 16)
    (value : Nat) {c : Char} (member : c ∈ Nat.toDigits base value) : IsGraphic c := by
  induction value using Nat.strongRecOn with
  | ind value induction =>
      rw [Nat.toDigits_eq_if one] at member
      split at member
      case isTrue small =>
        rw [List.mem_singleton.mp member]
        exact isGraphic_digitChar (by omega)
      case isFalse large =>
        rcases List.mem_append.mp member with earlier | last
        · exact induction _ (Nat.div_lt_self (by omega) one) earlier
        · rw [List.mem_singleton.mp last]
          exact isGraphic_digitChar (by have := Nat.mod_lt value (by omega : 0 < base); omega)

theorem isGraphic_of_mem_unitEscape {unit : Nat} {c : Char}
    (member : c ∈ unitEscape unit) : IsGraphic c := by
  simp only [unitEscape, List.mem_cons, List.mem_append] at member
  rcases member with rfl | rfl | zero | digit
  · decide
  · decide
  · rw [(List.mem_replicate.mp zero).2]
    decide
  · exact isGraphic_of_mem_toDigits (by decide) (by decide) unit digit

theorem isGraphic_of_mem_pair {d e : Char} (graphic : IsGraphic d) (member : e ∈ ['\\', d]) :
    IsGraphic e := by
  rcases List.mem_cons.mp member with rfl | last
  · decide
  · rw [List.mem_singleton.mp last]
    exact graphic

theorem isGraphic_of_mem_escapeChar {c e : Char} (ascii : c.toNat < 127)
    (member : e ∈ escapeChar c) : IsGraphic e := by
  unfold escapeChar at member
  split at member
  · exact isGraphic_of_mem_pair (by decide) member
  split at member
  · exact isGraphic_of_mem_pair (by decide) member
  split at member
  · exact isGraphic_of_mem_pair (by decide) member
  split at member
  · exact isGraphic_of_mem_pair (by decide) member
  split at member
  · exact isGraphic_of_mem_pair (by decide) member
  split at member
  · exact isGraphic_of_mem_pair (by decide) member
  split at member
  · exact isGraphic_of_mem_pair (by decide) member
  split at member
  · exact isGraphic_of_mem_unitEscape member
  case isFalse graphic =>
    rw [List.mem_singleton.mp member]
    exact ⟨Nat.le_of_not_lt graphic, ascii⟩

theorem isGraphic_of_mem_asciiEscape {c e : Char} (member : e ∈ asciiEscape c) :
    IsGraphic e := by
  unfold asciiEscape at member
  split at member
  case isTrue ascii => exact isGraphic_of_mem_escapeChar ascii member
  case isFalse =>
    split at member
    · exact isGraphic_of_mem_unitEscape member
    · rcases List.mem_append.mp member with high | low
      · exact isGraphic_of_mem_unitEscape high
      · exact isGraphic_of_mem_unitEscape low

theorem graphic_asciiStr (text : String) : Graphic (asciiStr text) := by
  refine Graphic.ofList (List.forall_mem_cons.mpr ⟨by decide, ?_⟩)
  refine List.forall_mem_append.mpr
    ⟨fun e member => ?_, List.forall_mem_singleton.mpr (by decide)⟩
  obtain ⟨c, -, escaped⟩ := List.mem_flatMap.mp member
  exact isGraphic_of_mem_asciiEscape escaped

end Json

end Python
