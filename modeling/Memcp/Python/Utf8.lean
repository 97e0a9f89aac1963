import Mathlib.Data.List.Basic

/-!
UTF-8 as Python writes and reads it.  `errors="replace"` puts one U+FFFD for each longest
start of a sequence that is not finished, and for each byte that starts none.
-/

namespace Python

abbrev Bytes := List UInt8

namespace Utf8

def byte (n : Nat) : UInt8 := UInt8.ofNat n

def encodeChar (c : Char) : Bytes :=
  if c.toNat < 0x80 then [byte c.toNat]
  else if c.toNat < 0x800 then [byte (0xC0 + c.toNat / 64), byte (0x80 + c.toNat % 64)]
  else if c.toNat < 0x10000 then
    [byte (0xE0 + c.toNat / 4096), byte (0x80 + c.toNat / 64 % 64),
      byte (0x80 + c.toNat % 64)]
  else
    [byte (0xF0 + c.toNat / 262144), byte (0x80 + c.toNat / 4096 % 64),
      byte (0x80 + c.toNat / 64 % 64), byte (0x80 + c.toNat % 64)]

/-- `str.encode`. -/
def encode (text : String) : Bytes := text.toList.flatMap encodeChar

/-- A sequence that is not finished: its bits so far, how many bytes it still
takes, and the bytes the next one may be. -/
structure Pending where
  bits : Nat
  left : Nat
  low : Nat := 0x80
  high : Nat := 0xBF

def replacement : Char := Char.ofNat 0xFFFD

/-- What a byte that starts a sequence is read as, or leaves pending. -/
def begin (b : Nat) : List Char × Option Pending :=
  if b < 0x80 then ([Char.ofNat b], none)
  else if 0xC2 ≤ b ∧ b ≤ 0xDF then ([], some { bits := b - 0xC0, left := 1 })
  else if 0xE0 ≤ b ∧ b ≤ 0xEF then
    ([], some { bits := b - 0xE0, left := 2
                low := if b = 0xE0 then 0xA0 else 0x80
                high := if b = 0xED then 0x9F else 0xBF })
  else if 0xF0 ≤ b ∧ b ≤ 0xF4 then
    ([], some { bits := b - 0xF0, left := 3
                low := if b = 0xF0 then 0x90 else 0x80
                high := if b = 0xF4 then 0x8F else 0xBF })
  else ([replacement], none)

def read (pending : Option Pending) (b : Nat) : List Char × Option Pending :=
  match pending with
  | none => begin b
  | some started =>
      if started.low ≤ b ∧ b ≤ started.high then
        let bits := started.bits * 64 + (b - 0x80)
        if started.left = 1 then ([Char.ofNat bits], none)
        else ([], some { bits, left := started.left - 1 })
      else (replacement :: (begin b).1, (begin b).2)

def decodeFrom : Option Pending → Bytes → List Char
  | none, [] => []
  | some _, [] => [replacement]
  | pending, b :: rest =>
      (read pending b.toNat).1 ++ decodeFrom (read pending b.toNat).2 rest

/-- `bytes.decode("utf-8", errors="replace")`. -/
def decode (bytes : Bytes) : String := String.ofList (decodeFrom none bytes)

/-! Reading back what was written. -/

end Utf8

end Python
