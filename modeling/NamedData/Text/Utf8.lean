import NamedData.Octets

/-!
# Reading UTF-8

Octets that are not UTF-8 are read all the same: the longest beginning of a
character that stays unfinished, or else a single octet, counts as one
replacement character.
-/

namespace NamedData.Text

/-- What the first octet of a character tells. -/
structure Utf8Lead where
  bits : Nat
  more : Nat
  /-- The least and the greatest octet that may come next. -/
  low : UInt8 := 0x80
  high : UInt8 := 0xbf

/-- The first octet of a character. Characters have their shortest form, and
surrogates are none. -/
def Utf8Lead.ofOctet? (b : UInt8) : Option Utf8Lead :=
  let n := b.toNat
  if n < 0x80 then some { bits := n, more := 0 }
  else if n < 0xc2 then none
  else if n < 0xe0 then some { bits := n - 0xc0, more := 1 }
  else if n = 0xe0 then some { bits := 0, more := 2, low := 0xa0 }
  else if n = 0xed then some { bits := 13, more := 2, high := 0x9f }
  else if n < 0xf0 then some { bits := n - 0xe0, more := 2 }
  else if n = 0xf0 then some { bits := 0, more := 3, low := 0x90 }
  else if n < 0xf4 then some { bits := n - 0xf0, more := 3 }
  else if n = 0xf4 then some { bits := 4, more := 3, high := 0x8f }
  else none

/-- Reads the octets that follow the first: the character, if it is complete, and
what has not been read. -/
def utf8Rest : (more : Nat) → (low high : UInt8) → (bits : Nat) → Octets → Option Char × Octets
  | 0, _, _, bits, bytes => (some (Char.ofNat bits), bytes)
  | _ + 1, _, _, _, [] => (none, [])
  | more + 1, low, high, bits, b :: bytes =>
    if low ≤ b ∧ b ≤ high then utf8Rest more 0x80 0xbf (bits * 64 + (b.toNat - 0x80)) bytes
    else (none, b :: bytes)

theorem length_utf8Rest_le (more : Nat) (low high : UInt8) (bits : Nat) (bytes : Octets) :
    (utf8Rest more low high bits bytes).2.length ≤ bytes.length := by
  induction more generalizing low high bits bytes with
  | zero => simp [utf8Rest]
  | succ more ih =>
    cases bytes with
    | nil => simp [utf8Rest]
    | cons b bytes =>
      unfold utf8Rest
      split
      · have h := ih 0x80 0xbf (bits * 64 + (b.toNat - 0x80)) bytes
        simp only [List.length_cons]
        omega
      · simp

def replacement : Char := Char.ofNat 0xfffd

def ofUtf8 : Octets → List Char
  | [] => []
  | b :: bytes =>
    match Utf8Lead.ofOctet? b with
    | none => replacement :: ofUtf8 bytes
    | some lead =>
      let read := utf8Rest lead.more lead.low lead.high lead.bits bytes
      have := length_utf8Rest_le lead.more lead.low lead.high lead.bits bytes
      read.1.getD replacement :: ofUtf8 read.2
termination_by bytes => bytes.length

end NamedData.Text
