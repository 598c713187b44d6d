/-!
# Octet strings

Packets are lists of octets, so that every codec below is a function on lists
and every length argument is a statement about `List.length`. Numbers travel in
base 256, most significant octet first, either with a fixed width or with the
fewest octets that hold them.
-/

namespace NamedData

/-- A run of octets, in the order in which they travel. -/
abbrev Octets := List UInt8

namespace Octets

/-- The number spelled by two octets, high octet first. -/
def word16 (hi lo : UInt8) : Nat := hi.toNat * 256 + lo.toNat

theorem word16_lt (hi lo : UInt8) : word16 hi lo < 65536 := by
  have h₁ := hi.toNat_lt
  have h₂ := lo.toNat_lt
  unfold word16
  omega

/-- The number spelled in base 256 by a run of octets. -/
def toNat (bytes : Octets) : Nat :=
  bytes.foldl (fun n b => n * 256 + b.toNat) 0

/-- The last `width` base-256 digits of a number. -/
def ofNat : (width : Nat) → Nat → Octets
  | 0, _ => []
  | width + 1, n => ofNat width (n / 256) ++ [UInt8.ofNat n]

@[simp] theorem length_ofNat (width n : Nat) : (ofNat width n).length = width := by
  induction width generalizing n with
  | zero => rfl
  | succ width ih => simp [ofNat, ih]

/-- Drops leading zero octets, but never the last octet. -/
def trim : Octets → Octets
  | b :: c :: rest => if b = 0 then trim (c :: rest) else b :: c :: rest
  | bytes => bytes

/-- The fewest octets that spell a 64-bit number, and at least one. -/
def ofUInt64 (n : UInt64) : Octets := trim (ofNat 8 n.toNat)

/-- Cuts off the first `n` octets, or fails when there are fewer. -/
def cut? (n : Nat) (bytes : Octets) : Option (Octets × Octets) :=
  let front := bytes.take n
  if front.length = n then some (front, bytes.drop n) else none

theorem cut?_eq_some {n : Nat} {bytes front rest : Octets} (h : cut? n bytes = some (front, rest)) :
    bytes = front ++ rest ∧ front.length = n := by
  unfold cut? at h
  simp only [Option.ite_none_right_eq_some, Option.some.injEq, Prod.mk.injEq] at h
  obtain ⟨hn, rfl, rfl⟩ := h
  exact ⟨(List.take_append_drop n bytes).symm, hn⟩

/-- Cuts a run into pieces of some size, of which the last may be shorter. -/
def pieces (size : Nat) (bytes : Octets) : List Octets :=
  if bytes = [] then []
  else bytes.take (max size 1) :: pieces size (bytes.drop (max size 1))
termination_by bytes.length
decreasing_by
  have h : bytes ≠ [] := by assumption
  have := List.length_pos_iff.2 h
  simp only [List.length_drop]
  omega

def hexDigit (n : Nat) : Char :=
  if n < 10 then Char.ofNat (n + 48) else Char.ofNat (n + 87)

/-- Two hexadecimal digits for each octet. -/
def hexDigits (bytes : Octets) : List Char :=
  bytes.flatMap fun b => [hexDigit (b.toNat / 16), hexDigit (b.toNat % 16)]

def ofString (text : String) : Octets := text.toUTF8.toList

end Octets
end NamedData
