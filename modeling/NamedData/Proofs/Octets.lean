import Mathlib.Algebra.GroupWithZero.Nat
import Mathlib.Data.List.Induction
import NamedData.Octets

/-!
# Numbers in octets

A number that is written with a fixed width is read back modulo what that width can hold, and the
fewest octets of a number spell the number itself.
-/

namespace NamedData.Octets

theorem toNat_append_singleton (bytes : Octets) (b : UInt8) :
    toNat (bytes ++ [b]) = toNat bytes * 256 + b.toNat := by
  simp [toNat, List.foldl_append]

theorem toNat_ofNat (width n : Nat) : toNat (ofNat width n) = n % 256 ^ width := by
  induction width generalizing n with
  | zero => simp [ofNat, toNat, Nat.mod_one]
  | succ width ih =>
    have hlast : (UInt8.ofNat n).toNat = n % 256 := rfl
    rw [ofNat, toNat_append_singleton, ih, hlast, Nat.pow_succ, Nat.mul_comm (256 ^ width) 256,
      Nat.mod_mul]
    omega

theorem toNat_lt (bytes : Octets) : toNat bytes < 256 ^ bytes.length := by
  induction bytes using List.reverseRecOn with
  | nil => exact Nat.one_pos
  | append_singleton bytes b ih =>
    have hb := b.toNat_lt
    rw [toNat_append_singleton, List.length_append, List.length_singleton, Nat.pow_succ]
    omega

theorem toNat_ofNat_of_lt {width n : Nat} (h : n < 256 ^ width) : toNat (ofNat width n) = n := by
  rw [toNat_ofNat, Nat.mod_eq_of_lt h]

theorem word16_eq_toNat (hi lo : UInt8) : word16 hi lo = toNat [hi, lo] := by
  simp [word16, toNat]

theorem cut?_append (front rest : Octets) :
    cut? front.length (front ++ rest) = some (front, rest) := by
  rw [cut?, List.take_left, if_pos rfl, List.drop_left]

theorem cut?_eq_none_iff {n : Nat} {bytes : Octets} : cut? n bytes = none ↔ bytes.length < n := by
  simp only [cut?, List.length_take, ite_eq_right_iff, reduceCtorEq, imp_false]
  omega

theorem ofNat_two (n : Nat) : ofNat 2 n = [UInt8.ofNat (n / 256), UInt8.ofNat n] := rfl

theorem ofNat_word16 (hi lo : UInt8) : ofNat 2 (word16 hi lo) = [hi, lo] := by
  have hhi := hi.toNat_lt
  have hlo := lo.toNat_lt
  rw [ofNat_two, word16]
  congr 1
  · rw [← UInt8.toNat_inj]
    simp only [UInt8.toNat_ofNat']
    omega
  · congr 1
    rw [← UInt8.toNat_inj]
    simp only [UInt8.toNat_ofNat']
    omega

theorem word16_ofNat (n : Nat) : word16 (UInt8.ofNat (n / 256)) (UInt8.ofNat n) = n % 65536 := by
  rw [word16_eq_toNat, ← ofNat_two]
  exact toNat_ofNat 2 n

theorem ofNat_toNat {width : Nat} {bytes : Octets} (h : bytes.length ≤ width) :
    ofNat width (toNat bytes) = List.replicate (width - bytes.length) 0 ++ bytes := by
  induction bytes using List.reverseRecOn generalizing width with
  | nil =>
    induction width with
    | zero => rfl
    | succ width ih =>
      have hzeros := ih (Nat.zero_le width)
      rw [List.append_nil, List.length_nil, Nat.sub_zero] at hzeros ⊢
      rw [List.replicate_succ', ← hzeros]
      rfl
  | append_singleton bytes b ih =>
    rw [List.length_append, List.length_singleton] at h ⊢
    obtain ⟨width, rfl⟩ := Nat.exists_eq_add_of_le' (Nat.le_of_add_left_le h)
    have hb := b.toNat_lt
    have hfront : (toNat bytes * 256 + b.toNat) / 256 = toNat bytes := by omega
    have hlast : UInt8.ofNat (toNat bytes * 256 + b.toNat) = b := by
      rw [← UInt8.toNat_inj, UInt8.toNat_ofNat']
      omega
    rw [toNat_append_singleton, ofNat, hfront, hlast, ih (Nat.le_of_succ_le_succ h),
      Nat.add_sub_add_right, List.append_assoc]

theorem toNat_cons_zero (bytes : Octets) : toNat (0 :: bytes) = toNat bytes := by
  simp [toNat]

theorem toNat_trim (bytes : Octets) : toNat (trim bytes) = toNat bytes := by
  fun_induction trim bytes with
  | case1 c rest ih => rw [ih, toNat_cons_zero]
  | case2 => rfl
  | case3 => rfl

theorem length_trim_le (bytes : Octets) : (trim bytes).length ≤ bytes.length := by
  fun_induction trim bytes with
  | case1 c rest ih =>
    rw [List.length_cons]
    omega
  | case2 | case3 => exact Nat.le_refl _

theorem trim_ne_nil {bytes : Octets} (h : bytes ≠ []) : trim bytes ≠ [] := by
  fun_induction trim bytes with
  | case1 c rest ih => exact ih (List.cons_ne_nil _ _)
  | case2 | case3 => exact h

theorem toNat_ofUInt64 (n : UInt64) : toNat (ofUInt64 n) = n.toNat := by
  rw [ofUInt64, toNat_trim, toNat_ofNat_of_lt n.toNat_lt]

theorem length_ofUInt64_le (n : UInt64) : (ofUInt64 n).length ≤ 8 := by
  have hle := length_trim_le (ofNat 8 n.toNat)
  rwa [length_ofNat] at hle

theorem length_ofUInt64_pos (n : UInt64) : 0 < (ofUInt64 n).length := by
  apply List.length_pos_iff.2
  apply trim_ne_nil
  intro hnil
  have hlength := length_ofNat 8 n.toNat
  rw [hnil] at hlength
  cases hlength

/-- A zero stands before another octet and could be left out. -/
def Padded (bytes : Octets) : Prop := ∃ b rest, bytes = 0 :: b :: rest

theorem trim_eq_self_iff {bytes : Octets} : trim bytes = bytes ↔ ¬Padded bytes := by
  fun_cases trim bytes with
  | case1 c rest =>
    have hshort := length_trim_le (c :: rest)
    refine ⟨fun h => ?_, fun h => absurd ⟨c, rest, rfl⟩ h⟩
    rw [h] at hshort
    exact absurd hshort (Nat.not_succ_le_self _)
  | case2 b c rest hb =>
    refine ⟨fun _ => ?_, fun _ => rfl⟩
    rintro ⟨c', rest', heq⟩
    exact hb (List.cons.inj heq).1
  | case3 bytes hfew =>
    refine ⟨fun _ => ?_, fun _ => rfl⟩
    rintro ⟨c, rest, rfl⟩
    exact hfew 0 c rest rfl

theorem trim_replicate_append {bytes : Octets} (hne : bytes ≠ []) (count : Nat) :
    trim (List.replicate count 0 ++ bytes) = trim bytes := by
  obtain ⟨b, rest, rfl⟩ := List.exists_cons_of_ne_nil hne
  induction count with
  | zero => rfl
  | succ count ih =>
    rw [List.replicate_succ, List.cons_append]
    cases hfront : List.replicate count 0 ++ b :: rest with
    | nil => simp at hfront
    | cons c front => rw [trim, if_pos rfl, ← hfront, ih]

/-- The fewest octets of a number are left when the zeros in front are dropped from any of its
spellings. -/
theorem ofUInt64_ofNat_toNat {bytes : Octets} (hne : bytes ≠ []) (hwidth : bytes.length ≤ 8) :
    ofUInt64 (UInt64.ofNat (toNat bytes)) = trim bytes := by
  have hlt : toNat bytes < 256 ^ 8 :=
    Nat.lt_of_lt_of_le (toNat_lt bytes) (Nat.pow_le_pow_right (by decide) hwidth)
  rw [ofUInt64, UInt64.toNat_ofNat_of_lt' hlt, ofNat_toNat hwidth, trim_replicate_append hne]

end NamedData.Octets
