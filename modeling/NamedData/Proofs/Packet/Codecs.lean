import NamedData.Proofs.Packet.Elements

/-!
# Writing and reading undo each other

Elements are read as they were written, and a region that can be read is what is written of its
elements, so it has no second spelling. A number has many, with zeros in front of it. Reading takes
all of them up to eight octets, and writing gives the one that no other is shorter than.
-/

namespace NamedData.Tlv

variable {value : Octets} {n : UInt64} {ts : List Tlv}

theorem decodeAll_encodeAll (hfits : ∀ t ∈ ts, t.Fits) : decodeAll (encodeAll ts) = .ok ts :=
  decodeAll_eq_ok_iff.2 ⟨rfl, hfits⟩

theorem encodeAll_of_decodeAll {region : Octets} (h : decodeAll region = .ok ts) :
    encodeAll ts = region :=
  (decodeAll_eq_ok_iff.1 h).eq.symm

theorem decodeUInt_ofUInt64 (n : UInt64) : decodeUInt (Octets.ofUInt64 n) = .ok n :=
  (decodeUInt_eq_ok_iff (t := ofUInt64 0 n)).2 ⟨numeric_ofUInt64 0 n, (number_ofUInt64 0 n).symm⟩

theorem ofUInt64_of_decodeUInt (h : decodeUInt value = .ok n) :
    Octets.ofUInt64 n = Octets.trim value := by
  obtain ⟨⟨hpos, hwidth⟩, rfl⟩ := (decodeUInt_eq_ok_iff (t := ⟨0, value⟩)).1 h
  exact Octets.ofUInt64_ofNat_toNat (List.length_pos_iff.1 hpos) hwidth

theorem length_ofUInt64_le_of_decodeUInt (h : decodeUInt value = .ok n) :
    (Octets.ofUInt64 n).length ≤ value.length := by
  rw [ofUInt64_of_decodeUInt h]
  exact Octets.length_trim_le value

theorem exists_decodeUInt_iff :
    (∃ n, decodeUInt value = .ok n) ↔ 1 ≤ value.length ∧ value.length ≤ 8 := by
  simp only [decodeUInt_eq_ok_iff (t := ⟨0, value⟩), exists_and_left, exists_eq, and_true]
  rfl

theorem exists_rewritten_iff : (∃ n, decodeUInt value = .ok n ∧ Octets.ofUInt64 n = value) ↔
    (1 ≤ value.length ∧ value.length ≤ 8) ∧ ¬Octets.Padded value := by
  rw [← exists_decodeUInt_iff, ← Octets.trim_eq_self_iff]
  constructor
  · rintro ⟨n, hread, hwritten⟩
    exact ⟨⟨n, hread⟩, ofUInt64_of_decodeUInt hread ▸ hwritten⟩
  · rintro ⟨⟨n, hread⟩, htrim⟩
    exact ⟨n, hread, (ofUInt64_of_decodeUInt hread).trans htrim⟩

/-- Elements whose values fit are read as they were written, and what is read is written as it was.
A number is read as it was written, in at least one octet and in no more than any value that is read
as it, and a value of one to eight octets is written as it was read just when it has no zero in
front of other octets. -/
theorem codecs_inverse :
    (∀ ts : List Tlv, (∀ t ∈ ts, t.value.length < 65536) → decodeAll (encodeAll ts) = .ok ts) ∧
      (∀ (region : Octets) (ts : List Tlv), decodeAll region = .ok ts → encodeAll ts = region) ∧
      (∀ n : UInt64, decodeUInt (Octets.ofUInt64 n) = .ok n ∧ 1 ≤ (Octets.ofUInt64 n).length ∧
        ∀ value, decodeUInt value = .ok n → (Octets.ofUInt64 n).length ≤ value.length) ∧
      ∀ value : Octets, (∃ n, decodeUInt value = .ok n ∧ Octets.ofUInt64 n = value) ↔
        (1 ≤ value.length ∧ value.length ≤ 8) ∧ ¬Octets.Padded value := by
  refine ⟨?_, ?_, ?_, ?_⟩
  · intro ts hfits
    exact decodeAll_encodeAll hfits
  · intro region ts hread
    exact encodeAll_of_decodeAll hread
  · intro n
    refine ⟨decodeUInt_ofUInt64 n, Octets.length_ofUInt64_pos n, ?_⟩
    intro value hread
    exact length_ofUInt64_le_of_decodeUInt hread
  · intro value
    exact exists_rewritten_iff

/-- An element without a value and one with two octets, of which the first is zero: they are read
back, and the number in the second is written in one octet. -/
theorem codecs_inverse_padded :
    let ts : List Tlv := [⟨1, []⟩, ⟨16, [0, 7]⟩]
    (∀ t ∈ ts, t.value.length < 65536) ∧ decodeAll (encodeAll ts) = .ok ts ∧
      decodeUInt [0, 7] = .ok 7 ∧ (Octets.ofUInt64 7).length ≤ [0, 7].length ∧
        encodeAll ts = [0, 1, 0, 0, 0, 16, 0, 2, 0, 7] := by
  intro ts
  obtain ⟨hread, hwritten, hnumbers, -⟩ := codecs_inverse
  have hfits : ∀ t ∈ ts, t.value.length < 65536 := by decide
  have hseven : decodeUInt [0, 7] = .ok 7 := by decide
  have hregion : decodeAll [0, 1, 0, 0, 0, 16, 0, 2, 0, 7] = .ok ts := hread ts hfits
  exact ⟨hfits, hread ts hfits, hseven, (hnumbers 7).2.2 [0, 7] hseven, hwritten _ ts hregion⟩

end NamedData.Tlv
