import NamedData.Text.Natural

/-!
# Spellings of numbers

A number is spelled by one or more digits, with leading zeros and a plus sign or without. Each
spelling is read as the number that it spells, and the printed form of a number is one of them.
-/

namespace NamedData.Text

structure Digits (cs : List Char) (n : Nat) : Prop where
  ne_nil : cs ≠ []
  isDigit : ∀ c ∈ cs, c.isDigit
  value : digitsValue cs = n

/-- Digits that spell a number, with a plus sign in front or without. -/
def Spells (cs : List Char) (n : Nat) : Prop :=
  Digits cs n ∨ ∃ digits, cs = '+' :: digits ∧ Digits digits n

variable {cs : List Char} {n : Nat} {word : UInt16}

theorem digits?_eq_some_iff : digits? cs = some n ↔ Digits cs n := by
  unfold digits?
  rw [Option.ite_none_right_eq_some, Option.some.injEq, Bool.and_eq_true, List.all_eq_true]
  constructor
  · rintro ⟨⟨hne, hdigit⟩, hvalue⟩
    exact ⟨by simpa using hne, hdigit, hvalue⟩
  · rintro ⟨hne, hdigit, hvalue⟩
    exact ⟨⟨by simpa using hne, hdigit⟩, hvalue⟩

theorem natural?_eq_some_iff : natural? cs = some n ↔ Spells cs n := by
  unfold natural?
  split
  · rename_i digits
    rw [digits?_eq_some_iff]
    constructor
    · exact fun h => .inr ⟨digits, rfl, h⟩
    · rintro (hplus | ⟨_, ⟨⟩, h⟩)
      · exact absurd (hplus.isDigit '+' List.mem_cons_self) (by decide)
      · exact h
  · rename_i hplus
    rw [digits?_eq_some_iff]
    constructor
    · exact .inl
    · rintro (h | ⟨digits, rfl, -⟩)
      · exact h
      · exact absurd rfl (hplus digits)

theorem uint16?_eq_some_iff : uint16? cs = some word ↔ Spells cs word.toNat := by
  unfold uint16?
  rw [Option.bind_eq_some_iff]
  constructor
  · rintro ⟨n, hn, hword⟩
    obtain ⟨hlt, hsame⟩ := Option.ite_none_right_eq_some.1 hword
    rw [← Option.some.inj hsame, UInt16.toNat_ofNat_of_lt' hlt]
    exact natural?_eq_some_iff.1 hn
  · intro h
    refine ⟨word.toNat, natural?_eq_some_iff.2 h, ?_⟩
    rw [if_pos word.toNat_lt, UInt16.ofNat_toNat]

theorem digits_toDigits (n : Nat) : Digits (Nat.toDigits 10 n) n where
  ne_nil := Nat.toDigits_ne_nil
  isDigit _ hc := Nat.isDigit_of_mem_toDigits (by decide) (by decide) hc
  value := by
    have hvalue : digitsValue (Nat.toDigits 10 n) = Nat.ofDigitChars 10 (Nat.toDigits 10 n) 0 := by
      rw [digitsValue, Nat.ofDigitChars_eq_foldl]
      congr 1
      funext m c
      rw [Nat.mul_comm]
      rfl
    rw [hvalue, Nat.ofDigitChars_ten_toDigits]

theorem toList_toString (word : UInt16) : (toString word).toList = Nat.toDigits 10 word.toNat :=
  Nat.toList_repr

theorem uint16?_toDigits (word : UInt16) : uint16? (Nat.toDigits 10 word.toNat) = some word :=
  uint16?_eq_some_iff.2 (.inl (digits_toDigits word.toNat))

theorem notMem_of_spells {c : Char} (h : Spells cs n) (hdigit : c.isDigit = false) (hplus : c ≠ '+') :
    c ∉ cs := by
  intro hmem
  have hall : ∀ {digits}, Digits digits n → c ∉ digits := by
    intro digits h hmem
    rw [h.isDigit c hmem] at hdigit
    cases hdigit
  rcases h with h | ⟨digits, rfl, h⟩
  · exact hall h hmem
  · rcases List.mem_cons.1 hmem with hc | hmem
    · exact hplus hc
    · exact hall h hmem

end NamedData.Text
