import NamedData.Octets

/-!
# Hexadecimal digits

Letters count in either case when they are read. Octets are read from two
digits each, the high digit first, which undoes how they are written.
-/

namespace NamedData

def Text.hexValue? (c : Char) : Option Nat :=
  if '0' ≤ c ∧ c ≤ '9' then some (c.toNat - 48)
  else if 'a' ≤ c ∧ c ≤ 'f' then some (c.toNat - 87)
  else if 'A' ≤ c ∧ c ≤ 'F' then some (c.toNat - 55)
  else none

namespace Octets

theorem hexValue?_hexDigit (n : Nat) (h : n < 16) : Text.hexValue? (hexDigit n) = some n := by
  have all : ∀ n : Fin 16, Text.hexValue? (hexDigit n.1) = some n.1 := by decide
  exact all ⟨n, h⟩

/-- Reads two digits for each octet. -/
def ofHexDigits? : List Char → Option Octets
  | [] => some []
  | high :: low :: rest =>
    match Text.hexValue? high, Text.hexValue? low with
    | some h, some l => (ofHexDigits? rest).map (UInt8.ofNat (h * 16 + l) :: ·)
    | _, _ => none
  | [_] => none

theorem ofHexDigits?_hexDigits (bytes : Octets) : ofHexDigits? (hexDigits bytes) = some bytes := by
  induction bytes with
  | nil => rfl
  | cons b bytes ih =>
    have hb := b.toNat_lt
    have hvalue : b.toNat / 16 * 16 + b.toNat % 16 = b.toNat := by omega
    simp only [hexDigits, List.flatMap_cons, List.cons_append, List.nil_append] at ih ⊢
    simp only [ofHexDigits?, hexValue?_hexDigit (b.toNat / 16) (by omega),
      hexValue?_hexDigit (b.toNat % 16) (by omega), ih, hvalue, Option.map_some,
      UInt8.ofNat_toNat]

end Octets
end NamedData
