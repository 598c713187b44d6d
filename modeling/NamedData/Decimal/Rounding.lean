/-!
# Rounding

A quotient is rounded to the nearest whole number. A half goes to the even
neighbour, or else upwards.
-/

namespace NamedData.Decimal

def twoTo (n : Nat) : Nat := Nat.pow 2 n

def tenTo (n : Nat) : Nat := Nat.pow 10 n

/-- A quotient rounded to the nearest whole number, a half to the even neighbour. -/
def roundQuotient (n d : Nat) : Nat :=
  let q := n / d
  let r := n % d
  if 2 * r < d then q
  else if d < 2 * r then q + 1
  else q + q % 2

/-- A quotient rounded to the nearest whole number, a half upwards. -/
def roundHalfUp (n d : Nat) : Nat := (2 * n + d) / (2 * d)

/-- A quotient rounded to at most 53 significant bits. -/
def roundTo53Bits (n d : Nat) : Nat :=
  let q := n / d
  if q < twoTo 53 then roundQuotient n d
  else
    let unit := twoTo (q.log2 - 52)
    roundQuotient n (d * unit) * unit

end NamedData.Decimal
