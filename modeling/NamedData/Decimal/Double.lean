import NamedData.Decimal.Rounding

/-!
# Doubles

Every finite double is a multiple of the least positive one, `2 ^ -1074`, and is
kept here as that multiple with a sign, so that zero has two forms. A decimal
number stands for the double nearest to it, and a double is written with the
fewest digits that stand for it, taking the nearest of those. Of two that are equally
near, either the even one or the greater one is taken.
-/

namespace NamedData.Decimal

inductive Double
  /-- A number of least positive doubles. -/
  | finite (negative : Bool) (units : Nat)
  | infinite (negative : Bool)
  | nan
deriving DecidableEq, Repr

namespace Double

/-- How many units make one. -/
def one : Nat := twoTo 1074

/-- The least number of units that is too large for a finite double. -/
def tooManyUnits : Nat := twoTo 2098

/-- The double with a number of units, or the infinite one if they are too many. -/
def ofUnits (negative : Bool) (units : Nat) : Double :=
  if units < tooManyUnits then .finite negative units else .infinite negative

def zero : Double := .finite false 0

def ofQuotient (negative : Bool) (n d : Nat) : Double :=
  ofUnits negative (roundTo53Bits (n * one) d)

def ofInt (n : Int) : Double := ofQuotient (n < 0) n.natAbs 1

/-- The double nearest to `mantissa * 10 ^ exponent`. Numbers of more than 310 places, and
those that begin more than 330 places behind the point, are not worked out. -/
def ofDecimal (negative : Bool) (mantissa : Nat) (exponent : Int) : Double :=
  let size : Int := (Nat.toDigits 10 mantissa).length + exponent
  if mantissa = 0 ∨ size < -330 then .finite negative 0
  else if 310 < size then .infinite negative
  else ofQuotient negative (mantissa * tenTo exponent.toNat) (tenTo (-exponent).toNat)

/-- The product with the double nearest to a power of ten. -/
def timesPower (n : Nat) : Double → Double
  | .finite negative units =>
    ofUnits negative (roundTo53Bits (units * roundTo53Bits (tenTo n * one) 1) one)
  | x => x

/-- The quotient by the double nearest to a power of ten. -/
def overPower (n : Nat) : Double → Double
  | .finite negative units =>
    ofUnits negative (roundTo53Bits (units * one) (roundTo53Bits (tenTo n * one) 1))
  | x => x

def neg : Double → Double
  | .finite negative units => .finite (!negative) units
  | .infinite negative => .infinite (!negative)
  | .nan => .nan

def isInfinite : Double → Bool
  | .infinite _ => true
  | _ => false

def isZero : Double → Bool
  | .finite _ units => units = 0
  | _ => false

/-- The nearest whole number from zero to a limit, a half upwards. What is no number
counts as zero. -/
def toNat (limit : Nat) : Double → Nat
  | .finite false units => min limit (roundHalfUp units one)
  | .infinite false => limit
  | _ => 0

/-- The distance to the next double upwards. -/
def gap (units : Nat) : Nat := if units < twoTo 53 then 1 else twoTo (units.log2 - 52)

/-- Whether `digits * 10 ^ place` stands for a double. All sides are counted in
quarters of a unit: the numbers up to half a gap away stand for it, and those
exactly half a gap away do so when its last bit is zero. Below a power of two the
gap is half as large. -/
def isReadFrom (units digits : Nat) (place : Int) : Bool :=
  let gap := gap units
  let scale := tenTo (-place).toNat
  let value := digits * tenTo place.toNat * (4 * one)
  let low := 4 * units - (if 1 < gap ∧ units = twoTo units.log2 then gap else 2 * gap)
  let high := 4 * units + 2 * gap
  if units / gap % 2 = 0 then low * scale ≤ value && value ≤ high * scale
  else low * scale < value && value < high * scale

/-- The place of the leading digit of a positive double. -/
def leadingPlace (units : Nat) : Int :=
  if one ≤ units then (Nat.toDigits 10 (units / one)).length - 1
  else
    match (List.range 325).find? fun j => one ≤ units * tenTo j with
    | some j => -(j : Int)
    | none => -324

/-- The nearer of the two multiples of `10 ^ place` around a double, of those that
stand for it; `round` decides between two that are equally near. -/
def onGrid? (round : Nat → Nat → Nat) (units : Nat) (place : Int) : Option (Nat × Int) :=
  let num := units * tenTo (-place).toNat
  let den := one * tenTo place.toNat
  let below := num / den
  let nearest := round num den
  let other := if nearest = below then below + 1 else below
  if isReadFrom units nearest place then some (nearest, place)
  else if isReadFrom units other place then some (other, place)
  else none

/-- The fewest digits that stand for a double, and the place of the last of them. -/
def shortest (round : Nat → Nat → Nat) (units : Nat) : Nat × Int :=
  if units = 0 then (0, 0)
  else
    let place := leadingPlace units
    match (List.range 17).findSome? fun (n : Nat) => onGrid? round units (place - n) with
    | some (10, place) => (1, place + 1)
    | some found => found
    | none => (0, 0)

/-- Digits with a point that stands before the last `places` of them. -/
def pointed (places : Nat) (digits : String) : String :=
  let padded := ("".pushn '0' (places + 1 - digits.length) ++ digits).toList
  let cut := padded.length - places
  String.ofList (padded.take cut) ++ "." ++ String.ofList (padded.drop cut)

/-- Digits whose last one has a place: no exponent, and no point behind a whole number. -/
def plain (digits : String) (place : Int) : String :=
  if 0 ≤ place then digits ++ "".pushn '0' place.toNat else pointed (-place).toNat digits

/-- Digits whose last one has a place: always with a point or an exponent. Numbers of at
most 16 places, and those that begin at most five places behind the point, have no exponent. -/
def scientific (digits : String) (place : Int) : String :=
  let size : Int := digits.length + place
  if -5 < size ∧ size ≤ 16 then
    if 0 ≤ place then plain digits place ++ ".0" else plain digits place
  else if digits.length = 1 then s!"{digits}e{size - 1}"
  else s!"{pointed (digits.length - 1) digits}e{size - 1}"

def signed (negative : Bool) (text : String) : String := if negative then "-" ++ text else text

def finiteText (round : Nat → Nat → Nat) (form : String → Int → String) (negative : Bool)
    (units : Nat) : String :=
  let (digits, place) := shortest round units
  signed negative (form (toString digits) place)

/-- The written form without an exponent. -/
def text : Double → String
  | .finite negative units => finiteText roundHalfUp plain negative units
  | .infinite negative => signed negative "inf"
  | .nan => "NaN"

end Double
end NamedData.Decimal
