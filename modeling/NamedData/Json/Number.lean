import NamedData.Json.Value
import NamedData.Text.Natural

/-!
# Reading numbers of JSON

Digits are collected in a number of 64 bits as long as they fit. A number
without a point and an exponent whose digits all fit is an integer. Every other
number is a double, reached from the collected digits by one or two roundings:
they are multiplied or divided by the doubles next to powers of ten, so that the
result may be a neighbour of the nearest double.
-/

namespace NamedData.Json

open Decimal (Double)

/-- Collects digits behind those of `n`, and tells how many. -/
def collect (n : Nat) : List Char → Nat × Nat × List Char
  | [] => (n, 0, [])
  | c :: cs =>
    let next := n * 10 + (c.toNat - 48)
    if c.isDigit ∧ next < UInt64.size then
      let (n, count, rest) := collect next cs
      (n, count + 1, rest)
    else (n, 0, c :: cs)

/-- Drops digits, and tells how many. -/
def skipDigits (cs : List Char) : Nat × List Char :=
  let digits := cs.takeWhile Char.isDigit
  (digits.length, cs.drop digits.length)

def startsWithDigit (cs : List Char) : Bool := cs.head?.any Char.isDigit

/-- The double reached from collected digits, unless it is too large. The first division
leaves nothing that a second one could not bring down to zero. -/
def scaled? (n : Nat) (exponent : Int) : Option Double :=
  let x := Double.ofInt n
  if n = 0 then some x
  else if exponent < -616 then some .zero
  else if exponent < -308 then some ((x.overPower 308).overPower (-exponent - 308).toNat)
  else if exponent < 0 then some (x.overPower (-exponent).toNat)
  else if 308 < exponent then none
  else
    let x := x.timesPower exponent.toNat
    if x.isInfinite then none else some x

def readExponent? (cs : List Char) : Option (Int × List Char) :=
  let (negative, cs) :=
    match cs with
    | '-' :: cs => (true, cs)
    | '+' :: cs => (false, cs)
    | cs => (false, cs)
  let digits := cs.takeWhile Char.isDigit
  (Text.digits? digits).map fun n =>
    (if negative then -(n : Int) else n, cs.drop digits.length)

/-- Reads an exponent, if there is one, and adds it to the one at which the digits stand. -/
def finish? (negative : Bool) (n : Nat) (exponent : Int) (cs : List Char) :
    Option (Json × List Char) := do
  let (more, rest) ←
    match cs with
    | 'e' :: cs | 'E' :: cs => readExponent? cs
    | cs => some (0, cs)
  let x ← scaled? n (exponent + more)
  return (.double (if negative then x.neg else x), rest)

def readFraction? (negative : Bool) (n : Nat) (exponent : Int) (cs : List Char) :
    Option (Json × List Char) :=
  if startsWithDigit cs then
    let (n, count, rest) := collect n cs
    finish? negative n (exponent - count) (skipDigits rest).2
  else none

/-- An integer, or the double that stands for one. -/
def ofWhole (negative : Bool) (n : Nat) : Json :=
  if !negative then .int n
  else if n = 0 ∨ Decimal.twoTo 63 < n then .double (Double.ofInt n).neg
  else .int (-(n : Int))

def readNumber? (negative : Bool) (cs : List Char) : Option (Json × List Char) :=
  let (n, _, rest) := collect 0 cs
  let (skipped, rest) := skipDigits rest
  if !startsWithDigit cs ∨ (cs.head? = some '0' ∧ startsWithDigit (cs.drop 1)) then none
  else
    match rest with
    | '.' :: rest => readFraction? negative n skipped rest
    | 'e' :: _ | 'E' :: _ => finish? negative n skipped rest
    | _ => if skipped = 0 then some (ofWhole negative n, rest) else finish? negative n skipped rest

end NamedData.Json
