/-!
# Decimal numbers

A number is written as one or more ASCII digits, with a plus sign in front or
without, and with any number of leading zeros.
-/

namespace NamedData.Text

def digitsValue (digits : List Char) : Nat :=
  digits.foldl (fun n c => n * 10 + (c.toNat - 48)) 0

def digits? (cs : List Char) : Option Nat :=
  if !cs.isEmpty && cs.all Char.isDigit then some (digitsValue cs) else none

def natural? : List Char → Option Nat
  | '+' :: cs => digits? cs
  | cs => digits? cs

/-- Reads a number of which zero may also have a minus sign in front. -/
def unsigned? : List Char → Option Nat
  | '-' :: cs => (digits? cs).filter (· = 0)
  | cs => natural? cs

def uint16? (cs : List Char) : Option UInt16 :=
  (natural? cs).bind fun n => if n < UInt16.size then some (UInt16.ofNat n) else none

end NamedData.Text
