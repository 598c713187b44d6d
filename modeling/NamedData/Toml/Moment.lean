import NamedData.Text.Natural
import NamedData.Text.Quantity

/-!
# Dates and times

A moment is a date, a time, or both, and only one with both may tell its
distance from universal time. A month has up to 31 days whichever it is, and a
day may have an hour 24. Of the fraction of a second nine places count.
-/

namespace NamedData.Toml

structure Date where
  year : Nat
  month : Nat
  day : Nat
deriving DecidableEq, Repr

structure TimeOfDay where
  hour : Nat
  minute : Nat
  second : Nat
  nanosecond : Nat
deriving DecidableEq, Repr

/-- How far a time is ahead of universal time. -/
inductive Offset
  | universal
  | ahead (hours : Int) (minutes : Nat)
deriving DecidableEq, Repr

structure Moment where
  date : Option Date
  time : Option TimeOfDay
  offset : Option Offset
deriving DecidableEq, Repr

open Text (padded)

instance : ToString Date where
  toString d := s!"{padded 4 d.year}-{padded 2 d.month}-{padded 2 d.day}"

/-- The fraction of a second without the zeros at its end. -/
def TimeOfDay.fractionText (t : TimeOfDay) : String :=
  let digits := (padded 9 t.nanosecond).toList.reverse.dropWhile (· = '0')
  if digits.isEmpty then "" else "." ++ String.ofList digits.reverse

instance : ToString TimeOfDay where
  toString t := s!"{padded 2 t.hour}:{padded 2 t.minute}:{padded 2 t.second}{t.fractionText}"

instance : ToString Offset where
  toString
    | .universal => "Z"
    | .ahead hours minutes =>
      let sign := if hours < 0 then "-" else "+"
      s!"{sign}{padded 2 hours.natAbs}:{padded 2 minutes}"

instance : ToString Moment where
  toString m :=
    let date := (m.date.map toString).getD ""
    let mark := if m.date.isSome ∧ m.time.isSome then "T" else ""
    let time := (m.time.map toString).getD ""
    let offset := (m.offset.map toString).getD ""
    date ++ mark ++ time ++ offset

def readDigits? (count : Nat) (cs : List Char) : Option (Nat × List Char) :=
  if (cs.take count).length = count then (Text.digits? (cs.take count)).map (·, cs.drop count)
  else none

def mark? (c : Char) : List Char → Option (List Char)
  | first :: rest => if first = c then some rest else none
  | [] => none

def readDate? (cs : List Char) : Option (Date × List Char) := do
  let (year, cs) ← readDigits? 4 cs
  let (month, cs) ← readDigits? 2 (← mark? '-' cs)
  let (day, cs) ← readDigits? 2 (← mark? '-' cs)
  guard (1 ≤ month ∧ month ≤ 12 ∧ 1 ≤ day ∧ day ≤ 31)
  return (⟨year, month, day⟩, cs)

/-- Reads a fraction of a second, if there is one, in nanoseconds. -/
def readFraction? : List Char → Option (Nat × List Char)
  | '.' :: cs =>
    let digits := cs.takeWhile Char.isDigit
    let places := (digits ++ List.replicate 9 '0').take 9
    if digits.isEmpty then none else some (Text.digitsValue places, cs.drop digits.length)
  | cs => some (0, cs)

def readTime? (cs : List Char) : Option (TimeOfDay × List Char) := do
  let (hour, cs) ← readDigits? 2 cs
  let (minute, cs) ← readDigits? 2 (← mark? ':' cs)
  let (second, cs) ← readDigits? 2 (← mark? ':' cs)
  let (nanosecond, cs) ← readFraction? cs
  guard (hour ≤ 24 ∧ minute ≤ 59 ∧ second ≤ 59)
  return (⟨hour, minute, second, nanosecond⟩, cs)

def readOffset? (sign : Int) (cs : List Char) : Option (Offset × List Char) := do
  let (hours, cs) ← readDigits? 2 cs
  let (minutes, cs) ← readDigits? 2 (← mark? ':' cs)
  return (.ahead (sign * hours) minutes, cs)

namespace Moment

/-- Reads what follows a date: a time with or without an offset, or nothing. -/
def parseTime? (date : Date) : List Char → Option Moment
  | [] => some ⟨date, none, none⟩
  | mark :: cs =>
    if mark = 'T' ∨ mark = 't' ∨ mark = ' ' then do
      let (time, rest) ← readTime? cs
      let (offset, rest) ←
        match rest with
        | [] => some (none, [])
        | 'Z' :: rest | 'z' :: rest => some (some Offset.universal, rest)
        | '+' :: rest => (readOffset? 1 rest).map fun (offset, rest) => (some offset, rest)
        | '-' :: rest => (readOffset? (-1) rest).map fun (offset, rest) => (some offset, rest)
        | _ => none
      if rest.isEmpty then some ⟨date, some time, offset⟩ else none
    else none

/-- Reads a moment. A text with a colon in the third place is a time. -/
def parse? (cs : List Char) : Option Moment :=
  if cs[2]? = some ':' then
    match readTime? cs with
    | some (time, []) => some ⟨none, some time, none⟩
    | _ => none
  else (readDate? cs).bind fun (date, rest) => parseTime? date rest

end Moment
end NamedData.Toml
