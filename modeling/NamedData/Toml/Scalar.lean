import NamedData.Text.Hexadecimal
import NamedData.Text.Pieces
import NamedData.Toml.Item
import NamedData.Toml.Text

/-!
# Numbers and moments in TOML documents

A word that begins with a digit or a minus sign is a moment if it holds a `t` or
looks like a date, or if a colon follows it; otherwise it is a number. Whole
numbers have 64 bits and may be written in other bases. Digits may be parted by
single underscores.
-/

namespace NamedData.Toml

/-- Reads digits parted by underscores; superfluous zeros must be allowed. -/
def readRun? (isDigit : Char → Bool) (zeros : Bool) (cs : List Char) :
    Option (List Char × List Char) :=
  let (run, rest) := cs.span fun c => isDigit c || c = '_'
  let parts := Text.pieces '_' run
  let digits := parts.flatten
  if parts.any List.isEmpty then none
  else if zeros || digits.length = 1 || digits.head? ≠ some '0' then some (digits, rest)
  else none

def withSign (negative : Bool) (n : Nat) : Int := if negative then -n else n

def takeMinus : List Char → Bool × List Char
  | '-' :: cs => (true, cs)
  | cs => (false, cs)

def ofInt? (n : Int) : Option Item :=
  if -(Decimal.twoTo 63 : Int) ≤ n ∧ n < Decimal.twoTo 63 then some (.integer n) else none

def inBase? (base : Nat) (word : List Char) : Option Item :=
  let isDigit (c : Char) : Bool := (Text.hexValue? c).any (· < base)
  match readRun? isDigit true word with
  | some (digits, []) =>
    ofInt? (digits.foldl (fun n c => n * base + (Text.hexValue? c).getD 0) 0 : Nat)
  | _ => none

def whole? (word : List Char) : Option Item :=
  let (negative, cs) := takeMinus word
  match readRun? Char.isDigit false cs with
  | some (digits, []) => ofInt? (withSign negative (Text.digitsValue digits))
  | _ => none

/-- Reads an exponent, if there is one: `suffix` is the end of a word and `rest` what
follows it. A plus sign is no part of the word. -/
def readExponent? (suffix rest : List Char) : Option (Int × List Char) := do
  match suffix with
  | [] => return (0, rest)
  | letter :: suffix =>
    guard (letter = 'e' ∨ letter = 'E')
    let (negative, suffix) := takeMinus suffix
    let (suffix, rest) ←
      match suffix, negative with
      | [], false => readWord? (match rest with | '+' :: rest => rest | rest => rest)
      | _, _ => some (suffix, rest)
    match readRun? Char.isDigit true suffix with
    | some (digits, []) => return (withSign negative (Text.digitsValue digits), rest)
    | _ => none

/-- A number with a point or an exponent: the word up to the point, if there is one, the word
behind it, and what follows. -/
def readFloat? (word : List Char) (behind : Option (List Char)) (rest : List Char) :
    Option (Item × List Char) := do
  let (negative, cs) := takeMinus word
  let (digits, suffix) ← readRun? Char.isDigit false cs
  let (places, suffix) ←
    match behind with
    | none => some ([], suffix)
    | some behind => if suffix.isEmpty then readRun? Char.isDigit true behind else none
  let (exponent, rest) ← readExponent? suffix rest
  let x := Decimal.Double.ofDecimal negative (Text.digitsValue (digits ++ places))
    (exponent - places.length)
  if x.isInfinite then none else some (.float x, rest)

def readNumber? (word rest : List Char) : Option (Item × List Char) :=
  match word, rest with
  | '0' :: 'x' :: digits, _ => (inBase? 16 digits).map (·, rest)
  | '0' :: 'o' :: digits, _ => (inBase? 8 digits).map (·, rest)
  | '0' :: 'b' :: digits, _ => (inBase? 2 digits).map (·, rest)
  | _, _ =>
    if word.contains 'e' ∨ word.contains 'E' then readFloat? word none rest
    else
      match rest with
      | '.' :: rest =>
        (readWord? rest).bind fun (behind, rest) => readFloat? word (some behind) rest
      | rest =>
        match takeMinus word with
        | (negative, ['i', 'n', 'f']) => some (.float (.infinite negative), rest)
        | (_, ['n', 'a', 'n']) => some (.float .nan, rest)
        | _ => (whole? word).map (·, rest)

/-- Takes a mark off the front together with the word behind it, which must be there. -/
def skipMarked? (mark : Char) : List Char → Option (List Char)
  | first :: rest => if first = mark then (readWord? rest).map (·.2) else some (first :: rest)
  | [] => some []

/-- Drops the hour that a single blank parts from a date. -/
def skipHour : List Char → List Char
  | ' ' :: rest => ((readWord? rest).map (·.2)).getD (' ' :: rest)
  | rest => rest

/-- What follows the minutes, the seconds, their fraction and the offset of a time. -/
def skipTime? (cs : List Char) : Option (List Char) := do
  let (_, cs) ← readWord? cs
  guard (cs.head? = some ':')
  skipMarked? ':' (← skipMarked? '+' (← skipMarked? '.' (← skipMarked? ':' cs)))

/-- Reads a moment that begins with a word, behind which a colon may have been read. -/
def readMoment? (word : List Char) (colon : Bool) (rest : List Char) :
    Option (Item × List Char) := do
  let text := word ++ (if colon then ':' :: rest else rest)
  let rest ←
    match colon, skipHour rest with
    | true, rest => skipTime? rest
    | false, ':' :: rest => skipTime? rest
    | false, rest => some rest
  return (.moment (text.take (text.length - rest.length)), rest)

/-- Whether a letter stands right in front of a minus sign. -/
def beforeMinus (letter : Char) : List Char → Bool
  | first :: rest => (first = letter && rest.head? = some '-') || beforeMinus letter rest
  | [] => false

/-- Whether a word belongs to a moment by its looks. -/
def looksLikeMoment (word : List Char) : Bool :=
  word.contains 'T' || word.contains 't' ||
    ((word.drop 1).contains '-' && !beforeMinus 'e' word && !beforeMinus 'E' word)

def readPlain? (cs : List Char) : Option (Item × List Char) :=
  match cs with
  | '+' :: cs => (readWord? cs).bind fun (word, rest) => readNumber? word rest
  | cs =>
    match readWord? cs with
    | none => none
    | some (word, rest) =>
      if word = ['t', 'r', 'u', 'e'] then some (.boolean true, rest)
      else if word = ['f', 'a', 'l', 's', 'e'] then some (.boolean false, rest)
      else if word = ['i', 'n', 'f'] ∨ word = ['n', 'a', 'n'] ∨
          word.head?.any (fun c => c = '-' || c.isDigit) then
        if looksLikeMoment word then readMoment? word false rest
        else
          match rest with
          | ':' :: rest => readMoment? word true rest
          | rest => readNumber? word rest
      else none

end NamedData.Toml
