import NamedData.Json.Number
import NamedData.Text.Hexadecimal

/-!
# Reading JSON

A strict reader: blanks are the four of the standard, strings hold no control
characters and no unpaired surrogates, and nothing may follow the value. Values
nest at most 127 levels deep.
-/

namespace NamedData.Json

def maxDepth : Nat := 127

def isBlank (c : Char) : Bool := c = ' ' || c = '\t' || c = '\n' || c = '\r'

def skipBlanks (cs : List Char) : List Char := cs.dropWhile isBlank

def hexUnit? (a b c d : Char) : Option Nat := do
  let digits ← [a, b, c, d].mapM Text.hexValue?
  return digits.foldl (fun n digit => n * 16 + digit) 0

def unescape? (c : Char) : Option Char :=
  if c = '"' then some '"'
  else if c = '\\' then some '\\'
  else if c = '/' then some '/'
  else if c = 'b' then some (Char.ofNat 8)
  else if c = 'f' then some (Char.ofNat 12)
  else if c = 'n' then some '\n'
  else if c = 'r' then some '\r'
  else if c = 't' then some '\t'
  else none

def isLeadingSurrogate (u : Nat) : Bool := 0xd800 ≤ u && u < 0xdc00

def isTrailingSurrogate (u : Nat) : Bool := 0xdc00 ≤ u && u < 0xe000

/-- Reads the rest of a string, up to its closing quote; `done` is what has been
read so far. -/
def readString (done : String) : List Char → Option (String × List Char)
  | [] => none
  | '"' :: rest => some (done, rest)
  | '\\' :: 'u' :: a :: b :: c :: d :: '\\' :: 'u' :: e :: f :: g :: h :: rest =>
    match hexUnit? a b c d with
    | none => none
    | some u =>
      if isLeadingSurrogate u then
        match hexUnit? e f g h with
        | none => none
        | some v =>
          if isTrailingSurrogate v then
            let code := 0x10000 + (u - 0xd800) * 0x400 + (v - 0xdc00)
            readString (done.push (Char.ofNat code)) rest
          else none
      else if isTrailingSurrogate u then none
      else readString (done.push (Char.ofNat u)) ('\\' :: 'u' :: e :: f :: g :: h :: rest)
  | '\\' :: 'u' :: a :: b :: c :: d :: rest =>
    match hexUnit? a b c d with
    | none => none
    | some u =>
      if isLeadingSurrogate u || isTrailingSurrogate u then none
      else readString (done.push (Char.ofNat u)) rest
  | '\\' :: c :: rest =>
    match unescape? c with
    | some c => readString (done.push c) rest
    | none => none
  | c :: rest => if c.toNat < 32 then none else readString (done.push c) rest

def expect (word : List Char) (value : Json) (cs : List Char) : Option (Json × List Char) :=
  if word.isPrefixOf cs then some (value, cs.drop word.length) else none

mutual

/-- Reads a value. Each step uses up one unit of `fuel`. -/
def readValue : (fuel depth : Nat) → List Char → Option (Json × List Char)
  | 0, _, _ => none
  | fuel + 1, depth, cs =>
    match skipBlanks cs with
    | '"' :: rest => (readString "" rest).map fun (s, rest) => (.string s, rest)
    | '[' :: rest =>
      match depth with
      | 0 => none
      | depth + 1 =>
        match skipBlanks rest with
        | ']' :: rest => some (.array [], rest)
        | rest => (readItems fuel depth rest).map fun (items, rest) => (.array items, rest)
    | '\x7b' :: rest =>
      match depth with
      | 0 => none
      | depth + 1 =>
        match skipBlanks rest with
        | '\x7d' :: rest => some (.object [], rest)
        | rest => (readMembers fuel depth rest).map fun (members, rest) => (.object members, rest)
    | '-' :: rest => readNumber? true rest
    | c :: rest =>
      if c.isDigit then readNumber? false (c :: rest)
      else if c = 't' then expect ['t', 'r', 'u', 'e'] (.bool true) (c :: rest)
      else if c = 'f' then expect ['f', 'a', 'l', 's', 'e'] (.bool false) (c :: rest)
      else if c = 'n' then expect ['n', 'u', 'l', 'l'] .null (c :: rest)
      else none
    | [] => none

def readItems : (fuel depth : Nat) → List Char → Option (List Json × List Char)
  | 0, _, _ => none
  | fuel + 1, depth, cs =>
    match readValue fuel depth cs with
    | none => none
    | some (item, rest) =>
      match skipBlanks rest with
      | ']' :: rest => some ([item], rest)
      | ',' :: rest => (readItems fuel depth rest).map fun (items, rest) => (item :: items, rest)
      | _ => none

def readMembers : (fuel depth : Nat) → List Char → Option (List (String × Json) × List Char)
  | 0, _, _ => none
  | fuel + 1, depth, cs =>
    match skipBlanks cs with
    | '"' :: rest =>
      match readString "" rest with
      | none => none
      | some (name, rest) =>
        match skipBlanks rest with
        | ':' :: rest =>
          match readValue fuel depth rest with
          | none => none
          | some (value, rest) =>
            match skipBlanks rest with
            | '\x7d' :: rest => some ([(name, value)], rest)
            | ',' :: rest =>
              (readMembers fuel depth rest).map fun (members, rest) =>
                ((name, value) :: members, rest)
            | _ => none
        | _ => none
    | _ => none

end

def parse? (text : String) : Option Json :=
  let cs := text.toList
  match readValue (2 * cs.length + 1) maxDepth cs with
  | some (value, rest) => if (skipBlanks rest).isEmpty then some value else none
  | none => none

end NamedData.Json
