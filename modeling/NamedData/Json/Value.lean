import NamedData.Decimal.Double

/-!
# JSON values

Objects keep their members in the order of the text, repeated names included,
because a repeated name is a fault in some readers and an overwriting in
others. Integers of 64 bits are kept apart from all other numbers, which are
doubles.
-/

namespace NamedData

inductive Json where
  | null
  | bool (b : Bool)
  | int (n : Int)
  | double (x : Decimal.Double)
  | string (s : String)
  | array (items : List Json)
  | object (members : List (String × Json))
deriving Inhabited, Repr

namespace Json

def ofNat (n : Nat) : Json := .int n

def ofOption {α : Type} (f : α → Json) : Option α → Json
  | some a => f a
  | none => .null

def escape (c : Char) : List Char :=
  if c = '"' then ['\\', '"']
  else if c = '\\' then ['\\', '\\']
  else if c = '\n' then ['\\', 'n']
  else if c = '\r' then ['\\', 'r']
  else if c = '\t' then ['\\', 't']
  else if c.toNat = 8 then ['\\', 'b']
  else if c.toNat = 12 then ['\\', 'f']
  else if c.toNat < 32 then
    '\\' :: 'u' :: '0' :: '0' :: [Nat.digitChar (c.toNat / 16), Nat.digitChar (c.toNat % 16)]
  else [c]

def quote (s : String) : String :=
  (s.foldl (fun out c => (escape c).foldl String.push out) "\"").push '"'

open Decimal Decimal.Double in
/-- A double, which has a point or an exponent. What is no number cannot be written. -/
def doubleText : Decimal.Double → String
  | .finite negative units => finiteText roundQuotient scientific negative units
  | _ => "null"

/-- The text of a value that has no parts. -/
def scalarText : Json → String
  | .null => "null"
  | .bool true => "true"
  | .bool false => "false"
  | .int n => toString n
  | .double x => doubleText x
  | .string s => quote s
  | .array _ => "[]"
  | .object _ => "\x7b\x7d"

mutual

/-- Appends the text of a value, without blanks. -/
def write (out : String) : Json → String
  | .array [] => out ++ "[]"
  | .array (item :: items) => (writeItems (write (out.push '[') item) items).push ']'
  | .object [] => out ++ "\x7b\x7d"
  | .object (member :: members) =>
    (writeMembers (writeMember (out.push '\x7b') member) members).push '\x7d'
  | scalar => out ++ scalarText scalar

def writeItems (out : String) : List Json → String
  | [] => out
  | item :: items => writeItems (write (out.push ',') item) items

def writeMember (out : String) : String × Json → String
  | (name, value) => write ((out ++ quote name).push ':') value

def writeMembers (out : String) : List (String × Json) → String
  | [] => out
  | member :: members => writeMembers (writeMember (out.push ',') member) members

end

/-- The text of a value, without blanks. -/
def compact (j : Json) : String := write "" j

/-- A new line, indented by two blanks for each level. -/
def newLine (out : String) (level : Nat) : String := (out.push '\n').pushn ' ' (2 * level)

mutual

/-- Appends the text of a value, each part on a line of its own. -/
def writePretty (level : Nat) (out : String) : Json → String
  | .array (item :: items) =>
    let out := writePretty (level + 1) (newLine (out.push '[') (level + 1)) item
    (newLine (writePrettyItems (level + 1) out items) level).push ']'
  | .object (member :: members) =>
    let out := writePrettyMember (level + 1) (newLine (out.push '\x7b') (level + 1)) member
    (newLine (writePrettyMembers (level + 1) out members) level).push '\x7d'
  | other => out ++ scalarText other

def writePrettyItems (level : Nat) (out : String) : List Json → String
  | [] => out
  | item :: items =>
    writePrettyItems level (writePretty level (newLine (out.push ',') level) item) items

def writePrettyMember (level : Nat) (out : String) : String × Json → String
  | (name, value) => writePretty level (out ++ quote name ++ ": ") value

def writePrettyMembers (level : Nat) (out : String) : List (String × Json) → String
  | [] => out
  | member :: members =>
    writePrettyMembers level (writePrettyMember level (newLine (out.push ',') level) member) members

end

def pretty (j : Json) : String := writePretty 0 "" j

end Json
end NamedData
