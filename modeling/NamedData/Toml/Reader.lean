import NamedData.Toml.Scalar

/-!
# Reading TOML

A document is a list of sections. Each begins with a header that names its
table, but for the first, and holds pairs `key = value`, one on each line.
Values are strings, numbers, truth values, moments, lists and tables in braces.
-/

namespace NamedData.Toml

mutual

/-- Reads a value. Each step uses up one unit of `fuel`. -/
def readValue : (fuel : Nat) → List Char → Option (Item × List Char)
  | 0, _ => none
  | fuel + 1, cs =>
    match cs with
    | '"' :: _ => (readString? cs).map fun (s, rest) => (.string s, rest)
    | '\'' :: _ => (readString? cs).map fun (s, rest) => (.string s, rest)
    | '[' :: rest => (readItems fuel rest).map fun (items, rest) => (.array items, rest)
    | '\x7b' :: rest =>
      match skipBlanks rest with
      | '\x7d' :: rest => some (.table false [], rest)
      | rest => (readPairs fuel [] rest).map fun (pairs, rest) => (.table false pairs, rest)
    | _ => readPlain? cs

def readItems : (fuel : Nat) → List Char → Option (List Item × List Char)
  | 0, _ => none
  | fuel + 1, cs =>
    match skipLines cs.length cs with
    | ']' :: rest => some ([], rest)
    | cs =>
      match readValue fuel cs with
      | none => none
      | some (item, rest) =>
        match skipLines rest.length rest with
        | ']' :: rest => some ([item], rest)
        | ',' :: rest => (readItems fuel rest).map fun (items, rest) => (item :: items, rest)
        | _ => none

def readPairs : (fuel : Nat) → (done : List (String × Item)) → List Char →
    Option (List (String × Item) × List Char)
  | 0, _, _ => none
  | fuel + 1, done, cs =>
    match readPair fuel done cs with
    | none => none
    | some (done, rest) =>
      match skipBlanks rest with
      | '\x7d' :: rest => some (done, rest)
      | ',' :: rest => readPairs fuel done rest
      | _ => none

/-- Reads a key and its value, and adds them to those that are there. -/
def readPair : (fuel : Nat) → (done : List (String × Item)) → List Char →
    Option (List (String × Item) × List Char)
  | 0, _, _ => none
  | fuel + 1, done, cs =>
    match readKey cs.length cs with
    | none => none
    | some (key, rest) =>
      match rest with
      | '=' :: rest =>
        match readValue fuel (skipBlanks rest) with
        | none => none
        | some (value, rest) => (insert? value key done).map (·, rest)
      | _ => none

end

/-- A header and the pairs below it. -/
structure Section where
  header : List String := []
  listed : Bool := false
  pairs : List (String × Item) := []

def readHeader? (cs : List Char) : Option (Section × List Char) :=
  match cs with
  | '[' :: cs =>
    match readKey cs.length cs with
    | some (header, ']' :: ']' :: rest) =>
      (endLine? rest).map fun rest => (⟨header, true, []⟩, rest)
    | _ => none
  | cs =>
    match readKey cs.length cs with
    | some (header, ']' :: rest) =>
      (endLine? rest).map fun rest => (⟨header, false, []⟩, rest)
    | _ => none

/-- Reads the rest of a section and the sections behind it. Each line uses up one unit
of `fuel`. -/
def readSections : (fuel : Nat) → Section → List Char → Option (List Section)
  | 0, _, _ => none
  | fuel + 1, current, cs =>
    match skipLines cs.length cs with
    | [] => some [current]
    | '[' :: rest =>
      (readHeader? rest).bind fun (next, rest) =>
        (readSections fuel next rest).map (current :: ·)
    | cs =>
      (readPair (2 * cs.length + 2) current.pairs cs).bind fun (pairs, rest) =>
        (endLine? rest).bind (readSections fuel { current with pairs })

end NamedData.Toml
