import NamedData.Json.Reader
import NamedData.Text.Hexadecimal

/-!
# The text of TOML documents

Line ends come in two forms, of which the longer is first turned into the
shorter. A comment runs to the end of its line and holds no control characters
but tabs. Strings stand in one or three quotes of either kind; only double
quotes allow escapes.
-/

namespace NamedData.Toml

/-- Makes all line ends single line feeds. -/
def foldLineEnds : List Char → List Char
  | '\r' :: '\n' :: cs => '\n' :: foldLineEnds cs
  | c :: cs => c :: foldLineEnds cs
  | [] => []

/-! ## Blanks and comments -/

def isBlank (c : Char) : Bool := c = ' ' || c = '\t'

def skipBlanks (cs : List Char) : List Char := cs.dropWhile isBlank

def skipComment (cs : List Char) : List Char :=
  match skipBlanks cs with
  | '#' :: rest => rest.dropWhile fun c => c = '\t' || 32 ≤ c.toNat
  | rest => rest

/-- What follows the end of a line, if nothing but blanks and a comment stands before it. -/
def endLine? (cs : List Char) : Option (List Char) :=
  match skipComment cs with
  | [] => some []
  | '\n' :: rest => some rest
  | _ => none

/-- Drops blanks, comments and line ends. Each step uses up one unit of `fuel`. -/
def skipLines : (fuel : Nat) → List Char → List Char
  | 0, cs => cs
  | fuel + 1, cs =>
    match skipComment cs with
    | '\n' :: rest => skipLines fuel rest
    | rest => rest

/-! ## Words -/

/-- Whether a character may stand in a key without quotes, in a number or in a date. -/
def isWordChar (c : Char) : Bool := c.isAlphanum || c = '_' || c = '-'

/-- Reads a word, which has at least one character. -/
def readWord? (cs : List Char) : Option (List Char × List Char) :=
  match cs.span isWordChar with
  | ([], _) => none
  | found => some found

/-! ## Strings -/

def hexNumber? (cs : List Char) : Option Nat :=
  cs.foldlM (fun n c => (Text.hexValue? c).map (n * 16 + ·)) 0

/-- The character with a number, unless it is half of a pair or too large. -/
def scalar? (n : Nat) : Option Char :=
  if n < 0xd800 ∨ (0xe000 ≤ n ∧ n < 0x110000) then some (Char.ofNat n) else none

/-- Reads the number of a character in some digits. -/
def readScalar? (digits : Nat) (cs : List Char) : Option (Char × List Char) :=
  if (cs.take digits).length = digits then
    ((hexNumber? (cs.take digits)).bind scalar?).map (·, cs.drop digits)
  else none

def readEscape? : List Char → Option (Char × List Char)
  | 'u' :: rest => readScalar? 4 rest
  | 'U' :: rest => readScalar? 8 rest
  | '/' :: _ => none
  | c :: rest => (Json.unescape? c).map (·, rest)
  | [] => none

/-- Whether a character may stand in a string on one line. -/
def isPlain (c : Char) : Bool := c = '\t' || (32 ≤ c.toNat && c.toNat ≠ 127)

/-- Reads a string in double quotes up to the closing one. -/
def readBasic : (fuel : Nat) → (done : String) → List Char → Option (String × List Char)
  | 0, _, _ => none
  | fuel + 1, done, cs =>
    match cs with
    | '"' :: rest => some (done, rest)
    | '\\' :: rest =>
      match readEscape? rest with
      | some (c, rest) => readBasic fuel (done.push c) rest
      | none => none
    | c :: rest => if isPlain c then readBasic fuel (done.push c) rest else none
    | [] => none

/-- Reads the closing quotes of a block, of which there are three; up to two quotes
before them belong to the block. -/
def closeBlock? (quote : Char) (done : String) (cs : List Char) :
    Option (String × List Char) :=
  let quotes := ((cs.takeWhile (· = quote)).take 5).length
  if quotes < 3 then none else some (done.pushn quote (quotes - 3), cs.drop quotes)

/-- What follows a backslash at the end of a line: blanks and line ends do not count. -/
def joinLines? (cs : List Char) : Option (List Char) :=
  match skipBlanks cs with
  | '\n' :: rest => some (rest.dropWhile fun c => isBlank c || c = '\n')
  | _ => none

def readBasicBlock : (fuel : Nat) → (done : String) → List Char → Option (String × List Char)
  | 0, _, _ => none
  | fuel + 1, done, cs =>
    match closeBlock? '"' done cs, cs with
    | some found, _ => some found
    | none, '\\' :: rest =>
      match joinLines? rest, readEscape? rest with
      | some rest, _ => readBasicBlock fuel done rest
      | none, some (c, rest) => readBasicBlock fuel (done.push c) rest
      | none, none => none
    | none, c :: rest =>
      if isPlain c || c = '\n' then readBasicBlock fuel (done.push c) rest else none
    | none, [] => none

def readLiteralBlock (done : String) (cs : List Char) : Option (String × List Char) :=
  match closeBlock? '\'' done cs, cs with
  | some found, _ => some found
  | none, c :: rest =>
    if isPlain c || c = '\n' then readLiteralBlock (done.push c) rest else none
  | none, [] => none

/-- Drops the line end right behind the opening quotes of a block. -/
def dropFirstLineEnd : List Char → List Char
  | '\n' :: rest => rest
  | cs => cs

def readLine? : List Char → Option (String × List Char)
  | '"' :: rest => readBasic (rest.length + 1) "" rest
  | '\'' :: rest =>
    match rest.span (· ≠ '\'') with
    | (text, _ :: rest) => if text.all isPlain then some (String.ofList text, rest) else none
    | (_, []) => none
  | _ => none

def readBlock? : List Char → Option (String × List Char)
  | '"' :: '"' :: '"' :: rest =>
    let rest := dropFirstLineEnd rest
    readBasicBlock (rest.length + 1) "" rest
  | '\'' :: '\'' :: '\'' :: rest => readLiteralBlock "" (dropFirstLineEnd rest)
  | _ => none

def opensBlock : List Char → Bool
  | '"' :: '"' :: '"' :: _ => true
  | '\'' :: '\'' :: '\'' :: _ => true
  | _ => false

def readString? (cs : List Char) : Option (String × List Char) :=
  if opensBlock cs then readBlock? cs else readLine? cs

/-! ## Keys -/

/-- Reads one part of a key: a word, or a string on one line. -/
def readKeyPart? (cs : List Char) : Option (String × List Char) :=
  match readWord? cs with
  | some (word, rest) => some (String.ofList word, rest)
  | none => if opensBlock cs then none else readLine? cs

/-- Reads a key: parts joined by points, with blanks around each. Each part uses up one
unit of `fuel`. -/
def readKey : (fuel : Nat) → List Char → Option (List String × List Char)
  | 0, _ => none
  | fuel + 1, cs =>
    match readKeyPart? (skipBlanks cs) with
    | none => none
    | some (part, rest) =>
      match skipBlanks rest with
      | '.' :: rest => (readKey fuel rest).map fun (parts, rest) => (part :: parts, rest)
      | rest => some ([part], rest)

end NamedData.Toml
