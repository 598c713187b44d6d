/-!
# Blanks, words and lines

The blanks are the characters with the Unicode property `White_Space`. A line
ends with a line feed or with a carriage return and a line feed; what follows
the last line end is a line of its own only when it is not empty.
-/

namespace NamedData.Text

/-- Whether a character has the property `White_Space`. -/
def isBlank (c : Char) : Bool :=
  let n := c.toNat
  (0x9 ≤ n && n ≤ 0xd) || n = 0x20 || n = 0x85 || n = 0xa0 || n = 0x1680 ||
    (0x2000 ≤ n && n ≤ 0x200a) || n = 0x2028 || n = 0x2029 || n = 0x202f || n = 0x205f ||
    n = 0x3000

/-- The maximal runs of characters that are no blanks. -/
def words (cs : List Char) : List (List Char) :=
  let rec go : (word : List Char) → List Char → List (List Char)
    | word, [] => if word.isEmpty then [] else [word.reverse]
    | word, c :: cs =>
      if isBlank c then
        if word.isEmpty then go [] cs else word.reverse :: go [] cs
      else go (c :: word) cs
  go [] cs

/-- A line without the carriage return that belongs to its end. -/
def dropReturn (line : List Char) : List Char :=
  if line.getLast? = some '\r' then line.dropLast else line

def lines (cs : List Char) : List (List Char) :=
  let rec go : (line : List Char) → List Char → List (List Char)
    | line, [] => if line.isEmpty then [] else [line.reverse]
    | line, c :: cs =>
      if c = '\n' then dropReturn line.reverse :: go [] cs else go (c :: line) cs
  go [] cs

end NamedData.Text
