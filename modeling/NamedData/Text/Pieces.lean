/-!
# Pieces of a text

A mark cuts a text into pieces. There is always one piece more than there are
marks, so an empty text is one empty piece.
-/

namespace NamedData.Text

/-- The pieces between the marks, empty ones included. -/
def pieces (mark : Char) : List Char → List (List Char)
  | [] => [[]]
  | c :: cs =>
    if c = mark then [] :: pieces mark cs
    else
      match pieces mark cs with
      | [] => [[c]]
      | piece :: rest => (c :: piece) :: rest

theorem pieces_ne_nil (mark : Char) (cs : List Char) : pieces mark cs ≠ [] := by
  cases cs with
  | nil => simp [pieces]
  | cons c cs =>
    unfold pieces
    split
    · simp
    · split <;> simp

/-- Splits at the first occurrence of a character. -/
def splitAt? (mark : Char) (cs : List Char) : Option (List Char × List Char) :=
  match cs.span (· ≠ mark) with
  | (before, _ :: after) => some (before, after)
  | (_, []) => none

def splitAtLast? (mark : Char) (cs : List Char) : Option (List Char × List Char) :=
  (splitAt? mark cs.reverse).map fun (after, before) => (before.reverse, after.reverse)

end NamedData.Text
