/-!
# Columns

A text in a column is filled up with blanks to the width of the column. A text
that is wider stays as it is.
-/

namespace NamedData.Text

/-- Fills up with blanks on the right. -/
def alignLeft (width : Nat) (s : String) : String := s.pushn ' ' (width - s.length)

def alignRight (width : Nat) (s : String) : String := "".pushn ' ' (width - s.length) ++ s

end NamedData.Text
