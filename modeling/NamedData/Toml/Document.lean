import NamedData.Toml.Reader

/-!
# TOML documents

The sections of a document make one table. Those whose headers begin alike
belong to the same table below it, and at most one of them is that table's own.
Where the first of them adds to a list, each such section begins a new table of
the list, to which the sections behind it belong.
-/

namespace NamedData.Toml

namespace Section

/-- The section as the table of some name sees it, if it belongs there. -/
def below? (name : String) (s : Section) : Option Section :=
  match s.header with
  | first :: rest => if first = name then some { s with header := rest } else none
  | [] => none

/-- Whether a section is the table's own. -/
def isOwn (s : Section) : Bool := s.header.isEmpty

/-- Whether a section begins a new table of a list. -/
def beginsTable (s : Section) : Bool := s.listed && s.isOwn

/-- Whether the first key of a section makes its table stand for a moment. -/
def spellsMoment (s : Section) : Bool := s.isOwn && s.pairs.head?.any (·.1 = momentKey)

end Section

/-- Cuts sections in front of each that begins a new table. -/
def cutTables (sections : List Section) : List Section × List (List Section) :=
  sections.foldr
    (fun s (run, runs) =>
      if s.beginsTable then ([], ({ s with listed := false } :: run) :: runs)
      else (s :: run, runs))
    ([], [])

/-- The pairs of the table that some sections make. A table that stands for a moment is made by
one section. Each part of their headers uses up one unit of `depth`. -/
def pairsOf? : (depth : Nat) → List Section → Option (List (String × Item))
  | 0, _ => none
  | depth + 1, sections =>
    let table (sections : List Section) : Option Item :=
      if 1 < sections.length ∧ sections.head?.any Section.spellsMoment then none
      else (pairsOf? depth sections).map (.table false)
    let item (sections : List Section) : Option Item :=
      if sections.head?.any Section.beginsTable then
        ((cutTables sections).2.mapM table).map .array
      else table sections
    let own := sections.filter Section.isOwn
    let names := (sections.filterMap (·.header.head?)).eraseDups
    let below := names.mapM fun name =>
      (item (sections.filterMap (Section.below? name))).map (name, ·)
    if 1 < own.length ∨ own.any Section.listed then none
    else
      below.map fun below =>
        let own := own.flatMap Section.pairs
        if sections.head?.any Section.isOwn then own ++ below else below ++ own

/-- The longest header has that many parts. -/
def longestHeader (sections : List Section) : Nat :=
  (sections.map (·.header.length)).foldl max 0

def dropTextMark : List Char → List Char
  | '\ufeff' :: cs => cs
  | cs => cs

/-- Reads a document. One that stands for a moment is not read behind its first section. -/
def parse? (text : String) : Option Json := do
  let cs := foldLineEnds (dropTextMark text.toList)
  let sections ← readSections (cs.length + 1) {} cs
  let counted := if sections.head?.any Section.spellsMoment then sections.take 1 else sections
  let pairs ← pairsOf? (longestHeader counted + 1) counted
  (Item.table false pairs).toJson?

end NamedData.Toml
