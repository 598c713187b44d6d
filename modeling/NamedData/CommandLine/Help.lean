import NamedData.CommandLine.Arguments
import NamedData.CommandLine.Outcome
import NamedData.Text.Columns

/-!
# Descriptions of commands

A command is described by what it is for, how it is called, and lists of the
commands below it, its words and its options. What is said about the entries of
a list stands beside their names; it goes on lines of its own where the names
leave too little of the width of a page.
-/

namespace NamedData.CommandLine

open Text (alignLeft)

structure Entry where
  lead : String := ""
  name : String
  about : String
deriving DecidableEq, Repr

def longestName (entries : List Entry) : Nat := (entries.map (·.name.length)).foldl max 0

/-- Whether names take up more than 40 of the 100 columns of a page and something is longer than
the rest. -/
def isWide (entries : List Entry) : Bool :=
  let taken := longestName entries + 12
  40 < taken && taken ≤ 100 && entries.any fun e => 100 - taken < e.about.length

def listLines (entries : List Entry) : List String :=
  if isWide entries then
    entries.flatMap fun e => [s!"  {e.lead}{e.name}", s!"          {e.about}"]
  else
    let width := longestName entries + 2
    entries.map fun e => s!"  {e.lead}{alignLeft width e.name}{e.about}"

/-- A list with its title, if it has entries. -/
def titledList (title : String) (entries : List Entry) : List String :=
  if entries.isEmpty then [] else ["", s!"{title}:"] ++ listLines entries

/-- The name of a value: letters in upper case, and words joined by underscores. -/
def placeholder (name : String) : String :=
  let upper := name.map fun c => if c = '-' then '_' else c.toUpper
  s!"<{upper}>"

def WordSpec.shape (w : WordSpec) : String := placeholder w.name ++ if w.many then "..." else ""

def WordSpec.entry (w : WordSpec) : Entry where
  name := w.shape
  about := w.about

def OptionSpec.entry (o : OptionSpec) : Entry :=
  let lead := (o.letter.map fun c => s!"-{c}, ").getD "    "
  let (value, default) :=
    match o.kind with
    | .valued _ default =>
      (" " ++ placeholder o.name, (default.map fun d => s!" [default: {d}]").getD "")
    | _ => ("", "")
  ⟨lead, s!"--{o.name}{value}", o.about ++ default⟩

/-- The commands below a command, and the one that describes them. -/
def CommandSpec.entries (c : CommandSpec) : List Entry :=
  let help : Entry :=
    { name := "help", about := "Print this message or the help of the given subcommand(s)" }
  if c.subcommands.isEmpty then []
  else c.subcommands.map (fun (name, inner) => ⟨"", name, inner.about⟩) ++ [help]

structure Program where
  name : String
  version : String
  command : CommandSpec

namespace Program

def describe (p : Program) (path : List String) (c : CommandSpec) : List String :=
  let words := c.words.map WordSpec.shape
  let command := if c.subcommands.isEmpty then [] else [placeholder "command"]
  let usage := " ".intercalate ("Usage:" :: p.name :: path ++ "[OPTIONS]" :: words ++ command)
  [c.about, "", usage] ++ titledList "Commands" c.entries ++
    titledList "Arguments" (c.words.map WordSpec.entry) ++
    titledList "Options" (c.options.map OptionSpec.entry)

/-- What the program prints when there is nothing to carry out. -/
def answer (p : Program) : Stop → Outcome
  | .misuse => .usage
  | .describe path => ((p.command.below? path).map (.output ∘ p.describe path)).getD .usage
  | .version => .output [s!"{p.name} {p.version}"]

end Program
end NamedData.CommandLine
