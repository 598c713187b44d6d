import NamedData.Text.Blank

/-!
# Outcomes of commands

A command that succeeds prints lines. One that fails says why, sometimes with a
cause in a line of its own. Arguments that it does not understand are a failure
of another kind.
-/

namespace NamedData.CommandLine

inductive Outcome
  | output (lines : List String)
  | failure (message : String) (cause : Option String)
  | usage
deriving DecidableEq, Repr

namespace Outcome

def exitStatus : Outcome → UInt32
  | .output _ => 0
  | .failure _ _ => 1
  | .usage => 2

/-- The line that tells what went wrong. -/
def errorLine (message : String) : String := s!"Error: {message}"

def firstLine (text : String) : String :=
  String.ofList ((Text.lines text.toList).head?.getD [])

end Outcome
end NamedData.CommandLine
