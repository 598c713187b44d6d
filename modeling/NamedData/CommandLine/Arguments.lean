import NamedData.Decimal.Rounding
import NamedData.Text.Natural

/-!
# Arguments of a command

A command takes options, and either words or the name of a command below it
with arguments of its own. A long option has its value behind an equals sign or
in the next argument, a short one also right behind its letter, and short
options without a value may be run together. Nothing is an option after two
hyphens. No option may be given twice to the same command. Arguments are read
from the first to the last, and the first that asks about the program or is
wrong decides.
-/

namespace NamedData.CommandLine

inductive ValueKind
  | text
  | path
  | number (bits : Nat)
deriving DecidableEq, Repr

namespace ValueKind

/-- Reads a number. Only numbers of fewer than 64 bits may be a zero with a minus sign. -/
def number? (bits : Nat) (value : String) : Option Nat :=
  let cs := value.toList
  (if bits < 64 then Text.unsigned? cs else Text.natural? cs).filter (· < Decimal.twoTo bits)

def accepts : ValueKind → String → Bool
  | .text, _ => true
  | .path, value => value ≠ ""
  | .number bits, value => (number? bits value).isSome

end ValueKind

inductive OptionKind
  | flag
  /-- A value follows, and there may be one that counts without the option. -/
  | valued (kind : ValueKind) (default : Option String)
  | help
  | version
deriving DecidableEq, Repr

structure OptionSpec where
  name : String
  letter : Option Char := none
  kind : OptionKind := .flag
  about : String
deriving DecidableEq, Repr

namespace OptionSpec

def verbose : OptionSpec where
  name := "verbose"
  letter := some 'v'
  about := "Sets the level of verbosity"

def help : OptionSpec where
  name := "help"
  letter := some 'h'
  kind := .help
  about := "Print help"

def version : OptionSpec where
  name := "version"
  letter := some 'V'
  kind := .version
  about := "Print version"

end OptionSpec

structure WordSpec where
  name : String
  many : Bool := false
  about : String
deriving DecidableEq, Repr

/-- A command: what it is for, its options, its words and the commands below it. It has words
or commands below it, but not both. -/
inductive CommandSpec
  | node (about : String) (options : List OptionSpec) (words : List WordSpec)
    (subcommands : List (String × CommandSpec))

namespace CommandSpec

def about : CommandSpec → String
  | .node about _ _ _ => about

def options : CommandSpec → List OptionSpec
  | .node _ options _ _ => options

def words : CommandSpec → List WordSpec
  | .node _ _ words _ => words

def subcommands : CommandSpec → List (String × CommandSpec)
  | .node _ _ _ subcommands => subcommands

def subcommand? (c : CommandSpec) (name : String) : Option CommandSpec :=
  (c.subcommands.find? (·.1 = name)).map (·.2)

def takesWord (c : CommandSpec) (count : Nat) : Bool :=
  count < c.words.length || c.words.getLast?.any (·.many)

/-- The command at the end of a path of names. -/
def below? : CommandSpec → List String → Option CommandSpec
  | c, [] => some c
  | c, name :: path => (c.subcommand? name).bind (·.below? path)

end CommandSpec

/-- Why there is nothing to carry out. -/
inductive Stop
  | misuse
  | describe (path : List String)
  | version
deriving DecidableEq, Repr

structure Arguments where
  path : List String := []
  words : List String := []
  /-- The options with their values, the latest first. -/
  given : List (String × String) := []
  here : List String := []
  awaiting : Option OptionSpec := none
  literal : Bool := false
deriving DecidableEq, Repr

namespace Arguments

/-- The value of an option; the innermost command wins. -/
def value? (a : Arguments) (name : String) : Option String :=
  (a.given.find? (·.1 = name)).map (·.2)

def has (a : Arguments) (name : String) : Bool := (a.value? name).isSome

def number? (a : Arguments) (name : String) (bits : Nat) : Option Nat :=
  (a.value? name).bind (ValueKind.number? bits)

def enter (a : Arguments) (name value : String) : Except Stop Arguments :=
  if name ∈ a.here then .error .misuse
  else
    .ok { a with given := (name, value) :: a.given, here := name :: a.here, awaiting := none }

def give (a : Arguments) (o : OptionSpec) : Except Stop Arguments :=
  match o.kind with
  | .flag => a.enter o.name ""
  | .valued _ _ => .ok { a with awaiting := some o }
  | .help => .error (.describe a.path)
  | .version => .error .version

def giveValue (a : Arguments) (o : OptionSpec) (value : String) : Except Stop Arguments :=
  match o.kind with
  | .valued kind _ => if kind.accepts value then a.enter o.name value else .error .misuse
  | _ => .error .misuse

/-- Reads what stands behind two hyphens. -/
def readLong (options : List OptionSpec) (a : Arguments) (cs : List Char) :
    Except Stop Arguments :=
  let (name, value) := cs.span (· ≠ '=')
  match options.find? (·.name = String.ofList name), value with
  | some o, [] => a.give o
  | some o, _ :: value => a.giveValue o (String.ofList value)
  | none, _ => .error .misuse

/-- Whether an option takes what stands behind its letter for its value. -/
def takesRest (o : OptionSpec) (rest : List Char) : Bool :=
  match o.kind with
  | .valued _ _ => !rest.isEmpty
  | _ => false

/-- Reads what stands behind one hyphen. -/
def readShort (options : List OptionSpec) : Arguments → List Char → Except Stop Arguments
  | a, [] => .ok a
  | a, c :: cs =>
    match options.find? (·.letter = some c) with
    | none => .error .misuse
    | some o =>
      if takesRest o cs then
        match cs with
        | '=' :: value | value => a.giveValue o (String.ofList value)
      else (a.give o).bind (readShort options · cs)

/-- Whether an argument can only be an option. -/
def isOption (argument : String) : Bool :=
  match argument.toList with
  | '-' :: _ :: _ => true
  | _ => false

/-- Reads the arguments of a command. Where there are commands below it, `help` with a path
asks for one of them to be described. -/
def read (spec : CommandSpec) (a : Arguments) : List String → Except Stop Arguments
  | [] => if a.awaiting.isSome ∨ !spec.subcommands.isEmpty then .error .misuse else .ok a
  | argument :: rest =>
    let go (a : Except Stop Arguments) : Except Stop Arguments := a.bind (read spec · rest)
    match a.awaiting with
    | some o => if isOption argument then .error .misuse else go (a.giveValue o argument)
    | none =>
      if isOption argument ∧ !a.literal then
        match argument.toList with
        | ['-', '-'] => go (.ok { a with literal := true })
        | '-' :: '-' :: cs => go (a.readLong spec.options cs)
        | cs => go (a.readShort spec.options (cs.drop 1))
      else if spec.takesWord a.words.length then
        go (.ok { a with words := a.words ++ [argument] })
      else if a.literal ∨ spec.subcommands.isEmpty then .error .misuse
      else
        match spec.subcommand? argument with
        | some inner => read inner { a with path := a.path ++ [argument], here := [] } rest
        | none =>
          if argument = "help" ∧ (spec.below? rest).isSome then
            .error (.describe (a.path ++ rest))
          else .error .misuse

end Arguments

def CommandSpec.read (spec : CommandSpec) (arguments : List String) : Except Stop Arguments :=
  Arguments.read spec {} arguments

end NamedData.CommandLine
