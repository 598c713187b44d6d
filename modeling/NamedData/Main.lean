import NamedData.CommandLine.Console

/-!
# The program

The program prints the settings of a daemon, or runs one on a console until the
daemon has stopped or the input ends.
-/

namespace NamedData.Program

open CommandLine

def present (outcome : Outcome) : IO Unit := do
  outcome.outputLines.forM IO.println
  outcome.errorLines.forM IO.eprintln

/-- The environment variables that are set and override settings. -/
def overrides : IO (List (String × String)) :=
  Settings.variableNames.filterMapM fun name => do return (← IO.getEnv name).map (name, ·)

def readText (path : String) : IO (Option String) := do
  try return some (← IO.FS.readFile path) catch _ => return none

/-- The settings that a file, the environment and the options give. -/
def settings (o : DaemonTool.Options) : IO (Except Settings.LoadError Settings) := do
  let environment ← overrides
  match o.config with
  | none => return Settings.load none environment
  | some path =>
    match ← readText path with
    | none => return .error .unreadable
    | some text =>
      let source := if path.endsWith ".json" then .json text else .toml text
      return Settings.load (some source) environment

/-- Takes lines until the daemon has stopped or the input ends. -/
partial def converse (input : IO.FS.Stream) (h : Host) (last : Nat) : IO Unit := do
  if h.stopped then return ()
  let line ← input.getLine
  if line.isEmpty then return ()
  let now ← IO.monoMsNow
  let (h, outcome) := Console.enter h (now - last) line
  present outcome
  converse input h now

def run (s : Settings) : IO Outcome := do
  let routes : Except String (Option String) ←
    match s.routesFile with
    | none => pure (.ok none)
    | some path => do
      let text ← readText path
      pure (text.elim (.error path) (.ok ∘ some))
  match routes with
  | .error path =>
    return .failure "Failed to start the forwarder"
      (some s!"configuration error: Cannot read route file {path}")
  | .ok routes =>
    match Console.open? s routes 0 with
    | .error e => return Console.refusal e
    | .ok h =>
      converse (← IO.getStdin) h (← IO.monoMsNow)
      return .output []

def perform (arguments : List String) : IO Outcome := do
  match DaemonTool.Options.parse arguments with
  | .error stop => return DaemonTool.program.answer stop
  | .ok o =>
    let loaded ← settings o
    match o.printSettings, o.settings loaded with
    | false, .ok s => run s
    | _, _ => return o.report loaded

end NamedData.Program

def main (arguments : List String) : IO UInt32 := do
  let outcome ← NamedData.Program.perform arguments
  NamedData.Program.present outcome
  return outcome.exitStatus
