import NamedData.CommandLine.Help
import NamedData.Settings.Load

/-!
# The command that runs a daemon

Options override the settings that a file and the environment give. What they
make of the settings must again describe a daemon that can run.
-/

namespace NamedData.DaemonTool

open CommandLine

structure Options where
  config : Option String
  port : Option UInt16
  routesFile : Option String
  strategy : Option String
  printSettings : Bool
deriving DecidableEq, Repr

def program : Program where
  name := "cefnd"
  version := "0.1.0"
  command :=
    .node "A named-data forwarding daemon (PIT/FIB/CS over UDP, TCP and local sockets)"
      [.verbose,
       { name := "config", letter := some 'c', kind := .valued .path none,
         about := "Configuration file (TOML)" },
       { name := "port", letter := some 'p', kind := .valued (.number 16) none,
         about := "Override the UDP/TCP listening port" },
       { name := "routes", letter := some 'r', kind := .valued .path none,
         about := "Override the static route file" },
       { name := "strategy", letter := some 's', kind := .valued .text none,
         about := "Override the forwarding strategy" },
       { name := "print-config",
         about := "Print the effective configuration as JSON and exit" },
       .help, .version]
      [] []

/-- Reads the arguments of the command, which takes options only. -/
def Options.parse (arguments : List String) : Except Stop Options := do
  let a ← program.command.read arguments
  return {
    config := a.value? "config"
    port := (a.number? "port" 16).map UInt16.ofNat
    routesFile := a.value? "routes"
    strategy := a.value? "strategy"
    printSettings := a.has "print-config" }

/-- Settings with those replaced that the options give. -/
def Options.override (o : Options) (s : Settings) : Settings :=
  { s with
    port := o.port.getD s.port
    routesFile := o.routesFile.or s.routesFile
    strategy := o.strategy.getD s.strategy }

/-- Why there are no settings to run a daemon with. -/
inductive Failure
  | load (cause : Settings.LoadError)
  | fault (cause : Settings.Fault)
deriving DecidableEq, Repr

def Failure.outcome : Failure → Outcome
  | .load _ => .failure "Failed to load configuration" none
  | .fault cause =>
    .failure "Invalid configuration" (some s!"configuration error: {cause.describe}")

def Options.settings (o : Options) (loaded : Except Settings.LoadError Settings) :
    Except Failure Settings :=
  match loaded with
  | .error e => .error (.load e)
  | .ok s =>
    let s := o.override s
    match s.fault? with
    | some fault => .error (.fault fault)
    | none => .ok s

def Options.report (o : Options) (loaded : Except Settings.LoadError Settings) : Outcome :=
  match o.settings loaded with
  | .ok s => .output [s.toJson.pretty]
  | .error e => e.outcome

/-- Prints the settings that count in the end, or what the arguments ask for instead; `load` gives
the settings of a configuration file. -/
def printed (load : Option String → Except Settings.LoadError Settings)
    (arguments : List String) : Outcome :=
  match Options.parse arguments with
  | .error stop => program.answer stop
  | .ok o => o.report (load o.config)

end NamedData.DaemonTool
