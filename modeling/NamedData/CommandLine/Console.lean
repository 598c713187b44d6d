import NamedData.CommandLine.DaemonTool
import NamedData.CommandLine.Session
import NamedData.Daemon.Startup
import NamedData.Text.Blank

/-!
# The console of a daemon

A console takes the place of the control socket. A line that begins with a brace
is a control request, and its response is written as JSON. Any other line holds
the arguments of a call of the control tool.
-/

namespace NamedData.CommandLine

def Outcome.outputLines : Outcome → List String
  | .output lines => lines
  | _ => []

def Outcome.errorLines : Outcome → List String
  | .output _ => []
  | .failure message none => [errorLine message]
  | .failure message (some cause) => [errorLine message, "", "Caused by:", s!"    {cause}"]
  | .usage => [errorLine "these arguments are not understood"]

namespace Console

/-- Puts a daemon with some settings on a host that has no network. The text of the route file is
given when the settings name one. -/
def open? (s : Settings) (routes : Option String) (epoch : Nat) : Except StartError Host := do
  let d ← (Daemon.ofSettings s 0).mapError .fault
  let d ← (routes.map (d.installRoutes .isolated ·)).getD (.ok d)
  return Host.start d {} .isolated epoch (max 1 s.pending.sweepPeriod) s.controlSocket s.localSocket

def refusal (e : StartError) : Outcome :=
  .failure "Failed to start the forwarder" (some s!"configuration error: {e.describe}")

/-- Carries out a line that an operator has typed after `elapsed` milliseconds. -/
def enter (h : Host) (elapsed : Nat) (line : String) : Host × Outcome :=
  let h := h.wait elapsed
  match Text.words line.toList with
  | [] => (h, .output [])
  | ('{' :: _) :: _ =>
    let (h, responses) := h.answerLines [line.toList]
    (h.settle, .output (responses.map fun r => r.toJson.compact))
  | words =>
    let (h, outcome) := ControlTool.main h (words.map String.ofList)
    (h.settle, outcome)

end Console
end NamedData.CommandLine
