import NamedData.CommandLine.Help
import NamedData.Control.Message
import NamedData.Framer
import NamedData.Packet.Draft

/-!
# The control tool

The control tool sends one request to a daemon and prints the answer: a control
request over the control socket, or an Interest over the socket of applications.
-/

namespace NamedData.ControlTool

open CommandLine

/-- An Interest to be sent for its reply. -/
structure Fetch where
  name : String
  chunk : Option UInt32
  /-- How long to wait for a reply, in milliseconds. -/
  timeout : Nat
  socket : String
deriving DecidableEq, Repr

inductive Task
  | ask (request : ControlRequest)
  | fetch (interest : Fetch)
deriving DecidableEq, Repr

structure Invocation where
  socket : String
  json : Bool
  task : Task
deriving DecidableEq, Repr

def defaultSocket : String := "/tmp/cefnd.ctrl"

def defaultLocalSocket : String := "/tmp/cefnd.sock"

def socketOption : OptionSpec where
  name := "socket"
  letter := some 's'
  kind := .valued .path defaultSocket
  about := "Control socket of the daemon"

def jsonOption : OptionSpec where
  name := "json"
  about := "Print raw JSON instead of tables"

def everywhere : List OptionSpec := [.verbose, socketOption, jsonOption, .help]

def costOption : OptionSpec where
  name := "cost"
  letter := some 'c'
  kind := .valued (.number 16) "0"
  about := "Route cost"

def chunkOption : OptionSpec where
  name := "chunk"
  letter := some 'c'
  kind := .valued (.number 32) none
  about := "Chunk number"

def timeoutOption : OptionSpec where
  name := "timeout"
  letter := some 't'
  kind := .valued (.number 64) "4000"
  about := "Timeout in milliseconds"

def localSocketOption : OptionSpec where
  name := "local-socket"
  letter := some 'l'
  kind := .valued .path defaultLocalSocket
  about := "Local application socket of the daemon"

def routeWords : List WordSpec :=
  [{ name := "prefix", about := "Name prefix" },
   { name := "protocol", about := "Transport (udp or tcp)" },
   { name := "next_hops", many := true, about := "Next hops, host[:port]" }]

def routeCommand : CommandSpec :=
  .node "Manage the forwarding table (FIB)" everywhere []
    [("add", .node "Add a route to the FIB" (costOption :: everywhere) routeWords []),
     ("del", .node "Remove a route from the FIB" everywhere routeWords [])]

def interestCommand : CommandSpec :=
  .node "Send an Interest through the local socket and print the reply"
    [chunkOption, .verbose, socketOption, timeoutOption, jsonOption, localSocketOption, .help]
    [{ name := "name", about := "Name to request" }] []

def program : Program where
  name := "cefctrl"
  version := "0.1.0"
  command :=
    .node "Command-line control tool for the cefnd forwarder" (everywhere ++ [.version]) []
      [("status", .node "Show daemon status, counters, faces and routes" everywhere [] []),
       ("pit", .node "Show the Pending Interest Table" everywhere [] []),
       ("route", routeCommand),
       ("stop", .node "Stop the daemon" everywhere [] []),
       ("interest", interestCommand)]

def task? (a : Arguments) : Option Task :=
  match a.path, a.words with
  | ["status"], [] => some (.ask .status)
  | ["pit"], [] => some (.ask .statusPending)
  | ["stop"], [] => some (.ask .stop)
  | ["route", "add"], namePrefix :: protocol :: hop :: hops =>
    let cost := UInt16.ofNat ((a.number? "cost" 16).getD 0)
    some (.ask (.routeAdd namePrefix protocol (hop :: hops) cost))
  | ["route", "del"], namePrefix :: protocol :: hop :: hops =>
    some (.ask (.routeDel namePrefix protocol (hop :: hops)))
  | ["interest"], [name] =>
    let chunk := (a.number? "chunk" 32).map UInt32.ofNat
    let timeout := (a.number? "timeout" 64).getD 4000
    let socket := (a.value? "local-socket").getD defaultLocalSocket
    some (.fetch { name, chunk, timeout, socket })
  | _, _ => none

def Invocation.parse (arguments : List String) : Except Stop Invocation := do
  let a ← program.command.read arguments
  match task? a with
  | none => .error .misuse
  | some task =>
    return { socket := (a.value? "socket").getD defaultSocket, json := a.has "json", task }

namespace Fetch

def packet (f : Fetch) : Except PacketError Octets :=
  { Draft.interest (Name.ofString f.name) with chunk := f.chunk }.encode

/-- Whether a message is a reply: anything but an Interest for the same name and chunk. -/
def answeredBy (f : Fetch) (m : Message) : Bool :=
  m.name = Name.ofString f.name && m.chunk = f.chunk && m.kind != .interest

/-- The first reply in what the daemon has sent. -/
def reply? (f : Fetch) (received : Octets) : Option Message :=
  let (frames, _) := ((({} : Framer).push received).drain)
  (frames.filterMap fun frame => (Message.parse frame.bytes).toOption).find? f.answeredBy

end Fetch

inductive Failure
  | refused (message : String)
  | noDaemon (socket : String)
  | noSocket (socket : String)
  | packet (cause : PacketError)
  | noReply (name : Name) (timeout : Nat)
  | closed
  /-- The answer does not belong to the request. -/
  | unexpected
deriving DecidableEq, Repr

def Failure.describe : Failure → String
  | .refused message => s!"daemon refused the request: {message}"
  | .noDaemon socket => s!"Cannot reach the daemon on {socket}"
  | .noSocket socket => s!"Cannot connect to {socket}"
  | .packet cause => cause.describe
  | .noReply name timeout => s!"No reply for {name} within {timeout} ms"
  | .closed => "daemon closed the connection"
  | .unexpected => "unexpected reply"

end NamedData.ControlTool
