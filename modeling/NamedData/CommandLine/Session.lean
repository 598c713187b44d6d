import NamedData.CommandLine.Outcome
import NamedData.CommandLine.Report
import NamedData.Daemon.Host

/-!
# A session of the control tool

The tool reaches a daemon over two sockets. An Interest is sent on a stream of
its own, which is closed when a reply has come or the time is up.
-/

namespace NamedData.ControlTool

open CommandLine

/-- Closes the stream of an exchange, which is the last one. -/
def hangUp (h : Host) (app : Nat) : Host :=
  let h := ((h.use? app LocalStream.finish).getD h).settle
  { h with ends := { h.ends with streams := h.ends.streams.take app } }

/-- Sends an Interest on a stream and waits for its reply. -/
def exchange (h : Host) (f : Fetch) (packet : Octets) (app : Nat) : Host × Except Failure Message :=
  let since := h.attempts
  let h := ((h.use? app (·.write packet)).getD h).settle
  let received := (h.ends.streams[app]?.map fun s => (h.sentTo s.face since).flatten).getD []
  match f.reply? received, h.stopped with
  | some m, _ => if f.timeout = 0 then (h, .error (.noReply m.name 0)) else (h, .ok m)
  | none, true => (h, .error .closed)
  | none, false => (h.wait f.timeout, .error (.noReply (Name.ofString f.name) f.timeout))

/-- Sends an Interest over the socket of applications. -/
def fetch (h : Host) (f : Fetch) : Host × Except Failure Message :=
  match f.packet with
  | .error e => (h, .error (.packet e))
  | .ok packet =>
    match h.connect?.filter fun _ => f.socket = h.localSocket with
    | none => (h, .error (.noSocket f.socket))
    | some (app, h) =>
      let (h, reply) := exchange h f packet app
      (hangUp h app, reply)

/-- Sends a request over the control socket. -/
def ask (h : Host) (socket : String) (request : ControlRequest) :
    Host × Except Failure ControlResponse :=
  match (h.control? request).filter fun _ => socket = h.controlSocket with
  | none => (h, .error (.noDaemon socket))
  | some (h, response) => (h, .ok response)

def run (h : Host) (call : Invocation) : Host × Except Failure (List String) :=
  match call.task with
  | .ask request =>
    let (h, response) := ask h call.socket request
    (h, response.bind (answerLines call.json request))
  | .fetch f =>
    let (h, reply) := fetch h f
    (h, reply.map (replyLines · 0))

def main (h : Host) (arguments : List String) : Host × Outcome :=
  match Invocation.parse arguments with
  | .error stop => (h, program.answer stop)
  | .ok call =>
    match run h call with
    | (h, .ok lines) => (h, .output lines)
    | (h, .error e) => (h, .failure e.describe none)

end NamedData.ControlTool
