import NamedData.Daemon.Control
import NamedData.Daemon.Rounds
import NamedData.Face.Endpoints
import NamedData.Text.Blank

/-!
# A daemon on its host

The host of a daemon keeps the time and the streams of its applications. After
everything that happens, all that is pending finishes at once; time passes only
when somebody waits, and then the daemon sweeps its tables at regular
intervals, for the first time at the start.
-/

namespace NamedData

/-- A daemon, its applications and the time. -/
structure Host where
  daemon : Daemon
  ends : Endpoints := {}
  network : Network
  now : Instant := 0
  /-- The wall clock at the start, in milliseconds since the epoch. -/
  epoch : Nat
  sweepPeriod : Nat
  nextSweep : Instant := 0
  controlSocket : String
  localSocket : String
  stopped : Bool := false

namespace Host

/-- How packets leave the faces of the daemon. -/
def carry (h : Host) : FaceRegistry.Carriage := h.ends.carry h.network

def surroundings (h : Host) : Surroundings :=
  .settling ⟨h.now, h.epoch + h.now⟩ h.network h.carry

/-- Lets everything that is pending finish. -/
def settle (h : Host) : Host :=
  if h.stopped then h
  else
    let (streams, daemon) := h.daemon.settle h.surroundings h.carry h.ends.streams
    { h with daemon, ends := { h.ends with streams }, stopped := daemon.stopping }

/-- The next sweeps, each at its time. -/
def sweeps : (count : Nat) → Host → Host
  | 0, h => h
  | count + 1, h =>
    let h := { h with now := h.nextSweep, nextSweep := h.nextSweep + h.sweepPeriod }
    sweeps count { h with daemon := h.daemon.sweep h.surroundings }.settle

def sweepsUntil (h : Host) (time : Instant) : Nat :=
  if time < h.nextSweep then 0 else (time - h.nextSweep) / h.sweepPeriod + 1

def wait (h : Host) (ms : Nat) : Host :=
  let time := h.now + ms
  { h.sweeps (h.sweepsUntil time) with now := time }

/-- A daemon is put on its host, and sweeps for the first time. -/
def start (daemon : Daemon) (ends : Endpoints) (network : Network) (epoch sweepPeriod : Nat)
    (controlSocket localSocket : String) : Host :=
  ({ daemon, ends, network, epoch, sweepPeriod, controlSocket, localSocket } : Host).wait 0

/-- Carries out a control request, unless the daemon has stopped. -/
def control? (h : Host) (request : ControlRequest) : Option (Host × ControlResponse) :=
  if h.stopped then none
  else
    let (daemon, response) := h.daemon.control h.surroundings request
    some ({ h with daemon }, response)

/-- Answers a request that comes in a line. One that comes right after the daemon was asked to
stop is lost with it, and a later one finds it gone. -/
def answer (h : Host) (request : ControlRequest) : Host × ControlResponse :=
  if h.daemon.stopping && !h.stopped then
    (h.settle, .refused "forwarder dropped the request")
  else
    (h.control? request).getD (h, .refused "forwarder is shutting down")

/-- Answers a line that an operator has written; a blank one needs no answer. -/
def answerLine (h : Host) (line : List Char) : Host × Option ControlResponse :=
  if line.all Text.isBlank then (h, none)
  else
    match ControlRequest.parse? (String.ofList line) with
    | none => (h, some (.refused "invalid request"))
    | some request =>
      let (h, response) := h.answer request
      (h, some response)

def answerLines (h : Host) : List (List Char) → Host × List ControlResponse
  | [] => (h, [])
  | line :: lines =>
    let (h, response) := h.answerLine line
    let (h, responses) := h.answerLines lines
    (h, response.toList ++ responses)

def stop (h : Host) : Host := { h with daemon := { h.daemon with stopping := true } }

def withFaces (h : Host) (faces : FaceRegistry) : Host :=
  { h with daemon := { h.daemon with faces } }

def receive (h : Host) (face : FaceId) (data : Octets) : Except FaceError Host :=
  if h.stopped then .error (.closed face) else (h.daemon.faces.receive face data).map h.withFaces

/-- An application connects: the position of its stream. -/
def connect? (h : Host) : Option (Nat × Host) :=
  if h.stopped then none
  else (h.ends.connect? h.daemon.faces).map fun (app, faces, ends) =>
    (app, { h.withFaces faces with ends })

def use? (h : Host) (app : Nat) (f : LocalStream → LocalStream) : Option Host :=
  (h.ends.use? app f).map fun ends => { h with ends }

/-- How many packets have been sent, or could not be sent, by now. -/
def attempts (h : Host) : Nat := h.daemon.pipeline.attempts.length

/-- The packets that have been sent to a face after the first `since` attempts. -/
def sentTo (h : Host) (face : FaceId) (since : Nat) : List Octets :=
  let recent := (h.daemon.pipeline.attempts.take (h.attempts - since)).reverse
  (recent.filter fun a => a.outcome = .sent && a.parcel.face = face).map (·.parcel.payload)

end Host
end NamedData
