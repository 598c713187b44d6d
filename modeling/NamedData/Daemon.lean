import NamedData.Control.Codec
import NamedData.Daemon.Framers
import NamedData.Packet.Draft

/-!
# The daemon

A daemon joins faces, framers, forwarder and transmission. It deals with one
thing at a time: what a face has received goes through the framer of the face
to the forwarder, and what the forwarder asks for is done at once. An
administrative Interest is answered with a content object of JSON.
-/

namespace NamedData

/-- What a daemon meets while it deals with one thing. -/
structure Surroundings where
  clock : Clock
  network : Network
  /-- What the transmission does while the daemon waits for a lane, given the
  faces that are open and the number of tries that are left. -/
  pause : FaceRegistry → Nat → Pipeline → Pipeline

structure Daemon where
  forwarder : Forwarder
  faces : FaceRegistry
  framers : Framers := {}
  pipeline : Pipeline
  started : Instant
  stopping : Bool := false

namespace Daemon

/-- A daemon without faces. -/
def ofSettings (s : Settings) (started : Instant) : Except Settings.Fault Daemon :=
  match s.fault?, Forwarder.ofSettings s with
  | some fault, _ => .error fault
  | none, .error e => .error (.unknownStrategy e.name)
  | none, .ok forwarder =>
    let eventCapacity := max s.eventCapacity 1
    .ok
      { forwarder
        faces := .empty eventCapacity (some s.maxUdpFaces)
        pipeline := .ofSettings s.transmission eventCapacity
        started }

/-- A status report. The clock stands still while a packet is dealt with, so the
mean processing time is zero. -/
def status (d : Daemon) (now : Instant) : DaemonStatus :=
  { uptime := (now - d.started) / 1000
    forwarder := d.forwarder.status
    meters := ⟨d.forwarder.metrics.report, .zero⟩
    transmission := d.pipeline.stats
    faces := d.faces.rows
    routes := d.forwarder.routes.rows }

def push (w : Surroundings) (d : Daemon) (frame : OutFrame) (priority : Priority) : Daemon :=
  { d with pipeline := (d.pipeline.push (w.pause d.faces) frame priority).1 }

/-- Closes a face and forgets everything about it. -/
def closeFace (d : Daemon) (face : FaceId) : Daemon :=
  { d with
    faces := d.faces.close face
    framers := d.framers.erase face
    forwarder := d.forwarder.faceClosed face }

def report (d : Daemon) (now : Instant) : Command → String
  | .status => (d.status now).toJson.compact
  | .statusPending =>
    (Json.array ((d.forwarder.pending.rows now).map PendingTable.Row.toJson)).compact
  | .stop => "\"ok\""

/-- The content object that carries an answer, if it is not too large for a packet. -/
def reply? (request : Message) (body : String) : Option Octets :=
  (Draft.object request.name (Octets.ofString body)).encode.toOption

def administer (w : Surroundings) (d : Daemon) (command : Command) (face : FaceId)
    (request : Message) : Daemon :=
  let body := d.report w.clock.now command
  let d := { d with stopping := d.stopping || command == .stop }
  match reply? request body with
  | some packet => d.push w ⟨packet, [face], .object⟩ .high
  | none => d

/-- Does what the forwarder asks for. -/
def perform (w : Surroundings) (d : Daemon) : Action → Daemon
  | .send frame priority => d.push w frame priority
  | .closeFace face => d.closeFace face
  | .command command face request => d.administer w command face request

def execute (w : Surroundings) (d : Daemon) (actions : List Action) : Daemon :=
  actions.foldl (perform w) d

/-- Passes a packet from a face to the forwarder. -/
def handleFrame (w : Surroundings) (face : FaceId) (d : Daemon) (frame : Frame) : Daemon :=
  let (forwarder, actions) := d.forwarder.handleFrame d.faces.view face frame.bytes w.clock
  { d with forwarder }.execute w actions

/-- Passes received data to the framer of its face, and the packets that it
completes to the forwarder. -/
def receive (w : Surroundings) (d : Daemon) (face : FaceId) (data : Octets) : Daemon :=
  let (reception, framers) := d.framers.receive face data
  let forwarder := d.forwarder.meter fun m =>
    { m with framingDiscards := m.framingDiscards.add reception.discarded }
  reception.frames.foldl (handleFrame w face) { d with framers, forwarder }

def handleEvent (w : Surroundings) (d : Daemon) : FaceEvent → Daemon
  | .opened face _ => { d with framers := d.framers.start face }
  | .received face data => d.receive w face data
  | .closed face => d.closeFace face

def sweep (w : Surroundings) (d : Daemon) : Daemon :=
  let (forwarder, actions) := d.forwarder.sweep w.clock.now
  { d with forwarder }.execute w actions

end Daemon
end NamedData
