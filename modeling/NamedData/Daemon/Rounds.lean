import NamedData.Daemon
import NamedData.Face.Stream
import NamedData.Transmission.Schedule

/-!
# Rounds of a daemon

In a round the faces of applications read, the daemon deals with all events
that are posted by then, the transmission sends everything that waits, and
faces that cannot be used any more are closed. Rounds follow each other until
nothing is left. A daemon that has been asked to stop does nothing more than to
send what waits, and by then no face is open.
-/

namespace NamedData

/-- What comes of sending a packet while some faces are open. -/
def FaceRegistry.carrier (r : FaceRegistry) (carry : Carriage) : Pipeline.Carrier :=
  fun face packet => .ofResult packet (r.send carry face packet)

/-- Surroundings in which the transmission proceeds while the daemon waits for a lane. -/
def Surroundings.settling (clock : Clock) (network : Network) (carry : FaceRegistry.Carriage) :
    Surroundings where
  clock := clock
  network := network
  pause faces _ := Pipeline.pause (faces.carrier carry)

namespace Daemon

/-- Deals with events until the daemon is to stop. -/
def handleEvents (w : Surroundings) : List FaceEvent → Daemon → Daemon
  | [], d => d
  | event :: events, d => if d.stopping then d else handleEvents w events (d.handleEvent w event)

def attend (w : Surroundings) (d : Daemon) : Daemon :=
  let (events, queue) := d.faces.events.drain
  handleEvents w events { d with faces := { d.faces with events := queue } }

/-- Sends everything that waits and closes the faces that cannot be used any more. -/
def transmit (carry : FaceRegistry.Carriage) (d : Daemon) : Daemon :=
  let pipeline := d.pipeline.drain (d.faces.carrier carry)
  pipeline.failures.foldl closeFace { d with pipeline := { pipeline with failures := [] } }

def shutdown (carry : FaceRegistry.Carriage) (d : Daemon) : Daemon :=
  { d with faces := d.faces.closeAll }.transmit carry

/-- A round: the faces of applications read, and what they read is dealt with. -/
def round (w : Surroundings) (carry : FaceRegistry.Carriage) (streams : List LocalStream)
    (d : Daemon) : List LocalStream × Daemon :=
  let (streams, faces) := LocalStream.pumpAll streams d.faces
  let d := { d with faces }.attend w
  (streams, if d.stopping then d.shutdown carry else d.transmit carry)

/-- Rounds until the daemon stops or no stream has anything left to read. -/
def rounds (w : Surroundings) (carry : FaceRegistry.Carriage) :
    (most : Nat) → List LocalStream → Daemon → List LocalStream × Daemon
  | 0, streams, d => (streams, d)
  | most + 1, streams, d =>
    let (streams, d) := d.round w carry streams
    if d.stopping || streams.all LocalStream.idle then (streams, d)
    else rounds w carry most streams d

/-- Lets everything that is pending finish. -/
def settle (w : Surroundings) (carry : FaceRegistry.Carriage) (streams : List LocalStream)
    (d : Daemon) : List LocalStream × Daemon :=
  rounds w carry (streams.foldl (fun n stream => n + stream.backlog) 1) streams d

end Daemon
end NamedData
