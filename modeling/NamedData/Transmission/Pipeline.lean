import NamedData.Face.Registry
import NamedData.Forwarding.Action
import NamedData.Metrics.Meter
import NamedData.Settings

/-!
# The transmission pipeline

Frames wait on three lanes. A dispatcher looks at one lane after another, from
the highest one down, takes the first frame that it finds, and sends it itself or
hands one copy for each face to the worker that serves the face. Every queue is
bounded: who finds one full tries again a few times and then drops what it has.
Dispatcher and workers proceed in turns, and the order of the turns is up to a
schedule. A look at one lane is a turn of its own, so frames may be pushed
between two looks.
-/

namespace NamedData

inductive SendOutcome
  | sent
  | short
  | gone
  /-- The face cannot be used any more. -/
  | failed
deriving DecidableEq, Repr

/-- What a number of octets sent, or an error, means for a packet. -/
def SendOutcome.ofResult (packet : Octets) : Except FaceError Nat → SendOutcome
  | .ok n => if n = packet.length then .sent else .short
  | .error (.unknown _) | .error (.closed _) => .gone
  | .error _ => .failed

structure TransmissionStats where
  /-- Frames accepted by a lane and packets accepted by a worker. -/
  queued : Counter := {}
  sent : Counter := {}
  /-- Frames refused by a lane and packets refused by a worker. -/
  dropped : Counter := {}
  sendErrors : Counter := {}
  undeliverable : Counter := {}
deriving DecidableEq, Repr

structure Parcel where
  face : FaceId
  payload : Octets
deriving DecidableEq, Repr

structure Attempt where
  parcel : Parcel
  outcome : SendOutcome
deriving DecidableEq, Repr

structure Worker where
  queue : List Parcel := []
  current : Option Parcel := none
deriving DecidableEq, Repr

structure InHand where
  payload : Octets
  face : FaceId
  others : List FaceId
  /-- How often a full queue may be tried again for the next face. -/
  tries : Nat
deriving DecidableEq, Repr

inductive Party
  | dispatcher
  | worker (index : Nat)
deriving DecidableEq, Repr

/-- What a schedule keeps in mind from one turn to the next. No turn depends on it. -/
structure Agenda where
  /-- Who has something to do, in the order in which they get to it. -/
  ready : List Party := []
  waiting : List Party := []
  /-- The faces that were sent on just now and are paced. -/
  paced : List FaceId := []
  closed : Bool := false
deriving DecidableEq, Repr

structure Pipeline where
  settings : TransmissionSettings
  high : List OutFrame := []
  normal : List OutFrame := []
  low : List OutFrame := []
  /-- The lane that the dispatcher looks at next. -/
  looksAt : Priority := .high
  inHand : Option InHand := none
  /-- The workers; there are none when the dispatcher sends frames itself. -/
  workers : List Worker := []
  agenda : Agenda := {}
  stats : TransmissionStats := {}
  failureCapacity : Nat
  failures : List FaceId := []
  /-- Everything that was sent so far, the latest first. -/
  attempts : List Attempt := []
deriving DecidableEq, Repr

/-- The lane after another on the way of the dispatcher. -/
def Priority.next : Priority → Priority
  | .high => .normal
  | .normal => .low
  | .low => .high

namespace Pipeline

def ofSettings (settings : TransmissionSettings) (failureCapacity : Nat) : Pipeline :=
  let workers :=
    match settings.mode with
    | .simple => 0
    | .sharded => max settings.workers 1
  { settings, failureCapacity, workers := List.replicate workers {} }

def count (p : Pipeline) (change : TransmissionStats → TransmissionStats) : Pipeline :=
  { p with stats := change p.stats }

def countQueued (p : Pipeline) : Pipeline :=
  p.count fun s => { s with queued := s.queued.increment }

def countDropped (p : Pipeline) : Pipeline :=
  p.count fun s => { s with dropped := s.dropped.increment }

def lane (p : Pipeline) : Priority → List OutFrame
  | .high => p.high
  | .normal => p.normal
  | .low => p.low

def putLane (p : Pipeline) (priority : Priority) (frames : List OutFrame) : Pipeline :=
  match priority with
  | .high => { p with high := frames }
  | .normal => { p with normal := frames }
  | .low => { p with low := frames }

/-- Puts a frame on its lane, if there is room. -/
def offer? (p : Pipeline) (frame : OutFrame) (priority : Priority) : Option Pipeline :=
  let frames := p.lane priority
  if frames.length < p.settings.laneCapacity then
    some (p.putLane priority (frames ++ [frame])).countQueued
  else none

/-- Offers a frame to its lane until there is room or no try is left. In the
pause before each further try, `pause` tells what the others do. -/
def insist (frame : OutFrame) (priority : Priority) (pause : Nat → Pipeline → Pipeline) :
    (tries : Nat) → Pipeline → Pipeline × Bool
  | 0, p =>
    match p.offer? frame priority with
    | some p => (p, true)
    | none => (p.countDropped, false)
  | tries + 1, p =>
    match p.offer? frame priority with
    | some p => (p, true)
    | none => insist frame priority pause tries (pause tries p)

/-- Pushes a frame. The second component tells whether it was accepted; a frame
for no face is accepted and forgotten. -/
def push (p : Pipeline) (pause : Nat → Pipeline → Pipeline) (frame : OutFrame)
    (priority : Priority) : Pipeline × Bool :=
  if frame.faces.isEmpty then (p, true)
  else insist frame priority pause p.settings.pushRetries p

/-- Keeps a failure, unless too many have not been looked at yet. -/
def report (p : Pipeline) (face : FaceId) : Pipeline :=
  if p.failures.length < p.failureCapacity then { p with failures := p.failures ++ [face] } else p

/-- Notes that a parcel was sent and what came of it. -/
def note (p : Pipeline) (parcel : Parcel) (outcome : SendOutcome) : Pipeline :=
  let p := { p with attempts := ⟨parcel, outcome⟩ :: p.attempts }
  match outcome with
  | .sent => p.count fun s => { s with sent := s.sent.increment }
  | .short => p.count fun s => { s with sendErrors := s.sendErrors.increment }
  | .gone => p.count fun s => { s with undeliverable := s.undeliverable.increment }
  | .failed =>
    (p.count fun s => { s with sendErrors := s.sendErrors.increment }).report parcel.face

/-- Turns to the first of some faces with a payload in hand. -/
def turnTo (p : Pipeline) (payload : Octets) (faces : List FaceId) : Pipeline :=
  match faces with
  | [] => { p with inHand := none }
  | face :: others =>
    { p with inHand := some { payload, face, others, tries := p.settings.pushRetries } }

/-- The dispatcher looks at one lane. From an empty lane it goes on to the next
lower one, and with a frame it starts again at the highest lane. -/
def look (p : Pipeline) : Pipeline :=
  match p.lane p.looksAt with
  | [] => { p with looksAt := p.looksAt.next }
  | frame :: frames =>
    ({ p with looksAt := .high }.putLane p.looksAt frames).turnTo frame.payload frame.faces

def updateWorker (p : Pipeline) (index : Nat) (f : Worker → Worker) : Pipeline :=
  { p with workers := p.workers.modify index f }

def workerOf (p : Pipeline) (face : FaceId) : Nat := face.bucket p.workers.length

def hasRoom (p : Pipeline) (index : Nat) : Bool :=
  p.workers[index]?.any fun w => w.queue.length < p.settings.workerCapacity

/-- Hands the payload for the next face to a worker. With the queue full, one
try is used up, and with no try left the parcel is dropped. -/
def handOff (p : Pipeline) (h : InHand) : Pipeline :=
  let index := p.workerOf h.face
  if p.hasRoom index then
    let p := p.updateWorker index fun w => { w with queue := w.queue ++ [⟨h.face, h.payload⟩] }
    p.countQueued.turnTo h.payload h.others
  else
    match h.tries with
    | 0 => p.countDropped.turnTo h.payload h.others
    | tries + 1 => { p with inHand := some { h with tries } }

/-- A turn of the dispatcher: it looks at a lane, or deals with the next face of
the frame in hand. The outcome counts if it sends something. -/
def dispatcherTurn (p : Pipeline) (outcome : SendOutcome) : Pipeline :=
  match p.inHand with
  | none => p.look
  | some h =>
    match p.settings.mode with
    | .simple => (p.note ⟨h.face, h.payload⟩ outcome).turnTo h.payload h.others
    | .sharded => p.handOff h

/-- A turn of a worker: it takes a parcel, or finishes sending the one it has.
The outcome counts if it sends something. -/
def workerTurn (p : Pipeline) (index : Nat) (outcome : SendOutcome) : Pipeline :=
  match p.workers[index]? with
  | none => p
  | some w =>
    match w.current, w.queue with
    | some parcel, _ =>
      (p.updateWorker index fun w => { w with current := none }).note parcel outcome
    | none, parcel :: queue => p.updateWorker index fun _ => { queue, current := some parcel }
    | none, [] => p

/-- Who proceeds next, and what comes of a parcel if one is sent. -/
inductive Turn
  | dispatcher (outcome : SendOutcome)
  | worker (index : Nat) (outcome : SendOutcome)
deriving DecidableEq, Repr

def turn (p : Pipeline) : Turn → Pipeline
  | .dispatcher outcome => p.dispatcherTurn outcome
  | .worker index outcome => p.workerTurn index outcome

/-- Lets dispatcher and workers proceed in the order of a schedule. -/
def run (p : Pipeline) (turns : List Turn) : Pipeline := turns.foldl turn p

def idle (p : Pipeline) : Bool :=
  p.high.isEmpty && p.normal.isEmpty && p.low.isEmpty && p.inHand.isNone &&
    p.workers.all fun w => w.queue.isEmpty && w.current.isNone

end Pipeline
end NamedData
