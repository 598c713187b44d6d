import NamedData.Transmission.Pipeline

/-!
# A fair schedule

Dispatcher and workers take turns in shifts, each of which is a number of frames
or parcels. Who has something to do stands in line, and goes to its end after a
shift. A dispatcher that has found a queue full waits until time passes, and so
does a worker with a parcel for a face that is paced and was sent on just now.
Once nothing is pushed any more, the dispatcher has to pass the empty lanes, and
each of them takes as long as a frame.
-/

namespace NamedData.Pipeline

/-- How many frames or parcels one takes in a shift. -/
def shiftLength : Nat := 128

/-- What comes of sending a payload on a face. -/
abbrev Carrier := FaceId → Octets → SendOutcome

def queueUp (party : Party) (p : Pipeline) : Pipeline :=
  { p with agenda.ready := p.agenda.ready ++ [party] }

def await (party : Party) (p : Pipeline) : Pipeline :=
  { p with agenda.waiting := p.agenda.waiting ++ [party] }

/-- Gets something to do, and goes to the end of the line without standing there already. -/
def rouse (party : Party) (p : Pipeline) : Pipeline :=
  if (p.agenda.ready ++ p.agenda.waiting).contains party then p else p.queueUp party

def parcelOf? (p : Pipeline) (index : Nat) : Option Parcel := p.workers[index]?.bind (·.current)

def takeUp (index : Nat) (p : Pipeline) : Pipeline :=
  if (p.parcelOf? index).isSome then p else p.turn (.worker index .sent)

/-- A face may not be sent on before time passes, if faces are paced at all. -/
def pace (face : FaceId) (p : Pipeline) : Pipeline :=
  if p.settings.pacing = 0 then p else { p with agenda.paced := face :: p.agenda.paced }

def serve (send : Carrier) (index : Nat) : (parcels : Nat) → Pipeline → Pipeline
  | 0, p => p.queueUp (.worker index)
  | parcels + 1, p =>
    let p := p.takeUp index
    match p.parcelOf? index with
    | none => p
    | some parcel =>
      if p.agenda.paced.contains parcel.face then p.await (.worker index)
      else
        let outcome := send parcel.face parcel.payload
        serve send index parcels ((p.turn (.worker index outcome)).pace parcel.face)

/-- Whether the queue for the next face of a frame is full and will be tried again. -/
def mustWait (p : Pipeline) (h : InHand) : Bool :=
  p.settings.mode = .sharded && !p.hasRoom (p.workerOf h.face) && h.tries ≠ 0

/-- The dispatcher deals with some faces of the frame in hand. The second component tells
whether it has to wait with the next one. -/
def deal (send : Carrier) : (faces : Nat) → Pipeline → Pipeline × Bool
  | 0, p => (p, false)
  | faces + 1, p =>
    match p.inHand with
    | none => (p, false)
    | some h =>
      let next := p.turn (.dispatcher (send h.face h.payload))
      if p.mustWait h then (next, true)
      else
        match p.settings.mode with
        | .simple => deal send faces next
        | .sharded => deal send faces (next.rouse (.worker (p.workerOf h.face)))

def passesLane (p : Pipeline) : Bool :=
  p.agenda.closed && p.inHand.isNone && (p.lane p.looksAt).isEmpty && p.looksAt ≠ .low

/-- The dispatcher looks at some lanes, until it has a frame or has been round. -/
def lookAround : (lanes : Nat) → Pipeline → Pipeline
  | 0, p => p
  | lanes + 1, p =>
    let p := p.turn (.dispatcher .sent)
    if p.inHand.isSome || p.looksAt = .high then p else lookAround lanes p

/-- The dispatcher takes the next frame off the lanes, if it has none in hand. -/
def pickUp (p : Pipeline) : Pipeline := if p.inHand.isSome then p else p.lookAround 3

/-- The dispatcher hands out frames, first of all the one in hand. -/
def dispatch (send : Carrier) : (frames : Nat) → Pipeline → Pipeline
  | 0, p => p.queueUp .dispatcher
  | frames + 1, p =>
    if p.passesLane then dispatch send frames (p.turn (.dispatcher .sent))
    else
      let p := p.pickUp
      match p.inHand with
      | none => p
      | some h =>
        match deal send (h.others.length + 1) p with
        | (p, true) => p.await .dispatcher
        | (p, false) => dispatch send frames p

def shift (send : Carrier) (p : Pipeline) : Party → Pipeline
  | .dispatcher => dispatch send shiftLength p
  | .worker index => serve send index shiftLength p

/-- How much is left to be done; every turn does some of it. -/
def backlog (p : Pipeline) : Nat :=
  (p.high ++ p.normal ++ p.low).foldl (fun n frame => n + 3 * frame.faces.length + 3) 0 +
    p.inHand.elim 0 (fun h => 3 * h.others.length + 3) +
    p.workers.foldl (fun n w => n + 2 * w.queue.length + w.current.toList.length) 0

def settleWithin (send : Carrier) : (shifts : Nat) → Pipeline → Pipeline
  | 0, p => p
  | shifts + 1, p =>
    match p.agenda.ready with
    | [] => p
    | party :: ready =>
      settleWithin send shifts (shift send { p with agenda.ready := ready } party)

/-- Everybody proceeds until they are done or wait for time to pass. -/
def settle (send : Carrier) (p : Pipeline) : Pipeline :=
  let p := p.rouse .dispatcher
  settleWithin send (2 * p.backlog + p.agenda.ready.length + 1) p

/-- Time passes, and who has waited for it stands in line. -/
def resume (p : Pipeline) : Pipeline :=
  { p with
    agenda.ready := p.agenda.ready ++ p.agenda.waiting
    agenda.waiting := []
    agenda.paced := [] }

/-- Everybody proceeds as far as they can, and then time passes. -/
def pause (send : Carrier) (p : Pipeline) : Pipeline := (p.settle send).resume

def drainWithin (send : Carrier) : (pauses : Nat) → Pipeline → Pipeline
  | 0, p => p
  | pauses + 1, p =>
    let p := p.pause send
    if p.idle then p else drainWithin send pauses p

/-- Lets time pass until everything that waits has been sent. -/
def drain (send : Carrier) (p : Pipeline) : Pipeline := drainWithin send (p.backlog + 1) p

def finish (send : Carrier) (p : Pipeline) : Pipeline :=
  { p with agenda.closed := true }.drain send

end NamedData.Pipeline
