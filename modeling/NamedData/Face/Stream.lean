import NamedData.Face.Registry

/-!
# Streams of applications

An application on this host talks to its face over a stream. The face reads
what has arrived in chunks and posts each of them as received; a chunk stays in
hand until the queue of events has room. When the application has closed the
stream and everything has been posted, the face posts that it is closed.
-/

namespace NamedData

/-- The way from an application to its face. -/
structure LocalStream where
  face : FaceId
  /-- What the application has written and the face has not read. -/
  arriving : Octets := []
  /-- The chunk that the face has read and not posted. -/
  inHand : Octets := []
  ended : Bool := false
  reading : Bool := true
deriving DecidableEq, Repr

namespace LocalStream

/-- The most octets that are read at once. -/
def maxChunk : Nat := 16384

def write (s : LocalStream) (data : Octets) : LocalStream :=
  { s with arriving := s.arriving ++ data }

def finish (s : LocalStream) : LocalStream := { s with ended := true }

def halt (s : LocalStream) : LocalStream := { s with reading := false }

/-- The face reads and posts as much as it can. -/
def pump (s : LocalStream) (q : EventQueue) : LocalStream × EventQueue :=
  if !s.reading then (s, q)
  else if !q.accepting then (s.halt, q)
  else
    match hand : s.inHand, rest : s.arriving with
    | [], [] =>
      if s.ended && q.hasRoom then (s.halt, q.push (.closed s.face)) else (s, q)
    | [], b :: bs =>
      have : s.inHand.length = 0 ∧ s.arriving.length = bs.length + 1 := by simp [hand, rest]
      pump { s with inHand := (b :: bs).take maxChunk, arriving := (b :: bs).drop maxChunk } q
    | b :: bs, _ =>
      have : s.inHand.length = bs.length + 1 := by simp [hand]
      if q.hasRoom then pump { s with inHand := [] } (q.push (.received s.face (b :: bs)))
      else (s, q)
termination_by 2 * s.arriving.length + s.inHand.length
decreasing_by
  · simp only [maxChunk, List.length_take, List.length_drop, List.length_cons]
    omega
  · simp only [List.length_nil]
    omega

def idle (s : LocalStream) : Bool :=
  !s.reading || (s.inHand.isEmpty && s.arriving.isEmpty && !s.ended)

/-- A bound for how often the face still posts something. -/
def backlog (s : LocalStream) : Nat := s.inHand.length + s.arriving.length + 1

/-- Every stream is pumped in turn; one whose face is not open any more stops. -/
def pumpAll : List LocalStream → FaceRegistry → List LocalStream × FaceRegistry
  | [], r => ([], r)
  | s :: streams, r =>
    let (s, events) := if r.isOpen s.face then s.pump r.events else (s.halt, r.events)
    let (streams, r) := pumpAll streams { r with events }
    (s :: streams, r)

end LocalStream
end NamedData
