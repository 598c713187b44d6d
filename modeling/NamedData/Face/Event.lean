import NamedData.Face

/-!
# Events of faces

What happens to faces reaches the daemon through one queue of bounded length. A
notice that does not fit is lost; received data waits until there is room.
-/

namespace NamedData

inductive FaceEvent
  | opened (face : FaceId) (transport : Transport)
  | received (face : FaceId) (data : Octets)
  | closed (face : FaceId)
deriving DecidableEq, Repr

/-- Events that nobody has looked at yet, the oldest first. -/
structure EventQueue where
  capacity : Nat
  events : List FaceEvent := []
  accepting : Bool := true
deriving DecidableEq, Repr

namespace EventQueue

def hasRoom (q : EventQueue) : Bool := q.accepting && decide (q.events.length < q.capacity)

def push (q : EventQueue) (e : FaceEvent) : EventQueue := { q with events := q.events ++ [e] }

/-- Appends an event, which is lost when there is no room. -/
def offer (q : EventQueue) (e : FaceEvent) : EventQueue := if q.hasRoom then q.push e else q

def next? (q : EventQueue) : Option (FaceEvent × EventQueue) :=
  match q.events with
  | [] => none
  | e :: events => some (e, { q with events })

def drain (q : EventQueue) : List FaceEvent × EventQueue := (q.events, { q with events := [] })

/-- From now on no event gets in. Those that wait stay. -/
def close (q : EventQueue) : EventQueue := { q with accepting := false }

/-- A notice never makes the queue longer than its capacity. -/
theorem length_offer_le (q : EventQueue) (e : FaceEvent) (h : q.events.length ≤ q.capacity) :
    (q.offer e).events.length ≤ (q.offer e).capacity := by
  unfold offer hasRoom
  split
  · rename_i room
    simp only [Bool.and_eq_true, decide_eq_true_eq] at room
    simp only [push, List.length_append, List.length_cons, List.length_nil]
    omega
  · exact h

end EventQueue
end NamedData
