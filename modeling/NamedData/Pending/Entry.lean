import NamedData.Face
import NamedData.Pending.Request

/-!
# Entries of the pending table

An entry holds one wait record for each face that asked, in the order in which
the faces came, and the faces that the request was sent to. A record is live
until its expiry; an expired record stays until a sweep or a reply removes it.
-/

namespace NamedData

/-- A time, in milliseconds after some start. -/
abbrev Instant := Nat

/-- How repeated requests are told apart and treated. -/
structure Suppression where
  mode : SuppressionMode
  repeats : UInt64 → UInt64 → Bool

/-- Requests with the same fingerprint are repetitions. -/
def Suppression.ofMode (mode : SuppressionMode) : Suppression := ⟨mode, fun r i => r == i⟩

structure WaitRecord where
  face : FaceId
  expiry : Instant
  fingerprint : UInt64
  /-- An Interest Return to be sent if the record expires unanswered. -/
  pendingReturn : Option Octets := none
deriving DecidableEq

def WaitRecord.live (r : WaitRecord) (now : Instant) : Bool := decide (now < r.expiry)

/-- What recording a request came to. -/
inductive JoinOutcome
  | created
  | added
  | refreshed
  /-- The face asked again in a way that must be forwarded. -/
  | retransmitted
deriving DecidableEq, Repr

namespace JoinOutcome

def label : JoinOutcome → String
  | .created => "Created"
  | .added => "Added"
  | .refreshed => "Refreshed"
  | .retransmitted => "Retransmitted"

/-- Whether the request must be forwarded whatever else waits. -/
def mustForward : JoinOutcome → Bool
  | .created | .retransmitted => true
  | .added | .refreshed => false

end JoinOutcome

/-- What waits under one key. -/
structure PendingEntry where
  key : PendingKey
  kind : PendingKind
  waiting : List WaitRecord := []
  onward : List FaceId := []
  restrictions : Restrictions := {}
  /-- The latest expiry that any record of this entry has had. -/
  deadline : Instant
  /-- When expired records are next looked for. -/
  cleanDue : Instant
  /-- The chunks lately delivered through a window, oldest first. -/
  delivered : List UInt32 := []
deriving DecidableEq

namespace PendingEntry

def create (key : PendingKey) (kind : PendingKind) (now cleanInterval : Nat) : PendingEntry :=
  { key, kind, deadline := now, cleanDue := now + cleanInterval }

def record? (e : PendingEntry) (face : FaceId) : Option WaitRecord :=
  e.waiting.find? (·.face = face)

def updateRecord (e : PendingEntry) (face : FaceId) (f : WaitRecord → WaitRecord) : PendingEntry :=
  { e with waiting := e.waiting.map fun r => if r.face = face then f r else r }

def release (e : PendingEntry) (face : FaceId) : PendingEntry :=
  { e with waiting := e.waiting.filter (·.face ≠ face) }

def liveFaces (e : PendingEntry) (now : Instant) : List FaceId :=
  (e.waiting.filter (·.live now)).map (·.face)

/-- Whether some other face has a live record. -/
def othersLive (e : PendingEntry) (face : FaceId) (now : Instant) : Bool :=
  e.waiting.any fun r => r.face ≠ face && r.live now

/-- Whether an entry has nobody waiting and may be thrown away. -/
def dead (e : PendingEntry) (now : Instant) : Bool := e.waiting.isEmpty && decide (e.deadline ≤ now)

/-- What a request means for the record that its face already has. -/
def repetition (s : Suppression) (recorded : WaitRecord) (fingerprint : UInt64) (now : Instant) :
    JoinOutcome :=
  match s.mode with
  | .verbatim => .retransmitted
  | .suppress =>
    if recorded.live now && s.repeats recorded.fingerprint fingerprint then .refreshed
    else .retransmitted

/-- Records a request of a face. A face that already has a record keeps its
place, gets a new expiry and fingerprint, and loses its pending return. -/
def join (e : PendingEntry) (face : FaceId) (lifetime : Nat) (fingerprint : UInt64) (now : Instant)
    (s : Suppression) : PendingEntry × JoinOutcome :=
  let expiry := now + lifetime
  let e' := { e with deadline := max e.deadline expiry }
  match e.record? face with
  | some recorded =>
    (e'.updateRecord face fun r => { r with expiry, fingerprint, pendingReturn := none },
      repetition s recorded fingerprint now)
  | none =>
    ({ e' with waiting := e.waiting ++ [{ face := face, expiry, fingerprint }] },
      if e.othersLive face now then .added else .created)

/-- Attaches an Interest Return to the record of a face. -/
def deferReturn (e : PendingEntry) (face : FaceId) (payload : Octets) : PendingEntry :=
  e.updateRecord face fun r => { r with pendingReturn := some payload }

def addOnward (e : PendingEntry) (face : FaceId) : PendingEntry :=
  if face ∈ e.onward then e else { e with onward := e.onward ++ [face] }

def addAllOnward (e : PendingEntry) (faces : List FaceId) : PendingEntry :=
  faces.foldl addOnward e

def forget (e : PendingEntry) (face : FaceId) : PendingEntry :=
  { e.release face with onward := e.onward.filter (· ≠ face) }

/-- Remembers a delivered chunk; the oldest makes room when the window is full. -/
def remember (e : PendingEntry) (chunk : UInt32) (window : Nat) : PendingEntry :=
  let kept := if window ≤ e.delivered.length then e.delivered.tail else e.delivered
  { e with delivered := kept ++ [chunk] }

end PendingEntry
end NamedData
