import NamedData.Octets

/-!
# Faces

A face is a way to a neighbour or to an application on this host. Tables refer
to faces by number and never own them; what the rest of the program must know
of a face is its transport and whether it is active.
-/

namespace NamedData

/-- The number of a face. Zero stands for no face. -/
structure FaceId where
  number : UInt16
deriving DecidableEq, Repr

namespace FaceId

instance : Inhabited FaceId := ⟨⟨0⟩⟩

instance : Ord FaceId := ⟨fun f g => compare f.number g.number⟩

def toString (f : FaceId) : String := s!"FaceId({f.number})"

instance : ToString FaceId := ⟨toString⟩

/-- The worker among `buckets` that serves a face. -/
def bucket (f : FaceId) (buckets : Nat) : Nat :=
  if buckets = 0 then 0 else f.number.toNat % buckets

/-- Numbers joined by commas, or a dash for none. -/
def listText (faces : List FaceId) : String :=
  if faces.isEmpty then "-" else ",".intercalate (faces.map fun f => s!"{f.number}")

end FaceId

inductive Transport
  | udp
  | tcp
  | unix
deriving DecidableEq, Repr

namespace Transport

def label : Transport → String
  | .udp => "udp"
  | .tcp => "tcp"
  | .unix => "local"

/-- The transport that a route or a request names, in any case. -/
def ofProtocol? (protocol : String) : Option Transport :=
  let lower := protocol.map Char.toLower
  if lower = "udp" then some .udp
  else if lower = "tcp" then some .tcp
  else if lower = "local" ∨ lower = "unix" then some .unix
  else none

/-- Applications on this host are trusted: their hop limits are left alone and
they may send commands. -/
def isLocal (t : Transport) : Bool := t == .unix

end Transport

/-- What a forwarding decision sees of the faces. -/
structure FaceView where
  transport : FaceId → Option Transport
  active : FaceId → Bool

/-- The view of some faces of which some are down. -/
def FaceView.ofList (faces : List (FaceId × Transport)) (down : List FaceId) : FaceView where
  transport face := (faces.find? (·.1 = face)).map (·.2)
  active face := faces.any (·.1 = face) && !down.contains face

def FaceView.isLocal (v : FaceView) (f : FaceId) : Bool := (v.transport f).any Transport.isLocal

end NamedData
