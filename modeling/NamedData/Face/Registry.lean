import NamedData.Face.Event
import NamedData.Face.Network

/-!
# The registry of faces

The registry hands out face numbers and knows which faces are open. A peer has
one face for each transport: asking for a face towards it again gives the same
one. Unknown senders of datagrams get a face of their own only while fewer
faces than the limit are open over that transport.
-/

namespace NamedData

inductive FaceError
  | unknown (face : FaceId)
  | closed (face : FaceId)
  | unresolved (address : String) (cause : String)
  | unsupported (what : String)
  | io (face : FaceId) (cause : String)
deriving DecidableEq, Repr

def FaceError.describe : FaceError → String
  | .unknown face => s!"unknown face {face}"
  | .closed face => s!"face {face} is closed"
  | .unresolved address cause => s!"cannot resolve {address}: {cause}"
  | .unsupported what => s!"unsupported: {what}"
  | .io face cause => s!"I/O error on face {face}: {cause}"

def FaceError.label : FaceError → String
  | .unknown _ => "Unknown"
  | .closed _ => "Closed"
  | .unresolved _ _ => "Resolve"
  | .unsupported _ => "Unsupported"
  | .io _ _ => "Io"

structure Face where
  id : FaceId
  transport : Transport
  peer : Option SocketAddress := none
deriving DecidableEq, Repr

structure PeerKey where
  transport : Transport
  address : SocketAddress
deriving DecidableEq, Repr

structure FaceRegistry where
  faces : List Face := []
  peers : List (PeerKey × FaceId) := []
  /-- The number that is tried first for the next face. -/
  nextId : UInt16 := 1
  /-- How many faces over datagrams are open. -/
  udpFaces : Nat := 0
  /-- How many faces over datagrams may be open when an unknown sender asks for one. -/
  udpLimit : Option Nat := none
  events : EventQueue
deriving DecidableEq, Repr

namespace FaceRegistry

/-- A registry without faces, which posts its events to a queue of some capacity. -/
def empty (capacity : Nat) (udpLimit : Option Nat) : FaceRegistry :=
  { events := { capacity }, udpLimit }

def size (r : FaceRegistry) : Nat := r.faces.length

def find? (r : FaceRegistry) (face : FaceId) : Option Face := r.faces.find? (·.id = face)

def isOpen (r : FaceRegistry) (face : FaceId) : Bool := (r.find? face).isSome

def view (r : FaceRegistry) : FaceView where
  transport face := (r.find? face).map (·.transport)
  active := r.isOpen

def findPeer? (r : FaceRegistry) (transport : Transport) (address : SocketAddress) :
    Option FaceId :=
  (r.peers.find? (·.1 = ⟨transport, address⟩)).map (·.2)

/-! ## Opening -/

/-- Tries numbers from `next` upward, wrapping around, for some rounds: the
first that is neither zero nor in use, and the number after it. -/
def allocate? (used : FaceId → Bool) : (rounds : Nat) → (next : UInt16) → Option (FaceId × UInt16)
  | 0, _ => none
  | rounds + 1, next =>
    if next ≠ 0 ∧ !used ⟨next⟩ then some (⟨next⟩, next + 1)
    else allocate? used rounds (next + 1)

def idCount : Nat := 65536

/-- A free number, and the registry that tries the number after it next. -/
def freeId? (r : FaceRegistry) : Option (FaceId × FaceRegistry) :=
  (allocate? r.isOpen idCount r.nextId).map fun (face, nextId) => (face, { r with nextId })

/-- Makes a face the one towards its peer. -/
def putPeer (key : PeerKey) (face : FaceId) (peers : List (PeerKey × FaceId)) :
    List (PeerKey × FaceId) :=
  peers.filter (·.1 ≠ key) ++ [(key, face)]

/-- Enters an open face and posts that it was opened. -/
def insert (r : FaceRegistry) (face : Face) : FaceRegistry :=
  { r with
    faces := r.faces.filter (·.id ≠ face.id) ++ [face]
    peers :=
      match face.peer with
      | some address => putPeer ⟨face.transport, address⟩ face.id r.peers
      | none => r.peers
    udpFaces := if face.transport = .udp then r.udpFaces + 1 else r.udpFaces
    events := r.events.offer (.opened face.id face.transport) }

/-- Opens a face under a free number. There is none when all numbers are in use. -/
def open? (r : FaceRegistry) (transport : Transport) (peer : Option SocketAddress) :
    Option (FaceId × FaceRegistry) :=
  r.freeId?.map fun (id, r) => (id, r.insert { id, transport, peer })

/-- A face for the stream that a peer has opened. -/
def attachTcp? (r : FaceRegistry) (peer : SocketAddress) : Option (FaceId × FaceRegistry) :=
  r.open? .tcp (some peer)

/-- A face for an application that has connected. -/
def attachLocal? (r : FaceRegistry) : Option (FaceId × FaceRegistry) := r.open? .unix none

/-- The face for datagrams to and from a peer. -/
def udpFace? (r : FaceRegistry) (peer : SocketAddress) : Option (FaceId × FaceRegistry) :=
  match r.findPeer? .udp peer with
  | some face => some (face, r)
  | none => r.open? .udp (some peer)

/-- Whether an unknown sender of a datagram may get a face. -/
def mayLearn (r : FaceRegistry) : Bool := r.udpLimit.all (r.udpFaces < ·)

/-- The face that a received datagram counts for. A datagram of an unknown
sender is ignored when it may not get a face. -/
def learn? (r : FaceRegistry) (sender : SocketAddress) : Option (FaceId × FaceRegistry) :=
  match r.findPeer? .udp sender with
  | some face => some (face, r)
  | none => if r.mayLearn then r.udpFace? sender else none

def noFreeId : FaceError := .unsupported "every face number is in use"

/-- A face towards the peer that a text names: the one that is open, or a new one. -/
def connect (r : FaceRegistry) (network : Network) (transport : Transport) (address : String) :
    Except FaceError (FaceId × FaceRegistry) :=
  match network.resolve address.toList with
  | .error cause => .error (.unresolved address cause)
  | .ok peer =>
    match r.findPeer? transport peer with
    | some face => .ok (face, r)
    | none =>
      match transport with
      | .udp => (r.udpFace? peer).elim (.error noFreeId) .ok
      | .tcp =>
        match network.dial peer with
        | .error cause => .error (.io default cause)
        | .ok () => (r.attachTcp? peer).elim (.error noFreeId) .ok
      | .unix => .error (.unsupported "local faces are created by applications connecting")

/-! ## Use -/

/-- Posts data as received on a face, open or not. -/
def receive (r : FaceRegistry) (face : FaceId) (data : Octets) : Except FaceError FaceRegistry :=
  if r.events.accepting then .ok { r with events := r.events.push (.received face data) }
  else .error (.closed face)

/-- How packets leave open faces: the number of octets that go out. -/
abbrev Carriage := Face → Octets → Except FaceError Nat

def send (r : FaceRegistry) (carry : Carriage) (face : FaceId) (packet : Octets) :
    Except FaceError Nat :=
  match r.find? face with
  | some f => carry f packet
  | none => .error (.unknown face)

/-! ## Closing -/

/-- Closes a face; its peer is forgotten. Nothing happens to a number that is not in use. -/
def close (r : FaceRegistry) (face : FaceId) : FaceRegistry :=
  match r.find? face with
  | none => r
  | some f =>
    { r with
      faces := r.faces.filter (·.id ≠ face)
      peers :=
        match f.peer with
        | some address => r.peers.filter (·.1 ≠ ⟨f.transport, address⟩)
        | none => r.peers
      udpFaces := if f.transport = .udp then r.udpFaces - 1 else r.udpFaces }

def closeAll (r : FaceRegistry) : FaceRegistry := { r with faces := [], peers := [], udpFaces := 0 }

theorem isOpen_close (r : FaceRegistry) (face : FaceId) : (r.close face).isOpen face = false := by
  unfold close
  split
  · rename_i h
    simp [isOpen, h]
  · simp [isOpen, find?, List.find?_filter]

/-! ## Listing -/

/-- A face as operators see it. -/
structure Row where
  face : FaceId
  transport : Transport
  peer : Option String
deriving DecidableEq, Repr

def rows (r : FaceRegistry) : List Row :=
  let sorted := r.faces.mergeSort fun f g => f.id.number ≤ g.id.number
  sorted.map fun f => ⟨f.id, f.transport, f.peer.map SocketAddress.toString⟩

end FaceRegistry
end NamedData
