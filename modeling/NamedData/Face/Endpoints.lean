import NamedData.Face.Stream

/-!
# What is behind faces

A face in memory keeps packets for a reader in the same process, the face of an
application passes them to its stream, and the face of a peer sends them over
the network.
-/

namespace NamedData

/-- What is behind the faces that do not belong to a peer. -/
structure Endpoints where
  memory : List FaceId := []
  /-- Faces in memory that nobody reads any more. -/
  abandoned : List FaceId := []
  streams : List LocalStream := []
deriving DecidableEq, Repr

namespace Endpoints

def carry (e : Endpoints) (network : Network) : FaceRegistry.Carriage := fun face packet =>
  match face.peer with
  | some peer =>
    match network.transmit peer packet with
    | .ok () => .ok packet.length
    | .error cause => .error (.io face.id cause)
  | none =>
    if e.memory.contains face.id then
      if e.abandoned.contains face.id then .error (.closed face.id) else .ok packet.length
    else if e.streams.any fun s => s.face = face.id && !s.ended then .ok packet.length
    else .error (.io face.id "Broken pipe (os error 32)")

def openMemory? (e : Endpoints) (faces : FaceRegistry) (transport : Transport) :
    Option (FaceId × FaceRegistry × Endpoints) :=
  (faces.open? transport none).map fun (face, faces) =>
    (face, faces,
      { e with memory := face :: e.memory, abandoned := e.abandoned.filter (· ≠ face) })

def openAll? (e : Endpoints) (faces : FaceRegistry) :
    List Transport → Option (FaceRegistry × Endpoints)
  | [] => some (faces, e)
  | transport :: transports =>
    match e.openMemory? faces transport with
    | some (_, faces, e) => e.openAll? faces transports
    | none => none

/-- Nobody reads a face in memory any more. -/
def abandon (e : Endpoints) (face : FaceId) : Endpoints :=
  { e with abandoned := face :: e.abandoned }

/-- A number is no face in memory any more. -/
def forget (e : Endpoints) (face : FaceId) : Endpoints :=
  { e with memory := e.memory.filter (· ≠ face) }

/-- An application opens a stream: the position of the stream. -/
def connect? (e : Endpoints) (faces : FaceRegistry) : Option (Nat × FaceRegistry × Endpoints) :=
  faces.attachLocal?.map fun (face, faces) =>
    (e.streams.length, faces, { e with streams := e.streams ++ [{ face := face }] })

/-- An application uses its stream, which must be open at both ends. -/
def use? (e : Endpoints) (stream : Nat) (f : LocalStream → LocalStream) : Option Endpoints :=
  match e.streams[stream]? with
  | some s =>
    if s.reading && !s.ended then some { e with streams := e.streams.set stream (f s) } else none
  | none => none

/-- The faces of applications read what has arrived. -/
def pump (e : Endpoints) (faces : FaceRegistry) : Endpoints × FaceRegistry :=
  let (streams, faces) := LocalStream.pumpAll e.streams faces
  ({ e with streams }, faces)

end Endpoints
end NamedData
