import NamedData.Face
import NamedData.Forwarding.Command
import NamedData.Packet.Message
import NamedData.Route.Table

/-!
# What a forwarder asks for

A forwarder performs no input or output. It answers every event with a list of
actions for the event loop.
-/

namespace NamedData

inductive Priority
  | high
  | normal
  | low
deriving DecidableEq, Repr

def Priority.label : Priority → String
  | .high => "High"
  | .normal => "Normal"
  | .low => "Low"

/-- A packet on its way out, with the faces it goes to. -/
structure OutFrame where
  payload : Octets
  faces : List FaceId
  frameClass : FrameClass
deriving DecidableEq, Repr

/-- Something to be done for the forwarder. -/
inductive Action
  | send (frame : OutFrame) (priority : Priority)
  | command (command : Command) (face : FaceId) (request : Message)
  /-- No route goes through this face any more. -/
  | closeFace (face : FaceId)
deriving DecidableEq

end NamedData
