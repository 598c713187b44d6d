import NamedData.Route.Table
import NamedData.Settings

/-!
# Choosing faces

A next hop is usable for a packet when its face is active and is not the one
that the packet came from. Each strategy picks among the usable next hops of
one entry; replies go back to every active requester but the sender.
-/

namespace NamedData
namespace Strategy

/-- Whether a packet that came from `incoming` may be sent to a face. -/
def usableFace (faces : FaceView) (incoming face : FaceId) : Bool :=
  face ≠ incoming && faces.active face

def usable (faces : FaceView) (incoming : FaceId) (e : RouteEntry) : List NextHop :=
  e.hops.filter fun h => usableFace faces incoming h.face

/-- The first usable next hop over the transport of `incoming`, or else the first. -/
def chooseBest (faces : FaceView) (incoming : FaceId) (e : RouteEntry) : List FaceId :=
  let hops := usable faces incoming e
  let sameTransport :=
    (faces.transport incoming).bind fun t => hops.find? fun h => faces.transport h.face = some t
  ((sameTransport.or hops.head?).map (·.face)).toList

/-- Every usable next hop, each face once. -/
def chooseAll (faces : FaceView) (incoming : FaceId) (e : RouteEntry) : List FaceId :=
  (usable faces incoming e).foldl
    (fun out h => if h.face ∈ out then out else out ++ [h.face]) []

/-- The cheaper of two next hops; the earlier one when they cost the same. -/
def cheaper (best : Option NextHop) (h : NextHop) : Option NextHop :=
  match best with
  | some b => if b.cost ≤ h.cost then some b else some h
  | none => some h

/-- The first of the cheapest usable next hops. -/
def chooseCheapest (faces : FaceView) (incoming : FaceId) (e : RouteEntry) : List FaceId :=
  (((usable faces incoming e).foldl cheaper none).map (·.face)).toList

/-- The faces to which an Interest that came from `incoming` is sent. -/
def forInterest (s : Strategy) (faces : FaceView) (incoming : FaceId) (e : RouteEntry) :
    List FaceId :=
  match s with
  | .bestRoute => chooseBest faces incoming e
  | .flooding => chooseAll faces incoming e
  | .lowestCost => chooseCheapest faces incoming e

/-- The requesters to which a reply that came from `incoming` is sent, under every strategy. -/
def forReply (faces : FaceView) (incoming : FaceId) (requesters : List FaceId) : List FaceId :=
  requesters.filter (usableFace faces incoming)

end Strategy
end NamedData
