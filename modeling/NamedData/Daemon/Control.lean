import NamedData.Control.Message
import NamedData.Daemon
import NamedData.Route.Address

/-!
# Control requests

A request for several next hops is carried out hop by hop. The first hop that
fails ends it, and what was done for the hops before it stays done.
-/

namespace NamedData

/-- Why a control request is refused. -/
inductive ControlError
  | protocol (name : String)
  | address (cause : AddressError)
  | connection (hop : Address) (cause : FaceError)
  | routesFull (cause : RouteTableFull)
  | unresolved (cause : FaceError)
  | noFace (transport : Transport) (hop : String)
  | noRoute (namePrefix hop : String)
deriving DecidableEq

def ControlError.describe : ControlError → String
  | .protocol name => s!"unsupported protocol '{name}'"
  | .address cause => cause.describe
  | .connection hop cause => s!"{hop}: {cause.describe}"
  | .routesFull cause => cause.describe
  | .unresolved cause => cause.describe
  | .noFace transport hop => s!"no {transport.label} face for {hop}"
  | .noRoute namePrefix hop => s!"no route {namePrefix} via {hop}"

namespace Daemon

/-- Adds a route through one next hop, towards which a face is opened if there is none. -/
def addHop (w : Surroundings) (transport : Transport) (name : Name) (cost : UInt16) (d : Daemon)
    (hop : String) : Daemon × Option ControlError :=
  match Address.parse hop.toList with
  | .error e => (d, some (.address e))
  | .ok address =>
    match d.faces.connect w.network transport address.toString with
    | .error e => (d, some (.connection address e))
    | .ok (face, faces) =>
      let d := { d with faces }
      match d.forwarder.addRoute name face .control cost with
      | .error e => (d, some (.routesFull e))
      | .ok (forwarder, _) => ({ d with forwarder }, none)

/-- Removes a route through one next hop. A face that is left without routes is closed. -/
def removeHop (w : Surroundings) (transport : Transport) (namePrefix : String) (d : Daemon)
    (hop : String) : Daemon × Option ControlError :=
  match Address.parse hop.toList with
  | .error e => (d, some (.address e))
  | .ok address =>
    match w.network.resolve address.toString.toList with
    | .error cause => (d, some (.unresolved (.unresolved address.toString cause)))
    | .ok peer =>
      match d.faces.findPeer? transport peer with
      | none => (d, some (.noFace transport hop))
      | some face =>
        let name := Name.ofString namePrefix
        let (forwarder, change, actions) := d.forwarder.removeRoute d.faces.view name face
        let d := { d with forwarder }
        if change = .notFound then (d, some (.noRoute namePrefix hop))
        else (d.execute w actions, none)

/-- Goes through next hops until one fails. -/
def eachHop (step : Daemon → String → Daemon × Option ControlError) :
    Daemon → List String → Daemon × ControlResponse
  | d, [] => (d, .ok)
  | d, hop :: hops =>
    match step d hop with
    | (d, none) => eachHop step d hops
    | (d, some e) => (d, .refused e.describe)

/-- The transport of a request; applications on this host have no routes. -/
def routeTransport (protocol : String) : Except ControlError Transport :=
  match (Transport.ofProtocol? protocol).filter (!·.isLocal) with
  | some transport => .ok transport
  | none => .error (.protocol protocol)

def control (w : Surroundings) (d : Daemon) : ControlRequest → Daemon × ControlResponse
  | .stop => ({ d with stopping := true }, .ok)
  | .status => (d, .status (d.status w.clock.now))
  | .statusPending => (d, .pending (d.forwarder.pending.rows w.clock.now))
  | .routeAdd namePrefix protocol nextHops cost =>
    match routeTransport protocol with
    | .error e => (d, .refused e.describe)
    | .ok transport => eachHop (addHop w transport (Name.ofString namePrefix) cost) d nextHops
  | .routeDel namePrefix protocol nextHops =>
    match routeTransport protocol with
    | .error e => (d, .refused e.describe)
    | .ok transport => eachHop (removeHop w transport namePrefix) d nextHops

end Daemon
end NamedData
