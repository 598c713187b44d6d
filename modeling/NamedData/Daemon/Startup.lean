import NamedData.Daemon
import NamedData.Route.File

/-!
# Starting a daemon

The routes of the route file are installed at the start. A neighbour that cannot
be reached is skipped, while a table that is full ends the start.
-/

namespace NamedData

inductive StartError
  | fault (cause : Settings.Fault)
  | routeFile (cause : StaticRoute.FileError)
  | routesFull (cause : RouteTableFull)
deriving DecidableEq

def StartError.describe : StartError → String
  | .fault cause => cause.describe
  | .routeFile cause => cause.describe
  | .routesFull cause => cause.describe

namespace Daemon

def addRoute (d : Daemon) (name : Name) (face : FaceId) (flags : RouteFlags) (cost : UInt16) :
    Except StartError (Daemon × RouteChange) :=
  match d.forwarder.addRoute name face flags cost with
  | .error e => .error (.routesFull e)
  | .ok (forwarder, change) => .ok ({ d with forwarder }, change)

/-- Installs a route through one neighbour, if the neighbour can be reached. -/
def installHop (network : Network) (route : StaticRoute) (d : Daemon) (neighbour : Address) :
    Except StartError Daemon :=
  match d.faces.connect network route.transport neighbour.toString with
  | .error _ => .ok d
  | .ok (face, faces) => ({ d with faces }.addRoute route.name face .static 0).map Prod.fst

def installRoute (network : Network) (d : Daemon) (route : StaticRoute) :
    Except StartError Daemon :=
  route.neighbours.foldlM (installHop network route) d

def installRoutes (network : Network) (d : Daemon) (file : String) : Except StartError Daemon :=
  match StaticRoute.parseFile file with
  | .error e => .error (.routeFile e)
  | .ok routes => routes.foldlM (installRoute network) d

end Daemon
end NamedData
