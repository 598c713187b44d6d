import NamedData.Digest.Fnv
import NamedData.Name

/-!
# Administrative names

Three names are commands to the forwarder itself. A name is looked up by the
hash of its printed form and must then equal the registered name, so a name
that merely prints alike is no command.
-/

namespace NamedData

/-- What an application on this host may ask of the forwarder by name. -/
inductive Command
  | status
  | statusPending
  | stop
deriving DecidableEq, Repr

namespace Command

def all : List Command := [.status, .statusPending, .stop]

def label : Command → String
  | .status => "Status"
  | .statusPending => "StatusPit"
  | .stop => "Stop"

def name : Command → Name
  | .status => .ofText ['/', 'c', 'e', 'f', 'n', 'd', '/', 's', 't', 'a', 't', 'u', 's']
  | .statusPending =>
    .ofText ['/', 'c', 'e', 'f', 'n', 'd', '/', 's', 't', 'a', 't', 'u', 's', '/', 'p', 'i', 't']
  | .stop => .ofText ['/', 'c', 'e', 'f', 'n', 'd', '/', 's', 't', 'o', 'p']

/-- The hash of the printed form of a name, which is plain ASCII. -/
def hash (n : Name) : UInt64 := Digest.fnv1a (n.text.map fun c => UInt8.ofNat c.toNat)

def ofName? (n : Name) : Option Command :=
  (all.find? fun c => hash c.name = hash n).filter (·.name = n)

end Command
end NamedData
