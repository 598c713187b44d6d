import NamedData.Face
import NamedData.Name
import NamedData.Route.Address
import NamedData.Text.Blank

/-!
# Route files

One route a line: a name prefix, a protocol and one or more neighbours,
separated by blanks. A number sign begins a comment, and a line without words
says nothing. The first fault of a file is reported with its line.
-/

namespace NamedData

structure StaticRoute where
  namePrefix : String
  transport : Transport
  neighbours : List Address
deriving DecidableEq, Repr

namespace StaticRoute

def name (r : StaticRoute) : Name := Name.ofString r.namePrefix

inductive Fault
  | noProtocol
  | protocol (name : String)
  | neighbour (cause : AddressError)
  | noNeighbour (namePrefix : String)
deriving DecidableEq, Repr

def Fault.describe : Fault → String
  | .noProtocol => "missing protocol"
  | .protocol name => s!"unsupported protocol '{name}' (udp or tcp)"
  | .neighbour cause => cause.describe
  | .noNeighbour namePrefix => s!"no next hop for {namePrefix}"

/-- A fault and the number of its line, counted from one. -/
structure FileError where
  line : Nat
  fault : Fault
deriving DecidableEq, Repr

def FileError.describe (e : FileError) : String := s!"line {e.line}: {e.fault.describe}"

/-- The transport of a route; applications on this host have no routes. -/
def transport? (protocol : String) : Option Transport :=
  (Transport.ofProtocol? protocol).filter (!·.isLocal)

/-- The neighbours of a line, up to the first that is none. -/
def parseNeighbours (words : List (List Char)) : Except Fault (List Address) :=
  words.mapM fun w => (Address.parse w).mapError .neighbour

def withoutComment (line : List Char) : List Char := line.takeWhile (· ≠ '#')

/-- Reads a line; one without words says nothing. -/
def parseLine (line : List Char) : Except Fault (Option StaticRoute) :=
  match Text.words (withoutComment line) with
  | [] => .ok none
  | [_] => .error .noProtocol
  | namePrefix :: protocol :: rest =>
    let namePrefix := String.ofList namePrefix
    let protocol := String.ofList protocol
    match transport? protocol with
    | none => .error (.protocol protocol)
    | some transport =>
      match parseNeighbours rest with
      | .error fault => .error fault
      | .ok [] => .error (.noNeighbour namePrefix)
      | .ok neighbours => .ok (some ⟨namePrefix, transport, neighbours⟩)

/-- Reads lines, of which the first has the number `line`. -/
def parseLines : (line : Nat) → List (List Char) → Except FileError (List StaticRoute)
  | _, [] => .ok []
  | line, text :: rest =>
    match parseLine text with
    | .error fault => .error ⟨line, fault⟩
    | .ok none => parseLines (line + 1) rest
    | .ok (some route) =>
      match parseLines (line + 1) rest with
      | .error e => .error e
      | .ok routes => .ok (route :: routes)

def parseFile (text : String) : Except FileError (List StaticRoute) :=
  parseLines 1 (Text.lines text.toList)

end StaticRoute
end NamedData
