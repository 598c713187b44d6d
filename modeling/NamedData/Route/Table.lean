import NamedData.Face
import NamedData.Name
import NamedData.Digest.Sha256

/-!
# The table of routes

A route leads from a registered name to a next hop. Names are registered
explicitly and every registered name has at least one next hop, so the longest
match of a name is found by looking up its beginnings from the longest down.
The length of the longest registered name is kept beside the entries, and the
search starts there.
-/

namespace NamedData

/-- Who asked for a route, as a set of three flags. -/
structure RouteFlags where
  bits : UInt8
deriving DecidableEq, Repr

namespace RouteFlags

def dynamic : RouteFlags := ⟨1⟩
def static : RouteFlags := ⟨2⟩
def control : RouteFlags := ⟨4⟩

def union (f g : RouteFlags) : RouteFlags := ⟨f.bits ||| g.bits⟩

def contains (f g : RouteFlags) : Bool := f.bits &&& g.bits == g.bits

def toString (f : RouteFlags) : String :=
  let named := [(dynamic, "dynamic"), (static, "static"), (control, "control")]
  let names := (named.filter fun (flag, _) => f.contains flag).map (·.2)
  if names.isEmpty then "-" else "|".intercalate names

instance : ToString RouteFlags := ⟨toString⟩

end RouteFlags

inductive FrameClass
  | interest
  | object
deriving DecidableEq, Repr

def FrameClass.label : FrameClass → String
  | .interest => "Interest"
  | .object => "Object"

structure NextHop where
  face : FaceId
  flags : RouteFlags
  cost : UInt16
  keyId : Option Digest := none
  sentInterests : Nat := 0
  sentObjects : Nat := 0
deriving DecidableEq

namespace NextHop

def count (h : NextHop) : FrameClass → NextHop
  | .interest => { h with sentInterests := h.sentInterests + 1 }
  | .object => { h with sentObjects := h.sentObjects + 1 }

/-- Whether this is the next hop through a face under a key. -/
def isVia (h : NextHop) (face : FaceId) (keyId : Option Digest) : Bool :=
  h.face = face && h.keyId = keyId

end NextHop

/-- A registered name with its next hops, in the order in which they were added. -/
structure RouteEntry where
  name : Name
  hops : List NextHop
deriving DecidableEq

namespace RouteEntry

/-- Changes the first next hop that satisfies a test. -/
def updateFirst (p : NextHop → Bool) (f : NextHop → NextHop) : List NextHop → List NextHop
  | [] => []
  | h :: hs => if p h then f h :: hs else h :: updateFirst p f hs

/-- Counts one transmission on the first next hop through a face. -/
def count (e : RouteEntry) (face : FaceId) (frameClass : FrameClass) : RouteEntry :=
  { e with hops := updateFirst (·.face = face) (·.count frameClass) e.hops }

def uses (e : RouteEntry) (face : FaceId) : Bool := e.hops.any (·.face = face)

end RouteEntry

inductive RouteChange
  | added
  | updated
  | removed
  /-- The last next hop was removed and the name with it. -/
  | entryRemoved
  | notFound
deriving DecidableEq, Repr

def RouteChange.label : RouteChange → String
  | .added => "Added"
  | .updated => "Updated"
  | .removed => "Removed"
  | .entryRemoved => "EntryRemoved"
  | .notFound => "NotFound"

structure RouteTableFull where
  capacity : Nat
deriving DecidableEq, Repr

def RouteTableFull.describe (e : RouteTableFull) : String := s!"FIB is full ({e.capacity} prefixes)"

structure RouteTable where
  entries : List RouteEntry := []
  capacity : Nat
  /-- The number of components of the longest registered name. -/
  longest : Nat := 0

namespace RouteTable

def empty (capacity : Nat) : RouteTable := { capacity }

def size (t : RouteTable) : Nat := t.entries.length

def find? (t : RouteTable) (name : Name) : Option RouteEntry := t.entries.find? (·.name = name)

/-- The entry of the longest registered beginning of a name, up to a number of components. -/
def probe (t : RouteTable) (name : Name) : Nat → Option RouteEntry
  | 0 => t.find? (name.take 0)
  | length + 1 =>
    match t.find? (name.take (length + 1)) with
    | some e => some e
    | none => t.probe name length

/-- The entry of the longest registered beginning of a name. -/
def longestMatch (t : RouteTable) (name : Name) : Option RouteEntry :=
  t.probe name (min name.size t.longest)

/-- The length of the longest registered name, or zero. -/
def longestOf (entries : List RouteEntry) : Nat :=
  entries.foldl (fun n e => max n e.name.size) 0

/-- Changes the entry of a name, if it is registered. -/
def update (t : RouteTable) (name : Name) (f : RouteEntry → RouteEntry) : RouteTable :=
  { t with entries := t.entries.map fun e => if e.name = name then f e else e }

/-- Adds a next hop to an entry. A next hop that is there already, under the
same key, gets the new flags as well and the new cost. -/
def addHop (e : RouteEntry) (hop : NextHop) : RouteEntry × RouteChange :=
  if e.hops.any (·.isVia hop.face hop.keyId) then
    let merge (h : NextHop) : NextHop :=
      { h with flags := h.flags.union hop.flags, cost := hop.cost }
    ({ e with hops := RouteEntry.updateFirst (·.isVia hop.face hop.keyId) merge e.hops }, .updated)
  else ({ e with hops := e.hops ++ [hop] }, .added)

def add (t : RouteTable) (name : Name) (face : FaceId) (flags : RouteFlags) (cost : UInt16)
    (keyId : Option Digest) : Except RouteTableFull (RouteTable × RouteChange) :=
  let hop : NextHop := { face, flags, cost, keyId }
  let longest := max t.longest name.size
  match t.find? name with
  | none =>
    if t.capacity ≤ t.size then .error ⟨t.capacity⟩
    else .ok ({ t with entries := t.entries ++ [⟨name, [hop]⟩], longest }, .added)
  | some e =>
    .ok ({ t.update name (fun e => (addHop e hop).1) with longest }, (addHop e hop).2)

/-- Removes a route, and its name with the last of its routes. -/
def remove (t : RouteTable) (name : Name) (face : FaceId) (keyId : Option Digest) :
    RouteTable × RouteChange :=
  match t.find? name with
  | none => (t, .notFound)
  | some e =>
    let hops := e.hops.filter (!·.isVia face keyId)
    if hops.length = e.hops.length then (t, .notFound)
    else if hops.isEmpty then
      let entries := t.entries.filter (·.name ≠ name)
      ({ t with entries, longest := longestOf entries }, .entryRemoved)
    else (t.update name fun e => { e with hops }, .removed)

def uses (t : RouteTable) (face : FaceId) : Bool := t.entries.any (·.uses face)

/-- Removes all routes through a face. The second component is the number of
names that lost their last route. -/
def forget (t : RouteTable) (face : FaceId) : RouteTable × Nat :=
  let without := t.entries.map fun e => { e with hops := e.hops.filter (·.face ≠ face) }
  let entries := without.filter (!·.hops.isEmpty)
  ({ t with entries, longest := longestOf entries }, t.entries.length - entries.length)

def count (t : RouteTable) (name : Name) (face : FaceId) (frameClass : FrameClass) : RouteTable :=
  t.update name (·.count face frameClass)

def countAll (t : RouteTable) (name : Name) (faces : List FaceId) (frameClass : FrameClass) :
    RouteTable :=
  faces.foldl (fun t face => t.count name face frameClass) t

structure HopRow where
  face : FaceId
  flags : String
  cost : UInt16
  keyed : Bool
  sentInterests : Nat
  sentObjects : Nat
deriving DecidableEq

structure Row where
  name : String
  hops : List HopRow
deriving DecidableEq

def Row.ofEntry (e : RouteEntry) : Row :=
  { name := e.name.toString
    hops := e.hops.map fun h =>
      { face := h.face
        flags := h.flags.toString
        cost := h.cost
        keyed := h.keyId.isSome
        sentInterests := h.sentInterests
        sentObjects := h.sentObjects } }

def rows (t : RouteTable) : List Row :=
  (t.entries.map Row.ofEntry).mergeSort fun r s => r.name ≤ s.name

end RouteTable
end NamedData
