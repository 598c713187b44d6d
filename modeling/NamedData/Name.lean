import NamedData.Packet.Error
import NamedData.Text.Pieces

/-!
# Names

A name is a sequence of components, each any octet string. The chunk number of
a packet travels in the same element as its name but is no component of it.
Names have a printed form, `/a/b/c`, in which a component with an octet outside
printable ASCII, or with a slash, is shown in hexadecimal.
-/

namespace NamedData

structure Name where
  components : List Octets
deriving DecidableEq, Repr

namespace Name

def size (n : Name) : Nat := n.components.length

def take (n : Name) (length : Nat) : Name := ⟨n.components.take length⟩

/-- Whether the components of one name begin those of another. -/
def isPrefixOf (n m : Name) : Bool := n.components.isPrefixOf m.components

/-- Component by component, each octet by octet; a beginning comes first. -/
def compare (n m : Name) : Ordering :=
  List.compareLex (List.compareLex Ord.compare) n.components m.components

instance : Ord Name := ⟨compare⟩

/-- Whether an octet is printable ASCII, blanks excluded. -/
def graphic (b : UInt8) : Bool := 0x21 ≤ b && b ≤ 0x7e

/-- A component is shown as text when all its octets are printable and none is a slash. -/
def printable (component : Octets) : Bool :=
  component.all fun b => graphic b && b != 0x2f

def componentText (component : Octets) : List Char :=
  if printable component then component.map fun b => Char.ofNat b.toNat
  else '0' :: 'x' :: Octets.hexDigits component

def text (n : Name) : List Char :=
  match n.components with
  | [] => ['/']
  | components => components.flatMap fun c => '/' :: componentText c

def toString (n : Name) : String := String.ofList n.text

instance : ToString Name := ⟨toString⟩

/-- A scheme `ccnx:` in front of a name is dropped, once. -/
def dropScheme : List Char → List Char
  | 'c' :: 'c' :: 'n' :: 'x' :: ':' :: rest => rest
  | text => text

/-- Reads a name: the non-empty pieces between slashes, in UTF-8. -/
def ofText (text : List Char) : Name :=
  ⟨((Text.pieces '/' (dropScheme text)).filter (!·.isEmpty)).map fun piece =>
    piece.flatMap String.utf8EncodeChar⟩

def ofString (text : String) : Name := ofText text.toList

def nameKind : TlvKind := 0

def segmentKind : TlvKind := 1

def chunkKind : TlvKind := 0x10

/-- The most components that a name read from a packet may have. -/
def maxComponents : Nat := 64

/-- The value of the element of a name and its chunk number. -/
def wireValue (n : Name) (chunk : Option UInt32) : Octets :=
  Tlv.encodeAll (n.components.map fun c => ⟨segmentKind, c⟩) ++
    Tlv.encodeAll (chunk.toList.map fun c => Tlv.ofUInt64 chunkKind c.toUInt64)

def toTlv (n : Name) (chunk : Option UInt32) : Tlv := ⟨nameKind, n.wireValue chunk⟩

def readChunk (segment : Tlv) : Except PacketError UInt32 :=
  match Tlv.decodeUInt segment.value with
  | .error e => .error (.tlv e)
  | .ok value =>
    if value.toNat < UInt32.size then .ok value.toUInt32 else .error (.chunkTooLarge value)

/-- Reads the inner elements of a name: the last chunk number counts, and every
other element is a component, whatever its kind. -/
def ofSegments (segments : List Tlv) : Except PacketError (Name × Option UInt32) :=
  match (segments.filter (·.kind = chunkKind)).mapM readChunk with
  | .error e => .error e
  | .ok chunks =>
    let components := (segments.filter (·.kind ≠ chunkKind)).map (·.value)
    if components.length ≤ maxComponents then .ok (⟨components⟩, chunks.getLast?)
    else .error (.tooManyComponents components.length)

def ofTlv (t : Tlv) : Except PacketError (Name × Option UInt32) :=
  if t.kind = nameKind then
    match Tlv.decodeAll t.value with
    | .error e => .error (.tlv e)
    | .ok segments => ofSegments segments
  else .error (.notAName t.kind)

end Name
end NamedData
