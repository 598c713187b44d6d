import NamedData.Octets

/-!
# The fixed header

The first eight octets of every packet: version, kind, total length, hop limit,
return code, flags and the offset at which the message begins.
-/

namespace NamedData

/-- The fields of the fixed header, in the order in which they travel. -/
structure FixedHeader where
  version : UInt8
  kind : UInt8
  packetLength : UInt16
  hopLimit : UInt8
  returnCode : UInt8
  flags : UInt8
  headerLength : UInt8
deriving DecidableEq, Repr

namespace FixedHeader

/-- The version of the packets that this library reads and writes. -/
def currentVersion : UInt8 := 1

def size : Nat := 8

/-- The offset of the kind, which a return changes. -/
def kindOffset : Nat := 1

/-- The offset of the hop limit, which forwarding changes. -/
def hopLimitOffset : Nat := 4

/-- The offset of the return code, which a return changes. -/
def returnCodeOffset : Nat := 5

def maxPacket : Nat := 65535

def encode (h : FixedHeader) : Octets :=
  [h.version, h.kind] ++ Octets.ofNat 2 h.packetLength.toNat ++
    [h.hopLimit, h.returnCode, h.flags, h.headerLength]

/-- Reads the header at the front, if all of it is there. -/
def peek? : Octets → Option FixedHeader
  | version :: kind :: l₁ :: l₀ :: hopLimit :: returnCode :: flags :: headerLength :: _ =>
    let packetLength := UInt16.ofNat (Octets.word16 l₁ l₀)
    some ⟨version, kind, packetLength, hopLimit, returnCode, flags, headerLength⟩
  | _ => none

@[simp] theorem length_encode (h : FixedHeader) : h.encode.length = size := by
  simp [encode, size]

end FixedHeader
end NamedData
