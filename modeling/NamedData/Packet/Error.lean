import NamedData.Packet.Kind

/-!
# Faults of packets

Every reason for which a packet, or a part of one, is refused on reading or
writing, with the wording that operators see.
-/

namespace NamedData

inductive PacketError
  | tlv (e : TlvError)
  | shorterThanHeader
  | unsupportedVersion (version : UInt8)
  | unknownKind (code : UInt8)
  | lengthMismatch (declared actual : Nat)
  | headerLength (length : Nat)
  | selectiveWidth (width : Nat)
  | missingMessage
  | wrongMessage (element : TlvKind) (kind : PacketKind)
  | missingName
  | unexpectedElement (element : TlvKind)
  | digestWidth (width : Nat)
  | notAName (element : TlvKind)
  | chunkTooLarge (value : UInt64)
  | tooManyComponents (count : Nat)
  | headerTooLarge (size : Nat)
  | packetTooLarge (size : Nat)
deriving DecidableEq, Repr

namespace PacketError

/-- The fault without the part of the program that reports it. -/
def detail : PacketError → String
  | .tlv e => e.describe
  | .shorterThanHeader => "Packet shorter than the fixed header"
  | .unsupportedVersion version => s!"Unsupported version {version}"
  | .unknownKind code => s!"Unknown packet type {code}"
  | .lengthMismatch declared actual =>
    s!"Packet length {declared} does not match buffer length {actual}"
  | .headerLength length => s!"Invalid header length {length}"
  | .selectiveWidth width => s!"Selective header must be 6 bytes, got {width}"
  | .missingMessage => "Missing message TLV"
  | .wrongMessage element kind =>
    s!"Message TLV type {element} does not match packet type {kind.label}"
  | .missingName => "Message carries no name"
  | .unexpectedElement element => s!"Unexpected top-level TLV {element}"
  | .digestWidth width => s!"Digest must be 32 bytes, got {width}"
  | .notAName element => s!"Expected name TLV type 0, got {element}"
  | .chunkTooLarge value => s!"Chunk number {value} too large"
  | .tooManyComponents count => s!"Name has {count} components (max 64)"
  | .headerTooLarge size => s!"Header of {size} bytes does not fit"
  | .packetTooLarge size => s!"Packet of {size} bytes is too large"

def describe : PacketError → String
  | .tlv e => "TLV error: " ++ e.describe
  | e => "message error: " ++ e.detail

/-- Reports a fault of an element as a fault of its packet. -/
def liftTlv {α : Type} : Except TlvError α → Except PacketError α
  | .error e => .error (.tlv e)
  | .ok a => .ok a

@[simp] theorem liftTlv_eq_ok {α : Type} {r : Except TlvError α} {a : α} :
    liftTlv r = .ok a ↔ r = .ok a := by
  cases r <;> simp [liftTlv]

end PacketError
end NamedData
