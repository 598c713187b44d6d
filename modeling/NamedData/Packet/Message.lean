import NamedData.Digest.Fnv
import NamedData.Digest.Sha256
import NamedData.Name
import NamedData.Packet.Header

/-!
# Messages

The parsed view of a packet. A packet is a fixed header, hop-by-hop options up
to the header length, then the message region: one element for the message
itself, followed by validation elements. Within each region the last occurrence
of a field counts, except that a validation block names the first key it finds.
-/

namespace NamedData

/-- How the chunks of a name are asked for. -/
inductive InterestType
  /-- One name with one chunk, or with none. -/
  | regular
  /-- A window that slides over the chunks of a name. -/
  | symbolic
  /-- A run of chunks of a name. -/
  | selective
deriving DecidableEq, Repr

def InterestType.label : InterestType → String
  | .regular => "Regular"
  | .symbolic => "Symbolic"
  | .selective => "Selective"

structure ChunkRange where
  first : UInt32
  count : UInt16
deriving DecidableEq, Repr

/-- The chunk numbers of a run, cut off at the largest chunk number. -/
def ChunkRange.chunks (r : ChunkRange) : List UInt32 :=
  ((List.range r.count.toNat).map fun i => r.first.toNat + i).filterMap fun c =>
    if c < UInt32.size then some (UInt32.ofNat c) else none

/-- The options between the fixed header and the message. -/
structure HopOptions where
  /-- How long the request waits, in milliseconds. -/
  lifetime : Option UInt64 := none
  /-- How long a reply may be cached, in milliseconds. -/
  cacheTime : Option UInt64 := none
  interestType : InterestType := .regular
  selective : Option ChunkRange := none
  nonce : Option UInt64 := none
deriving DecidableEq, Repr

namespace HopOptions

def lifetimeKind : TlvKind := 0x0001
def cacheTimeKind : TlvKind := 0x0002
def symbolicKind : TlvKind := 0x1001
def selectiveKind : TlvKind := 0x1002
def nonceKind : TlvKind := 0x1003

/-- Reads a run of chunks: the first in four octets, their number in two. -/
def readRange : Octets → Except PacketError ChunkRange
  | [f₃, f₂, f₁, f₀, c₁, c₀] =>
    .ok ⟨UInt32.ofNat (Octets.toNat [f₃, f₂, f₁, f₀]), UInt16.ofNat (Octets.word16 c₁ c₀)⟩
  | value => .error (.selectiveWidth value.length)

/-- Takes one option into account; unknown options are ignored. -/
def apply (o : HopOptions) (t : Tlv) : Except PacketError HopOptions :=
  if t.kind = lifetimeKind then
    (PacketError.liftTlv (Tlv.decodeUInt t.value)).map fun ms => { o with lifetime := some ms }
  else if t.kind = cacheTimeKind then
    (PacketError.liftTlv (Tlv.decodeUInt t.value)).map fun ms => { o with cacheTime := some ms }
  else if t.kind = symbolicKind then .ok { o with interestType := .symbolic }
  else if t.kind = selectiveKind then
    (readRange t.value).map fun r => { o with interestType := .selective, selective := some r }
  else if t.kind = nonceKind then
    (PacketError.liftTlv (Tlv.decodeUInt t.value)).map fun n => { o with nonce := some n }
  else .ok o

def read (region : Octets) : Except PacketError HopOptions :=
  match Tlv.decodeAll region with
  | .error e => .error (.tlv e)
  | .ok ts => ts.foldlM apply {}

end HopOptions

structure MessageFields where
  name : Option (Name × Option UInt32) := none
  payload : Option Octets := none
  keyIdRestriction : Option Digest := none
  objectHashRestriction : Option Digest := none
  /-- When the object goes stale, in milliseconds since the epoch. -/
  expiry : Option UInt64 := none
deriving DecidableEq

namespace MessageFields

def payloadKind : TlvKind := 1
def keyIdRestrictionKind : TlvKind := 2
def objectHashRestrictionKind : TlvKind := 3
def expiryKind : TlvKind := 6

def readDigest (value : Octets) : Except PacketError Digest :=
  match Digest.ofOctets? value with
  | some d => .ok d
  | none => .error (.digestWidth value.length)

/-- Takes one field into account; unknown fields are ignored. -/
def apply (f : MessageFields) (t : Tlv) : Except PacketError MessageFields :=
  if t.kind = Name.nameKind then (Name.ofTlv t).map fun n => { f with name := some n }
  else if t.kind = payloadKind then .ok { f with payload := some t.value }
  else if t.kind = keyIdRestrictionKind then
    (readDigest t.value).map fun d => { f with keyIdRestriction := some d }
  else if t.kind = objectHashRestrictionKind then
    (readDigest t.value).map fun d => { f with objectHashRestriction := some d }
  else if t.kind = expiryKind then
    (PacketError.liftTlv (Tlv.decodeUInt t.value)).map fun ms => { f with expiry := some ms }
  else .ok f

def read (value : Octets) : Except PacketError MessageFields :=
  match Tlv.decodeAll value with
  | .error e => .error (.tlv e)
  | .ok ts => ts.foldlM apply {}

end MessageFields

structure Validation where
  signed : Bool := false
  keyId : Option Digest := none
deriving DecidableEq

namespace Validation

def algorithmKind : TlvKind := 3
def payloadKind : TlvKind := 4
def checksumKind : TlvKind := 2
def keyIdKind : TlvKind := 9

/-- The first key identifier in a list of algorithm descriptions. Descriptions
after the one that holds it are not looked into. -/
def findKeyId : List Tlv → Except PacketError (Option Digest)
  | [] => .ok none
  | algorithm :: rest =>
    match Tlv.decodeAll algorithm.value with
    | .error e => .error (.tlv e)
    | .ok fields =>
      match fields.find? (·.kind = keyIdKind) with
      | some field => (MessageFields.readDigest field.value).map some
      | none => findKeyId rest

def apply (v : Validation) (t : Tlv) : Except PacketError Validation :=
  if t.kind = algorithmKind then
    match Tlv.decodeAll t.value with
    | .error e => .error (.tlv e)
    | .ok algorithms => (findKeyId algorithms).map fun keyId => { signed := true, keyId }
  else if t.kind = payloadKind then .ok v
  else .error (.unexpectedElement t.kind)

end Validation

structure Message extends HopOptions, Validation where
  kind : PacketKind
  name : Name
  chunk : Option UInt32
  hopLimit : UInt8
  returnCode : Option ReturnCode
  keyIdRestriction : Option Digest
  objectHashRestriction : Option Digest
  payload : Option Octets
  expiry : Option UInt64
  headerLength : Nat
  raw : Octets
deriving DecidableEq

namespace Message

def readRegion (kind : PacketKind) (region : Octets) :
    Except PacketError ((Name × Option UInt32) × MessageFields × Validation) :=
  match Tlv.decodeAll region with
  | .error e => .error (.tlv e)
  | .ok [] => .error .missingMessage
  | .ok (message :: rest) =>
    if message.kind = kind.messageElement then do
      let fields ← MessageFields.read message.value
      match fields.name with
      | none => .error .missingName
      | some named =>
        let validation ← rest.foldlM Validation.apply {}
        .ok (named, fields, validation)
    else .error (.wrongMessage message.kind kind)

/-- Checks the fixed header against the packet and returns the packet's kind. -/
def checkHeader (h : FixedHeader) (length : Nat) : Except PacketError PacketKind :=
  if h.version ≠ FixedHeader.currentVersion then .error (.unsupportedVersion h.version)
  else
    match PacketKind.ofCode? h.kind with
    | none => .error (.unknownKind h.kind)
    | some kind =>
      if h.packetLength.toNat ≠ length then .error (.lengthMismatch h.packetLength.toNat length)
      else if h.headerLength.toNat < FixedHeader.size ∨ length < h.headerLength.toNat then
        .error (.headerLength h.headerLength.toNat)
      else .ok kind

def parse (raw : Octets) : Except PacketError Message :=
  match FixedHeader.peek? raw with
  | none => .error .shorterThanHeader
  | some header => do
    let kind ← checkHeader header raw.length
    let headerLength := header.headerLength.toNat
    let options ← HopOptions.read ((raw.take headerLength).drop FixedHeader.size)
    let ((name, chunk), fields, validation) ← readRegion kind (raw.drop headerLength)
    .ok
      { options, validation with
        kind, name, chunk, headerLength, raw
        hopLimit := header.hopLimit
        returnCode :=
          if kind = .interestReturn then ReturnCode.ofCode? header.returnCode else none
        keyIdRestriction := fields.keyIdRestriction
        objectHashRestriction := fields.objectHashRestriction
        payload := fields.payload
        expiry := fields.expiry }

/-- The message region: all that follows the header. -/
def body (m : Message) : Octets := m.raw.drop m.headerLength

/-- The digest that object-hash restrictions name. -/
def objectHash (m : Message) : Digest := Digest.sha256 m.body

/-- What tells repetitions of a request apart from new ones: the nonce, or a
hash of the body when there is none. -/
def fingerprint (m : Message) : UInt64 := m.nonce.getD (Digest.fnv1a m.body)

def withHopLimit (m : Message) (hopLimit : UInt8) : Octets :=
  m.raw.set FixedHeader.hopLimitOffset hopLimit

/-- The Interest Return for an Interest: the same packet under another kind, with a reason. -/
def toInterestReturn (m : Message) (code : ReturnCode) : Octets :=
  (m.raw.set FixedHeader.kindOffset PacketKind.interestReturn.code).set
    FixedHeader.returnCodeOffset code.code

end Message
end NamedData
