import NamedData.Packet.Message

/-!
# Packets under construction

A draft holds the fields of a packet before it is written. Writing fails only
for a packet that does not fit the length fields; otherwise parsing gives the
fields of the draft back.
-/

namespace NamedData

/-- What a draft says about chunks besides the chunk of its name. -/
inductive Span
  | single
  | window
  | run (range : ChunkRange)
deriving DecidableEq, Repr

namespace Span

def interestType : Span → InterestType
  | .single => .regular
  | .window => .symbolic
  | .run _ => .selective

def range? : Span → Option ChunkRange
  | .run range => some range
  | _ => none

end Span

structure Draft where
  kind : PacketKind
  name : Name
  chunk : Option UInt32 := none
  hopLimit : UInt8 := 32
  returnCode : Option ReturnCode := none
  lifetime : Option UInt64 := none
  cacheTime : Option UInt64 := none
  span : Span := .single
  nonce : Option UInt64 := none
  keyIdRestriction : Option Digest := none
  objectHashRestriction : Option Digest := none
  keyId : Option Digest := none
  expiry : Option UInt64 := none
  payload : Option Octets := none
deriving DecidableEq

namespace Draft

/-- The lifetime of an Interest unless another is asked for, in milliseconds. -/
def defaultLifetime : UInt64 := 4000

def interest (name : Name) : Draft := { kind := .interest, name, lifetime := some defaultLifetime }

def object (name : Name) (payload : Octets) : Draft :=
  { kind := .contentObject, name, payload := some payload }

/-- The hop-by-hop options as elements, in the order in which they travel. -/
def options (d : Draft) : List Tlv :=
  d.lifetime.toList.map (Tlv.ofUInt64 HopOptions.lifetimeKind) ++
  d.cacheTime.toList.map (Tlv.ofUInt64 HopOptions.cacheTimeKind) ++
  (match d.span with
    | .single => []
    | .window => [⟨HopOptions.symbolicKind, []⟩]
    | .run r => [⟨HopOptions.selectiveKind,
        Octets.ofNat 4 r.first.toNat ++ Octets.ofNat 2 r.count.toNat⟩]) ++
  d.nonce.toList.map fun n => ⟨HopOptions.nonceKind, Octets.ofNat 8 n.toNat⟩

def fields (d : Draft) : List Tlv :=
  [d.name.toTlv d.chunk] ++
  d.keyIdRestriction.toList.map (fun k => ⟨MessageFields.keyIdRestrictionKind, k.1⟩) ++
  d.objectHashRestriction.toList.map (fun h => ⟨MessageFields.objectHashRestrictionKind, h.1⟩) ++
  d.expiry.toList.map (Tlv.ofUInt64 MessageFields.expiryKind) ++
  d.payload.toList.map fun p => ⟨MessageFields.payloadKind, p⟩

/-- The elements that name a key: a checksum algorithm and an empty checksum. -/
def validation (key : Digest) : List Tlv :=
  let keyField : Tlv := ⟨Validation.keyIdKind, key.1⟩
  let algorithm : Tlv := ⟨Validation.checksumKind, keyField.encode⟩
  [⟨Validation.algorithmKind, algorithm.encode⟩, ⟨Validation.payloadKind, [0, 0, 0, 0]⟩]

def region (d : Draft) : List Tlv :=
  ⟨d.kind.messageElement, Tlv.encodeAll d.fields⟩ :: d.keyId.toList.flatMap validation

/-- The return code that is written: only an Interest Return carries one. -/
def writtenReturnCode (d : Draft) : UInt8 :=
  match d.kind with
  | .interestReturn => (d.returnCode.map ReturnCode.code).getD 0
  | _ => 0

def encode (d : Draft) : Except PacketError Octets :=
  let options := Tlv.encodeAll d.options
  let headerLength := FixedHeader.size + options.length
  if 255 < headerLength then .error (.headerTooLarge headerLength)
  else
    let region := Tlv.encodeAll d.region
    let packetLength := headerLength + region.length
    if FixedHeader.maxPacket < packetLength then .error (.packetTooLarge packetLength)
    else
      let header : FixedHeader :=
        { version := FixedHeader.currentVersion
          kind := d.kind.code
          packetLength := UInt16.ofNat packetLength
          hopLimit := d.hopLimit
          returnCode := d.writtenReturnCode
          flags := 0
          headerLength := UInt8.ofNat headerLength }
      .ok (header.encode ++ options ++ region)

def build (d : Draft) : Except PacketError Message := do Message.parse (← d.encode)

end Draft
end NamedData
