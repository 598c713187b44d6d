import NamedData.Proofs.Packet.Layout

/-!
# Packets that are changed in place

The copies of a packet that travel on differ from it in its fixed header only, and there in fields
that say nothing about the regions behind. So they have the layout of the packet but for the header,
and they can be read because the packet can: under another hop limit always, as an Interest Return
if it is an Interest, whose message is the same element. What is read of a copy is what is read of
the packet but for the fields that were written, and so is all that is computed from its body.
-/

namespace NamedData

variable {raw : Octets} {m : Message} {l : Layout}

def Octets.Readable (bytes : Octets) : Prop := ∃ m, Message.parse bytes = .ok m

namespace FixedHeader

theorem peek?_set_hopLimit {header : FixedHeader} (h : peek? raw = some header) (hopLimit : UInt8) :
    peek? (raw.set hopLimitOffset hopLimit) = some { header with hopLimit } := by
  obtain ⟨rest, rfl⟩ := peek?_eq_some_iff.1 h
  exact peek?_eq_some_iff.2 ⟨rest, rfl⟩

theorem peek?_set_kind_returnCode {header : FixedHeader} (h : peek? raw = some header)
    (kind returnCode : UInt8) :
    peek? ((raw.set kindOffset kind).set returnCodeOffset returnCode) =
      some { header with kind, returnCode } := by
  obtain ⟨rest, rfl⟩ := peek?_eq_some_iff.1 h
  exact peek?_eq_some_iff.2 ⟨rest, rfl⟩

end FixedHeader

namespace Layout

/-- A packet with another header before the same regions has the layout with that header, if the
header has the same lengths and the kind is one whose message is the same element. -/
theorem Of.withHeader (h : l.Of raw) {raw' : Octets} {header : FixedHeader} {kind : PacketKind}
    (hpeek : FixedHeader.peek? raw' = some header) (hlength : raw'.length = raw.length)
    (hregions : raw'.drop 8 = raw.drop 8) (hversion : header.version = l.header.version)
    (hkind : header.kind = kind.code) (hpacket : header.packetLength = l.header.packetLength)
    (hheader : header.headerLength = l.header.headerLength)
    (hmessage : kind.messageElement = l.kind.messageElement) :
    { l with header, kind }.Of raw' where
  header := hpeek
  version := hversion.trans h.version
  kind := hkind
  packetLength := by
    dsimp only
    rw [hpacket, h.packetLength, hlength]
  size_le := by
    dsimp only
    rw [hheader]
    exact h.size_le
  headerLength_le := by
    dsimp only
    rw [hheader, hlength]
    exact h.headerLength_le
  options := by
    dsimp only
    rw [hheader, List.drop_take, hregions, ← List.drop_take]
    exact h.options
  region := by
    have hskip : 8 + (l.header.headerLength.toNat - 8) = l.header.headerLength.toNat :=
      Nat.add_sub_of_le h.size_le
    dsimp only
    rw [hheader, ← hskip, ← List.drop_drop, hregions, List.drop_drop, hskip]
    exact h.region
  message := h.message.trans hmessage.symm
  fields := h.fields

theorem Valid.withHeader (h : l.Valid) (header : FixedHeader) (kind : PacketKind) :
    { l with header, kind }.Valid :=
  ⟨h.options, h.fields, h.named, h.trailer⟩

theorem Gives.withHeader (h : l.Gives raw m) (raw' : Octets) {header : FixedHeader}
    (hheader : header.headerLength = l.header.headerLength) (kind : PacketKind) :
    { l with header, kind }.Gives raw'
      { m with
        kind
        hopLimit := header.hopLimit
        returnCode :=
          if kind = PacketKind.interestReturn then ReturnCode.ofCode? header.returnCode else none
        raw := raw' } where
  raw := rfl
  kind := rfl
  hopLimit := rfl
  returnCode := rfl
  headerLength := by
    dsimp only
    rw [hheader, h.headerLength]
  lifetime := h.lifetime
  cacheTime := h.cacheTime
  interestType := h.interestType
  selective := h.selective
  nonce := h.nonce
  name := h.name
  payload := h.payload
  keyIdRestriction := h.keyIdRestriction
  objectHashRestriction := h.objectHashRestriction
  expiry := h.expiry
  signed := h.signed
  unsigned := h.unsigned
  keyId := h.keyId

theorem Gives.parse_copy (h : l.Gives raw m) (hvalid : l.Valid) {raw' : Octets}
    {header : FixedHeader} {kind : PacketKind} (hcopy : { l with header, kind }.Of raw')
    (hheader : header.headerLength = l.header.headerLength) :
    Message.parse raw' = .ok
      { m with
        kind
        hopLimit := header.hopLimit
        returnCode :=
          if kind = PacketKind.interestReturn then ReturnCode.ofCode? header.returnCode else none
        raw := raw' } := by
  obtain ⟨m', hparse, hgives⟩ := exists_parse_of hcopy (hvalid.withHeader header kind)
  rw [hparse, hgives.unique (h.withHeader raw' hheader kind)]

end Layout

namespace Message

@[simp] theorem length_withHopLimit (m : Message) (hopLimit : UInt8) :
    (m.withHopLimit hopLimit).length = m.raw.length :=
  List.length_set

@[simp] theorem length_toInterestReturn (m : Message) (code : ReturnCode) :
    (m.toInterestReturn code).length = m.raw.length := by
  rw [toInterestReturn, List.length_set, List.length_set]

theorem drop_withHopLimit (m : Message) (hopLimit : UInt8) :
    (m.withHopLimit hopLimit).drop 8 = m.raw.drop 8 :=
  List.drop_set_of_lt (by decide)

theorem drop_toInterestReturn (m : Message) (code : ReturnCode) :
    (m.toInterestReturn code).drop 8 = m.raw.drop 8 := by
  rw [toInterestReturn, List.drop_set_of_lt (by decide), List.drop_set_of_lt (by decide)]

/-- A copy with another hop limit is read as the packet is, but for the hop limit. -/
theorem parse_withHopLimit (h : parse raw = .ok m) (hopLimit : UInt8) :
    parse (m.withHopLimit hopLimit) =
      .ok { m with hopLimit, raw := m.withHopLimit hopLimit } := by
  obtain ⟨l, hof, hvalid, hgives⟩ := Layout.exists_of_parse h
  obtain rfl := hgives.raw
  have hpeek : FixedHeader.peek? (m.withHopLimit hopLimit) = _ :=
    FixedHeader.peek?_set_hopLimit hof.header hopLimit
  have hcopy := hof.withHeader hpeek (m.length_withHopLimit hopLimit) (m.drop_withHopLimit hopLimit)
    rfl hof.kind rfl rfl rfl
  rw [hgives.parse_copy hvalid hcopy rfl, ← hgives.kind]
  dsimp only
  rw [hgives.kind, ← hgives.returnCode]

/-- The copy that returns an Interest is read as the Interest is, but for its kind and the code. -/
theorem parse_toInterestReturn (h : parse raw = .ok m) (hkind : m.kind = .interest)
    (code : ReturnCode) :
    parse (m.toInterestReturn code) =
      .ok { m with
            kind := .interestReturn
            returnCode := some code
            raw := m.toInterestReturn code } := by
  obtain ⟨l, hof, hvalid, hgives⟩ := Layout.exists_of_parse h
  obtain rfl := hgives.raw
  have hpeek : FixedHeader.peek? (m.toInterestReturn code) = _ :=
    FixedHeader.peek?_set_kind_returnCode hof.header PacketKind.interestReturn.code code.code
  have hmessage : PacketKind.interestReturn.messageElement = l.kind.messageElement := by
    rw [← hgives.kind, hkind]
    rfl
  have hcopy := hof.withHeader hpeek (m.length_toInterestReturn code) (m.drop_toInterestReturn code)
    rfl rfl rfl rfl hmessage
  rw [hgives.parse_copy hvalid hcopy rfl]
  dsimp only
  rw [if_pos rfl, ReturnCode.ofCode?_code, ← hgives.hopLimit]

theorem readable_withHopLimit (h : parse raw = .ok m) (hopLimit : UInt8) :
    (m.withHopLimit hopLimit).Readable :=
  ⟨_, parse_withHopLimit h hopLimit⟩

theorem readable_toInterestReturn (h : parse raw = .ok m) (hkind : m.kind = .interest)
    (code : ReturnCode) : (m.toInterestReturn code).Readable :=
  ⟨_, parse_toInterestReturn h hkind code⟩

/-- What is read of a copy keeps the octets of the packet but at the offsets that were written, and
all that is computed from its body. -/
structure CopyOf (copy m : Message) (written : List Nat) : Prop where
  length : copy.raw.length = m.raw.length
  octets : ∀ i ∉ written, copy.raw[i]? = m.raw[i]?
  body : copy.body = m.body
  objectHash : copy.objectHash = m.objectHash
  fingerprint : copy.fingerprint = m.fingerprint

/-- A copy that differs only in the fixed header has the body of the packet, and what is computed
from the body follows. -/
theorem copyOf_of_header {copy : Message} {written : List Nat} (h : parse raw = .ok m)
    (hheader : copy.headerLength = m.headerLength) (hnonce : copy.nonce = m.nonce)
    (hlength : copy.raw.length = m.raw.length) (hoctets : ∀ i ∉ written, copy.raw[i]? = m.raw[i]?)
    (hregions : copy.raw.drop 8 = m.raw.drop 8) : copy.CopyOf m written := by
  obtain ⟨l, hof, -, hgives⟩ := Layout.exists_of_parse h
  have hskip : 8 + (m.headerLength - 8) = m.headerLength := by
    rw [hgives.headerLength]
    exact Nat.add_sub_of_le hof.size_le
  have hbody : copy.body = m.body := by
    rw [body, body, hheader, ← hskip, ← List.drop_drop, hregions, List.drop_drop]
  refine ⟨hlength, hoctets, hbody, ?_, ?_⟩
  · exact congrArg Digest.sha256 hbody
  · rw [fingerprint, hnonce, hbody, fingerprint]

/-- The copies of a packet can be read. They say what the packet says, but for the hop limit of the
one and the kind and the code of the other, and they have its body. -/
theorem copies_keep_content (h : parse raw = .ok m) :
    (∀ hopLimit, ∃ copy, parse (m.withHopLimit hopLimit) = .ok copy ∧
      copy = { m with hopLimit, raw := m.withHopLimit hopLimit } ∧
      copy.CopyOf m [FixedHeader.hopLimitOffset]) ∧
    (m.kind = .interest → ∀ code, ∃ copy, parse (m.toInterestReturn code) = .ok copy ∧
      copy = { m with
        kind := .interestReturn
        returnCode := some code
        raw := m.toInterestReturn code } ∧
      copy.CopyOf m [FixedHeader.kindOffset, FixedHeader.returnCodeOffset]) := by
  constructor
  · intro hopLimit
    refine ⟨_, parse_withHopLimit h hopLimit, rfl, copyOf_of_header h rfl rfl ?_ ?_ ?_⟩
    · exact m.length_withHopLimit hopLimit
    · intro i hi
      exact List.getElem?_set_ne (by simpa [eq_comm] using hi)
    · exact m.drop_withHopLimit hopLimit
  · intro hkind code
    refine ⟨_, parse_toInterestReturn h hkind code, rfl, copyOf_of_header h rfl rfl ?_ ?_ ?_⟩
    · exact m.length_toInterestReturn code
    · intro i hi
      obtain ⟨hfirst, hsecond⟩ : FixedHeader.kindOffset ≠ i ∧ FixedHeader.returnCodeOffset ≠ i := by
        simpa [eq_comm] using hi
      dsimp only
      rw [toInterestReturn, List.getElem?_set_ne hsecond, List.getElem?_set_ne hfirst]
    · exact m.drop_toInterestReturn code

/-- A Selective Interest without a nonce, with an option of no known kind and a key restriction:
both of its copies can be read, and its fingerprint, a hash of the body, is theirs. -/
theorem copies_keep_content_small :
    let raw : Octets := [1, 0, 0, 78, 32, 0, 7, 25, 0, 9, 0, 3, 1, 2, 3, 16, 2, 0, 6, 0, 0, 0, 5, 0,
      2, 0, 1, 0, 45, 0, 0, 0, 5, 0, 1, 0, 1, 97, 0, 2, 0, 32] ++ List.replicate 32 170 ++
        [0, 4, 0, 0]
    ∃ m, parse raw = .ok m ∧ m.kind = .interest ∧ m.selective = some ⟨5, 2⟩ ∧ m.nonce = none ∧
      (∃ copy, parse (m.withHopLimit 31) = .ok copy ∧ copy.hopLimit = 31 ∧
        copy.selective = some ⟨5, 2⟩ ∧ copy.fingerprint = m.fingerprint) ∧
      ∃ copy, parse (m.toInterestReturn .noRoute) = .ok copy ∧ copy.kind = .interestReturn ∧
        copy.returnCode = some .noRoute ∧ copy.fingerprint = m.fingerprint := by
  intro raw
  have hread : (parse raw).toOption.map (fun m => (m.kind, m.selective, m.nonce)) =
      some (.interest, some ⟨5, 2⟩, none) := by
    decide +kernel
  obtain ⟨m, hm, hfields⟩ := Option.map_eq_some_iff.1 hread
  obtain ⟨hkind, hselective, hnonce⟩ : m.kind = .interest ∧ m.selective = some ⟨5, 2⟩ ∧
      m.nonce = none := by
    simpa using hfields
  have hparse : parse raw = .ok m := toOption_eq_some_iff.1 hm
  obtain ⟨hhops, hreturns⟩ := copies_keep_content hparse
  obtain ⟨copy, hcopy, rfl, hkeeps⟩ := hhops 31
  obtain ⟨returned, hreturned, rfl, hreturnKeeps⟩ := hreturns hkind .noRoute
  exact ⟨m, hparse, hkind, hselective, hnonce,
    ⟨_, hcopy, rfl, hselective, hkeeps.fingerprint⟩,
    ⟨_, hreturned, rfl, rfl, hreturnKeeps.fingerprint⟩⟩

end Message
end NamedData
