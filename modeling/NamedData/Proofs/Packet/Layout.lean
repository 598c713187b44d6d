import NamedData.Proofs.Packet.Grammar

/-!
# Layouts of packets

A packet is a fixed header, a region of options and a region with the message and what follows it.
`Layout` names its parts, `Layout.Of` says that they fill the packet, and `Layout.Valid` that all of
them are allowed. The packets that can be read are those with a valid layout, and what is read of
them comes from the last element of each kind.
-/

namespace NamedData

variable {raw : Octets} {ts : List Tlv}

namespace FixedHeader

theorem peek?_encode_append (h : FixedHeader) (rest : Octets) :
    peek? (h.encode ++ rest) = some h := by
  have hlength : UInt16.ofNat (Octets.word16 (UInt8.ofNat (h.packetLength.toNat / 256))
      (UInt8.ofNat h.packetLength.toNat)) = h.packetLength := by
    rw [Octets.word16_ofNat, Nat.mod_eq_of_lt h.packetLength.toNat_lt, UInt16.ofNat_toNat]
  rw [encode, Octets.ofNat_two]
  simp only [List.cons_append, List.nil_append, peek?, hlength]

theorem peek?_eq_some_iff {h : FixedHeader} :
    peek? raw = some h ↔ ∃ rest, raw = h.encode ++ rest := by
  constructor
  · intro hpeek
    unfold peek? at hpeek
    split at hpeek
    · rename_i version kind l₁ l₀ hopLimit returnCode flags headerLength rest
      obtain rfl := Option.some.inj hpeek
      have hlength : (UInt16.ofNat (Octets.word16 l₁ l₀)).toNat = Octets.word16 l₁ l₀ := by
        rw [UInt16.toNat_ofNat']
        exact Nat.mod_eq_of_lt (Octets.word16_lt l₁ l₀)
      refine ⟨rest, ?_⟩
      rw [encode, hlength, Octets.ofNat_word16]
      rfl
    · cases hpeek
  · rintro ⟨rest, rfl⟩
    exact peek?_encode_append h rest

end FixedHeader

namespace PacketKind

theorem ofCode?_eq_some_iff {code : UInt8} {kind : PacketKind} :
    ofCode? code = some kind ↔ code = kind.code := by
  constructor
  · intro h
    rw [← UInt8.toNat_inj]
    unfold ofCode? at h
    split at h
    all_goals cases h
    all_goals assumption
  · rintro rfl
    exact ofCode?_code kind

end PacketKind

namespace Message

variable {m : Message} {kind : PacketKind} {region : Octets}

theorem checkHeader_eq_ok {header : FixedHeader} {length : Nat} {kind : PacketKind}
    (h : checkHeader header length = .ok kind) :
    header.version = FixedHeader.currentVersion ∧ PacketKind.ofCode? header.kind = some kind ∧
      header.packetLength.toNat = length ∧ FixedHeader.size ≤ header.headerLength.toNat ∧
      header.headerLength.toNat ≤ length := by
  unfold checkHeader at h
  split at h
  · cases h
  · rename_i hversion
    split at h
    · cases h
    · rename_i hkind
      split at h
      · cases h
      · rename_i hlength
        split at h
        · cases h
        · rename_i hheader
          rw [← Except.ok.inj h, hkind]
          exact ⟨Decidable.not_not.1 hversion, rfl, Decidable.not_not.1 hlength, by omega, by omega⟩

theorem checkHeader_eq_ok_iff {header : FixedHeader} {length : Nat} :
    checkHeader header length = .ok kind ↔
      header.version = 1 ∧ header.kind = kind.code ∧ header.packetLength.toNat = length ∧
        8 ≤ header.headerLength.toNat ∧ header.headerLength.toNat ≤ length := by
  rw [← PacketKind.ofCode?_eq_some_iff]
  constructor
  · exact checkHeader_eq_ok
  · rintro ⟨hversion, hkind, hlength, hmin, hmax⟩
    have hcurrent : ¬header.version ≠ FixedHeader.currentVersion := not_not_intro hversion
    have hfits : ¬(header.headerLength.toNat < FixedHeader.size ∨
        length < header.headerLength.toNat) :=
      not_or.2 ⟨Nat.not_lt.2 hmin, Nat.not_lt.2 hmax⟩
    rw [checkHeader, if_neg hcurrent, hkind]
    dsimp only
    rw [if_neg (not_not_intro hlength), if_neg hfits]

theorem readRegion_eq_ok_iff {parts : (Name × Option UInt32) × MessageFields × Validation} :
    readRegion kind region = .ok parts ↔ ∃ message trailer,
      Tlv.Tiled region (message :: trailer) ∧ message.kind = kind.messageElement ∧
        MessageFields.read message.value = .ok parts.2.1 ∧ parts.2.1.name = some parts.1 ∧
          trailer.foldlM Validation.apply {} = .ok parts.2.2 := by
  unfold readRegion
  constructor
  · intro h
    split at h
    · cases h
    · cases h
    · rename_i message trailer hread
      split at h
      · rename_i hkind
        obtain ⟨fields, hfields, hrest⟩ := bind_eq_ok_iff.1 h
        split at hrest
        · cases hrest
        · rename_i named hnamed
          obtain ⟨validation, hvalidation, hparts⟩ := bind_eq_ok_iff.1 hrest
          cases hparts
          exact ⟨message, trailer, Tlv.decodeAll_eq_ok_iff.1 hread, hkind, hfields, hnamed,
            hvalidation⟩
      · cases h
  · rintro ⟨message, trailer, htiled, hkind, hfields, hnamed, hvalidation⟩
    rw [Tlv.decodeAll_eq_ok_iff.2 htiled]
    dsimp only
    rw [if_pos hkind, bind_eq_ok_iff]
    refine ⟨parts.2.1, hfields, ?_⟩
    rw [hnamed]
    exact bind_eq_ok_iff.2 ⟨parts.2.2, hvalidation, rfl⟩

def assemble (raw : Octets) (header : FixedHeader) (kind : PacketKind) (options : HopOptions)
    (parts : (Name × Option UInt32) × MessageFields × Validation) : Message :=
  { options, parts.2.2 with
    kind
    name := parts.1.1
    chunk := parts.1.2
    headerLength := header.headerLength.toNat
    raw
    hopLimit := header.hopLimit
    returnCode := if kind = .interestReturn then ReturnCode.ofCode? header.returnCode else none
    keyIdRestriction := parts.2.1.keyIdRestriction
    objectHashRestriction := parts.2.1.objectHashRestriction
    payload := parts.2.1.payload
    expiry := parts.2.1.expiry }

theorem parse_eq_ok_iff : parse raw = .ok m ↔ ∃ header kind options parts,
    FixedHeader.peek? raw = some header ∧ checkHeader header raw.length = .ok kind ∧
      HopOptions.read ((raw.take header.headerLength.toNat).drop 8) = .ok options ∧
        readRegion kind (raw.drop header.headerLength.toNat) = .ok parts ∧
          m = assemble raw header kind options parts := by
  unfold parse
  cases FixedHeader.peek? raw with
  | none => simp
  | some header =>
    simp only [bind_eq_ok_iff, Except.ok.injEq]
    constructor
    · rintro ⟨kind, hcheck, options, hoptions, parts, hregion, rfl⟩
      exact ⟨header, kind, options, parts, rfl, hcheck, hoptions, hregion, rfl⟩
    · rintro ⟨_, kind, options, parts, ⟨⟩, hcheck, hoptions, hregion, rfl⟩
      exact ⟨kind, hcheck, options, hoptions, parts, hregion, rfl⟩

end Message

structure Layout where
  header : FixedHeader
  kind : PacketKind
  options : List Tlv
  message : Tlv
  fields : List Tlv
  trailer : List Tlv

namespace Layout

/-- The parts fill a packet. -/
structure Of (l : Layout) (raw : Octets) : Prop where
  header : FixedHeader.peek? raw = some l.header
  version : l.header.version = 1
  kind : l.header.kind = l.kind.code
  packetLength : l.header.packetLength.toNat = raw.length
  size_le : 8 ≤ l.header.headerLength.toNat
  headerLength_le : l.header.headerLength.toNat ≤ raw.length
  options : Tlv.Tiled ((raw.take l.header.headerLength.toNat).drop 8) l.options
  region : Tlv.Tiled (raw.drop l.header.headerLength.toNat) (l.message :: l.trailer)
  message : l.message.kind = l.kind.messageElement
  fields : Tlv.Tiled l.message.value l.fields

/-- Every part is as it should be, and there is a name. -/
structure Valid (l : Layout) : Prop where
  options : ∀ t ∈ l.options, HopOptions.Allows t
  fields : ∀ t ∈ l.fields, MessageFields.Allows t
  named : ∃ t ∈ l.fields, t.kind = Name.nameKind
  trailer : ∀ t ∈ l.trailer, Validation.Allows t

attribute [ext] Message

/-- What is read of a packet with these parts. -/
structure Gives (l : Layout) (raw : Octets) (m : Message) : Prop where
  raw : m.raw = raw
  kind : m.kind = l.kind
  hopLimit : m.hopLimit = l.header.hopLimit
  returnCode : m.returnCode =
    if l.kind = .interestReturn then ReturnCode.ofCode? l.header.returnCode else none
  headerLength : m.headerLength = l.header.headerLength.toNat
  lifetime : m.lifetime = (Tlv.lastOf? HopOptions.lifetimeKind l.options).map Tlv.number
  cacheTime : m.cacheTime = (Tlv.lastOf? HopOptions.cacheTimeKind l.options).map Tlv.number
  interestType : m.interestType = (Tlv.last?
    (fun t => t.kind = HopOptions.symbolicKind ∨ t.kind = HopOptions.selectiveKind)
      l.options).elim .regular fun t =>
        if t.kind = HopOptions.symbolicKind then .symbolic else .selective
  selective : m.selective = (Tlv.lastOf? HopOptions.selectiveKind l.options).map HopOptions.rangeOf
  nonce : m.nonce = (Tlv.lastOf? HopOptions.nonceKind l.options).map Tlv.number
  name : ∃ t segments, Tlv.lastOf? Name.nameKind l.fields = some t ∧ Tlv.Tiled t.value segments ∧
    m.name = Name.spelling segments ∧ m.chunk = Name.chunkOf segments
  payload : m.payload = (Tlv.lastOf? MessageFields.payloadKind l.fields).map (·.value)
  keyIdRestriction : m.keyIdRestriction.map (·.1) =
    (Tlv.lastOf? MessageFields.keyIdRestrictionKind l.fields).map (·.value)
  objectHashRestriction : m.objectHashRestriction.map (·.1) =
    (Tlv.lastOf? MessageFields.objectHashRestrictionKind l.fields).map (·.value)
  expiry : m.expiry = (Tlv.lastOf? MessageFields.expiryKind l.fields).map Tlv.number
  signed : m.signed = (Tlv.lastOf? Validation.algorithmKind l.trailer).isSome
  unsigned : Tlv.lastOf? Validation.algorithmKind l.trailer = none → m.keyId = none
  keyId : ∀ t, Tlv.lastOf? Validation.algorithmKind l.trailer = some t →
    ∃ blocks, Tlv.Tiled t.value blocks ∧ Validation.FirstKey blocks m.keyId

variable {l : Layout} {m : Message}

theorem name_foldl_set (ts : List Tlv) : (ts.foldl MessageFields.set {}).name =
    (Tlv.lastOf? Name.nameKind ts).bind fun t => (Name.ofTlv t).toOption :=
  Tlv.get_foldl_of_none MessageFields.name _ (fun _ _ => rfl) ts rfl

theorem keyId_foldl_set (ts : List Tlv) : (ts.foldl Validation.set {}).keyId =
    (Tlv.lastOf? Validation.algorithmKind ts).bind Validation.keyOf :=
  Tlv.get_foldl_of_none Validation.keyId _ (fun _ _ => rfl) ts rfl

theorem signed_foldl_set (ts : List Tlv) : (ts.foldl Validation.set {}).signed =
    (Tlv.lastOf? Validation.algorithmKind ts).isSome := by
  have hlast : (ts.foldl Validation.set {}).signed =
      (Tlv.lastOf? Validation.algorithmKind ts).elim false fun _ => true :=
    Tlv.get_foldl Validation.signed _ (fun _ _ => by simp [Validation.set]) ts {}
  rw [hlast]
  cases Tlv.lastOf? Validation.algorithmKind ts <;> rfl

theorem interestType_foldl_set (ts : List Tlv) : (ts.foldl HopOptions.set {}).interestType =
    (Tlv.last? (fun t => t.kind = HopOptions.symbolicKind ∨ t.kind = HopOptions.selectiveKind)
      ts).elim .regular fun t =>
        if t.kind = HopOptions.symbolicKind then .symbolic else .selective :=
  Tlv.get_foldl HopOptions.interestType _ (fun _ _ => by simp [HopOptions.set]) ts {}

theorem exists_name_iff (h : ∀ t ∈ ts, MessageFields.Allows t) :
    (∃ named, (ts.foldl MessageFields.set {}).name = some named) ↔
      ∃ t ∈ ts, t.kind = Name.nameKind := by
  rw [name_foldl_set]
  constructor
  · rintro ⟨named, hnamed⟩
    obtain ⟨t, hlast, -⟩ := Option.bind_eq_some_iff.1 hnamed
    exact ⟨t, Tlv.mem_of_lastOf? hlast⟩
  · rintro ⟨t, ht, hkind⟩
    cases hlast : Tlv.lastOf? Name.nameKind ts with
    | none => exact absurd (by simpa using hkind) (Tlv.last?_eq_none_iff.1 hlast t ht)
    | some last =>
      obtain ⟨hmem, hname⟩ := Tlv.mem_of_lastOf? hlast
      obtain ⟨named, hnamed⟩ := (MessageFields.exists_ofTlv_iff hname).2 ((h last hmem).1 hname)
      exact ⟨named, toOption_eq_some_iff.2 hnamed⟩

theorem restriction_of_last {kind : TlvKind}
    (hkind : kind = MessageFields.keyIdRestrictionKind ∨
      kind = MessageFields.objectHashRestrictionKind)
    (h : ∀ t ∈ ts, MessageFields.Allows t) :
    ((Tlv.lastOf? kind ts).bind fun t => (MessageFields.readDigest t.value).toOption).map (·.1) =
      (Tlv.lastOf? kind ts).map (·.value) := by
  cases hlast : Tlv.lastOf? kind ts with
  | none => rfl
  | some t =>
    obtain ⟨hmem, rfl⟩ := Tlv.mem_of_lastOf? hlast
    obtain ⟨d, hread⟩ := MessageFields.exists_readDigest_iff.2 ((h t hmem).2.1 hkind)
    rw [Option.bind_some, toOption_eq_some_iff.2 hread]
    exact congrArg some (MessageFields.readDigest_eq_ok_iff.1 hread).symm

/-- What is read part by part comes from the last element of each kind. -/
theorem gives_assemble {named : Name × Option UInt32} (hvalid : l.Valid)
    (hnamed : (l.fields.foldl MessageFields.set {}).name = some named) :
    l.Gives raw (.assemble raw l.header l.kind (l.options.foldl HopOptions.set {})
      (named, l.fields.foldl MessageFields.set {}, l.trailer.foldl Validation.set {})) where
  raw := rfl
  kind := rfl
  hopLimit := rfl
  returnCode := rfl
  headerLength := rfl
  lifetime := Tlv.get_foldl_eq_map HopOptions.lifetime _ (fun _ _ => rfl) _ rfl
  cacheTime := Tlv.get_foldl_eq_map HopOptions.cacheTime _ (fun _ _ => rfl) _ rfl
  interestType := interestType_foldl_set _
  selective := Tlv.get_foldl_eq_map HopOptions.selective _ (fun _ _ => rfl) _ rfl
  nonce := Tlv.get_foldl_eq_map HopOptions.nonce _ (fun _ _ => rfl) _ rfl
  name := by
    rw [name_foldl_set] at hnamed
    obtain ⟨t, hlast, hread⟩ := Option.bind_eq_some_iff.1 hnamed
    have hkind := (Tlv.mem_of_lastOf? hlast).2
    obtain ⟨segments, htiled, -, rfl⟩ :=
      (Name.ofTlv_eq_ok_iff hkind).1 (toOption_eq_some_iff.1 hread)
    exact ⟨t, segments, hlast, htiled, rfl, rfl⟩
  payload := Tlv.get_foldl_eq_map MessageFields.payload _ (fun _ _ => rfl) _ rfl
  keyIdRestriction := by
    rw [← restriction_of_last (.inl rfl) hvalid.fields]
    exact congrArg _ (Tlv.get_foldl_of_none MessageFields.keyIdRestriction _ (fun _ _ => rfl) _ rfl)
  objectHashRestriction := by
    rw [← restriction_of_last (.inr rfl) hvalid.fields]
    exact congrArg _
      (Tlv.get_foldl_of_none MessageFields.objectHashRestriction _ (fun _ _ => rfl) _ rfl)
  expiry := Tlv.get_foldl_eq_map MessageFields.expiry _ (fun _ _ => rfl) _ rfl
  signed := signed_foldl_set _
  unsigned := by
    intro hnone
    exact (keyId_foldl_set _).trans (by rw [hnone]; rfl)
  keyId := by
    intro t hlast
    obtain ⟨hmem, hkind⟩ := Tlv.mem_of_lastOf? hlast
    rcases hvalid.trailer t hmem with hpayload | ⟨-, blocks, key, htiled, hkey⟩
    · rw [hkind] at hpayload
      cases hpayload
    · refine ⟨blocks, htiled, ?_⟩
      have hlastKey : (l.trailer.foldl Validation.set {}).keyId = key := by
        rw [keyId_foldl_set, hlast, Option.bind_some, Validation.keyOf_eq htiled hkey]
      exact hlastKey ▸ hkey

theorem exists_of_parse (h : Message.parse raw = .ok m) :
    ∃ l : Layout, l.Of raw ∧ l.Valid ∧ l.Gives raw m := by
  obtain ⟨header, kind, options, ⟨named, fields, validation⟩, hpeek, hcheck, hoptions, hregion,
    rfl⟩ := Message.parse_eq_ok_iff.1 h
  obtain ⟨hversion, hkind, hlength, hmin, hmax⟩ := Message.checkHeader_eq_ok_iff.1 hcheck
  obtain ⟨os, hos, hallowedOptions, rfl⟩ := HopOptions.read_eq_ok_iff.1 hoptions
  obtain ⟨message, trailer, htiled, hmessage, hfields, hnamed, hvalidation⟩ :=
    Message.readRegion_eq_ok_iff.1 hregion
  obtain ⟨fs, hfs, hallowedFields, rfl⟩ := MessageFields.read_eq_ok_iff.1 hfields
  obtain ⟨hallowedTrailer, rfl⟩ :=
    (Tlv.foldlM_eq_ok_iff Validation.apply_eq_ok_iff).1 hvalidation
  let l : Layout := ⟨header, kind, os, message, fs, trailer⟩
  have hvalid : l.Valid :=
    ⟨hallowedOptions, hallowedFields, (exists_name_iff hallowedFields).1 ⟨named, hnamed⟩,
      hallowedTrailer⟩
  exact ⟨l, ⟨hpeek, hversion, hkind, hlength, hmin, hmax, hos, htiled, hmessage, hfs⟩, hvalid,
    gives_assemble hvalid hnamed⟩

theorem exists_parse_of (h : l.Of raw) (hvalid : l.Valid) :
    ∃ m, Message.parse raw = .ok m ∧ l.Gives raw m := by
  obtain ⟨named, hnamed⟩ := (exists_name_iff hvalid.fields).2 hvalid.named
  refine ⟨_, Message.parse_eq_ok_iff.2 ⟨l.header, l.kind, _, (named, _, _), h.header, ?_, ?_, ?_,
    rfl⟩, gives_assemble hvalid hnamed⟩
  · exact Message.checkHeader_eq_ok_iff.2
      ⟨h.version, h.kind, h.packetLength, h.size_le, h.headerLength_le⟩
  · exact HopOptions.read_eq_ok_iff.2 ⟨_, h.options, hvalid.options, rfl⟩
  · apply Message.readRegion_eq_ok_iff.2
    refine ⟨l.message, l.trailer, h.region, h.message, ?_, hnamed, ?_⟩
    · exact MessageFields.read_eq_ok_iff.2 ⟨_, h.fields, hvalid.fields, rfl⟩
    · exact (Tlv.foldlM_eq_ok_iff Validation.apply_eq_ok_iff).2 ⟨hvalid.trailer, rfl⟩

/-- The parts of a packet are determined by it. -/
theorem Of.unique {l' : Layout} (h : l.Of raw) (h' : l'.Of raw) : l = l' := by
  obtain ⟨header, kind, options, message, fields, trailer⟩ := l
  obtain ⟨header', kind', options', message', fields', trailer'⟩ := l'
  obtain rfl : header = header' := Option.some.inj (h.header.symm.trans h'.header)
  obtain rfl : options = options' := h.options.unique h'.options
  obtain ⟨rfl, rfl⟩ := List.cons.inj (h.region.unique h'.region)
  obtain rfl : fields = fields' := h.fields.unique h'.fields
  have hkind : some kind = some kind' := by
    rw [← PacketKind.ofCode?_eq_some_iff.2 h.kind, PacketKind.ofCode?_eq_some_iff.2 h'.kind]
  rw [Option.some.inj hkind]

namespace Gives

variable {m' : Message} (h : l.Gives raw m) (h' : l.Gives raw m')
include h h'

theorem name_unique : m.name = m'.name ∧ m.chunk = m'.chunk := by
  obtain ⟨t, segments, hlast, htiled, hname, hchunk⟩ := h.name
  obtain ⟨t', segments', hlast', htiled', hname', hchunk'⟩ := h'.name
  obtain rfl : t = t' := Option.some.inj (hlast.symm.trans hlast')
  obtain rfl : segments = segments' := htiled.unique htiled'
  exact ⟨hname.trans hname'.symm, hchunk.trans hchunk'.symm⟩

theorem keyId_unique : m.keyId = m'.keyId := by
  cases hlast : Tlv.lastOf? Validation.algorithmKind l.trailer with
  | none => rw [h.unsigned hlast, h'.unsigned hlast]
  | some t =>
    obtain ⟨blocks, htiled, hkey⟩ := h.keyId t hlast
    obtain ⟨blocks', htiled', hkey'⟩ := h'.keyId t hlast
    obtain rfl : blocks = blocks' := htiled.unique htiled'
    exact hkey.unique hkey'

theorem unique : m = m' := by
  have hdigest : ∀ d d' : Option Digest, d.map (·.1) = d'.map (·.1) → d = d' :=
    fun _ _ hd => Option.map_injective (fun _ _ => Subtype.ext) hd
  apply Message.ext
  case name => exact (h.name_unique h').1
  case chunk => exact (h.name_unique h').2
  case keyId => exact h.keyId_unique h'
  case keyIdRestriction =>
    exact hdigest _ _ (h.keyIdRestriction.trans h'.keyIdRestriction.symm)
  case objectHashRestriction =>
    exact hdigest _ _ (h.objectHashRestriction.trans h'.objectHashRestriction.symm)
  case lifetime => exact h.lifetime.trans h'.lifetime.symm
  case cacheTime => exact h.cacheTime.trans h'.cacheTime.symm
  case interestType => exact h.interestType.trans h'.interestType.symm
  case selective => exact h.selective.trans h'.selective.symm
  case nonce => exact h.nonce.trans h'.nonce.symm
  case signed => exact h.signed.trans h'.signed.symm
  case kind => exact h.kind.trans h'.kind.symm
  case hopLimit => exact h.hopLimit.trans h'.hopLimit.symm
  case returnCode => exact h.returnCode.trans h'.returnCode.symm
  case payload => exact h.payload.trans h'.payload.symm
  case expiry => exact h.expiry.trans h'.expiry.symm
  case headerLength => exact h.headerLength.trans h'.headerLength.symm
  case raw => exact h.raw.trans h'.raw.symm

end Gives
end Layout

/-- The packets that can be read are those with a valid layout, and what is read of one is what its
layout gives. -/
theorem Message.parse_iff_layout (raw : Octets) :
    ((∃ m, parse raw = .ok m) ↔ ∃ l : Layout, l.Of raw ∧ l.Valid) ∧
      ∀ m, parse raw = .ok m ↔ ∃ l : Layout, l.Of raw ∧ l.Valid ∧ l.Gives raw m := by
  constructor
  · constructor
    · rintro ⟨m, hparse⟩
      obtain ⟨l, hof, hvalid, -⟩ := Layout.exists_of_parse hparse
      exact ⟨l, hof, hvalid⟩
    · rintro ⟨l, hof, hvalid⟩
      obtain ⟨m, hparse, -⟩ := Layout.exists_parse_of hof hvalid
      exact ⟨m, hparse⟩
  · intro m
    constructor
    · exact Layout.exists_of_parse
    · rintro ⟨l, hof, hvalid, hgives⟩
      obtain ⟨m', hparse, hgives'⟩ := Layout.exists_parse_of hof hvalid
      rw [hgives.unique hgives', hparse]

/-- Of two lifetimes the last one counts, and an option of no known kind may stand between them. -/
example : (Message.parse [1, 0, 0, 35, 32, 0, 0, 22, 0, 1, 0, 1, 5, 0, 9, 0, 0, 0, 1, 0, 1, 7,
    0, 1, 0, 9, 0, 0, 0, 5, 0, 1, 0, 1, 97]).toOption.map (·.lifetime) = some (some 7) := by
  decide +kernel

end NamedData
