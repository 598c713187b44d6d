import Mathlib.Algebra.Order.BigOperators.Group.List
import Mathlib.Algebra.Order.Group.Nat
import NamedData.Packet.Draft
import NamedData.Proofs.Packet.Layout

/-!
# Packets that are written

What is written of a draft fills a packet with a layout of its own: the options, the fields and the
block with the key, each where the draft has it. If the packet is not too large then every length in
it fits its field, so the layout is valid and the packet can be read. Each field is there at most
once, and so what is read is what was drafted.
-/

namespace NamedData

/-! ## Elements that are written -/

namespace Tlv

variable {kind k : TlvKind} {ts : List Tlv}

theorem encodeAll_append (front back : List Tlv) :
    encodeAll (front ++ back) = encodeAll front ++ encodeAll back :=
  List.flatMap_append

theorem length_encodeAll (ts : List Tlv) : (encodeAll ts).length = (ts.map size).sum := by
  rw [encodeAll, List.length_flatMap]
  simp only [length_encode]

theorem size_le_of_mem {t : Tlv} (h : t ∈ ts) : t.size ≤ (ts.map size).sum :=
  List.le_sum_of_mem (List.mem_map_of_mem h)

theorem tiled_encodeAll (h : (ts.map size).sum ≤ 65535) : Tiled (encodeAll ts) ts := by
  refine ⟨rfl, ?_⟩
  intro t ht
  have hle : headerSize + t.value.length ≤ (ts.map size).sum := size_le_of_mem ht
  unfold Fits
  omega

theorem size_ofUInt64_le (kind : TlvKind) (n : UInt64) : (ofUInt64 kind n).size ≤ 12 :=
  Nat.add_le_add_left (Octets.length_ofUInt64_le n) 4

theorem size_toList_map_le {α : Type} {f : α → Tlv} {n : Nat} (hf : ∀ a, (f a).size ≤ n)
    (o : Option α) : ((o.toList.map f).map size).sum ≤ n := by
  cases o with
  | none => exact Nat.zero_le n
  | some a => exact hf a

theorem last?_singleton {p : Tlv → Bool} (t : Tlv) :
    last? p [t] = if p t then some t else none := by
  rw [last?_cons]
  rfl

theorem last?_toList_map {α : Type} (q : TlvKind → Bool) (kind : TlvKind) (v : α → Octets)
    (o : Option α) : last? (fun t => q t.kind) (o.toList.map fun a => ⟨kind, v a⟩) =
      if q kind then o.map fun a => ⟨kind, v a⟩ else none := by
  cases o with
  | none => cases q kind <;> rfl
  | some a => exact last?_singleton _

theorem last?_toList_ofUInt64 (q : TlvKind → Bool) (kind : TlvKind) (o : Option UInt64) :
    last? (fun t => q t.kind) (o.toList.map (ofUInt64 kind)) =
      if q kind then o.map (ofUInt64 kind) else none :=
  last?_toList_map q kind Octets.ofUInt64 o

theorem map_number_ofUInt64 (kind : TlvKind) (o : Option UInt64) :
    (o.map (ofUInt64 kind)).map number = o := by
  rw [Option.map_map]
  cases o <;> simp [number_ofUInt64]

end Tlv

namespace Name

def segments (n : Name) (chunk : Option UInt32) : List Tlv :=
  n.components.map (fun c => ⟨segmentKind, c⟩) ++
    chunk.toList.map fun c => Tlv.ofUInt64 chunkKind c.toUInt64

variable (n : Name) (chunk : Option UInt32)

theorem wireValue_eq : n.wireValue chunk = Tlv.encodeAll (n.segments chunk) :=
  (Tlv.encodeAll_append _ _).symm

theorem spelling_segments : spelling (n.segments chunk) = n := by
  have hcomponents : (n.components.map fun c => (⟨segmentKind, c⟩ : Tlv)).filter
      (·.kind ≠ chunkKind) = n.components.map fun c => ⟨segmentKind, c⟩ := by
    apply List.filter_eq_self.2
    intro s hs
    obtain ⟨c, -, rfl⟩ := List.mem_map.1 hs
    rfl
  have hchunk : (chunk.toList.map fun c => Tlv.ofUInt64 chunkKind c.toUInt64).filter
      (·.kind ≠ chunkKind) = [] := by
    apply List.filter_eq_nil_iff.2
    intro s hs
    obtain ⟨c, -, rfl⟩ := List.mem_map.1 hs
    simp [Tlv.ofUInt64]
  rw [spelling, segments, List.filter_append, hcomponents, hchunk, List.append_nil, List.map_map]
  simp [Function.comp_def]

theorem chunkOf_segments : chunkOf (n.segments chunk) = chunk := by
  have hnone : Tlv.lastOf? chunkKind (n.components.map fun c => ⟨segmentKind, c⟩) = none := by
    apply Tlv.last?_eq_none_iff.2
    intro s hs
    obtain ⟨c, -, rfl⟩ := List.mem_map.1 hs
    exact Bool.false_ne_true
  have hlast : Tlv.lastOf? chunkKind (n.segments chunk) =
      chunk.map fun c => Tlv.ofUInt64 chunkKind c.toUInt64 := by
    have hchunk := Tlv.last?_toList_map (· = chunkKind) chunkKind
      (fun c : UInt32 => Octets.ofUInt64 c.toUInt64) chunk
    rw [Tlv.lastOf?, segments, Tlv.last?_append, ← Tlv.lastOf?, ← Tlv.lastOf?, hnone,
      Option.or_none]
    exact hchunk
  rw [chunkOf, ← Tlv.lastOf?, hlast, Option.map_map]
  cases chunk <;> simp [Tlv.number_ofUInt64]

theorem spelled_segments (h : n.size ≤ 64) : Spelled (n.segments chunk) where
  components_le := by
    have hspelling := congrArg size (n.spelling_segments chunk)
    rw [size, spelling, List.length_map] at hspelling
    exact hspelling ▸ h
  chunks := by
    intro s hs hkind
    rcases List.mem_append.1 hs with hcomponent | hchunk
    · obtain ⟨c, -, rfl⟩ := List.mem_map.1 hcomponent
      cases hkind
    · obtain ⟨c, -, rfl⟩ := List.mem_map.1 hchunk
      refine ⟨Tlv.numeric_ofUInt64 _ _, ?_⟩
      rw [Tlv.ofUInt64, Octets.toNat_ofUInt64, UInt32.toNat_toUInt64]
      exact c.toNat_lt

end Name

/-! ## The size of a packet -/

def Span.elements : Span → List Tlv
  | .single => []
  | .window => [⟨HopOptions.symbolicKind, []⟩]
  | .run r => [⟨HopOptions.selectiveKind,
      Octets.ofNat 4 r.first.toNat ++ Octets.ofNat 2 r.count.toNat⟩]

namespace Draft

variable {d : Draft} {bytes : Octets}

def size (d : Draft) : Nat :=
  FixedHeader.size + (d.options.map Tlv.size).sum + (d.region.map Tlv.size).sum

/-- The header that is written, if the packet is not too large. -/
def header (d : Draft) : FixedHeader where
  version := FixedHeader.currentVersion
  kind := d.kind.code
  packetLength := UInt16.ofNat d.size
  hopLimit := d.hopLimit
  returnCode := d.writtenReturnCode
  flags := 0
  headerLength := UInt8.ofNat (FixedHeader.size + (d.options.map Tlv.size).sum)

theorem options_eq (d : Draft) : d.options =
    d.lifetime.toList.map (Tlv.ofUInt64 HopOptions.lifetimeKind) ++
    d.cacheTime.toList.map (Tlv.ofUInt64 HopOptions.cacheTimeKind) ++ d.span.elements ++
    d.nonce.toList.map fun n => ⟨HopOptions.nonceKind, Octets.ofNat 8 n.toNat⟩ := by
  rw [options]
  cases d.span <;> rfl

/-- The options never take up more than 46 octets. -/
theorem size_options_le (d : Draft) : (d.options.map Tlv.size).sum ≤ 46 := by
  have hlifetime := Tlv.size_toList_map_le (Tlv.size_ofUInt64_le HopOptions.lifetimeKind) d.lifetime
  have hcacheTime :=
    Tlv.size_toList_map_le (Tlv.size_ofUInt64_le HopOptions.cacheTimeKind) d.cacheTime
  have hspan : (d.span.elements.map Tlv.size).sum ≤ 10 := by
    cases d.span with
    | single | window => decide
    | run r => exact Nat.le_refl _
  have hnonce := Tlv.size_toList_map_le (n := 12)
    (f := fun n : UInt64 => ⟨HopOptions.nonceKind, Octets.ofNat 8 n.toNat⟩)
    (fun _ => Nat.le_refl _) d.nonce
  simp only [options_eq, List.map_append, List.sum_append]
  omega

/-- A draft is written if and only if it is not too large; the header never is. -/
theorem encode_eq (d : Draft) : d.encode =
    if 65535 < d.size then .error (.packetTooLarge d.size)
    else .ok (d.header.encode ++ Tlv.encodeAll d.options ++ Tlv.encodeAll d.region) := by
  have hroom : ¬255 < FixedHeader.size + (Tlv.encodeAll d.options).length := by
    have hle := d.size_options_le
    rw [Tlv.length_encodeAll, FixedHeader.size]
    omega
  rw [encode]
  dsimp only
  rw [if_neg hroom, Tlv.length_encodeAll, Tlv.length_encodeAll]
  rfl

/-! ## The layout of a packet that is written -/

def layout (d : Draft) : Layout where
  header := d.header
  kind := d.kind
  options := d.options
  message := ⟨d.kind.messageElement, Tlv.encodeAll d.fields⟩
  fields := d.fields
  trailer := d.keyId.toList.flatMap validation

theorem size_fields_le (d : Draft) :
    (d.fields.map Tlv.size).sum ≤ (d.region.map Tlv.size).sum := by
  rw [region, List.map_cons, List.sum_cons, Tlv.size, Tlv.length_encodeAll]
  omega

theorem tiled_fields (h : d.size ≤ 65535) : Tlv.Tiled (Tlv.encodeAll d.fields) d.fields := by
  have hle := d.size_fields_le
  unfold size at h
  exact Tlv.tiled_encodeAll (by omega)

theorem toNat_headerLength (d : Draft) : d.header.headerLength.toNat =
    FixedHeader.size + (d.options.map Tlv.size).sum := by
  have hle := d.size_options_le
  apply Nat.mod_eq_of_lt
  rw [FixedHeader.size]
  omega

theorem length_front (d : Draft) : (d.header.encode ++ Tlv.encodeAll d.options).length =
    FixedHeader.size + (d.options.map Tlv.size).sum := by
  rw [List.length_append, FixedHeader.length_encode, Tlv.length_encodeAll]

theorem length_written (d : Draft) :
    (d.header.encode ++ Tlv.encodeAll d.options ++ Tlv.encodeAll d.region).length = d.size := by
  rw [List.length_append, length_front, Tlv.length_encodeAll, size]

theorem layout_of (h : d.size ≤ 65535) :
    d.layout.Of (d.header.encode ++ Tlv.encodeAll d.options ++ Tlv.encodeAll d.region) where
  header := by
    rw [List.append_assoc]
    exact FixedHeader.peek?_encode_append _ _
  version := rfl
  kind := rfl
  packetLength := by
    rw [length_written]
    exact Nat.mod_eq_of_lt (Nat.lt_succ_of_le h)
  size_le := by
    change 8 ≤ d.header.headerLength.toNat
    rw [toNat_headerLength]
    exact Nat.le_add_right 8 _
  headerLength_le := by
    change d.header.headerLength.toNat ≤ _
    rw [toNat_headerLength, length_written]
    exact Nat.le_add_right _ _
  options := by
    change Tlv.Tiled ((List.take d.header.headerLength.toNat _).drop 8) d.options
    rw [toNat_headerLength, ← length_front, List.take_left]
    exact Tlv.tiled_encodeAll (d.size_options_le.trans (by decide))
  region := by
    change Tlv.Tiled (List.drop d.header.headerLength.toNat _) d.region
    rw [toNat_headerLength, ← length_front, List.drop_left]
    unfold size at h
    exact Tlv.tiled_encodeAll (by omega)
  message := rfl
  fields := tiled_fields h

theorem firstKey_validation (key : Digest) : ∃ blocks,
    Tlv.Tiled (⟨Validation.checksumKind,
      (⟨Validation.keyIdKind, key.1⟩ : Tlv).encode⟩ : Tlv).encode blocks ∧
        Validation.FirstKey blocks (some key) := by
  have hkey : ((⟨Validation.keyIdKind, key.1⟩ : Tlv).encode).length = 36 := by
    rw [Tlv.length_encode, Tlv.size, key.2]
    rfl
  have hfield : Tlv.Tiled (⟨Validation.keyIdKind, key.1⟩ : Tlv).encode
      ([] ++ ⟨Validation.keyIdKind, key.1⟩ :: []) := by
    refine ⟨(List.append_nil _).symm, ?_⟩
    intro t ht
    obtain rfl := List.mem_singleton.1 ht
    exact key.2.trans_lt (by decide)
  refine ⟨[⟨Validation.checksumKind, (⟨Validation.keyIdKind, key.1⟩ : Tlv).encode⟩],
    ⟨(List.append_nil _).symm, ?_⟩, .found hfield (List.forall_mem_nil _) rfl rfl⟩
  intro t ht
  obtain rfl := List.mem_singleton.1 ht
  exact hkey.trans_lt (by decide)

theorem allows_options (d : Draft) : ∀ t ∈ d.options, HopOptions.Allows t := by
  intro t ht
  rw [options_eq] at ht
  simp only [List.mem_append, List.mem_map, Option.mem_toList] at ht
  rcases ht with ((⟨n, -, rfl⟩ | ⟨n, -, rfl⟩) | hspan) | ⟨n, -, rfl⟩
  · exact ⟨fun _ => Tlv.numeric_ofUInt64 _ n, nofun⟩
  · exact ⟨fun _ => Tlv.numeric_ofUInt64 _ n, nofun⟩
  · cases hd : d.span with
    | single =>
      rw [hd] at hspan
      cases hspan
    | window =>
      rw [hd] at hspan
      obtain rfl := List.mem_singleton.1 hspan
      exact ⟨nofun, nofun⟩
    | run r =>
      rw [hd] at hspan
      obtain rfl := List.mem_singleton.1 hspan
      exact ⟨nofun, fun _ => rfl⟩
  · refine ⟨fun _ => ?_, nofun⟩
    rw [Tlv.Numeric, Octets.length_ofNat]
    decide

theorem tiled_name (h : d.size ≤ 65535) :
    Tlv.Tiled (d.name.wireValue d.chunk) (d.name.segments d.chunk) := by
  have hname : (d.name.toTlv d.chunk).size ≤ (d.fields.map Tlv.size).sum := by
    apply Tlv.size_le_of_mem
    simp [fields]
  have hfields := d.size_fields_le
  rw [Name.wireValue_eq]
  apply Tlv.tiled_encodeAll
  rw [Name.toTlv, Tlv.size, Name.wireValue_eq, Tlv.length_encodeAll] at hname
  unfold size at h
  omega

theorem allows_fields (hname : d.name.size ≤ 64) (h : d.size ≤ 65535) :
    ∀ t ∈ d.fields, MessageFields.Allows t := by
  intro t ht
  simp only [fields, List.mem_append, List.mem_map, Option.mem_toList, List.mem_singleton] at ht
  rcases ht with (((rfl | ⟨k, -, rfl⟩) | ⟨k, -, rfl⟩) | ⟨n, -, rfl⟩) | ⟨p, -, rfl⟩
  · exact ⟨fun _ => ⟨_, tiled_name h, d.name.spelled_segments d.chunk hname⟩, nofun, nofun⟩
  · exact ⟨nofun, fun _ => k.2, nofun⟩
  · exact ⟨nofun, fun _ => k.2, nofun⟩
  · exact ⟨nofun, nofun, fun _ => Tlv.numeric_ofUInt64 _ n⟩
  · exact ⟨nofun, nofun, nofun⟩

theorem layout_valid (hname : d.name.size ≤ 64) (h : d.size ≤ 65535) : d.layout.Valid where
  options := d.allows_options
  fields := allows_fields hname h
  named := ⟨d.name.toTlv d.chunk, by simp [layout, fields], rfl⟩
  trailer := by
    intro t ht
    obtain ⟨key, -, hkey⟩ := List.mem_flatMap.1 ht
    rcases List.mem_cons.1 hkey with rfl | hpayload
    · obtain ⟨blocks, htiled, hfirst⟩ := firstKey_validation key
      exact .inr ⟨rfl, blocks, some key, htiled, hfirst⟩
    · obtain rfl := List.mem_singleton.1 hpayload
      exact .inl rfl

/-! ## What is read -/

variable (d)

theorem last?_options (q : TlvKind → Bool) : Tlv.last? (fun t => q t.kind) d.options =
    (if q HopOptions.nonceKind then
      d.nonce.map fun n => ⟨HopOptions.nonceKind, Octets.ofNat 8 n.toNat⟩ else none).or
    ((Tlv.last? (fun t => q t.kind) d.span.elements).or
    ((if q HopOptions.cacheTimeKind then
      d.cacheTime.map (Tlv.ofUInt64 HopOptions.cacheTimeKind) else none).or
    (if q HopOptions.lifetimeKind then
      d.lifetime.map (Tlv.ofUInt64 HopOptions.lifetimeKind) else none))) := by
  rw [options_eq, Tlv.last?_append, Tlv.last?_append, Tlv.last?_append, Tlv.last?_toList_map,
    Tlv.last?_toList_ofUInt64, Tlv.last?_toList_ofUInt64]

theorem last?_fields (q : TlvKind → Bool) : Tlv.last? (fun t => q t.kind) d.fields =
    (if q MessageFields.payloadKind then
      d.payload.map fun p => ⟨MessageFields.payloadKind, p⟩ else none).or
    ((if q MessageFields.expiryKind then
      d.expiry.map (Tlv.ofUInt64 MessageFields.expiryKind) else none).or
    ((if q MessageFields.objectHashRestrictionKind then
      d.objectHashRestriction.map fun h => ⟨MessageFields.objectHashRestrictionKind, h.1⟩
        else none).or
    ((if q MessageFields.keyIdRestrictionKind then
      d.keyIdRestriction.map fun k => ⟨MessageFields.keyIdRestrictionKind, k.1⟩ else none).or
    (if q Name.nameKind then some (d.name.toTlv d.chunk) else none)))) := by
  rw [fields, Tlv.last?_append, Tlv.last?_append, Tlv.last?_append, Tlv.last?_append,
    Tlv.last?_toList_map, Tlv.last?_toList_map, Tlv.last?_toList_map, Tlv.last?_toList_ofUInt64,
    Tlv.last?_singleton]
  rfl

structure Agrees (d : Draft) (m : Message) : Prop where
  kind : m.kind = d.kind
  name : m.name = d.name
  chunk : m.chunk = d.chunk
  hopLimit : m.hopLimit = d.hopLimit
  returnCode : m.returnCode = if d.kind = .interestReturn then d.returnCode else none
  lifetime : m.lifetime = d.lifetime
  cacheTime : m.cacheTime = d.cacheTime
  interestType : m.interestType = d.span.interestType
  selective : m.selective = d.span.range?
  nonce : m.nonce = d.nonce
  keyIdRestriction : m.keyIdRestriction = d.keyIdRestriction
  objectHashRestriction : m.objectHashRestriction = d.objectHashRestriction
  keyId : m.keyId = d.keyId
  signed : m.signed = d.keyId.isSome
  expiry : m.expiry = d.expiry
  payload : m.payload = d.payload

variable {d}

theorem lastOf?_lifetime : Tlv.lastOf? HopOptions.lifetimeKind d.options =
    d.lifetime.map (Tlv.ofUInt64 HopOptions.lifetimeKind) := by
  refine (d.last?_options (· = HopOptions.lifetimeKind)).trans ?_
  -- no element of a span is of this kind
  cases d.span <;> rfl

theorem lastOf?_cacheTime : Tlv.lastOf? HopOptions.cacheTimeKind d.options =
    d.cacheTime.map (Tlv.ofUInt64 HopOptions.cacheTimeKind) := by
  refine (d.last?_options (· = HopOptions.cacheTimeKind)).trans ?_
  cases d.span <;> exact Option.or_none

theorem lastOf?_nonce : Tlv.lastOf? HopOptions.nonceKind d.options =
    d.nonce.map fun n => ⟨HopOptions.nonceKind, Octets.ofNat 8 n.toNat⟩ := by
  refine (d.last?_options (· = HopOptions.nonceKind)).trans ?_
  cases d.span <;> exact Option.or_none

theorem last?_span (q : TlvKind → Bool) (hnonce : ¬q HopOptions.nonceKind)
    (hcacheTime : ¬q HopOptions.cacheTimeKind) (hlifetime : ¬q HopOptions.lifetimeKind) :
    Tlv.last? (fun t => q t.kind) d.options = Tlv.last? (fun t => q t.kind) d.span.elements := by
  rw [last?_options, if_neg hnonce, if_neg hcacheTime, if_neg hlifetime, Option.none_or,
    Option.or_none, Option.or_none]

theorem rangeOf_encoded (r : ChunkRange) : HopOptions.rangeOf ⟨HopOptions.selectiveKind,
    Octets.ofNat 4 r.first.toNat ++ Octets.ofNat 2 r.count.toNat⟩ = r := by
  have hfirst := Octets.length_ofNat 4 r.first.toNat
  rw [HopOptions.rangeOf, List.take_left' hfirst, List.drop_left' hfirst,
    Octets.toNat_ofNat_of_lt r.first.toNat_lt, Octets.toNat_ofNat_of_lt r.count.toNat_lt,
    UInt32.ofNat_toNat, UInt16.ofNat_toNat]

theorem ofCode?_writtenReturnCode :
    (if d.kind = .interestReturn then ReturnCode.ofCode? d.writtenReturnCode else none) =
      if d.kind = .interestReturn then d.returnCode else none := by
  by_cases hkind : d.kind = .interestReturn
  · rw [if_pos hkind, if_pos hkind, writtenReturnCode, hkind]
    cases d.returnCode with
    | none => rfl
    | some code => exact ReturnCode.ofCode?_code code
  · rw [if_neg hkind, if_neg hkind]

variable {m : Message}

theorem name_of_gives (h : d.size ≤ 65535) (hgives : d.layout.Gives bytes m) :
    m.name = d.name ∧ m.chunk = d.chunk := by
  obtain ⟨t, segments, hlast, htiled, hname, hchunk⟩ := hgives.name
  have hwritten : Tlv.lastOf? Name.nameKind d.fields = some (d.name.toTlv d.chunk) :=
    d.last?_fields (· = Name.nameKind)
  obtain rfl : d.name.toTlv d.chunk = t := Option.some.inj (hwritten.symm.trans hlast)
  obtain rfl : d.name.segments d.chunk = segments := (tiled_name h).unique htiled
  exact ⟨hname.trans (d.name.spelling_segments d.chunk),
    hchunk.trans (d.name.chunkOf_segments d.chunk)⟩

theorem keyId_of_gives (hgives : d.layout.Gives bytes m) :
    m.keyId = d.keyId ∧ m.signed = d.keyId.isSome := by
  have hsigned := hgives.signed
  cases hkey : d.keyId with
  | none =>
    have hlast : Tlv.lastOf? Validation.algorithmKind d.layout.trailer = none := by
      rw [layout, hkey]
      rfl
    rw [hlast] at hsigned
    exact ⟨hgives.unsigned hlast, hsigned⟩
  | some key =>
    have hlast : Tlv.lastOf? Validation.algorithmKind d.layout.trailer =
        (validation key).head? := by
      rw [layout, hkey]
      rfl
    obtain ⟨blocks, htiled, hfirst⟩ := firstKey_validation key
    obtain ⟨blocks', htiled', hfirst'⟩ := hgives.keyId _ hlast
    obtain rfl : blocks = blocks' := htiled.unique htiled'
    rw [hlast] at hsigned
    exact ⟨hfirst'.unique hfirst, hsigned⟩

theorem agrees_of_gives (h : d.size ≤ 65535) (hgives : d.layout.Gives bytes m) :
    d.Agrees m where
  kind := hgives.kind
  name := (name_of_gives h hgives).1
  chunk := (name_of_gives h hgives).2
  hopLimit := hgives.hopLimit
  returnCode := hgives.returnCode.trans ofCode?_writtenReturnCode
  lifetime := by
    have hlast := congrArg (Option.map Tlv.number) (lastOf?_lifetime (d := d))
    exact hgives.lifetime.trans (hlast.trans (Tlv.map_number_ofUInt64 _ _))
  cacheTime := by
    have hlast := congrArg (Option.map Tlv.number) (lastOf?_cacheTime (d := d))
    exact hgives.cacheTime.trans (hlast.trans (Tlv.map_number_ofUInt64 _ _))
  interestType := by
    have hspan := d.last?_span
      (fun k => k = HopOptions.symbolicKind ∨ k = HopOptions.selectiveKind)
      (by decide) (by decide) (by decide)
    refine hgives.interestType.trans ((congrArg (Option.elim · _ _) hspan).trans ?_)
    cases d.span <;> rfl
  selective := by
    have hspan := d.last?_span (· = HopOptions.selectiveKind) (by decide) (by decide) (by decide)
    refine hgives.selective.trans ((congrArg (Option.map _) hspan).trans ?_)
    cases d.span with
    | single | window => rfl
    | run r => exact congrArg some (rangeOf_encoded r)
  nonce := by
    refine hgives.nonce.trans ((congrArg (Option.map _) lastOf?_nonce).trans ?_)
    rw [Option.map_map]
    cases d.nonce with
    | none => rfl
    | some n =>
      rw [Option.map_some, Function.comp_apply, Tlv.number,
        Octets.toNat_ofNat_of_lt n.toNat_lt, UInt64.ofNat_toNat]
  keyIdRestriction := by
    have hlast := d.last?_fields (· = MessageFields.keyIdRestrictionKind)
    have hvalue := hgives.keyIdRestriction.trans (congrArg (Option.map _) hlast)
    apply Option.map_injective Subtype.val_injective
    rw [hvalue]
    cases d.keyIdRestriction <;> rfl
  objectHashRestriction := by
    have hlast := d.last?_fields (· = MessageFields.objectHashRestrictionKind)
    have hvalue := hgives.objectHashRestriction.trans (congrArg (Option.map _) hlast)
    apply Option.map_injective Subtype.val_injective
    rw [hvalue]
    cases d.objectHashRestriction <;> rfl
  keyId := (keyId_of_gives hgives).1
  signed := (keyId_of_gives hgives).2
  expiry := by
    have hlast : Tlv.lastOf? MessageFields.expiryKind d.fields =
        d.expiry.map (Tlv.ofUInt64 MessageFields.expiryKind) :=
      (d.last?_fields (· = MessageFields.expiryKind)).trans Option.or_none
    exact hgives.expiry.trans
      ((congrArg (Option.map _) hlast).trans (Tlv.map_number_ofUInt64 _ _))
  payload := by
    have hlast := d.last?_fields (· = MessageFields.payloadKind)
    refine hgives.payload.trans ((congrArg (Option.map _) hlast).trans ?_)
    cases d.payload <;> rfl

/-- A draft with a name of up to 64 components is written if and only if the packet has no more than
65535 octets, and then what is read of it agrees with the draft. -/
theorem encode_round_trip (d : Draft) (hname : d.name.size ≤ 64) :
    ((∃ e, d.encode = .error e) ↔ 65535 < d.size) ∧
      (d.size ≤ 65535 → ∃ bytes m, d.encode = .ok bytes ∧ bytes.length = d.size ∧
        Message.parse bytes = .ok m ∧ d.Agrees m) := by
  rw [encode_eq]
  constructor
  · constructor
    · rintro ⟨e, he⟩
      by_contra hsmall
      rw [if_neg hsmall] at he
      cases he
    · intro hlarge
      exact ⟨_, if_pos hlarge⟩
  · intro hsize
    obtain ⟨m, hparse, hgives⟩ :=
      Layout.exists_parse_of (layout_of hsize) (layout_valid hname hsize)
    exact ⟨_, m, if_neg (Nat.not_lt.2 hsize), length_written d, hparse,
      agrees_of_gives hsize hgives⟩

/-- A return of a request for a run of chunks, with every field that a draft may have. -/
def full : Draft where
  kind := .interestReturn
  name := ⟨[[0x61], [], [0, 0xff]]⟩
  chunk := some 300
  hopLimit := 7
  returnCode := some .congested
  lifetime := some 4000
  cacheTime := some 0
  span := .run ⟨70000, 12⟩
  nonce := some 5
  keyIdRestriction := some ⟨List.replicate 32 1, rfl⟩
  objectHashRestriction := some ⟨List.replicate 32 2, rfl⟩
  keyId := some ⟨List.replicate 32 3, rfl⟩
  expiry := some 18446744073709551615
  payload := some [1, 2, 3]

theorem full_round_trip : full.name.size ≤ 64 ∧ full.size ≤ 65535 ∧
    ∃ bytes m, full.encode = .ok bytes ∧ bytes.length = full.size ∧
      Message.parse bytes = .ok m ∧ full.Agrees m := by
  have hname : full.name.size ≤ 64 := by decide
  have hsize : full.size ≤ 65535 := by decide +kernel
  exact ⟨hname, hsize, (encode_round_trip full hname).2 hsize⟩

end Draft
end NamedData
