import NamedData.Proofs.Packet.Layout

/-!
# The parts of a packet

A packet that can be read has a header that fits it, a region of options and a region that begins
with the element of its kind. Each region is a sequence of elements.
-/

namespace NamedData

variable {bytes : Octets} {m : Message}

namespace FixedHeader

theorem peek?_append {header : FixedHeader} (h : peek? bytes = some header) (more : Octets) :
    peek? (bytes ++ more) = some header := by
  obtain ⟨rest, rfl⟩ := peek?_eq_some_iff.1 h
  exact peek?_eq_some_iff.2 ⟨rest ++ more, List.append_assoc ..⟩

theorem peek?_eq_none_iff : peek? bytes = none ↔ bytes.length < 8 := by
  match bytes with
  | [] | [_] | [_, _] | [_, _, _] | [_, _, _, _] | [_, _, _, _, _] | [_, _, _, _, _, _]
  | [_, _, _, _, _, _, _] => simp [peek?]
  | _ :: _ :: _ :: _ :: _ :: _ :: _ :: _ :: _ => simp [peek?]

theorem peek?_of_append {header : FixedHeader} {more : Octets} (hsize : 8 ≤ bytes.length)
    (h : peek? (bytes ++ more) = some header) : peek? bytes = some header := by
  cases hpeek : peek? bytes with
  | none => exact absurd (peek?_eq_none_iff.1 hpeek) (Nat.not_lt.2 hsize)
  | some header' => rw [← h, peek?_append hpeek]

theorem head?_of_peek? {header : FixedHeader} (h : peek? bytes = some header) :
    bytes.head? = some header.version ∧ bytes.tail.head? = some header.kind := by
  obtain ⟨rest, rfl⟩ := peek?_eq_some_iff.1 h
  exact ⟨rfl, rfl⟩

end FixedHeader

theorem PacketKind.messageElement_cases (kind : PacketKind) :
    kind.messageElement = 1 ∨ kind.messageElement = 2 ∨ kind.messageElement = 8 := by
  cases kind <;> simp [messageElement]

namespace Message

structure Parts (bytes : Octets) (m : Message) (header : FixedHeader) : Prop where
  peek : FixedHeader.peek? bytes = some header
  version_eq : header.version = FixedHeader.currentVersion
  kind : PacketKind.ofCode? header.kind = some m.kind
  packetLength_eq : header.packetLength.toNat = bytes.length
  headerLength_eq : header.headerLength.toNat = m.headerLength
  size_le : FixedHeader.size ≤ m.headerLength
  headerLength_le : m.headerLength ≤ bytes.length
  options : ∃ ts, Tlv.decodeAll ((bytes.take m.headerLength).drop FixedHeader.size) = .ok ts
  message : ∃ t ts, Tlv.decodeAll (bytes.drop m.headerLength) = .ok (t :: ts) ∧
    t.kind = m.kind.messageElement
  raw_eq : m.raw = bytes

theorem parts_of_parse (h : parse bytes = .ok m) : ∃ header, Parts bytes m header := by
  obtain ⟨l, hof, -, hgives⟩ := Layout.exists_of_parse h
  have hkind : PacketKind.ofCode? l.header.kind = some m.kind := by
    rw [hgives.kind]
    exact PacketKind.ofCode?_eq_some_iff.2 hof.kind
  have hheader := hgives.headerLength
  refine ⟨l.header, hof.header, hof.version, hkind, hof.packetLength, hheader.symm,
    hheader ▸ hof.size_le, hheader ▸ hof.headerLength_le,
    ⟨l.options, Tlv.decodeAll_eq_ok_iff.2 (hheader ▸ hof.options)⟩,
    ⟨l.message, l.trailer, Tlv.decodeAll_eq_ok_iff.2 (hheader ▸ hof.region), ?_⟩, hgives.raw⟩
  rw [hgives.kind]
  exact hof.message

namespace Parts

variable {header : FixedHeader} (h : Parts bytes m header)
include h

theorem kind_le : header.kind ≤ PacketKind.maxCode := by
  have hkind := h.kind
  unfold PacketKind.ofCode? at hkind
  rw [UInt8.le_iff_toNat_le]
  split at hkind <;> simp_all [PacketKind.maxCode]

theorem headerLength_add_four_le : m.headerLength + 4 ≤ bytes.length := by
  obtain ⟨t, ts, hmessage, -⟩ := h.message
  obtain ⟨rest, hdecode, -⟩ := Tlv.decodeAll_cons hmessage
  obtain ⟨k₁, k₀, l₁, l₀, hregion, -, -⟩ := Tlv.decode_eq_ok hdecode
  have hlength := congrArg List.length hregion
  simp only [List.length_drop, List.length_cons] at hlength
  omega

end Parts
end Message
end NamedData
