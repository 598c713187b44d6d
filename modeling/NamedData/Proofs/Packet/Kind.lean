import NamedData.Proofs.Packet.Parts

/-!
# The kind of a packet and its copies

The kind of a packet stands in its second octet. A copy with another hop limit is
of the same kind, and the copy that returns an Interest is an Interest Return.
-/

namespace NamedData

variable {bytes : Octets} {m : Message}

theorem PacketKind.isRequest_iff {k : PacketKind} :
    k.isRequest ↔ k = .interest ∨ k = .traceRequest := by
  cases k <;> simp [isRequest]

theorem PacketKind.isRequest_of_reply {k : PacketKind} (h : k = .contentObject ∨ k = .traceReply) :
    k.isRequest = false := by
  rcases h with rfl | rfl <;> rfl

def Octets.kind? (bytes : Octets) : Option PacketKind :=
  bytes[FixedHeader.kindOffset]?.bind PacketKind.ofCode?

namespace FixedHeader

theorem kind_of_peek? {header : FixedHeader} (h : peek? bytes = some header) :
    bytes[kindOffset]? = some header.kind := by
  obtain ⟨rest, rfl⟩ := peek?_eq_some_iff.1 h
  rfl

end FixedHeader

namespace Message

theorem eq_of_parse {m' : Message} (h : parse bytes = .ok m) (h' : parse bytes = .ok m') : m' = m :=
  Except.ok.inj (h'.symm.trans h)

theorem raw_of_parse (h : parse bytes = .ok m) : m.raw = bytes :=
  (parts_of_parse h).choose_spec.raw_eq

theorem kind?_of_parse (h : parse bytes = .ok m) : bytes.kind? = some m.kind := by
  obtain ⟨header, hparts⟩ := parts_of_parse h
  rw [Octets.kind?, FixedHeader.kind_of_peek? hparts.peek, Option.bind_some, hparts.kind]

theorem kind?_withHopLimit (hopLimit : UInt8) (h : parse bytes = .ok m) :
    (m.withHopLimit hopLimit).kind? = some m.kind := by
  rw [← kind?_of_parse h, Octets.kind?, Octets.kind?, withHopLimit, raw_of_parse h,
    List.getElem?_set_ne (by decide)]

theorem kind_of_parse_withHopLimit {hopLimit : UInt8} {m' : Message} (h : parse bytes = .ok m)
    (h' : parse (m.withHopLimit hopLimit) = .ok m') : m'.kind = m.kind :=
  Option.some.inj ((kind?_of_parse h').symm.trans (kind?_withHopLimit hopLimit h))

theorem kind_of_parse_toInterestReturn {code : ReturnCode} {m' : Message}
    (h : parse (m.toInterestReturn code) = .ok m') : m'.kind = .interestReturn := by
  have hkind := kind?_of_parse h
  have hcode : (m.toInterestReturn code)[FixedHeader.kindOffset]? =
      if FixedHeader.kindOffset < m.raw.length then some PacketKind.interestReturn.code
      else none := by
    rw [toInterestReturn, List.getElem?_set_ne (by decide), List.getElem?_set_self']
    by_cases hlen : FixedHeader.kindOffset < m.raw.length
    · rw [if_pos hlen, List.getElem?_eq_getElem hlen]
      rfl
    · rw [if_neg hlen, List.getElem?_eq_none (Nat.not_lt.1 hlen)]
      rfl
  rw [Octets.kind?, hcode] at hkind
  split at hkind
  · rw [Option.bind_some, PacketKind.ofCode?_code] at hkind
    exact (Option.some.inj hkind).symm
  · cases hkind

end Message
end NamedData
