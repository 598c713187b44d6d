import NamedData.Framer
import NamedData.Proofs.Packet.Parts

/-!
# Where a packet can begin

The framer judges a place in the stream on the octets that are there. Octets that come later can
only rule a place out, so every beginning of something that can begin a packet can begin one as
well. Once a whole packet is there they do not even do that: then it can begin just when it is
well-formed, which is a matter of the packet alone. Every packet that can be read is well-formed.
-/

namespace NamedData.Framer

variable {bytes more region packet : Octets} {header : FixedHeader} {m : Message}

theorem consistent_cons {size : Nat} (hsize : 4 ≤ size) (k₁ k₀ l₁ l₀ : UInt8) (rest : Octets) :
    consistent size (k₁ :: k₀ :: l₁ :: l₀ :: rest) =
      (decide (4 + Octets.word16 l₁ l₀ ≤ size) &&
        consistent (size - (4 + Octets.word16 l₁ l₀)) (rest.drop (Octets.word16 l₁ l₀))) := by
  rw [consistent.eq_def, if_neg (by omega), if_neg (by omega)]
  by_cases hover : size < 4 + Octets.word16 l₁ l₀
  · simp [hover, Nat.not_le.2 hover]
  · simp [hover, Nat.not_lt.1 hover]

theorem consistent_of_append {size : Nat} (h : consistent size (bytes ++ more)) :
    consistent size bytes := by
  -- along the elements that are there; where the octets end, nothing speaks against the region
  fun_induction consistent size bytes generalizing more with
  | case1 => rfl
  | case2 size _ hzero hshort =>
    rw [consistent.eq_def, if_neg hzero, if_pos hshort] at h
    cases h
  | case3 size hzero hshort =>
    rename_i hover
    rw [List.cons_append, List.cons_append, List.cons_append, List.cons_append,
      consistent_cons (Nat.not_lt.1 hshort), Bool.and_eq_true, decide_eq_true_eq] at h
    exact absurd h.1 (Nat.not_le.2 hover)
  | case4 size hzero hshort =>
    rename_i ih
    rw [List.cons_append, List.cons_append, List.cons_append, List.cons_append,
      consistent_cons (Nat.not_lt.1 hshort), Bool.and_eq_true, List.drop_append] at h
    exact ih h.2
  | case5 => rfl

theorem startsMessage_of_append (h : startsMessage (bytes ++ more)) : startsMessage bytes := by
  match bytes with
  | [] | [_] => rfl
  | _ :: _ :: _ => exact h

theorem regionsAgree_of_append {header : FixedHeader}
    (h : regionsAgree header (bytes ++ more)) : regionsAgree header bytes := by
  simp only [regionsAgree, List.drop_append, Bool.and_eq_true] at h ⊢
  obtain ⟨⟨⟨hlengths, hstarts⟩, hoptions⟩, hmessage⟩ := h
  exact ⟨⟨⟨hlengths, startsMessage_of_append hstarts⟩, consistent_of_append hoptions⟩,
    consistent_of_append hmessage⟩

theorem version_of_canBegin {b : UInt8} {rest : Octets} (h : canBegin (b :: rest)) :
    b = FixedHeader.currentVersion := by
  simp only [canBegin, Bool.and_eq_true, List.head?_cons, beq_iff_eq, Option.some.injEq] at h
  exact h.1.1

/-- Every beginning of something that can begin a packet can begin one. -/
theorem canBegin_of_append (hne : bytes ≠ []) (h : canBegin (bytes ++ more)) : canBegin bytes := by
  obtain ⟨b, rest, rfl⟩ := List.exists_cons_of_ne_nil hne
  simp only [canBegin, Bool.and_eq_true, List.cons_append, List.head?_cons, List.tail_cons] at h ⊢
  obtain ⟨⟨hversion, hkind⟩, hregions⟩ := h
  refine ⟨⟨hversion, ?_⟩, ?_⟩
  · cases rest with
    | nil => rfl
    | cons kind rest => exact hkind
  · cases hpeek : FixedHeader.peek? (b :: rest) with
    | none => rfl
    | some header =>
      have hlater := FixedHeader.peek?_append hpeek more
      rw [List.cons_append] at hlater
      rw [hlater, Option.all_some] at hregions
      exact regionsAgree_of_append hregions

/-- A packet of the first version and of a known kind. Its header gives its length and the place of
its message, elements tile its options and its message, and the first one of its message is that of
a request, of an object or of a discovery. -/
structure WellFormed (packet : Octets) (header : FixedHeader) : Prop where
  peek : FixedHeader.peek? packet = some header
  version : header.version = 1
  kind : header.kind ≤ 4
  packetLength : header.packetLength.toNat = packet.length
  size_le : 8 ≤ header.headerLength.toNat
  headerLength_le : header.headerLength.toNat + 4 ≤ packet.length
  options : Tlv.tiles ((packet.take header.headerLength.toNat).drop 8)
  message : Tlv.tiles (packet.drop header.headerLength.toNat)
  element : ∃ t ts, Tlv.decodeAll (packet.drop header.headerLength.toNat) = .ok (t :: ts) ∧
    (t.kind = 1 ∨ t.kind = 2 ∨ t.kind = 8)

/-- On a region that is there, the lengths are consistent if they tile it. -/
theorem consistent_eq_tiles {size : Nat} (hsize : size ≤ bytes.length) :
    consistent size bytes = Tlv.tiles (bytes.take size) := by
  -- along the elements of the region, all of which are there
  fun_induction consistent size bytes with
  | case1 bytes =>
    rw [List.take_zero, Tlv.tiles]
  | case2 size bytes hzero hshort =>
    have hlength := List.length_take_of_le hsize
    rw [Tlv.tiles_of_short] <;> omega
  | case3 size hzero hshort k₁ k₀ l₁ l₀ rest declared hover =>
    obtain ⟨size, rfl⟩ := Nat.exists_eq_add_of_le' (Nat.not_lt.1 hshort)
    have hroom : ¬declared ≤ (rest.take size).length := by
      rw [List.length_take]
      omega
    simp only [List.take_succ_cons, Tlv.tiles_cons, declared] at hroom ⊢
    rw [decide_eq_false hroom, Bool.false_and]
  | case4 size hzero hshort k₁ k₀ l₁ l₀ rest declared hover ih =>
    obtain ⟨size, rfl⟩ := Nat.exists_eq_add_of_le' (Nat.not_lt.1 hshort)
    simp only [List.length_cons] at hsize
    have hroom : declared ≤ (rest.take size).length := by
      rw [List.length_take]
      omega
    have hrest : (rest.take size).drop declared =
        (rest.drop declared).take (size + 4 - (4 + declared)) := by
      rw [List.drop_take]
      congr 1
      omega
    simp only [List.take_succ_cons, Tlv.tiles_cons, declared] at hroom hrest ih ⊢
    rw [decide_eq_true hroom, Bool.true_and, hrest, ih]
    rw [List.length_drop]
    omega
  | case5 size bytes hzero hshort hfew =>
    have hfour := Nat.le_trans (Nat.not_lt.1 hshort) hsize
    rcases bytes with _ | ⟨k₁, _ | ⟨k₀, _ | ⟨l₁, _ | ⟨l₀, rest⟩⟩⟩⟩
    case cons.cons.cons.cons => exact absurd rfl (hfew k₁ k₀ l₁ l₀ rest)
    all_goals
      simp only [List.length_cons, List.length_nil] at hfour
      omega

theorem startsMessage_iff {t : Tlv} {ts : List Tlv} (h : Tlv.decodeAll region = .ok (t :: ts))
    (more : Octets) : startsMessage (region ++ more) ↔ t.kind = 1 ∨ t.kind = 2 ∨ t.kind = 8 := by
  obtain ⟨rest, hdecode, -⟩ := Tlv.decodeAll_cons h
  obtain ⟨k₁, k₀, l₁, l₀, rfl, hkind, -⟩ := Tlv.decode_eq_ok hdecode
  have hword : Octets.word16 k₁ k₀ = t.kind.toNat := by
    rw [hkind, UInt16.toNat_ofNat_of_lt' (Octets.word16_lt k₁ k₀)]
  simp only [List.cons_append, startsMessage, messageElement, hword, Bool.or_eq_true, beq_iff_eq,
    ← UInt16.toNat_inj, or_assoc]
  rfl

theorem consistent_append_eq_tiles (region more : Octets) :
    consistent region.length (region ++ more) = Tlv.tiles region := by
  have hlength : region.length ≤ (region ++ more).length := by
    rw [List.length_append]
    exact Nat.le_add_right ..
  rw [consistent_eq_tiles hlength, List.take_left]

/-- The options and the message of a packet have consistent lengths, whatever follows it, if they
are tiled. -/
theorem regions_tiled {headerLength : Nat} (hsize : 8 ≤ headerLength)
    (hlength : headerLength ≤ packet.length) (more : Octets) :
    consistent (headerLength - 8) ((packet ++ more).drop 8) =
        Tlv.tiles ((packet.take headerLength).drop 8) ∧
      consistent (packet.length - headerLength) ((packet ++ more).drop headerLength) =
        Tlv.tiles (packet.drop headerLength) := by
  have hoptions : (packet.drop 8).length = packet.length - 8 := List.length_drop
  have hmessage : (packet.drop headerLength).length = packet.length - headerLength :=
    List.length_drop
  rw [List.drop_append_of_le_length (Nat.le_trans hsize hlength),
    List.drop_append_of_le_length hlength, consistent_eq_tiles, consistent_eq_tiles]
  · rw [List.take_append_of_le_length (by omega), List.take_left' hmessage, List.drop_take]
    exact ⟨rfl, rfl⟩
  all_goals
    rw [List.length_append]
    omega

/-- Where all of a packet is there, one can begin if it is well-formed. -/
theorem canBegin_append_iff (hpeek : FixedHeader.peek? packet = some header)
    (hlength : header.packetLength.toNat = packet.length) (more : Octets) :
    canBegin (packet ++ more) ↔ WellFormed packet header := by
  have hlater := FixedHeader.peek?_append hpeek more
  obtain ⟨hversion, hkind⟩ := FixedHeader.head?_of_peek? hlater
  simp only [canBegin, regionsAgree, hlater, hversion, hkind, hlength, Option.all_some,
    Bool.and_eq_true, beq_iff_eq, Option.some.injEq, decide_eq_true_eq]
  constructor
  · rintro ⟨⟨hversion, hkind⟩, ⟨⟨⟨hsize, hroom⟩, hstarts⟩, hoptions⟩, hmessage⟩
    have hwithin : header.headerLength.toNat ≤ packet.length := Nat.le_of_add_right_le hroom
    obtain ⟨hoptionsTiled, hmessageTiled⟩ := regions_tiled hsize hwithin more
    have htiled : Tlv.tiles (packet.drop header.headerLength.toNat) := hmessageTiled ▸ hmessage
    obtain ⟨ts, hts⟩ := Tlv.tiles_iff.1 htiled
    cases ts with
    | nil =>
      have hnone := congrArg List.length (Tlv.eq_nil_of_decodeAll hts)
      rw [List.length_drop, List.length_nil] at hnone
      omega
    | cons t ts =>
      rw [List.drop_append_of_le_length hwithin, startsMessage_iff hts] at hstarts
      exact ⟨hpeek, hversion, hkind, hlength, hsize, hroom, hoptionsTiled ▸ hoptions, htiled,
        t, ts, hts, hstarts⟩
  · intro h
    have hwithin := Nat.le_of_add_right_le h.headerLength_le
    obtain ⟨hoptionsTiled, hmessageTiled⟩ := regions_tiled h.size_le hwithin more
    obtain ⟨t, ts, hts, hkind⟩ := h.element
    rw [List.drop_append_of_le_length hwithin, startsMessage_iff hts]
    rw [List.drop_append_of_le_length hwithin] at hmessageTiled
    exact ⟨⟨h.version, h.kind⟩, ⟨⟨⟨h.size_le, h.headerLength_le⟩, hkind⟩,
      hoptionsTiled ▸ h.options⟩, hmessageTiled ▸ h.message⟩

theorem WellFormed.canBegin (h : WellFormed packet header) (more : Octets) :
    canBegin (packet ++ more) :=
  (canBegin_append_iff h.peek h.packetLength more).2 h

theorem twelve_le_packetLength (hbegin : canBegin bytes)
    (hpeek : FixedHeader.peek? bytes = some header) : 12 ≤ header.packetLength.toNat := by
  simp only [canBegin, hpeek, Option.all_some, regionsAgree, Bool.and_eq_true,
    decide_eq_true_eq] at hbegin
  obtain ⟨-, ⟨⟨⟨hsize, hroom⟩, -⟩, -⟩, -⟩ := hbegin
  exact Nat.le_trans (Nat.add_le_add_right hsize 4) hroom

theorem wellFormed_of_canBegin {rest : Octets} (hbegin : canBegin (packet ++ rest))
    (hpeek : FixedHeader.peek? (packet ++ rest) = some header)
    (hlength : packet.length = header.packetLength.toNat) : WellFormed packet header := by
  have hmin := twelve_le_packetLength hbegin hpeek
  have hpacket := FixedHeader.peek?_of_append (by omega) hpeek
  exact (canBegin_append_iff hpacket hlength.symm rest).1 hbegin

theorem wellFormed_of_parse (h : Message.parse bytes = .ok m) :
    ∃ header, WellFormed bytes header := by
  obtain ⟨header, hparts⟩ := Message.parts_of_parse h
  obtain ⟨options, hoptions⟩ := hparts.options
  obtain ⟨t, ts, hmessage, hkind⟩ := hparts.message
  have hlength := hparts.headerLength_eq
  exact ⟨header,
    { peek := hparts.peek
      version := hparts.version_eq
      kind := hparts.kind_le
      packetLength := hparts.packetLength_eq
      size_le := hlength ▸ hparts.size_le
      headerLength_le := hlength ▸ hparts.headerLength_add_four_le
      options := hlength ▸ Tlv.tiles_iff.2 ⟨options, hoptions⟩
      message := hlength ▸ Tlv.tiles_iff.2 ⟨t :: ts, hmessage⟩
      element := ⟨t, ts, hlength ▸ hmessage, hkind ▸ m.kind.messageElement_cases⟩ }⟩

theorem canBegin_of_parse (h : Message.parse bytes = .ok m) (more : Octets) :
    canBegin (bytes ++ more) := by
  obtain ⟨header, hpacket⟩ := wellFormed_of_parse h
  exact hpacket.canBegin more

/-- Once all of a packet is there, the octets behind it do not count. -/
theorem canBegin_append_eq (hpeek : FixedHeader.peek? packet = some header)
    (hlength : header.packetLength.toNat = packet.length) (more : Octets) :
    canBegin (packet ++ more) = canBegin packet := by
  have hmore := canBegin_append_iff hpeek hlength more
  have hnone := canBegin_append_iff hpeek hlength []
  rw [List.append_nil] at hnone
  exact Bool.eq_iff_iff.2 (hmore.trans hnone.symm)

/-- A place at which an octet stands and no packet can begin stays one, whatever comes later. Where
all of a packet is there, its octets alone decide whether it can begin. -/
theorem canBegin_settled (bytes : Octets) :
    (∀ more, bytes ≠ [] → canBegin bytes = false → canBegin (bytes ++ more) = false) ∧
      ∀ header, FixedHeader.peek? bytes = some header → 8 ≤ header.packetLength.toNat →
        header.packetLength.toNat ≤ bytes.length →
          canBegin bytes = canBegin (bytes.take header.packetLength.toNat) := by
  constructor
  · intro more hne hrejected
    refine Bool.eq_false_iff.2 fun hlater => ?_
    exact Bool.eq_false_iff.1 hrejected (canBegin_of_append hne hlater)
  · intro header hpeek hsize hwhole
    have hlength := List.length_take_of_le hwhole
    have hsplit := List.take_append_drop header.packetLength.toNat bytes
    rw [← hsplit] at hpeek
    have hpacket := FixedHeader.peek?_of_append (by omega) hpeek
    have hsame := canBegin_append_eq hpacket hlength.symm (bytes.drop header.packetLength.toNat)
    rwa [hsplit] at hsame

/-- The element of a message of thirteen octets has room for nine. With the length ten a packet can
begin while half of that is missing, and no longer then. With the length nine it can begin, whatever
stands behind it. -/
theorem canBegin_settled_request :
    let front : Octets := [1, 0, 0, 21, 32, 0, 0, 8, 0, 1, 0]
    let packet : Octets := front ++ [9, 0, 0, 0, 5, 0, 1, 0, 1, 97]
    let header : FixedHeader := ⟨1, 0, 21, 32, 0, 0, 8⟩
    canBegin front ∧ canBegin (front ++ [10]) = false ∧
      canBegin (front ++ [10] ++ packet) = false ∧ canBegin packet ∧
        FixedHeader.peek? (packet ++ [255, 255]) = some header ∧
          canBegin (packet ++ [255, 255]) = canBegin packet := by
  intro front packet header
  have hfront : canBegin front := by decide +kernel
  have hrejected : canBegin (front ++ [10]) = false := by decide +kernel
  have hpacket : canBegin packet := by decide +kernel
  have hpeek : FixedHeader.peek? (packet ++ [255, 255]) = some header := rfl
  have htake : (packet ++ [255, 255]).take header.packetLength.toNat = packet := by decide
  have hlater := (canBegin_settled (front ++ [10])).1 packet (by decide) hrejected
  have hsame := (canBegin_settled _).2 header hpeek (by decide) (by decide)
  rw [htake] at hsame
  exact ⟨hfront, hrejected, hlater, hpacket, hpeek, hsame⟩

/-- Where no octet stands, no packet can begin, but one octet later it can. -/
theorem canBegin_unsettled :
    ¬∀ bytes more, canBegin bytes = false → canBegin (bytes ++ more) = false := by
  intro h
  exact absurd (h [] [1] rfl) (by decide)

end NamedData.Framer
