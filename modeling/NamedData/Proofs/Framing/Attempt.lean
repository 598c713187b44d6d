import NamedData.Proofs.Framing.Beginning

/-!
# Attempts to take a packet

An attempt waits, skips octets, gives up or takes a packet, and `Step` says when and what becomes
of the framer. What it takes is a well-formed packet. What it skips begins no well-formed packet,
whatever follows, for no packet could begin there on the octets that were there already.
-/

namespace NamedData.Framer

variable {f f' : Framer} {bytes packet : Octets} {header : FixedHeader}

theorem kind_le_of_canBegin (h : canBegin bytes)
    (hpeek : FixedHeader.peek? bytes = some header) : header.kind ≤ PacketKind.maxCode := by
  simp only [canBegin, Bool.and_eq_true, (FixedHeader.head?_of_peek? hpeek).2, Option.all_some,
    decide_eq_true_eq] at h
  exact h.1.2

/-- Where a packet can begin, it is taken as soon as all of it is there. -/
theorem next_of_canBegin (h : canBegin f.buffer) :
    f.next =
      match FixedHeader.peek? f.buffer with
      | none => (.incomplete, f)
      | some header =>
        match Octets.cut? header.packetLength.toNat f.buffer with
        | none => (.incomplete, f)
        | some (bytes, rest) =>
          (.frame ⟨bytes, header.headerLength.toNat⟩,
            { f with buffer := rest, messages := f.messages + 1 }) := by
  cases hbuffer : f.buffer with
  | nil =>
    rw [hbuffer] at h
    cases h
  | cons b rest =>
    rw [hbuffer] at h
    simp only [Framer.next, hbuffer]
    rw [if_neg (not_not_intro (version_of_canBegin h))]
    cases hpeek : FixedHeader.peek? (b :: rest) with
    | none => rfl
    | some header =>
      have hkind := kind_le_of_canBegin h hpeek
      exact (if_neg (UInt8.not_lt.2 hkind)).trans (if_pos h)

/-- What an attempt to take a packet may come to. -/
inductive Step (f : Framer) : Extraction → Framer → Prop
  /-- It waits while not all of a packet is there that can begin here. -/
  | waits : (∀ header, FixedHeader.peek? f.buffer = some header →
      canBegin f.buffer ∧ f.buffer.length < header.packetLength.toNat) → Step f .incomplete f
  | skips {count : Nat} : 0 < count → count ≤ f.buffer.length →
      (∀ i < count, ¬canBegin (f.buffer.drop i)) → Step f (.discarded count)
        { f with buffer := f.buffer.drop count, discarded := f.discarded + count }
  | resets {header : FixedHeader} : FixedHeader.peek? f.buffer = some header →
      header.version = FixedHeader.currentVersion → PacketKind.maxCode < header.kind →
      Step f (.discarded f.buffer.length)
        { f with
          buffer := []
          discarded := f.discarded + f.buffer.length
          resets := f.resets + 1 }
  | takes {packet rest : Octets} {header : FixedHeader} : f.buffer = packet ++ rest →
      WellFormed packet header → Step f (.frame ⟨packet, header.headerLength.toNat⟩)
        { f with buffer := rest, messages := f.messages + 1 }

theorem not_canBegin_of_lt_resync {i : Nat} (h : i < resync bytes) :
    ¬canBegin (bytes.drop i) := by
  induction bytes generalizing i with
  | nil => exact absurd h (Nat.not_lt_zero i)
  | cons b bytes ih =>
    rw [resync] at h
    split at h
    · exact absurd h (Nat.not_lt_zero i)
    · rename_i hbegin
      cases i with
      | zero => exact hbegin
      | succ i => exact ih (Nat.lt_of_succ_lt_succ h)

/-- At none of the octets from one that is skipped to the next beginning can a packet begin. -/
theorem not_canBegin_of_le_resync {b : UInt8} {rest : Octets} (h : ¬canBegin (b :: rest)) {i : Nat}
    (hi : i ≤ resync rest) : ¬canBegin ((b :: rest).drop i) := by
  cases i with
  | zero => exact h
  | succ i =>
    rw [List.drop_succ_cons]
    exact not_canBegin_of_lt_resync hi

theorem step_of_canBegin (h : canBegin f.buffer) : f.Step f.next.1 f.next.2 := by
  rw [next_of_canBegin h]
  cases hpeek : FixedHeader.peek? f.buffer with
  | none =>
    apply Step.waits
    rw [hpeek]
    exact nofun
  | some header =>
    dsimp only
    cases hcut : Octets.cut? header.packetLength.toNat f.buffer with
    | none =>
      apply Step.waits
      rw [hpeek]
      rintro _ ⟨⟩
      exact ⟨h, Octets.cut?_eq_none_iff.1 hcut⟩
    | some cut =>
      obtain ⟨packet, rest⟩ := cut
      obtain ⟨hbuffer, hlength⟩ := Octets.cut?_eq_some hcut
      rw [hbuffer] at h hpeek
      exact .takes hbuffer (wellFormed_of_canBegin h hpeek hlength)

theorem step_of_not_canBegin (h : ¬canBegin f.buffer) : f.Step f.next.1 f.next.2 := by
  cases hbuffer : f.buffer with
  | nil =>
    have hnext : f.next = (.incomplete, f) := by simp only [Framer.next, hbuffer]
    rw [hnext]
    apply Step.waits
    rw [hbuffer]
    exact nofun
  | cons b rest =>
    rw [hbuffer] at h
    simp only [Framer.next, hbuffer]
    by_cases hversion : b = FixedHeader.currentVersion
    · rw [if_neg (not_not_intro hversion)]
      cases hpeek : FixedHeader.peek? (b :: rest) with
      | none =>
        apply Step.waits
        rw [hbuffer, hpeek]
        exact nofun
      | some header =>
        dsimp only
        by_cases hkind : PacketKind.maxCode < header.kind
        · rw [if_pos hkind]
          rw [← hbuffer] at hpeek
          have hhead := (FixedHeader.head?_of_peek? hpeek).1
          rw [hbuffer, List.head?_cons, hversion] at hhead
          exact .resets hpeek (Option.some.inj hhead).symm hkind
        · rw [if_neg hkind, if_neg h]
          have hpresent : 1 ≤ f.buffer.length := by simp [hbuffer]
          refine .skips Nat.one_pos hpresent fun i hi => ?_
          rw [hbuffer]
          exact not_canBegin_of_le_resync h (by omega)
    · rw [if_pos hversion]
      have hwithin : 1 + resync rest ≤ f.buffer.length := by
        have hlast := resync_le rest
        simp only [hbuffer, List.length_cons]
        omega
      refine .skips (by omega) hwithin fun i hi => ?_
      rw [hbuffer]
      exact not_canBegin_of_le_resync h (by omega)

/-- An attempt goes one of these ways. -/
theorem step_next (f : Framer) : f.Step f.next.1 f.next.2 := by
  by_cases h : canBegin f.buffer
  · exact step_of_canBegin h
  · exact step_of_not_canBegin h

/-- Octets that are skipped begin no well-formed packet, whatever follows them. -/
theorem next_skips_no_packet {count : Nat} (h : f.next = (.discarded count, f'))
    (hresets : f'.resets = f.resets) (future : Octets) {i : Nat} (hi : i < count)
    (hpacket : WellFormed packet header) : ¬packet <+: (f.buffer ++ future).drop i := by
  have hstep := f.step_next
  rw [h] at hstep
  rintro ⟨rest, hrest⟩
  cases hstep with
  | resets =>
    exact absurd hresets (Nat.succ_ne_self f.resets)
  | skips hpos hcount hskipped =>
    have hpresent : f.buffer.drop i ≠ [] := by
      rw [Ne, List.drop_eq_nil_iff]
      omega
    have hbegin : canBegin (packet ++ rest) := hpacket.canBegin rest
    rw [hrest, List.drop_append_of_le_length (by omega)] at hbegin
    exact hskipped i hi (canBegin_of_append hpresent hbegin)

/-- A request for `/a` after two places at which no packet can begin, one of another version and one
of an unknown kind. Six octets of the request are enough to stop at it. -/
theorem next_skips_no_packet_cut_short :
    let packet : Octets := [1, 0, 0, 21, 32, 0, 0, 8, 0, 1, 0, 9, 0, 0, 0, 5, 0, 1, 0, 1, 97]
    let f : Framer := { buffer := [0, 1, 9] ++ packet.take 6 }
    f.next.1 = .discarded 3 ∧ f.next.2.resets = f.resets ∧
      (∃ header, WellFormed packet header) ∧
        ¬packet <+: (f.buffer ++ packet.drop 6).drop 1 ∧
          packet <+: (f.buffer ++ packet.drop 6).drop 3 := by
  intro packet f
  have hnext : f.next = (.discarded 3, { buffer := packet.take 6, discarded := 3 }) := by
    decide +kernel
  have hbegin : canBegin (packet ++ []) := by decide +kernel
  have hpacket : WellFormed packet ⟨1, 0, 21, 32, 0, 0, 8⟩ :=
    wellFormed_of_canBegin hbegin (by decide) (by decide)
  have hskipped := next_skips_no_packet hnext rfl (packet.drop 6) (i := 1) (by decide) hpacket
  exact ⟨congrArg Prod.fst hnext, congrArg (·.2.resets) hnext, ⟨_, hpacket⟩, hskipped, by decide⟩

/-- A region can be read if it is tiled, and the framer judges its lengths consistent, whatever
stands behind it, if it is tiled. What the framer takes is a well-formed packet, with the header
length that stands in its header. -/
theorem tilings_agree (region : Octets) (f : Framer) :
    (Tlv.tiles region ↔ ∃ ts, Tlv.decodeAll region = .ok ts) ∧
      (∀ more, consistent region.length (region ++ more) = Tlv.tiles region) ∧
        ∀ frame f', f.next = (.frame frame, f') →
          ∃ header, WellFormed frame.bytes header ∧
            frame.headerLength = header.headerLength.toNat := by
  refine ⟨Tlv.tiles_iff, consistent_append_eq_tiles region, ?_⟩
  intro frame f' h
  have hstep := f.step_next
  rw [h] at hstep
  cases hstep with
  | takes hbuffer hpacket => exact ⟨_, hpacket, rfl⟩

/-- The same request is taken, with the beginning of another packet behind it. -/
theorem tilings_agree_request :
    let packet : Octets := [1, 0, 0, 21, 32, 0, 0, 8, 0, 1, 0, 9, 0, 0, 0, 5, 0, 1, 0, 1, 97]
    let f : Framer := { buffer := packet ++ [1, 0] }
    f.next.1 = .frame ⟨packet, 8⟩ ∧
      ∃ header, WellFormed packet header ∧ 8 = header.headerLength.toNat := by
  intro packet f
  have hnext : f.next = (.frame ⟨packet, 8⟩, { buffer := [1, 0], messages := 1 }) := by
    decide +kernel
  exact ⟨congrArg Prod.fst hnext, (tilings_agree packet f).2.2 ⟨packet, 8⟩ _ hnext⟩

end NamedData.Framer
