import Mathlib.Algebra.GroupWithZero.Nat
import NamedData.Proofs.Framing.Attempt

/-!
# Packets out of a stream

A stream of packets and of noise between them, in which no octet could begin a packet, comes out
of the framer as exactly these packets, however it is cut into pieces. What the framer still
expects is kept by every attempt to take a packet: the buffer, with the octets to come, stays a
stream of packets and noise.
-/

namespace NamedData

/-- A part of a stream: a packet that can be read, or octets of which none can begin one. -/
inductive Segment
  | packet (bytes : Octets) (m : Message) (h : Message.parse bytes = .ok m)
  | noise (bytes : Octets) (h : FixedHeader.currentVersion ∉ bytes)

namespace Segment

def bytes : Segment → Octets
  | packet bytes _ _ => bytes
  | noise bytes _ => bytes

def frames : Segment → List Frame
  | packet bytes m _ => [⟨bytes, m.headerLength⟩]
  | noise .. => []

def lost : Segment → Nat
  | packet .. => 0
  | noise bytes _ => bytes.length

end Segment

namespace Framer

/-- A stream of packets and of octets that can begin none, with its packets and the number of the
other octets. -/
inductive Mixed : Octets → List Frame → Nat → Prop
  | nil : Mixed [] [] 0
  | noise {b bytes frames lost} : b ≠ FixedHeader.currentVersion → Mixed bytes frames lost →
      Mixed (b :: bytes) frames (lost + 1)
  | packet {packet m bytes frames lost} : Message.parse packet = .ok m → Mixed bytes frames lost →
      Mixed (packet ++ bytes) (⟨packet, m.headerLength⟩ :: frames) lost

variable {f final : Framer} {b : UInt8} {bytes packet rest future : Octets} {m : Message}
variable {frames : List Frame} {lost : Nat}

namespace Mixed

theorem noise_append {noise : Octets} (hnoise : FixedHeader.currentVersion ∉ noise)
    (h : Mixed bytes frames lost) : Mixed (noise ++ bytes) frames (noise.length + lost) := by
  induction noise with
  | nil => simpa using h
  | cons b noise ih =>
    obtain ⟨hb, hrest⟩ := not_or.1 (mt List.mem_cons.2 hnoise)
    have hlost : (b :: noise).length + lost = noise.length + lost + 1 := by
      rw [List.length_cons]
      omega
    rw [hlost]
    exact .noise (Ne.symm hb) (ih hrest)

theorem of_segments (segments : List Segment) :
    Mixed (segments.flatMap Segment.bytes) (segments.flatMap Segment.frames)
      (segments.map Segment.lost).sum := by
  induction segments with
  | nil => exact .nil
  | cons segment segments ih =>
    cases segment with
    | packet bytes m h => simpa [Segment.bytes, Segment.frames, Segment.lost] using ih.packet h
    | noise bytes h => simpa [Segment.bytes, Segment.frames, Segment.lost] using ih.noise_append h

theorem eq_nil (h : Mixed [] frames lost) : frames = [] ∧ lost = 0 := by
  generalize hbytes : ([] : Octets) = bytes at h
  cases h with
  | nil => exact ⟨rfl, rfl⟩
  | noise => cases hbytes
  | packet hparse =>
    obtain ⟨rfl, -⟩ := List.append_eq_nil_iff.1 hbytes.symm
    cases hparse

theorem front (h : Mixed (b :: rest ++ future) frames lost) :
    (b ≠ FixedHeader.currentVersion ∧
        ∃ lost', lost = lost' + 1 ∧ Mixed (rest ++ future) frames lost') ∨
      ∃ packet m bytes frames', Message.parse packet = .ok m ∧
        b :: rest ++ future = packet ++ bytes ∧ frames = ⟨packet, m.headerLength⟩ :: frames' ∧
        Mixed bytes frames' lost := by
  generalize hstream : b :: rest ++ future = stream at h
  cases h with
  | nil => cases hstream
  | noise hb hrest =>
    obtain ⟨rfl, rfl⟩ := List.cons.inj hstream
    exact .inl ⟨hb, _, rfl, hrest⟩
  | packet hparse hrest => exact .inr ⟨_, _, _, _, hparse, rfl, rfl, hrest⟩

end Mixed

theorem canBegin_of_front (hparse : Message.parse packet = .ok m)
    (h : b :: rest ++ future = packet ++ bytes) : canBegin (b :: rest) :=
  canBegin_of_append (List.cons_ne_nil b rest) (h ▸ canBegin_of_parse hparse bytes)

/-- Looking for the next beginning skips noise and stops at a packet. -/
theorem Mixed.resync (h : Mixed (bytes ++ future) frames lost) :
    ∃ lost', lost = Framer.resync bytes + lost' ∧
      Mixed (bytes.drop (Framer.resync bytes) ++ future) frames lost' := by
  induction bytes generalizing lost with
  | nil => exact ⟨lost, (Nat.zero_add lost).symm, h⟩
  | cons b rest ih =>
    rcases h.front with ⟨hb, lost', rfl, hrest⟩ | ⟨packet, m, bytes, frames', hparse, heq, -, -⟩
    · have hskip : Framer.resync (b :: rest) = Framer.resync rest + 1 :=
        if_neg fun hbegin => hb (version_of_canBegin hbegin)
      obtain ⟨lost'', rfl, hlater⟩ := ih hrest
      rw [hskip]
      exact ⟨lost'', by omega, hlater⟩
    · have hstop : Framer.resync (b :: rest) = 0 := if_pos (canBegin_of_front hparse heq)
      rw [hstop]
      exact ⟨lost, (Nat.zero_add lost).symm, h⟩

theorem next_of_packet (hbegin : canBegin f.buffer) (hparse : Message.parse packet = .ok m)
    (h : f.buffer ++ future = packet ++ bytes) :
    (f.next = (.incomplete, f) ∧ f.buffer.length < packet.length) ∨
      ∃ rest, f.buffer = packet ++ rest ∧ bytes = rest ++ future ∧
        f.next = (.frame ⟨packet, m.headerLength⟩,
          { f with buffer := rest, messages := f.messages + 1 }) := by
  obtain ⟨header, hparts⟩ := Message.parts_of_parse hparse
  have hwhole := FixedHeader.peek?_append hparts.peek bytes
  rw [next_of_canBegin hbegin]
  by_cases hshort : f.buffer.length < packet.length
  · refine .inl ⟨?_, hshort⟩
    cases hpeek : FixedHeader.peek? f.buffer with
    | none => rfl
    | some header' =>
      have hlater := FixedHeader.peek?_append hpeek future
      rw [h, hwhole] at hlater
      obtain rfl := Option.some.inj hlater
      have hcut : Octets.cut? header.packetLength.toNat f.buffer = none := by
        rw [hparts.packetLength_eq]
        exact Octets.cut?_eq_none_iff.2 hshort
      simp only [hcut]
  · obtain ⟨rest, hbuffer⟩ : packet <+: f.buffer :=
      List.prefix_of_prefix_length_le (h ▸ List.prefix_append packet bytes)
        (List.prefix_append f.buffer future) (Nat.not_lt.1 hshort)
    have hpeek := FixedHeader.peek?_append hparts.peek rest
    have hcut := Octets.cut?_append packet rest
    refine .inr ⟨rest, hbuffer.symm, ?_, ?_⟩
    · rw [← hbuffer, List.append_assoc] at h
      exact (List.append_cancel_left h).symm
    · rw [← hbuffer]
      simp only [hpeek, hparts.packetLength_eq, hcut, hparts.headerLength_eq]

/-- What a framer hands out, and what it has become, when some more octets have come: they make a
stream of packets and noise of what is in the buffer. -/
def Expects (f : Framer) (future : Octets) (frames : List Frame) (final : Framer) : Prop :=
  ∃ lost, Mixed (f.buffer ++ future) frames lost ∧ final =
    { buffer := []
      messages := f.messages + frames.length
      discarded := f.discarded + lost
      resets := f.resets }

namespace Expects

/-- Each attempt to take a packet keeps what is expected, less the packet that it takes. -/
theorem next (h : f.Expects future frames final) :
    match f.next with
    | (.incomplete, f') => f' = f ∧ (future = [] → f.buffer = [])
    | (.discarded _, f') => f'.Expects future frames final
    | (.frame frame, f') =>
      ∃ frames', frames = frame :: frames' ∧ f'.Expects future frames' final := by
  obtain ⟨lost, hmixed, hfinal⟩ := h
  cases hbuffer : f.buffer with
  | nil => simp only [Framer.next, hbuffer, implies_true, and_self]
  | cons b rest =>
    rw [hbuffer] at hmixed
    rcases hmixed.front with
      ⟨hb, lost', rfl, hrest⟩ | ⟨packet, m, bytes, frames', hparse, heq, rfl, hlater⟩
    · -- noise is dropped up to the next packet
      have hnext : f.next = f.discard (1 + resync rest) := by
        simp only [Framer.next, hbuffer, if_pos hb]
      obtain ⟨lost'', rfl, hskipped⟩ := hrest.resync
      rw [hnext]
      refine ⟨lost'', by simpa [hbuffer, Nat.add_comm 1] using hskipped, ?_⟩
      rw [hfinal]
      simp only [Framer.mk.injEq, true_and, and_true]
      omega
    · have hbegin : canBegin f.buffer := hbuffer ▸ canBegin_of_front hparse heq
      rw [← hbuffer] at heq ⊢
      rcases next_of_packet hbegin hparse heq with ⟨hnext, hshort⟩ | ⟨rest, -, rfl, hnext⟩
      · rw [hnext]
        refine ⟨rfl, fun hfuture => ?_⟩
        have hlength := congrArg List.length heq
        rw [hfuture, List.append_nil, List.length_append] at hlength
        omega
      · rw [hnext]
        refine ⟨frames', rfl, lost, hlater, ?_⟩
        rw [hfinal]
        simp only [List.length_cons, Framer.mk.injEq, true_and, and_true]
        omega

/-- Taking every complete packet out takes the first ones that are expected. When nothing more is
to come, nothing is left over. -/
theorem drain (h : f.Expects future frames final) :
    ∃ frames', frames = f.drain.1 ++ frames' ∧ f.drain.2.Expects future frames' final ∧
      (future = [] → f.drain.2.buffer = []) := by
  fun_induction Framer.drain f generalizing frames with
  | case1 f f' hnext =>
    have hstep := h.next
    rw [hnext] at hstep
    obtain ⟨rfl, hempty⟩ := hstep
    exact ⟨frames, rfl, h, hempty⟩
  | case2 f count f' hnext _ ih =>
    have hstep := h.next
    rw [hnext] at hstep
    exact ih hstep
  | case3 f frame f' hnext _ taken f'' hdrain ih =>
    have hstep := h.next
    rw [hnext] at hstep
    obtain ⟨frames', rfl, hlater⟩ := hstep
    obtain ⟨frames'', rfl, hrest⟩ := ih hlater
    rw [hdrain] at hrest ⊢
    exact ⟨frames'', rfl, hrest⟩

theorem feed {pieces : List Octets} (h : f.Expects pieces.flatten frames final)
    (hempty : pieces.flatten = [] → f.buffer = []) : feed pieces f = (frames, final) := by
  induction pieces generalizing f frames with
  | nil =>
    obtain ⟨lost, hmixed, rfl⟩ := h
    have hbuffer : f.buffer = [] := hempty rfl
    rw [hbuffer] at hmixed
    obtain ⟨rfl, rfl⟩ := hmixed.eq_nil
    rw [Framer.feed, ← hbuffer]
    rfl
  | cons piece pieces ih =>
    obtain ⟨lost, hmixed, hfinal⟩ := h
    rw [List.flatten_cons, ← List.append_assoc] at hmixed
    have hpushed : (f.push piece).Expects pieces.flatten frames final := ⟨lost, hmixed, hfinal⟩
    obtain ⟨frames', rfl, hlater, hleft⟩ := hpushed.drain
    simp only [Framer.feed, ih hlater hleft]

end Expects

theorem feed_packet (hparse : Message.parse packet = .ok m) {pieces : List Octets}
    (h : pieces.flatten = packet) :
    feed pieces {} = ([⟨packet, m.headerLength⟩], { messages := 1 }) := by
  have hstart : Expects {} pieces.flatten [⟨packet, m.headerLength⟩] { messages := 1 } := by
    refine ⟨0, ?_, rfl⟩
    have hpacket : Mixed (packet ++ []) [⟨packet, m.headerLength⟩] 0 := .packet hparse .nil
    rw [h]
    rwa [List.append_nil] at hpacket
  exact hstart.feed fun _ => rfl

/-- A stream of packets and noise, cut into pieces in any way, comes out as its packets in their
order. All noise is discarded, there is no reset, and nothing is left in the buffer. -/
theorem feed_segments {segments : List Segment} {pieces : List Octets}
    (h : pieces.flatten = segments.flatMap Segment.bytes) :
    feed pieces {} = (segments.flatMap Segment.frames,
      { buffer := []
        messages := (segments.flatMap Segment.frames).length
        discarded := (segments.map Segment.lost).sum
        resets := 0 }) := by
  have hstart : Expects {} pieces.flatten (segments.flatMap Segment.frames)
      { buffer := []
        messages := (segments.flatMap Segment.frames).length
        discarded := (segments.map Segment.lost).sum
        resets := 0 } := by
    refine ⟨(segments.map Segment.lost).sum, ?_, by simp only [Nat.zero_add]⟩
    rw [h]
    exact .of_segments segments
  exact hstart.feed fun _ => rfl

/-- Two requests for `/a` come octet by octet, the first after noise that could be the rest of
something else. -/
theorem feed_segments_octetwise :
    let packet : Octets := [1, 0, 0, 21, 32, 0, 0, 8, 0, 1, 0, 9, 0, 0, 0, 5, 0, 1, 0, 1, 97]
    let stream := [0, 5, 0, 2] ++ packet ++ [255] ++ packet
    feed (stream.map fun b => [b]) {} =
      ([⟨packet, 8⟩, ⟨packet, 8⟩], { messages := 2, discarded := 5 }) := by
  intro packet stream
  obtain ⟨m, hm, hlength⟩ : ∃ m, Message.parse packet = .ok m ∧ m.headerLength = 8 :=
    ⟨_, by cbv, by cbv⟩
  have hcut : (stream.map fun b => [b]).flatten =
      [Segment.noise [0, 5, 0, 2] (by decide), .packet packet m hm, .noise [255] (by decide),
        .packet packet m hm].flatMap Segment.bytes := by
    rw [← List.flatMap_def, List.flatMap_singleton']
    rfl
  have hfeed := feed_segments hcut
  simpa [Segment.frames, Segment.lost, hlength] using hfeed

end Framer
end NamedData
