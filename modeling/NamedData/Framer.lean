import NamedData.Packet.Header
import NamedData.Packet.Kind

/-!
# Framing of a byte stream

A stream face delivers arbitrary slices of its byte stream. A framer collects
them and hands out one packet at a time. It judges a candidate start of a
packet on the octets present only, so a truncated packet stays a candidate
until something contradicts it; what cannot start a packet is discarded up to
the next candidate.
-/

namespace NamedData

/-- A packet cut out of the stream, with the offset at which its message begins. -/
structure Frame where
  bytes : Octets
  headerLength : Nat
deriving DecidableEq, Repr

/-- What one attempt to take a packet out of the stream came to. -/
inductive Extraction
  | frame (f : Frame)
  | incomplete
  | discarded (count : Nat)
deriving DecidableEq, Repr

/-- The octets not yet handed out, and what has become of the others. -/
structure Framer where
  buffer : Octets := []
  messages : Nat := 0
  discarded : Nat := 0
  resets : Nat := 0
deriving DecidableEq, Repr

namespace Framer

/-- Whether the declared lengths of the elements of a region of `size` octets
fit it, as far as the octets are there. -/
def consistent (size : Nat) (bytes : Octets) : Bool :=
  if size = 0 then true
  else if size < 4 then false
  else
    match bytes with
    | _ :: _ :: l₁ :: l₀ :: rest =>
      let declared := Octets.word16 l₁ l₀
      if size < 4 + declared then false
      else consistent (size - (4 + declared)) (rest.drop declared)
    | _ => true
termination_by size
decreasing_by omega

def messageElement (kind : Nat) : Bool := kind == 1 || kind == 2 || kind == 8

/-- Whether the element at the front, if its kind is there, is one of a message. -/
def startsMessage : Octets → Bool
  | k₁ :: k₀ :: _ => messageElement (Octets.word16 k₁ k₀)
  | _ => true

/-- Whether the lengths of a header agree with each other and with the octets. -/
def regionsAgree (h : FixedHeader) (bytes : Octets) : Bool :=
  let headerLength := h.headerLength.toNat
  let packetLength := h.packetLength.toNat
  decide (FixedHeader.size ≤ headerLength) && decide (headerLength + 4 ≤ packetLength) &&
    startsMessage (bytes.drop headerLength) &&
    consistent (headerLength - FixedHeader.size) (bytes.drop FixedHeader.size) &&
    consistent (packetLength - headerLength) (bytes.drop headerLength)

def canBegin (bytes : Octets) : Bool :=
  bytes.head? == some FixedHeader.currentVersion &&
    (bytes.tail.head?.all fun kind => kind ≤ PacketKind.maxCode) &&
    (FixedHeader.peek? bytes).all fun h => regionsAgree h bytes

/-- The distance to the first place at which a packet could begin, or to the end. -/
def resync : Octets → Nat
  | [] => 0
  | b :: rest => if canBegin (b :: rest) then 0 else resync rest + 1

theorem resync_le (bytes : Octets) : resync bytes ≤ bytes.length := by
  induction bytes with
  | nil => simp [resync]
  | cons b rest ih =>
    unfold resync
    split
    · omega
    · simp only [List.length_cons]
      omega

def push (f : Framer) (data : Octets) : Framer := { f with buffer := f.buffer ++ data }

/-- Drops octets that cannot start a packet. -/
def discard (f : Framer) (count : Nat) : Extraction × Framer :=
  (.discarded count, { f with buffer := f.buffer.drop count, discarded := f.discarded + count })

/-- Drops everything: an unknown kind where a packet should begin means that the
stream cannot be repaired. -/
def reset (f : Framer) : Extraction × Framer :=
  let count := f.buffer.length
  (.discarded count,
    { f with buffer := [], discarded := f.discarded + count, resets := f.resets + 1 })

/-- Tries to take the next packet from the front of the buffer. -/
def next (f : Framer) : Extraction × Framer :=
  match f.buffer with
  | [] => (.incomplete, f)
  | b :: rest =>
    if b ≠ FixedHeader.currentVersion then f.discard (1 + resync rest)
    else
      match FixedHeader.peek? (b :: rest) with
      | none => (.incomplete, f)
      | some h =>
        if PacketKind.maxCode < h.kind then f.reset
        else if canBegin (b :: rest) then
          match Octets.cut? h.packetLength.toNat (b :: rest) with
          | none => (.incomplete, f)
          | some (bytes, rest) =>
            (.frame ⟨bytes, h.headerLength.toNat⟩,
              { f with buffer := rest, messages := f.messages + 1 })
        else f.discard 1

theorem length_lt_of_next {f f' : Framer} {e : Extraction} (h : f.next = (e, f'))
    (he : e ≠ .incomplete) : f'.buffer.length < f.buffer.length := by
  unfold next at h
  split at h
  · simp only [Prod.mk.injEq] at h
    exact absurd h.1.symm he
  · rename_i b rest hb
    split at h
    · simp only [discard, Prod.mk.injEq] at h
      obtain ⟨-, rfl⟩ := h
      simp only [hb, List.length_drop, List.length_cons]
      omega
    · split at h
      · simp only [Prod.mk.injEq] at h
        exact absurd h.1.symm he
      · rename_i hd hpeek
        split at h
        · simp only [reset, Prod.mk.injEq] at h
          obtain ⟨-, rfl⟩ := h
          simp [hb]
        · split at h
          · rename_i hp
            split at h
            · simp only [Prod.mk.injEq] at h
              exact absurd h.1.symm he
            · rename_i hc
              obtain ⟨hr, hn⟩ := Octets.cut?_eq_some hc
              simp only [Prod.mk.injEq] at h
              obtain ⟨-, rfl⟩ := h
              simp only [canBegin, hpeek, Option.all_some, regionsAgree, Bool.and_eq_true,
                decide_eq_true_eq] at hp
              rw [hb, hr]
              simp only [List.length_append]
              omega
          · simp only [discard, Prod.mk.injEq] at h
            obtain ⟨-, rfl⟩ := h
            simp [hb]

def drain (f : Framer) : List Frame × Framer :=
  match h : f.next with
  | (.incomplete, f') => ([], f')
  | (.discarded _, f') =>
    have := length_lt_of_next h (by simp)
    f'.drain
  | (.frame frame, f') =>
    have := length_lt_of_next h (by simp)
    let (frames, f'') := f'.drain
    (frame :: frames, f'')
termination_by f.buffer.length

/-- Feeds pieces of data, and takes every complete packet out after each. -/
def feed : List Octets → Framer → List Frame × Framer
  | [], f => ([], f)
  | piece :: pieces, f =>
    let (frames, f) := (f.push piece).drain
    let (more, f) := feed pieces f
    (frames ++ more, f)

end Framer
end NamedData
