import NamedData.Proofs.Framing.Attempt

/-!
# What becomes of the octets

An octet that a framer has collected leaves the buffer in a packet or is discarded, and until then
it waits in its place. Each attempt to take a packet waits or makes the buffer shorter, so taking
every complete packet out comes to an end. What is left then is less than the largest packet.
-/

namespace NamedData

/-- What leaves the buffer of a framer at once. -/
inductive Portion
  | packet (frame : Frame)
  | noise (bytes : Octets)
deriving DecidableEq, Repr

namespace Portion

def bytes : Portion → Octets
  | packet frame => frame.bytes
  | noise bytes => bytes

def frame? : Portion → Option Frame
  | packet frame => some frame
  | noise _ => none

def lost : Portion → Nat
  | packet _ => 0
  | noise bytes => bytes.length

end Portion

namespace Extraction

def frame? : Extraction → Option Frame
  | .frame f => some f
  | _ => none

def portion? (buffer : Octets) : Extraction → Option Portion
  | .frame f => some (.packet f)
  | .incomplete => none
  | .discarded count => some (.noise (buffer.take count))

theorem filterMap_portion? (buffer : Octets) (e : Extraction) :
    (e.portion? buffer).toList.filterMap Portion.frame? = e.frame?.toList := by
  cases e <;> rfl

end Extraction

namespace Framer

variable {f f' f'' : Framer} {e : Extraction} {portions portions' : List Portion} {n : Nat}

/-- From one state to another, these portions have left the buffer, and they have been counted. -/
structure Yields (f : Framer) (portions : List Portion) (f' : Framer) : Prop where
  buffer : f.buffer = portions.flatMap Portion.bytes ++ f'.buffer
  messages : f'.messages = f.messages + (portions.filterMap Portion.frame?).length
  discarded : f'.discarded = f.discarded + (portions.map Portion.lost).sum

namespace Yields

theorem refl (f : Framer) : Yields f [] f := ⟨rfl, rfl, rfl⟩

theorem trans (h : Yields f portions f') (h' : Yields f' portions' f'') :
    Yields f (portions ++ portions') f'' where
  buffer := by rw [h.buffer, h'.buffer, List.flatMap_append, List.append_assoc]
  messages := by
    rw [h'.messages, h.messages, List.filterMap_append, List.length_append, Nat.add_assoc]
  discarded := by rw [h'.discarded, h.discarded, List.map_append, List.sum_append, Nat.add_assoc]

end Yields

namespace Step

theorem yields (h : f.Step e f') : Yields f (e.portion? f.buffer).toList f' := by
  cases h with
  | waits => exact .refl f
  | skips _ hcount =>
    constructor
    · simp [Extraction.portion?, Portion.bytes]
    · rfl
    · simp [Extraction.portion?, Portion.lost, hcount]
  | resets =>
    constructor
    · simp [Extraction.portion?, Portion.bytes]
    · rfl
    · simp [Extraction.portion?, Portion.lost]
  | takes hbuffer =>
    constructor
    · simpa [Extraction.portion?, Portion.bytes] using hbuffer
    · rfl
    · rfl

theorem eq_of_incomplete (h : f.Step .incomplete f') : f' = f := by
  cases h with
  | waits => rfl

theorem length_lt_of_incomplete (h : f.Step .incomplete f') : f.buffer.length < 65535 := by
  cases h with
  | waits hwaits =>
    cases hpeek : FixedHeader.peek? f.buffer with
    | none =>
      have hshort := FixedHeader.peek?_eq_none_iff.1 hpeek
      omega
    | some header =>
      obtain ⟨-, hshort⟩ := hwaits header hpeek
      have hlargest := header.packetLength.toNat_lt
      omega

end Step

theorem next_of_incomplete (h : f.next.1 = .incomplete) : f.next = (.incomplete, f) := by
  have hstep := f.step_next
  rw [h] at hstep
  exact Prod.ext h hstep.eq_of_incomplete

/-- What so many attempts take out one after another, and the framer after them. -/
def rounds : Nat → Framer → List Portion × Framer
  | 0, f => ([], f)
  | n + 1, f =>
    let (portions, f') := rounds n f.next.2
    ((f.next.1.portion? f.buffer).toList ++ portions, f')

theorem rounds_succ (h : f.next = (e, f')) (n : Nat) :
    f.rounds (n + 1) =
      ((e.portion? f.buffer).toList ++ (f'.rounds n).1, (f'.rounds n).2) := by
  rw [rounds, h]

theorem rounds_add (n m : Nat) (f : Framer) :
    f.rounds (n + m) =
      ((f.rounds n).1 ++ ((f.rounds n).2.rounds m).1, ((f.rounds n).2.rounds m).2) := by
  induction n generalizing f with
  | zero =>
    rw [Nat.zero_add]
    rfl
  | succ n ih =>
    rw [Nat.add_right_comm, rounds_succ rfl, rounds_succ rfl, ih, List.append_assoc]

theorem rounds_of_incomplete (h : f.next.1 = .incomplete) (n : Nat) : f.rounds n = ([], f) := by
  induction n with
  | zero => rfl
  | succ n ih =>
    rw [rounds_succ (next_of_incomplete h), ih]
    rfl

theorem yields_rounds (n : Nat) (f : Framer) : Yields f (f.rounds n).1 (f.rounds n).2 := by
  induction n generalizing f with
  | zero => exact .refl f
  | succ n ih => exact f.step_next.yields.trans (ih f.next.2)

/-- So many attempts take something out of the buffer, and the next one waits. -/
structure DrainedBy (f : Framer) (n : Nat) : Prop where
  le : n ≤ f.buffer.length
  takes : ∀ k < n, (f.rounds k).2.next.1 ≠ .incomplete
  waits : (f.rounds n).2.next.1 = .incomplete

namespace DrainedBy

theorem zero (h : f.next.1 = .incomplete) : f.DrainedBy 0 := ⟨Nat.zero_le _, nofun, h⟩

theorem succ (hnext : f.next = (e, f')) (he : e ≠ .incomplete) (h : f'.DrainedBy n) :
    f.DrainedBy (n + 1) where
  le := Nat.succ_le_of_lt (Nat.lt_of_le_of_lt h.le (length_lt_of_next hnext he))
  takes := by
    intro k hk
    cases k with
    | zero =>
      rw [rounds, hnext]
      exact he
    | succ k =>
      rw [rounds_succ hnext]
      exact h.takes k (Nat.lt_of_succ_lt_succ hk)
  waits := by
    rw [rounds_succ hnext]
    exact h.waits

theorem rounds_eq (h : f.DrainedBy n) {m : Nat} (hm : n ≤ m) : f.rounds m = f.rounds n := by
  obtain ⟨more, rfl⟩ := Nat.exists_eq_add_of_le hm
  rw [rounds_add, rounds_of_incomplete h.waits, List.append_nil]

end DrainedBy

theorem exists_drainedBy (f : Framer) : ∃ n, f.DrainedBy n ∧
    f.drain = ((f.rounds n).1.filterMap Portion.frame?, (f.rounds n).2) := by
  fun_induction drain f with
  | case1 f f' hnext =>
    have hwaits : f.next.1 = .incomplete := congrArg Prod.fst hnext
    rw [next_of_incomplete hwaits] at hnext
    cases hnext
    exact ⟨0, .zero hwaits, rfl⟩
  | case2 f count f' hnext _ ih =>
    obtain ⟨n, hdrained, hdrain⟩ := ih
    refine ⟨n + 1, hdrained.succ hnext nofun, ?_⟩
    rw [hdrain, rounds_succ hnext]
    rfl
  | case3 f frame f' hnext _ frames f'' hdrained' ih =>
    obtain ⟨n, hdrained, hdrain⟩ := ih
    refine ⟨n + 1, hdrained.succ hnext nofun, ?_⟩
    rw [hdrained'] at hdrain
    obtain ⟨rfl, rfl⟩ := Prod.mk.inj hdrain
    rw [rounds_succ hnext]
    rfl

theorem drain_eq_rounds (f : Framer) : f.drain =
    ((f.rounds f.buffer.length).1.filterMap Portion.frame?, (f.rounds f.buffer.length).2) := by
  obtain ⟨n, hdrained, hdrain⟩ := f.exists_drainedBy
  rw [hdrain, hdrained.rounds_eq hdrained.le]

theorem length_drain_lt (f : Framer) : f.drain.2.buffer.length < 65535 := by
  obtain ⟨n, hdrained, hdrain⟩ := f.exists_drainedBy
  have hstep := (f.rounds n).2.step_next
  rw [hdrained.waits] at hstep
  rw [hdrain]
  exact hstep.length_lt_of_incomplete

inductive Use
  | push (data : Octets)
  | next
  | drain
deriving DecidableEq, Repr

/-- A framer, and what has gone in and come out of it: all octets that were pushed, the packets that
were handed out, and the portions that have left the buffer. -/
structure History where
  framer : Framer := {}
  pushed : Octets := []
  frames : List Frame := []
  portions : List Portion := []
deriving DecidableEq, Repr

namespace History

variable {h : History}

def after (h : History) : Use → History
  | .push data => { h with framer := h.framer.push data, pushed := h.pushed ++ data }
  | .next => { h with
      framer := h.framer.next.2
      frames := h.frames ++ h.framer.next.1.frame?.toList
      portions := h.portions ++ (h.framer.next.1.portion? h.framer.buffer).toList }
  | .drain => { h with
      framer := h.framer.drain.2
      frames := h.frames ++ h.framer.drain.1
      portions := h.portions ++ (h.framer.rounds h.framer.buffer.length).1 }

def of (uses : List Use) : History := uses.foldl after {}

/-- The octets pushed are those of the portions and then those of the buffer. The packets handed out
are those among the portions, and they have been counted, as have the octets of the others. -/
structure Conserved (h : History) : Prop where
  pushed : h.pushed = h.portions.flatMap Portion.bytes ++ h.framer.buffer
  frames : h.frames = h.portions.filterMap Portion.frame?
  messages : h.framer.messages = h.frames.length
  discarded : h.framer.discarded = (h.portions.map Portion.lost).sum

namespace Conserved

theorem push (hc : h.Conserved) (data : Octets) : (h.after (.push data)).Conserved where
  pushed := by
    simp only [after, Framer.push]
    rw [hc.pushed, List.append_assoc]
  frames := hc.frames
  messages := hc.messages
  discarded := hc.discarded

theorem yields (hc : h.Conserved) (hy : Yields h.framer portions f') :
    Conserved { h with
      framer := f'
      frames := h.frames ++ portions.filterMap Portion.frame?
      portions := h.portions ++ portions } where
  pushed := by
    dsimp only
    rw [hc.pushed, hy.buffer, List.flatMap_append, List.append_assoc]
  frames := by
    dsimp only
    rw [hc.frames, List.filterMap_append]
  messages := by
    dsimp only
    rw [hy.messages, hc.messages, List.length_append]
  discarded := by
    dsimp only
    rw [hy.discarded, hc.discarded, List.map_append, List.sum_append]

theorem after (hc : h.Conserved) (use : Use) : (h.after use).Conserved := by
  cases use with
  | push data => exact hc.push data
  | next =>
    have hnext := hc.yields h.framer.step_next.yields
    rwa [Extraction.filterMap_portion?] at hnext
  | drain =>
    have hdrain := hc.yields (yields_rounds h.framer.buffer.length h.framer)
    simpa only [History.after, drain_eq_rounds] using hdrain

end Conserved

theorem conserved_foldl (hc : h.Conserved) (uses : List Use) :
    (uses.foldl after h).Conserved := by
  induction uses generalizing h with
  | nil => exact hc
  | cons use uses ih => exact ih (hc.after use)

theorem conserved_of (uses : List Use) : (of uses).Conserved :=
  conserved_foldl ⟨rfl, rfl, rfl, rfl⟩ uses

end History

/-- Whatever use is made of a framer, every octet pushed is accounted for in its place. An attempt to
take a packet changes nothing or makes the buffer shorter. Taking every complete packet out is to
try, at most once for each octet, until an attempt waits, and then fewer octets are left than the
largest packet has. -/
theorem octets_conserved (uses : List Use) (f : Framer) :
    (History.of uses).Conserved ∧
      (f.next.1 = .incomplete → f.next.2 = f) ∧
        (f.next.1 ≠ .incomplete → f.next.2.buffer.length < f.buffer.length) ∧
          (∃ n, f.DrainedBy n ∧
            f.drain = ((f.rounds n).1.filterMap Portion.frame?, (f.rounds n).2)) ∧
            f.drain.2.buffer.length < 65535 := by
  refine ⟨History.conserved_of uses, ?_, ?_, f.exists_drainedBy, f.length_drain_lt⟩
  · intro hwaits
    exact congrArg Prod.snd (next_of_incomplete hwaits)
  · intro htakes
    exact length_lt_of_next rfl htakes

/-- A request for `/a` comes in two parts, with noise before the first and an octet of something else
behind the second. The noise is discarded when all complete packets are taken out, of which there is
none yet, and the request is taken by an attempt. -/
theorem octets_conserved_halves :
    let packet : Octets := [1, 0, 0, 21, 32, 0, 0, 8, 0, 1, 0, 9, 0, 0, 0, 5, 0, 1, 0, 1, 97]
    let f : Framer := { buffer := [0, 5] ++ packet }
    let h := History.of
      [.push ([0, 5] ++ packet.take 9), .drain, .push (packet.drop 9 ++ [1]), .next]
    h.portions = [.noise [0, 5], .packet ⟨packet, 8⟩] ∧ h.framer.buffer = [1] ∧ h.Conserved ∧
      (h.framer.next.1 = .incomplete ∧ h.framer.next.2 = h.framer) ∧
        f.next.1 ≠ .incomplete ∧ f.next.2.buffer.length < f.buffer.length := by
  intro packet f h
  have hportions : h.portions = [.noise [0, 5], .packet ⟨packet, 8⟩] ∧ h.framer.buffer = [1] := by
    decide +kernel
  have hwaits : h.framer.next.1 = .incomplete := by decide +kernel
  have htakes : f.next.1 ≠ .incomplete := by decide +kernel
  obtain ⟨hconserved, hunchanged, -⟩ := octets_conserved
    [.push ([0, 5] ++ packet.take 9), .drain, .push (packet.drop 9 ++ [1]), .next] h.framer
  have hshorter := (octets_conserved [] f).2.2.1 htakes
  exact ⟨hportions.1, hportions.2, hconserved, ⟨hwaits, hunchanged hwaits⟩, htakes, hshorter⟩

end Framer
end NamedData
