import NamedData.Proofs.Daemon.Inputs
import NamedData.Proofs.Framing.Cutting

/-!
# Data around the opening of a face

The reader of a stream runs before the notice that its face was opened is posted, so the notice
may come after some data of the face. As long as no notice is dealt with, the packets of a face are
those that a single framer hands out. The notice gives the face a new framer, and the beginning of
a packet that the old one held is lost: the packets are those of two framers, one for the data
before the notice and one for the data after it.
-/

namespace NamedData.Daemon

variable {d : Daemon} {face : FaceId} {input : Input} {inputs front back : List Input}

def pieces (face : FaceId) (inputs : List Input) : List Octets := inputs.filterMap (·.piece? face)

/-- The packets of a face that the daemon hands to the forwarder while it deals with inputs. -/
def handed (face : FaceId) : List Input → Daemon → List Frame
  | [], _ => []
  | input :: inputs, d => d.hands face input ++ handed face inputs (d.take input)

def Spares (face : FaceId) : List Input → Daemon → Prop
  | [], _ => True
  | input :: inputs, d => ¬d.Closes face input ∧ Spares face inputs (d.take input)

theorem handed_append (d : Daemon) (front back : List Input) :
    handed face (front ++ back) d = handed face front d ++ handed face back (d.run front) := by
  induction front generalizing d with
  | nil => rfl
  | cons input front ih => simp [handed, ih, List.append_assoc]

theorem spares_append : Spares face (front ++ back) d ↔
    Spares face front d ∧ Spares face back (d.run front) := by
  induction front generalizing d with
  | nil => simp [Spares]
  | cons input front ih => simp [Spares, ih, and_assoc]

/-- As long as a face is neither announced nor closed, its framer alone makes its packets. -/
theorem handed_eq_feed (hd : d.Sound) (hnone : ∀ i ∈ inputs, ¬i.opens face)
    (hspares : Spares face inputs d) :
    (handed face inputs d, ((d.run inputs).framers.find? face).getD {}) =
      Framer.feed (pieces face inputs) ((d.framers.find? face).getD {}) := by
  induction inputs generalizing d with
  | nil => rfl
  | cons input inputs ih =>
    obtain ⟨hfirst, hlater⟩ := List.forall_mem_cons.1 hnone
    obtain ⟨hclose, hrest⟩ := hspares
    have hframer := framer_take hd.peers face input
    rw [if_neg hfirst, if_neg hclose] at hframer
    have hfeed := ih (hd.take input) hlater hrest
    cases hpiece : input.piece? face with
    | none =>
      rw [hpiece] at hframer
      rw [hframer] at hfeed
      simpa [handed, hands, pieces, hpiece] using hfeed
    | some data =>
      rw [hpiece] at hframer
      rw [hframer] at hfeed
      have hhands : d.hands face input =
          (((d.framers.find? face).getD {}).push data).drain.1 := by
        rw [hands, hpiece]
        rfl
      have hpieces : pieces face (input :: inputs) = data :: pieces face inputs :=
        List.filterMap_cons_some hpiece
      rw [hpieces, Framer.feed, handed, run_cons, hhands]
      exact congrArg (fun r => (_ ++ r.1, r.2)) hfeed

/-- When the notice that a face was opened comes between data of the face, its packets are those of
two framers, one for the data before and one for the data after the notice. They are the packets
that a single framer makes of all the data if, and only if, what the first has left in its buffer
makes no difference for the data after the notice. So they are when it has left nothing. -/
theorem handed_around_opening {w : Surroundings} {transport : Transport} (hd : d.Reachable)
    (hnew : d.framers.find? face = none)
    (hfront : ∀ i ∈ front, ¬i.opens face) (hback : ∀ i ∈ back, ¬i.opens face)
    (hspares : Spares face (front ++ .event w (.opened face transport) :: back) d) :
    let inputs := front ++ .event w (.opened face transport) :: back
    let whole := (Framer.feed (pieces face inputs) {}).1
    let left := (Framer.feed (pieces face front) {}).2.buffer
    handed face inputs d =
        (Framer.feed (pieces face front) {}).1 ++ (Framer.feed (pieces face back) {}).1 ∧
      (handed face inputs d = whole ↔ (Framer.feed (pieces face back) { buffer := left }).1 =
        (Framer.feed (pieces face back) {}).1) ∧
      (left = [] → handed face inputs d = whole) := by
  intro inputs whole left
  obtain ⟨hfirst, -, hrest⟩ := spares_append.1 hspares
  have hbefore := handed_eq_feed hd.sound hfront hfirst
  rw [hnew, Option.getD_none] at hbefore
  have hopened := framer_take (hd.run front).sound.peers face (.event w (.opened face transport))
  have hopens : (Input.event w (.opened face transport)).opens face := decide_eq_true rfl
  rw [if_pos hopens] at hopened
  have hafter := handed_eq_feed ((hd.run front).take _).sound hback hrest
  rw [hopened, Option.getD_some] at hafter
  have hhanded : handed face inputs d =
      (Framer.feed (pieces face front) {}).1 ++ (Framer.feed (pieces face back) {}).1 := by
    rw [handed_append, handed, ← congrArg Prod.fst hbefore, ← congrArg Prod.fst hafter]
    rfl
  have hpieces : pieces face inputs = pieces face front ++ pieces face back := List.filterMap_append
  have hwhole : whole = (Framer.feed (pieces face front) {}).1 ++
      (Framer.feed (pieces face back) { buffer := left }).1 := by
    have hbuffer : (Framer.feed (pieces face front) {}).2.buffer = left := rfl
    simp only [whole, hpieces, Framer.feed_append,
      Framer.feed_congr (g := { buffer := left }) hbuffer]
  refine ⟨hhanded, ?_, ?_⟩
  · rw [hhanded, hwhole, List.append_cancel_left_eq]
    exact eq_comm
  · intro hleft
    rw [hhanded, hwhole, hleft]

/-- A packet before and a packet after the notice both come out, as they do of a single framer. -/
theorem handed_around_opening_small :
    let packet := Forwarder.Small.octets (.interest Forwarder.Small.name)
    let inputs := [Small.received 1 packet, .opening .unix none,
      .event Small.surroundings (.opened ⟨1⟩ .unix), Small.received 1 packet]
    handed ⟨1⟩ inputs (Small.daemon {}) = (Framer.feed (pieces ⟨1⟩ inputs) {}).1 ∧
      (handed ⟨1⟩ inputs (Small.daemon {})).map (·.bytes) = [packet, packet] := by
  intro packet inputs
  obtain ⟨-, -, hwhole⟩ := @handed_around_opening (Small.daemon {}) ⟨1⟩
    [Small.received 1 packet, .opening .unix none] [Small.received 1 packet]
    Small.surroundings .unix Small.reachable rfl (by decide) (by decide)
    ⟨by decide +kernel, by decide +kernel, by decide +kernel, by decide +kernel, trivial⟩
  exact ⟨hwhole (by decide +kernel), by decide +kernel⟩

/-- The first five octets of a packet come before the notice and the others after it. A single
framer makes the packet of them, and the daemon makes none. -/
theorem packet_lost_at_opening :
    let packet := Forwarder.Small.octets (.interest Forwarder.Small.name)
    let inputs := [Small.received 1 (packet.take 5), .opening .unix none,
      .event Small.surroundings (.opened ⟨1⟩ .unix), Small.received 1 (packet.drop 5)]
    (Small.daemon {}).Reachable ∧ (Small.daemon {}).framers.find? ⟨1⟩ = none ∧
      Spares ⟨1⟩ inputs (Small.daemon {}) ∧ handed ⟨1⟩ inputs (Small.daemon {}) = [] ∧
      (Framer.feed (pieces ⟨1⟩ inputs) {}).1.map (·.bytes) = [packet] := by
  intro packet inputs
  refine ⟨Small.reachable, rfl, ?_, by decide +kernel, by decide +kernel⟩
  exact ⟨by decide +kernel, by decide +kernel, by decide +kernel, by decide +kernel, trivial⟩

end NamedData.Daemon
