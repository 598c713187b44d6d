import NamedData.Proofs.Forwarding.Invariant
import NamedData.Proofs.Framing.Stream
import NamedData.Proofs.Packet.Copies

/-!
# What a forwarder sends

Everything that a forwarder sends is a packet. It is a packet as it was received, or a copy with
another hop limit, or the copy that returns an Interest. Packets are also kept to be sent later:
objects in the cache as they were received, and returns in the pending table, which are made when
their Interests come in and wait there through any number of events.
-/

namespace NamedData.Forwarder

open PendingTable

variable {f : Forwarder} {e : Event} {face g : FaceId} {m : Message} {bytes payload : Octets}
variable {frame : OutFrame} {priority : Priority}

/-- The returns that wait in the pending table can be read. -/
def HoldsPackets (f : Forwarder) : Prop :=
  ∀ key g r payload, f.pending.record? key g = some r → r.pendingReturn = some payload →
    payload.Readable

theorem HoldsPackets.step (h : f.HoldsPackets) (hf : f.Sound) (e : Event) :
    (f.step e).1.HoldsPackets := by
  refine deferred_step (P := fun _ => Octets.Readable) ?_ hf.pending h e
  intro bytes m code key hparse hkind _
  exact Message.readable_toInterestReturn hparse hkind code

theorem HoldsPackets.run (h : f.HoldsPackets) (hf : f.Sound) (events : List Event) :
    (f.run events).HoldsPackets := by
  induction events generalizing f with
  | nil => exact h
  | cons e events ih => exact ih (h.step hf e) (hf.step e)

theorem Reachable.holdsPackets (h : f.Reachable) : f.HoldsPackets := by
  obtain ⟨f₀, events, hbuilt, rfl⟩ := h
  apply HoldsPackets.run _ hbuilt.sound
  intro key g r payload hr
  rw [hbuilt.record?_eq_none] at hr
  cases hr

theorem readable_of_returnsOf {code : ReturnCode} (hparse : Message.parse bytes = .ok m)
    (h : .send frame priority ∈ f.returnsOf face m code) : frame.payload.Readable := by
  unfold returnsOf at h
  split at h
  · rename_i hreturns
    cases List.mem_singleton.1 h
    exact Message.readable_toInterestReturn hparse hreturns.2 code
  · cases h

theorem readable_of_fanOut {targets : List FaceId} {p : Priority}
    (hparse : Message.parse bytes = .ok m) (h : .send frame priority ∈ fanOut m targets p) :
    frame.payload.Readable := by
  obtain ⟨target, -, hsend⟩ := List.mem_map.1 h
  cases hsend
  exact ⟨m, Message.raw_of_parse hparse ▸ hparse⟩

theorem Handled.readable {faces : FaceView} {clock : Clock} {f' : Forwarder} {actions : List Action}
    (hf : f.Sound) (h : Handled f faces face bytes clock f' actions)
    (ha : .send frame priority ∈ actions) : frame.payload.Readable := by
  cases h with
  | malformed | joined | held | dropped => cases ha
  | command =>
    split at ha
    · cases List.mem_singleton.1 ha
    · cases ha
  | refused _ hparse => exact readable_of_returnsOf hparse ha
  | exceeded _ hreq | full _ hreq | unrouted _ hreq => exact readable_of_returnsOf hreq.parse ha
  | cached _ _ _ _ _ _ hstored =>
    cases List.mem_singleton.1 ha
    obtain ⟨-, hobject, -⟩ := stored?_eq_some hf.received hstored
    exact ⟨_, hobject⟩
  | routed _ hreq =>
    cases List.mem_singleton.1 ha
    exact Message.readable_withHopLimit hreq.parse _
  | delivered _ hparse | returned _ hparse => exact readable_of_fanOut hparse ha

theorem readable_of_sweep {now : Instant} (hf : f.Sound) (hholds : f.HoldsPackets)
    (h : .send frame priority ∈ (f.sweep now).2) : frame.payload.Readable := by
  rw [actions_sweep] at h
  obtain ⟨⟨target, payload⟩, hreturn, hsend⟩ := List.mem_map.1 h
  cases hsend
  obtain ⟨d, hd, r, hr, hface, hpayload⟩ := mem_returns_sweep hreturn
  have hrecord := hf.pending.record?_eq_some_iff.2 ⟨d, hd, rfl, hr, hface⟩
  exact hholds _ _ r _ hrecord hpayload

theorem readable_of_step (hf : f.Sound) (hholds : f.HoldsPackets)
    (h : .send frame priority ∈ (f.step e).2) : frame.payload.Readable := by
  cases e with
  | frame faces face bytes clock => exact (handled_handleFrame ..).readable hf h
  | sweep now => exact readable_of_sweep hf hholds h
  | faceClosed face => cases h
  | addRoute name face flags cost =>
    obtain ⟨routes, metrics, hstep⟩ := f.step_addRoute name face flags cost
    rw [hstep] at h
    cases h
  | removeRoute faces name face =>
    obtain ⟨routes, metrics, actions, hstep, hclose⟩ := f.step_removeRoute faces name face
    rw [hstep] at h
    cases hclose _ h

/-- Whatever a forwarder sends in a run can be read, and the framer at the other end makes one
frame of it, however it is cut. -/
theorem sends_packets (hf : f.Reachable) (h : .send frame priority ∈ (f.step e).2) :
    ∃ m, Message.parse frame.payload = .ok m ∧ ∀ pieces : List Octets,
      pieces.flatten = frame.payload →
        Framer.feed pieces {} = ([⟨frame.payload, m.headerLength⟩], { messages := 1 }) := by
  obtain ⟨m, hparse⟩ := readable_of_step hf.sound hf.holdsPackets h
  refine ⟨m, hparse, ?_⟩
  intro pieces hpieces
  exact Framer.feed_packet hparse hpieces

/-- An Interest that comes with its last hop is sent back when its time is up. -/
theorem sends_packets_small :
    let draft := { Draft.interest Small.name with hopLimit := 1 }
    let f := (Small.forwarder {}).run [Small.frame 1 draft 0]
    let payload := Small.octets
      { draft with kind := .interestReturn, returnCode := some .hopLimitExceeded }
    f.Reachable ∧ .send ⟨payload, [⟨1⟩], .object⟩ .low ∈ (f.step (.sweep 5000)).2 ∧
      ∃ m, Message.parse payload = .ok m ∧ ∀ pieces : List Octets, pieces.flatten = payload →
        Framer.feed pieces {} = ([⟨payload, m.headerLength⟩], { messages := 1 }) := by
  intro draft f payload
  have hreachable : f.Reachable := (Small.reachable rfl).run _
  have hsent : .send ⟨payload, [⟨1⟩], .object⟩ .low ∈ (f.step (.sweep 5000)).2 := by
    decide +kernel
  obtain ⟨m, hparse, hframe⟩ := sends_packets hreachable hsent
  exact ⟨hreachable, hsent, m, hparse, hframe⟩

end NamedData.Forwarder
