import NamedData.Proofs.Forwarding.Refusal
import NamedData.Proofs.Forwarding.Metering

/-!
# Requests for which there is no next hop

A request that has been entered under all its keys and turns out to have no next hop is withdrawn
from all of them. A record that its face had there before, of a request that is on its way, goes
with it.
-/

namespace NamedData.Forwarder

open PendingTable

variable {f : Forwarder} {faces : FaceView} {face g : FaceId} {bytes : Octets} {clock : Clock}
variable {m : Message} {now : Instant} {k : PendingKey}

theorem noRoute_giveBack (f : Forwarder) (code : ReturnCode) :
    (f.giveBack face m code).1.metrics.noRoute = f.metrics.noRoute := by
  unfold giveBack
  split <;> rfl

/-- If the meter moves, the pending table has a property afterwards. -/
def Counts (f : Forwarder) (P : PendingTable → Prop) (result : Forwarder × List Action) : Prop :=
  result.1.metrics.noRoute ≠ f.metrics.noRoute → P result.1.pending

theorem Counts.of_same {P : PendingTable → Prop} {result : Forwarder × List Action}
    (h : result.1.metrics.noRoute = f.metrics.noRoute) : f.Counts P result :=
  fun hcounted => absurd h hcounted

theorem counts_route (f : Forwarder) (r : Transit) :
    f.Counts (· = f.pending.releaseAll r.face r.keys) (f.route faces r) := by
  unfold route
  split
  · dsimp only
    split
    · exact .of_same rfl
    · exact fun _ => pending_giveBack ..
  · exact .of_same rfl

theorem counts_answer (f : Forwarder) (r : Transit) :
    f.Counts (· = f.pending.releaseAll r.face r.keys) (f.answer faces r now) := by
  unfold answer
  split
  · dsimp only
    split
    · exact .of_same rfl
    · exact counts_route _ r
  · exact counts_route f r

/-- A request has been entered under all its keys and withdrawn from them. -/
def Withdrawn (f : Forwarder) (face : FaceId) (m : Message) (now : Instant) (after : PendingTable) :
    Prop :=
  ∃ hop st, f.entering face m hop now = .ok st ∧ after = st.table.releaseAll face st.keys

theorem counts_register (f : Forwarder) (hop : HopLimit) :
    f.Counts (f.Withdrawn face m now) (f.register faces face m hop now) := by
  -- `register` writes the entrant out, so that is how it has to be recognised
  have hentering : enter f.suppression (f.entrant face m hop now) f.pending =
    f.entering face m hop now := rfl
  unfold entrant at hentering
  unfold register
  simp only [hentering]
  cases henter : f.entering face m hop now with
  | error st => exact .of_same (noRoute_giveBack ..)
  | ok st =>
    dsimp only
    split
    · exact fun hcounted => ⟨hop, st, henter, counts_answer _ _ hcounted⟩
    · exact .of_same rfl

theorem counts_limitHops (f : Forwarder) :
    f.Counts (f.Withdrawn face m now) (f.limitHops faces face m now) := by
  unfold limitHops
  split
  · exact .of_same (noRoute_giveBack ..)
  · exact counts_register f _

theorem counts_onRequest (f : Forwarder) :
    f.Counts (f.Withdrawn face m now) (f.onRequest faces face m now) := by
  unfold onRequest
  dsimp only
  split
  · split <;> exact .of_same rfl
  · exact counts_limitHops (f.meter _)

theorem counts_dispatch (f : Forwarder) :
    f.Counts (f.Withdrawn face m clock.now) (f.dispatch faces face m clock) := by
  unfold dispatch
  cases m.kind with
  | interest | traceRequest => exact counts_onRequest f
  | contentObject | traceReply =>
    refine .of_same ?_
    unfold onReply
    dsimp only
    split <;> rfl
  | interestReturn => exact .of_same rfl

theorem withdrawn_of_counted (hparse : Message.parse bytes = .ok m)
    (hcounted : (f.handleFrame faces face bytes clock).1.metrics.noRoute ≠ f.metrics.noRoute) :
    f.Withdrawn face m clock.now (f.handleFrame faces face bytes clock).1.pending := by
  revert hcounted
  change f.Counts (f.Withdrawn face m clock.now) (f.handleFrame faces face bytes clock)
  unfold handleFrame
  simp only [hparse]
  split
  · exact counts_dispatch (f.meter _)
  · exact .of_same (noRoute_giveBack ..)

theorem record?_unrouted (hparse : Message.parse bytes = .ok m)
    (h : (f.handleFrame faces face bytes clock).1.metrics.noRoute ≠ f.metrics.noRoute) :
    (f.handleFrame faces face bytes clock).1.pending.record? k g =
      if k ∈ m.requestKeys ∧ g = face then none else f.pending.record? k g := by
  obtain ⟨hop, st, henter, hpending⟩ := withdrawn_of_counted hparse h
  rw [hpending]
  exact record?_withdrawn (enters_of_enter henter)

/-- A request that has no next hop leaves no new records, and takes with it the records that its
face had under its keys. Of the live ones among them none is left, so what was asked for by the
face before is kept just when the face had no live record there. -/
theorem records_unrouted {f : Forwarder} (hf : f.Reachable) {faces : FaceView} {g : FaceId}
    {bytes : Octets} {clock : Clock} {m : Message} (hparse : Message.parse bytes = .ok m)
    (hunrouted : (f.handleFrame faces g bytes clock).1.metrics.noRoute ≠ f.metrics.noRoute) :
    (∀ key r, (key, r) ∈ (f.handleFrame faces g bytes clock).1.pending.records ↔
        (key, r) ∈ f.pending.records ∧ ¬(key ∈ m.requestKeys ∧ r.face = g)) ∧
      ((∀ key ∈ m.requestKeys, ∀ r, (key, r) ∈ f.pending.records → r.face = g →
          clock.now < r.expiry →
          (key, r) ∈ (f.handleFrame faces g bytes clock).1.pending.records) ↔
        ∀ key ∈ m.requestKeys, ∀ r, (key, r) ∈ f.pending.records → r.face = g →
          r.expiry ≤ clock.now) := by
  have hsound := hf.sound
  have hafter : (f.handleFrame faces g bytes clock).1.pending.Sound :=
    (hsound.step (.frame faces g bytes clock)).pending
  have hrecords : ∀ key r, (key, r) ∈ (f.handleFrame faces g bytes clock).1.pending.records ↔
      (key, r) ∈ f.pending.records ∧ ¬(key ∈ m.requestKeys ∧ r.face = g) := by
    intro key r
    exact hsound.pending.mem_records_withdrawn hafter fun _ _ => record?_unrouted hparse hunrouted
  refine ⟨hrecords, ?_⟩
  constructor
  · intro hkept key hkey r hr hface
    by_contra hlive
    have hleft := hkept key hkey r hr hface (Nat.not_le.1 hlive)
    exact ((hrecords key r).1 hleft).2 ⟨hkey, hface⟩
  · intro hdead key hkey r hr hface hlive
    exact absurd hlive (Nat.not_lt.2 (hdead key hkey r hr hface))

/-- Face 1 waits for a name. Face 4 asks for chunk 0 of it after the route has gone, and the record
of face 1 stays. -/
theorem records_unrouted_small :
    let f := (Small.forwarder {}).run
      [Small.frame 1 (.interest Small.name) 0, .removeRoute Small.faces Small.name ⟨2⟩]
    let asked := Small.octets { Draft.interest Small.name with chunk := some 0 }
    let f' := (f.handleFrame Small.faces ⟨4⟩ asked ⟨100, 0⟩).1
    f'.metrics.noRoute ≠ f.metrics.noRoute ∧ f.pending.records.length = 1 ∧
      ∀ key r, (key, r) ∈ f'.pending.records ↔ (key, r) ∈ f.pending.records := by
  intro f asked f'
  have hunrouted : f'.metrics.noRoute ≠ f.metrics.noRoute := by decide +kernel
  obtain ⟨m, hm, -⟩ := Small.exists_parse asked (·.kind = .interest) (by decide +kernel)
  have hreachable : f.Reachable := (Small.reachable rfl).run _
  have hfaces : ∀ p ∈ f.pending.records, p.2.face ≠ ⟨4⟩ := by decide +kernel
  refine ⟨hunrouted, by decide +kernel, fun key r => ?_⟩
  rw [(records_unrouted hreachable hm hunrouted).1]
  exact and_iff_left_of_imp fun hr hgone => hfaces (key, r) hr hgone.2

/-- Face 1 asks again itself after the route has gone. There is no next hop, and the record of its
first request, which is on its way to face 2, is gone. The object that face 2 answers with is sent
to nobody. -/
theorem record_lost_unrouted :
    let asks (nonce : UInt64) := { Draft.interest Small.name with nonce := some nonce }
    let before := (Small.forwarder {}).run [Small.frame 1 (asks 1) 0]
    let f := before.run [.removeRoute Small.faces Small.name ⟨2⟩]
    let after := f.handleFrame Small.faces ⟨1⟩ (Small.octets (asks 2)) ⟨100, 0⟩
    let object := Small.octets (.object Small.name [1])
    f.Reachable ∧ after.1.metrics.noRoute = f.metrics.noRoute.increment ∧
      f.pending.records.map (fun p => (p.1, p.2.face, p.2.expiry)) =
        [(.exact Small.name none, ⟨1⟩, 4000)] ∧
      after.1.pending.records = [] ∧
      (f.handleFrame Small.faces ⟨2⟩ object ⟨200, 0⟩).2 = [sendTo ⟨1⟩ object .high] ∧
      (after.1.handleFrame Small.faces ⟨2⟩ object ⟨200, 0⟩).2 = [] := by
  intro asks before f after object
  exact ⟨((Small.reachable rfl).run _).run _, by decide +kernel, by decide +kernel,
    by decide +kernel, by decide +kernel, by decide +kernel⟩

end NamedData.Forwarder
