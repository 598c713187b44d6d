import NamedData.Proofs.Daemon.Inputs

/-!
# What is left of a face that was closed

A daemon closes a face with everything that it keeps of it. Notices and data of the face that were
posted before may still be dealt with afterwards, and nobody asks then whether the face is open.
Each of them gives the face a framer again, and packets that the data completes may make the face
wait. Nothing else brings anything back, and as long as no face is opened under its number, no
route goes through it and nothing is sent to it as a request.
-/

namespace NamedData.Daemon

variable {d : Daemon} {face : FaceId} {input : Input} {inputs : List Input}

/-- Whether an input is a notice of the opening of a face or data of the face. -/
def Input.isLeftover (face : FaceId) (input : Input) : Bool :=
  input.opens face || (input.piece? face).isSome

/-- No input opens a face. -/
def StaysClosed (face : FaceId) : List Input → Daemon → Prop
  | [], _ => True
  | input :: inputs, d =>
    ¬(d.take input).faces.isOpen face ∧ StaysClosed face inputs (d.take input)

/-- While a face is closed, a notice or data leaves a framer, and only another closing removes it. -/
theorem framer_take_of_closed (hpeers : d.faces.PeersOpen) (hclosed : ¬d.faces.isOpen face) :
    ((d.take input).framers.find? face).isSome ↔
      input.isLeftover face ∨ (d.framers.find? face).isSome ∧ ¬input.ends face := by
  have hcloses : d.Closes face input ↔ input.ends face := by simp [Closes, hclosed]
  rw [framer_take hpeers, Input.isLeftover]
  by_cases hopens : input.opens face
  · simp [hopens]
  · cases hpiece : input.piece? face with
    | some data => simp [hopens]
    | none => by_cases hends : input.ends face <;> simp [hopens, hcloses, hends]

theorem framer_run_of_closed (hd : d.Sound) (hclosed : ¬d.faces.isOpen face)
    (hstays : StaysClosed face inputs d) :
    ((d.run inputs).framers.find? face).isSome ↔
      (∃ front leftover back, inputs = front ++ leftover :: back ∧ leftover.isLeftover face ∧
        ∀ i ∈ back, ¬i.ends face) ∨
        (d.framers.find? face).isSome ∧ ∀ i ∈ inputs, ¬i.ends face := by
  induction inputs generalizing d with
  | nil => simp
  | cons input inputs ih =>
    obtain ⟨hafter, hrest⟩ := hstays
    rw [run_cons, ih (hd.take input) hafter hrest, framer_take_of_closed hd.peers hclosed]
    constructor
    · rintro (⟨front, leftover, back, rfl, hleft, hback⟩ | ⟨hleft | ⟨hsome, hends⟩, hinputs⟩)
      · exact .inl ⟨input :: front, leftover, back, rfl, hleft, hback⟩
      · exact .inl ⟨[], input, inputs, rfl, hleft, hinputs⟩
      · exact .inr ⟨hsome, List.forall_mem_cons.2 ⟨hends, hinputs⟩⟩
    · rintro (⟨front, leftover, back, heq, hleft, hback⟩ | ⟨hsome, hinputs⟩)
      · cases front with
        | nil =>
          obtain ⟨rfl, rfl⟩ := List.cons.inj heq
          exact .inr ⟨.inl hleft, hback⟩
        | cons first front =>
          obtain ⟨rfl, rfl⟩ := List.cons.inj heq
          exact .inl ⟨front, leftover, back, rfl, hleft, hback⟩
      · obtain ⟨hends, hinputs⟩ := List.forall_mem_cons.1 hinputs
        exact .inr ⟨.inr ⟨hsome, hends⟩, hinputs⟩

theorem leadsTo_run_of_closed (hd : d.Sound) (hstays : StaysClosed face inputs d)
    (h : (d.run inputs).forwarder.LeadsTo face) : d.forwarder.LeadsTo face := by
  induction inputs generalizing d with
  | nil => exact h
  | cons input inputs ih =>
    obtain ⟨hafter, hrest⟩ := hstays
    have hlater := ih (hd.take input) hrest h
    obtain ⟨change, events, hrun, hevents⟩ := forwarder_take hd.peers input
    rw [hrun] at hlater
    have hbefore : (d.forwarder.meter change).LeadsTo face :=
      Forwarder.leadsTo_run (hd.forwarder.meter change)
        (fun e he hroute => hafter ((hevents e he face).2 hroute)) hlater
    exact hbefore

theorem awaits_run (hd : d.Sound) (h : (d.run inputs).forwarder.Awaits face) :
    d.forwarder.Awaits face ∨ ∃ front leftover back, inputs = front ++ leftover :: back ∧
      (d.run front).hands face leftover ≠ [] := by
  induction inputs generalizing d with
  | nil => exact .inl h
  | cons input inputs ih =>
    rcases ih (hd.take input) h with hlater | ⟨front, leftover, back, rfl, hhands⟩
    · by_cases hhands : d.hands face input = []
      · obtain ⟨change, events, hrun, hevents⟩ := forwarder_take hd.peers input
        rw [hrun] at hlater
        have hbefore : (d.forwarder.meter change).Awaits face :=
          Forwarder.awaits_run (hd.forwarder.meter change)
            (fun e he hfrom => (hevents e he face).1 hfrom hhands) hlater
        exact .inl hbefore
      · exact .inr ⟨[], input, inputs, rfl, hhands⟩
    · exact .inr ⟨input :: front, leftover, back, rfl, hhands⟩

/-- When a face has been closed, and until one is opened under its number, no route goes through it
and no request is noted as sent to it. The daemon has a framer for it exactly when it has dealt
with a notice or with data of the face since it was last closed, and the face waits for something
only if such data completed a packet. -/
theorem kept_of_closed_face (hd : d.Reachable) (hclose : d.Closes face input)
    (hstays : StaysClosed face inputs (d.take input)) :
    let after := (d.take input).run inputs
    ¬after.forwarder.LeadsTo face ∧
      ((after.framers.find? face).isSome ↔
        ∃ front leftover back, inputs = front ++ leftover :: back ∧ leftover.isLeftover face ∧
          ∀ i ∈ back, ¬i.ends face) ∧
      (after.forwarder.Awaits face →
        ∃ front leftover back, inputs = front ++ leftover :: back ∧
          ((d.take input).run front).hands face leftover ≠ []) := by
  intro after
  have hsound := hd.sound.take input
  have hforgotten := not_refersTo_of_closes hd.sound hclose
  refine ⟨?_, ?_, ?_⟩
  · intro hleads
    exact hforgotten (.inr (leadsTo_run_of_closed hsound hstays hleads))
  · have hnone : ¬((d.take input).framers.find? face).isSome := by
      rw [framer_of_closes hd.sound.peers hclose]
      exact Bool.false_ne_true
    rw [framer_run_of_closed hsound (not_isOpen_of_closes hclose) hstays]
    exact or_iff_left fun hkept => hnone hkept.1
  · intro hawaits
    exact (awaits_run hsound hawaits).resolve_left fun hbefore => hforgotten (.inl hbefore)

/-- Half a packet gives a closed face a framer again, and no table refers to the face. -/
theorem kept_of_closed_face_small :
    let d := (Small.daemon {}).run [.opening .unix none]
    let packet := Forwarder.Small.octets (.interest Forwarder.Small.name)
    let after := (d.take (.failure ⟨1⟩)).run [Small.received 1 (packet.take 5)]
    d.faces.isOpen ⟨1⟩ ∧ ¬after.forwarder.RefersTo ⟨1⟩ ∧ (after.framers.find? ⟨1⟩).isSome := by
  intro d packet after
  obtain ⟨hleads, hframer, -⟩ := @kept_of_closed_face d ⟨1⟩ (.failure ⟨1⟩)
    [Small.received 1 (packet.take 5)] (Small.reachable.run [.opening .unix none])
    (by decide +kernel) ⟨by decide +kernel, trivial⟩
  have hwaits : ¬after.forwarder.Awaits ⟨1⟩ := by decide +kernel
  exact ⟨by decide +kernel, not_or.2 ⟨hwaits, hleads⟩,
    hframer.2 ⟨[], _, [], rfl, by decide +kernel, nofun⟩⟩

/-- A request whose last hop this is was still waiting to be dealt with when its face was closed.
It gives the face a framer and makes it wait. -/
theorem closed_face_waits :
    let d := (Small.daemon {}).run [.opening .unix none]
    let packet := Forwarder.Small.octets
      { Draft.interest Forwarder.Small.name with hopLimit := 1 }
    let inputs := [Small.received 1 packet]
    let after := (d.take (.failure ⟨1⟩)).run inputs
    d.Reachable ∧ d.Closes ⟨1⟩ (.failure ⟨1⟩) ∧
      StaysClosed ⟨1⟩ inputs (d.take (.failure ⟨1⟩)) ∧
      (after.framers.find? ⟨1⟩).isSome ∧ after.forwarder.Awaits ⟨1⟩ := by
  intro d packet inputs after
  exact ⟨Small.reachable.run [.opening .unix none], by decide +kernel,
    ⟨by decide +kernel, trivial⟩, by decide +kernel, by decide +kernel⟩

end NamedData.Daemon
