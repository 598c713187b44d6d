import NamedData.Proofs.Forwarding.Invariant

/-!
# Who last wrote a record

The record of a face under a key is written by every request of the face that is
entered under the key, whether the record was there before or not. A request that
is withdrawn takes the record away again, so a record that is there has been left
by the request that wrote it last.
-/

namespace NamedData.Forwarder

open PendingTable

/-- The keys under which a request is entered before it is sent on, answered or given back. -/
def enteredKeys (f : Forwarder) (faces : FaceView) (face : FaceId) (m : Message) (now : Instant) :
    List PendingKey :=
  let hop := HopLimit.ofMessage (faces.isLocal face) m
  if hop = .exceeded then []
  else
    match f.entering face m hop now with
    | .ok st | .error st => st.keys

def writes? (f : Forwarder) (k : PendingKey) (g : FaceId) : Event → Option Message
  | .frame faces face bytes clock =>
    (Message.parse bytes).toOption.filter fun m =>
      f.accepts m && m.kind.isRequest && (command? m).isNone &&
        (face = g && k ∈ f.enteredKeys faces face m clock.now)
  | .sweep _ | .faceClosed _ | .addRoute .. | .removeRoute .. => none

/-- The request that last wrote the record of a face under a key, after some events; `m` did
so before. -/
def lastWriter? (f : Forwarder) (k : PendingKey) (g : FaceId) (m : Option Message) :
    List Event → Option Message
  | [] => m
  | e :: events => (f.step e).1.lastWriter? k g ((f.writes? k g e).or m) events

/-- The record of a face under a key, if there is one, is that of some request for the key. -/
def WrittenBy (t : PendingTable) (k : PendingKey) (g : FaceId) (m : Option Message) : Prop :=
  ∀ r, t.record? k g = some r →
    ∃ w, m = some w ∧ w.kind.isRequest ∧ k ∈ w.requestKeys ∧ r.fingerprint = w.fingerprint

variable {f : Forwarder} {faces : FaceView} {face g : FaceId} {bytes : Octets} {clock : Clock}
variable {m : Message} {k : PendingKey} {r : WaitRecord} {now : Instant}

theorem writes?_frame_eq_some :
    f.writes? k g (.frame faces face bytes clock) = some m ↔
      f.Requests bytes m ∧ face = g ∧ k ∈ f.enteredKeys faces face m clock.now := by
  have hparse : (Message.parse bytes).toOption = some m ↔ Message.parse bytes = .ok m := by
    cases Message.parse bytes <;> simp [Except.toOption]
  simp only [writes?, Option.filter_eq_some_iff, hparse, Bool.and_eq_true, decide_eq_true_eq,
    Option.isNone_iff_eq_none]
  constructor
  · rintro ⟨hparse, ⟨⟨haccepts, hrequest⟩, hcommand⟩, hentered⟩
    exact ⟨⟨hparse, haccepts, hrequest, hcommand⟩, hentered⟩
  · rintro ⟨hreq, hentered⟩
    exact ⟨hreq.parse, ⟨⟨hreq.accepted, hreq.request⟩, hreq.noCommand⟩, hentered⟩

/-- A request that has been entered under all its keys has left its record under each. -/
theorem record?_of_entering {hop : HopLimit} {st : Entered}
    (henter : f.entering face m hop now = .ok st) (hr : st.table.record? k g = some r) :
    (¬(face = g ∧ k ∈ st.keys) ∧ f.pending.record? k g = some r) ∨
      (face = g ∧ k ∈ st.keys) ∧ r.fingerprint = m.fingerprint := by
  have h := enters_of_enter henter
  have hkeys : st.keys = m.requestKeys := h.keys_eq
  rw [record?_entered h] at hr
  rw [hkeys]
  split at hr
  · rename_i hmine
    rw [← Option.some.inj hr]
    exact .inr ⟨⟨hmine.2.symm, hmine.1⟩, rfl⟩
  · rename_i hother
    exact .inl ⟨fun hmine => hother ⟨hmine.2, hmine.1.symm⟩, hr⟩

/-- A request that has been withdrawn has left no record under the keys that it was entered
under. -/
theorem record?_of_withdrawing {hop : HopLimit} {front : List (PendingKey × PendingKind)}
    {st : Entered} (h : Enters f.suppression (f.entrant face m hop now) f.pending front st)
    (hr : (st.table.releaseAll face st.keys).record? k g = some r) :
    ¬(face = g ∧ k ∈ st.keys) ∧ f.pending.record? k g = some r := by
  rw [record?_withdrawn h, ← h.keys_eq] at hr
  split at hr
  · cases hr
  · rename_i hother
    exact ⟨fun hmine => hother ⟨hmine.2, hmine.1.symm⟩, hr⟩

/-- The records after a request: those of its face under the keys that it has been entered under
are its own, if they are there, and all others are as before. -/
theorem record?_of_fate (hr : (f.fate faces face m now).1.record? k g = some r) :
    (¬(face = g ∧ k ∈ f.enteredKeys faces face m now) ∧ f.pending.record? k g = some r) ∨
      (face = g ∧ k ∈ f.enteredKeys faces face m now) ∧ r.fingerprint = m.fingerprint := by
  by_cases hhop : HopLimit.ofMessage (faces.isLocal face) m = .exceeded
  · simp only [fate, if_pos hhop] at hr
    exact .inl ⟨by simp [enteredKeys, hhop], hr⟩
  cases henter : f.entering face m (HopLimit.ofMessage (faces.isLocal face) m) now with
  | error st =>
    obtain ⟨front, key, rest, -, hfront, -⟩ := enters_of_enter_error henter
    simp only [fate, if_neg hhop, henter] at hr
    simp only [enteredKeys, if_neg hhop, henter]
    exact .inl (record?_of_withdrawing hfront hr)
  | ok st =>
    have hwithdrawn := record?_of_withdrawing (enters_of_enter henter) (k := k) (g := g) (r := r)
    simp only [fate, if_neg hhop, henter] at hr
    simp only [enteredKeys, if_neg hhop, henter]
    -- whether it is answered, held, sent on or given back, it stays entered or is withdrawn
    split at hr
    · exact record?_of_entering henter hr
    · split at hr
      · exact .inl (hwithdrawn hr)
      · split at hr
        · exact record?_of_entering henter hr
        · split at hr
          · exact .inl (hwithdrawn hr)
          · rw [record?_foldl_addAllOnward] at hr
            exact record?_of_entering henter hr

theorem mem_requestKeys_of_mem_enteredKeys (h : k ∈ f.enteredKeys faces face m now) :
    k ∈ m.requestKeys := by
  unfold enteredKeys at h
  dsimp only at h
  split at h
  · exact absurd h List.not_mem_nil
  · split at h
    · rename_i st henter
      rwa [(enters_of_enter henter).keys_eq] at h
    · rename_i st henter
      obtain ⟨front, key, rest, hkeys, hfront, -⟩ := enters_of_enter_error henter
      rw [hfront.keys_eq] at h
      rw [← map_fst_keys_entrant f face m (HopLimit.ofMessage (faces.isLocal face) m) now, hkeys,
        List.map_append]
      exact List.mem_append_left _ h

/-- A record is there from before the event, which does not write it, or the event writes it. -/
theorem record?_of_step (hf : f.pending.Sound) {e : Event}
    (hr : (f.step e).1.pending.record? k g = some r) :
    (f.writes? k g e = none ∧ f.pending.record? k g = some r) ∨
      ∃ w, f.writes? k g e = some w ∧ w.kind.isRequest ∧ k ∈ w.requestKeys ∧
        r.fingerprint = w.fingerprint := by
  by_cases hrequest : ∃ faces face bytes clock m, e = .frame faces face bytes clock ∧
      f.Requests bytes m
  · obtain ⟨faces, face, bytes, clock, m, rfl, hreq⟩ := hrequest
    have hfate : (f.fate faces face m clock.now).1 =
        (f.handleFrame faces face bytes clock).1.pending :=
      congrArg Prod.fst ((handled_handleFrame f faces face bytes clock).fate_eq hreq)
    rw [step, ← hfate] at hr
    rcases record?_of_fate hr with ⟨hnot, hbefore⟩ | ⟨hmine, hfingerprint⟩
    · refine .inl ⟨?_, hbefore⟩
      rw [Option.eq_none_iff_forall_not_mem]
      intro w hw
      obtain ⟨hw, hmine⟩ := writes?_frame_eq_some.1 hw
      obtain rfl := Message.eq_of_parse hreq.parse hw.parse
      exact hnot hmine
    · exact .inr ⟨m, writes?_frame_eq_some.2 ⟨hreq, hmine⟩, hreq.request,
        mem_requestKeys_of_mem_enteredKeys hmine.2, hfingerprint⟩
  · refine .inl ⟨?_, ?_⟩
    · rw [Option.eq_none_iff_forall_not_mem]
      intro w hw
      cases e with
      | frame faces face bytes clock =>
        exact hrequest ⟨_, _, _, _, w, rfl, (writes?_frame_eq_some.1 hw).1⟩
      | sweep | faceClosed | addRoute | removeRoute => cases hw
    · rcases (moves_step f e).record?_origin hf hr with
        hbefore | ⟨faces, bytes, clock, m, hop, rfl, hreq, -⟩
      · exact hbefore
      · exact absurd ⟨_, _, _, _, m, rfl, hreq⟩ hrequest

theorem writtenBy_step (hf : f.pending.Sound) {m : Option Message}
    (h : WrittenBy f.pending k g m) (e : Event) :
    WrittenBy (f.step e).1.pending k g ((f.writes? k g e).or m) := by
  intro r hr
  rcases record?_of_step hf hr with ⟨hnone, hbefore⟩ | ⟨w, hw, hwritten⟩
  · rw [hnone, Option.none_or]
    exact h r hbefore
  · rw [hw, Option.some_or]
    exact ⟨w, rfl, hwritten⟩

theorem writtenBy_run (hf : f.Sound) {m : Option Message} (h : WrittenBy f.pending k g m)
    (events : List Event) : WrittenBy (f.run events).pending k g (f.lastWriter? k g m events) := by
  induction events generalizing f m with
  | nil => exact h
  | cons e events ih => exact ih (hf.step e) (writtenBy_step hf.pending h e)

/-- In every run that starts with an empty table, a record has been left by its last writer. -/
theorem Built.writtenBy_run (hf : f.Built) (k : PendingKey) (g : FaceId) (events : List Event) :
    WrittenBy (f.run events).pending k g (f.lastWriter? k g none events) := by
  refine Forwarder.writtenBy_run hf.sound ?_ events
  intro r hr
  rw [hf.record?_eq_none] at hr
  cases hr

end NamedData.Forwarder
