import NamedData.Proofs.Forwarding.RoundTrip

/-!
# Interest Returns that are put off

An Interest that has used up its hop limit leaves an Interest Return in its record, to be sent
if the record runs out unanswered. A sweep sends the return of every record that it takes away.
A reply takes away the whole entry and goes to the live records only, so the return is lost
when the reply comes after the record has run out and before a sweep has seen it.
-/

namespace NamedData.Forwarder

open PendingTable

variable {f : Forwarder} {k : PendingKey} {g face : FaceId} {r : WaitRecord} {m : Message}
variable {now : Instant} {payload : Octets}

theorem taken_of_gone (hr : f.pending.record? k g = some r)
    (hgone : (f.pending.deliver m now).1.record? k g = none) :
    k ∈ candidates m ∧ ∃ e, f.pending.find? k = some e ∧ takes m e ∧ e.record? g = some r := by
  have hk : k ∈ candidates m := by
    by_contra hother
    rw [record?_deliver_of_not_mem hother, hr] at hgone
    cases hgone
  obtain ⟨e, he, hrec⟩ := record?_eq_some_iff.1 hr
  refine ⟨hk, e, he, ?_, hrec⟩
  -- an entry that does not take the reply is left as it is, with all its records
  by_contra hleft
  have hremains : remainder m f.pending.window e = some e := if_pos (by simpa using hleft)
  have hstays : (f.pending.deliver m now).1.find? k = some e := by
    rw [find?_deliver, if_pos hk, he, Option.bind_some, hremains]
  rw [record?_of_find? hstays, hrec] at hgone
  cases hgone

/-- The face of a record that a reply takes away is sent the reply if the record is live, or if
the face waits under the other key of the reply as well. -/
theorem mem_targets_iff_of_gone {faces : FaceView} (hf : f.Sound)
    (hr : f.pending.record? k g = some r)
    (hgone : (f.pending.deliver m now).1.record? k g = none) (hactive : faces.active g)
    (hface : g ≠ face) :
    g ∈ f.targets faces face m now ↔
      r.live now ∨ ∃ key ∈ candidates m, key ≠ k ∧ g ∈ f.pending.reached m now key := by
  obtain ⟨hk, e, he, htakes, hrec⟩ := taken_of_gone hr hgone
  have hlive : g ∈ f.pending.reached m now k ↔ r.live now := by
    have hnodup := (hf.pending.entry he).faces_nodup
    simp [mem_reached, he, htakes, PendingEntry.mem_liveFaces_iff hnodup, hrec, WaitRecord.live]
  have htarget : g ∈ f.targets faces face m now ↔
      ∃ key ∈ candidates m, g ∈ f.pending.reached m now key := by
    simp [targets, Strategy.forReply, Strategy.usableFace, hface, hactive, faces_deliver,
      mem_pushNew]
  -- under `k` the record decides, and the other key of the reply may reach the face all the same
  rw [htarget, ← hlive]
  constructor
  · rintro ⟨key, hkey, hreached⟩
    by_cases hsame : key = k
    · exact .inl (hsame ▸ hreached)
    · exact .inr ⟨key, hkey, hsame, hreached⟩
  · rintro (hreached | ⟨key, hkey, -, hreached⟩)
    · exact ⟨k, hk, hreached⟩
    · exact ⟨key, hkey, hreached⟩

/-- What becomes of a return that was put off, when its record goes. A sweep sends it. A reply
goes to the face in its place, once and unchanged, if the record is live or the face waits under
the other key of the reply; if not, the face is sent nothing. -/
theorem deferred_return_settled {f : Forwarder} (hf : f.Reachable) {k : PendingKey} {g : FaceId}
    {r : WaitRecord} {payload : Octets} (hr : f.pending.record? k g = some r)
    (hreturn : r.pendingReturn = some payload) :
    (∀ now, (f.sweep now).1.pending.record? k g = none →
        sendTo g payload .low ∈ (f.sweep now).2) ∧
      ∀ (faces : FaceView) (face : FaceId) (bytes : Octets) (clock : Clock) (m : Message),
        Message.parse bytes = .ok m → m.kind.isRequest = false →
        (f.handleFrame faces face bytes clock).1.pending.record? k g = none →
        faces.active g → g ≠ face →
        (f.handleFrame faces face bytes clock).2.filter (·.reaches g) =
          if r.live clock.now ∨
              ∃ key ∈ candidates m, key ≠ k ∧ g ∈ f.pending.reached m clock.now key then
            [sendTo g bytes (if m.kind = .contentObject then .high else .low)]
          else [] := by
  have hsound := hf.sound
  constructor
  · intro now hgone
    rw [pending_sweep] at hgone
    rw [actions_sweep]
    exact List.mem_map.2 ⟨(g, payload), hsound.pending.mem_returns_of_gone hr hreturn hgone, rfl⟩
  · intro faces face bytes clock m hparse hkind hgone hactive hface
    rcases (handled_handleFrame f faces face bytes clock).reply hparse hkind with
      ⟨-, hsame, -⟩ | ⟨-, hpending, hactions⟩
    · rw [hsame, hr] at hgone
      cases hgone
    · rw [hpending] at hgone
      have htargets := mem_targets_iff_of_gone hsound hr hgone hactive hface
      rw [hactions, ← Message.raw_of_parse hparse]
      by_cases hreaches : r.live clock.now ∨
          ∃ key ∈ candidates m, key ≠ k ∧ g ∈ f.pending.reached m clock.now key
      · rw [if_pos hreaches, filter_fanOut nodup_targets (htargets.2 hreaches)]
      · rw [if_neg hreaches, filter_fanOut_of_not_mem (mt htargets.1 hreaches)]

/-- Face 1 asks for `/a` with its last hop. It is sent its return if nothing comes, and the object
from face 2 if that comes in time. -/
theorem deferred_return_settled_small :
    let f := Small.forwarder {}
    let waiting := f.run [Small.frame 1 { Draft.interest Small.name with hopLimit := 1 } 0]
    let object := Small.octets (.object Small.name [1])
    ∃ r payload, waiting.pending.record? (.exact Small.name none) ⟨1⟩ = some r ∧
      r.pendingReturn = some payload ∧ sendTo ⟨1⟩ payload .low ∈ (waiting.sweep 5000).2 ∧
      (waiting.handleFrame Small.faces ⟨2⟩ object ⟨3000, 0⟩).2.filter (·.reaches ⟨1⟩) =
        [sendTo ⟨1⟩ object .high] := by
  intro f waiting object
  have hreachable : waiting.Reachable := (Small.reachable rfl).run _
  have hrecord : (waiting.pending.record? (.exact Small.name none) ⟨1⟩).any fun r =>
      r.live 3000 && r.pendingReturn.isSome := by decide +kernel
  obtain ⟨r, hr, hheld⟩ := (Option.any_eq_true _ _).1 hrecord
  obtain ⟨hlive, hsome⟩ := Bool.and_eq_true_iff.1 hheld
  obtain ⟨payload, hreturn⟩ := Option.isSome_iff_exists.1 hsome
  obtain ⟨o, ho, hobject⟩ := Small.exists_parse object (·.kind = .contentObject) (by decide +kernel)
  have hkind : o.kind = .contentObject := by simpa using hobject
  obtain ⟨hswept, hreplied⟩ := deferred_return_settled hreachable hr hreturn
  refine ⟨r, payload, hr, hreturn, hswept 5000 (by decide +kernel), ?_⟩
  rw [hreplied Small.faces ⟨2⟩ object ⟨3000, 0⟩ o ho (by rw [hkind]; rfl) (by decide +kernel) rfl
    (by decide), if_pos (.inl hlive), if_pos hkind]

/-- The same face asks for one second only. An object that comes after that and before a sweep
takes away the record with its return, and nothing is sent. -/
theorem deferred_return_lost :
    let draft := { Draft.interest Small.name with hopLimit := 1, lifetime := some 1000 }
    let f := (Small.forwarder {}).run [Small.frame 1 draft 0]
    let object := Small.octets (.object Small.name [1])
    let f' := (f.handleFrame Small.faces ⟨2⟩ object ⟨1500, 0⟩).1
    f.interestReturn ∧
      (f.pending.record? (.exact Small.name none) ⟨1⟩).any (·.pendingReturn.isSome) ∧
      f'.pending.record? (.exact Small.name none) ⟨1⟩ = none ∧ Small.faces.active ⟨1⟩ ∧
      (f.handleFrame Small.faces ⟨2⟩ object ⟨1500, 0⟩).2 = [] := by
  intro draft f object f'
  exact ⟨by decide +kernel, by decide +kernel, by decide +kernel, rfl, by decide +kernel⟩

end NamedData.Forwarder
