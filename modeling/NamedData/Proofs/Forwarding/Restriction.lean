import NamedData.Proofs.Forwarding.Invariant

/-!
# Whose restrictions an object satisfies

Only the request that creates an entry sets its restrictions; those that join it
later leave them alone, whatever they ask for themselves. An object that is sent
because of an entry satisfies the restrictions of the request that created it.
-/

namespace NamedData

namespace PendingTable

/-- The entry under a key has its restrictions from the entry that a table has there. -/
def Inherits (t : PendingTable) (k : PendingKey) (d : PendingEntry) : Prop :=
  d.key = k → ∃ e, t.find? k = some e ∧ d.restrictions = e.restrictions

variable {t u : PendingTable} {k : PendingKey} {d : PendingEntry} {g : FaceId} {now : Instant}

theorem stable_inherits : PendingEntry.Stable (Inherits t k) :=
  ⟨fun _ _ _ _ h => h, fun _ _ h => h, fun _ _ h => h⟩

theorem Sound.every_inherits (h : t.Sound) : t.Every (Inherits t k) := fun d hd hkey =>
  ⟨d, (find?_eq_some_iff h.keys_nodup).2 ⟨hd, hkey⟩, rfl⟩

theorem Every.inherited (h : u.Every (Inherits t k)) (hd : u.find? k = some d) :
    ∃ e, t.find? k = some e ∧ d.restrictions = e.restrictions :=
  h.find? hd (key_of_find? hd)

/-- A request joins the entry that it finds, with its restrictions, or creates an entry with
its own where there is none or a dead one. -/
theorem Entrant.restrictions_joins (r : Entrant) (s : Suppression) (t : PendingTable)
    (key : PendingKey × PendingKind) :
    ((t.find? key.1).all (·.dead r.now) ∧
        (r.joins s (r.host t key)).restrictions = r.request.restrictions) ∨
      ∃ e, t.find? key.1 = some e ∧ e.dead r.now = false ∧
        (r.joins s (r.host t key)).restrictions = e.restrictions := by
  rw [(joins_fields _).2.2.1, host]
  cases hfound : r.found? t key.1 with
  | none => exact .inl ⟨found?_eq_none_iff.1 hfound, rfl⟩
  | some e =>
    obtain ⟨he, hdead⟩ := found?_eq_some hfound
    exact .inr ⟨e, he, hdead, rfl⟩

end PendingTable

namespace Forwarder

open PendingTable

/-- The request of an event that creates the entry under a key: nothing was there before but
perhaps a dead entry, and the sender waits there afterwards. -/
def creates? (f : Forwarder) (k : PendingKey) (e : Event) : Option Message :=
  match e with
  | .frame _ face bytes clock =>
    if (f.pending.find? k).all (·.dead clock.now) &&
        ((f.step e).1.pending.record? k face).isSome then
      (Message.parse bytes).toOption
    else none
  | .sweep _ | .faceClosed _ | .addRoute .. | .removeRoute .. => none

/-- The request that last created the entry under a key, after some events; `m` did so before. -/
def creator? (f : Forwarder) (k : PendingKey) (m : Option Message) : List Event → Option Message
  | [] => m
  | e :: events => (f.step e).1.creator? k ((f.creates? k e).or m) events

/-- Where the restrictions of an entry come from that is under a key after an event: from the
entry that was there before, or from a request of the event that has created the entry. -/
inductive Origin (f : Forwarder) (k : PendingKey) (t : PendingTable) (d : PendingEntry) :
    Event → Prop
  | kept {e : Event} {c : PendingEntry} : f.pending.find? k = some c →
      d.restrictions = c.restrictions →
      (∀ faces face bytes clock, e = .frame faces face bytes clock →
        (f.pending.find? k).all (·.dead clock.now) → t.record? k face = none) →
      Origin f k t d e
  | created {faces face bytes clock m} : Message.parse bytes = .ok m →
      (f.pending.find? k).all (·.dead clock.now) → (t.record? k face).isSome →
      d.restrictions = m.restrictions → Origin f k t d (.frame faces face bytes clock)

variable {f : Forwarder} {e : Event} {t u : PendingTable} {k : PendingKey} {c d : PendingEntry}

namespace Origin

theorem of_records (hc : f.pending.find? k = some c) (hd : d.restrictions = c.restrictions)
    (h : ∀ g r, t.record? k g = some r → f.pending.record? k g = some r) : Origin f k t d e := by
  refine .kept hc hd fun faces face bytes clock _ hdead => ?_
  rw [Option.eq_none_iff_forall_not_mem]
  intro r hr
  have hbefore := h face r hr
  rw [record?_of_dead hdead] at hbefore
  cases hbefore

theorem of_inherits (h : t.Every (Inherits f.pending k)) (hd : t.find? k = some d)
    (hrecords : ∀ g r, t.record? k g = some r → f.pending.record? k g = some r) :
    Origin f k t d e := by
  obtain ⟨c, hc, hrestrictions⟩ := h.inherited hd
  exact of_records hc hrestrictions hrecords

theorem of_find?_eq (h : t.find? k = f.pending.find? k) (hd : t.find? k = some d) :
    Origin f k t d e :=
  of_records (h.symm.trans hd) rfl fun _ _ hr => (record?_congr h).symm.trans hr

theorem congr (h : Origin f k u c e) (hd : d.restrictions = c.restrictions)
    (hrecords : ∀ g, t.record? k g = u.record? k g) : Origin f k t d e := by
  cases h with
  | kept hb hc hnone =>
    refine .kept hb (hd.trans hc) fun faces face bytes clock he hdead => ?_
    rw [hrecords, hnone faces face bytes clock he hdead]
  | created hparse hdead hsome hc =>
    exact .created hparse hdead (by rw [hrecords]; exact hsome) (hd.trans hc)

theorem of_entered {faces : FaceView} {face : FaceId} {bytes : Octets} {clock : Clock}
    {m : Message} {hop : HopLimit} {st : Entered} (hparse : Message.parse bytes = .ok m)
    (h : Enters f.suppression (f.entrant face m hop clock.now) f.pending
      (f.entrant face m hop clock.now).request.keys st)
    (hd : st.table.find? k = some d) :
    Origin f k st.table d (.frame faces face bytes clock) := by
  by_cases hk : k ∈ m.requestKeys
  · obtain ⟨key, hkey, rfl⟩ := List.mem_map.1 hk
    have hfound := h.find?_of_mem (PendingRequest.nodup_keys _) hkey
    rw [hfound] at hd
    obtain rfl := Option.some.inj hd
    rcases Entrant.restrictions_joins (f.entrant face m hop clock.now) f.suppression f.pending key
      with ⟨hdead, hrestrictions⟩ | ⟨c, hc, hdead, hrestrictions⟩
    · refine .created hparse hdead ?_ hrestrictions
      rw [record?_entered h, if_pos ⟨hk, rfl⟩]
      rfl
    · refine .kept hc hrestrictions ?_
      rintro _ _ _ _ ⟨⟩ hall
      rw [hc, Option.all_some] at hall
      exact absurd (hdead.symm.trans hall) nofun
  · exact of_find?_eq (h.find?_of_not_mem hk) hd

theorem of_withdrawn {faces : FaceView} {face : FaceId} {bytes : Octets} {clock : Clock}
    {m : Message} {hop : HopLimit} {front rest : List (PendingKey × PendingKind)} {st : Entered}
    (hkeys : (f.entrant face m hop clock.now).request.keys = front ++ rest)
    (h : Enters f.suppression (f.entrant face m hop clock.now) f.pending front st)
    (hd : (st.table.releaseAll face st.keys).find? k = some d) :
    Origin f k (st.table.releaseAll face st.keys) d (.frame faces face bytes clock) := by
  have hrecords := fun (g : FaceId) (r : WaitRecord) =>
    record?_of_withdrawn (k := k) (g := g) (r := r) h
  have hnodup := PendingRequest.nodup_front hkeys
  have hfind : (st.table.releaseAll face st.keys).find? k = _ := find?_releaseAll st.keys
  rw [h.keys_eq] at hfind hd hrecords ⊢
  by_cases hk : k ∈ front.map (·.1)
  · obtain ⟨key, hkey, rfl⟩ := List.mem_map.1 hk
    rw [if_pos hk, h.find?_of_mem hnodup hkey, hd] at hfind
    obtain ⟨hrelease, hwaiting⟩ := Option.filter_eq_some_iff.1 hfind.symm
    obtain rfl := Option.some.inj hrelease
    rcases Entrant.restrictions_joins (f.entrant face m hop clock.now) f.suppression f.pending key
      with ⟨hdead, -⟩ | ⟨c, hc, -, hrestrictions⟩
    · have hnobody : ∀ g, (((f.entrant face m hop clock.now).joins f.suppression
          ((f.entrant face m hop clock.now).host f.pending key)).release face).record? g =
            none := by
        intro g
        rw [PendingEntry.record?_release, Entrant.record?_joins, Entrant.record?_host,
          record?_of_dead hdead]
        by_cases hg : g = face <;> simp [hg]
      have hempty := List.eq_nil_iff_forall_not_mem.2 fun q hq =>
        PendingEntry.record?_eq_none_iff.1 (hnobody q.face) q hq rfl
      rw [hempty] at hwaiting
      cases hwaiting
    · exact of_records hc hrestrictions hrecords
  · rw [if_neg hk, hd] at hfind
    exact of_records ((h.find?_of_not_mem hk).symm.trans hfind.symm) rfl hrecords

end Origin

theorem Moves.origin (hf : f.pending.Sound) (h : Moves f e t) (hd : t.find? k = some d) :
    Origin f k t d e := by
  have hinherits := hf.every_inherits (k := k)
  have hstable := stable_inherits (t := f.pending) (k := k)
  cases h with
  | same => exact .of_find?_eq rfl hd
  | entered hreq henter => exact .of_entered hreq.parse henter hd
  | @noted faces face bytes clock m hop st targets hreq henter =>
    have hnoted := (henter.sound hf).every_inherits (k := k)
    obtain ⟨c, hc, hrestrictions⟩ :=
      (hnoted.foldl_addAllOnward stable_inherits st.keys targets).inherited hd
    refine (Origin.of_entered hreq.parse henter hc).congr hrestrictions fun g => ?_
    exact record?_foldl_addAllOnward ..
  | withdrawn hreq hkeys henter => exact .of_withdrawn hkeys henter hd
  | matched =>
    exact .of_inherits (hinherits.deliver hstable _ _) hd fun _ _ hr => record?_of_deliver hr
  | swept => exact .of_inherits (hinherits.sweep hstable _) hd fun _ _ hr => hf.record?_of_sweep hr
  | forgot => exact .of_inherits (hinherits.forget hstable) hd fun _ _ hr => record?_of_forget hr

/-- The entry under a key has the restrictions of a request, if there is one. -/
def RestrictedBy (t : PendingTable) (k : PendingKey) (m : Option Message) : Prop :=
  ∀ d, t.find? k = some d → ∃ m', m = some m' ∧ d.restrictions = m'.restrictions

theorem restrictedBy_step (hf : f.Sound) {m : Option Message} (h : RestrictedBy f.pending k m)
    (e : Event) : RestrictedBy (f.step e).1.pending k ((f.creates? k e).or m) := by
  intro d hd
  cases (moves_step f e).origin hf.pending hd with
  | @kept _ c hc hrestrictions hnone =>
    obtain ⟨m', rfl, hm'⟩ := h c hc
    have hcreates : f.creates? k e = none := by
      unfold creates?
      split
      · rename_i faces face bytes clock
        split
        · rename_i hcreated
          rw [Bool.and_eq_true] at hcreated
          rw [hnone faces face bytes clock rfl hcreated.1] at hcreated
          exact absurd hcreated.2 (by simp)
        · rfl
      all_goals rfl
    rw [hcreates]
    exact ⟨m', rfl, hrestrictions.trans hm'⟩
  | @created faces face bytes clock m' hparse hdead hsome hrestrictions =>
    have hcreates : f.creates? k (.frame faces face bytes clock) = some m' := by
      rw [creates?, hdead, hsome, hparse]
      rfl
    rw [hcreates]
    exact ⟨m', rfl, hrestrictions⟩

theorem restrictedBy_run (hf : f.Sound) {m : Option Message} (h : RestrictedBy f.pending k m)
    (events : List Event) : RestrictedBy (f.run events).pending k (f.creator? k m events) := by
  induction events generalizing f m with
  | nil => exact h
  | cons e events ih => exact ih (hf.step e) (restrictedBy_step hf h e)

theorem accept_iff {ρ : Restrictions} {o : Message} :
    ρ.accept o ↔ (∀ key, ρ.keyId = some key → o.keyId = some key) ∧
      ∀ hash, ρ.objectHash = some hash → o.objectHash = hash := by
  rw [Restrictions.accept, Bool.and_eq_true]
  cases ρ.keyId <;> cases ρ.objectHash <;> simp

/-- In every run, an object that goes to a face because of the pending table satisfies the
restrictions of the request that created the entry on which the face waits. -/
theorem object_satisfies_creator {f : Forwarder} (hf : f.Built) (past : List Event)
    {faces : FaceView} {face g : FaceId} {bytes : Octets} {clock : Clock} {o : Message} {a : Action}
    (hparse : Message.parse bytes = .ok o) (hkind : o.kind = .contentObject)
    (ha : a ∈ ((f.run past).handleFrame faces face bytes clock).2) (hg : a.reaches g) :
    ∃ key ∈ candidates o, ∃ e r m, (f.run past).pending.find? key = some e ∧
      e.record? g = some r ∧ clock.now < r.expiry ∧ f.creator? key none past = some m ∧
      (∀ k, m.keyIdRestriction = some k → o.keyId = some k) ∧
      ∀ h, m.objectHashRestriction = some h → o.objectHash = h := by
  have hreply : o.kind.isRequest = false := by rw [hkind]; rfl
  obtain ⟨htarget, -⟩ := (handled_handleFrame (f.run past) faces face bytes clock)
    |>.target_of_reaches hparse hreply ha hg
  obtain ⟨key, hkey, e, r, he, htakes, hr, htime⟩ :=
    record?_of_mem_targets (hf.sound.run past).pending htarget
  have hbuilt : RestrictedBy f.pending key none := by
    intro d hd
    rw [hf.find?_eq_none] at hd
    cases hd
  obtain ⟨m, hm, hrestrictions⟩ := restrictedBy_run hf.sound hbuilt past e he
  have haccept : e.restrictions.accept o := by
    simp only [takes, hkind, Bool.and_eq_true] at htakes
    simpa using htakes.1.2
  rw [hrestrictions] at haccept
  obtain ⟨hkeyId, hhash⟩ := accept_iff.1 haccept
  exact ⟨key, hkey, e, r, m, he, hr, htime, hm, hkeyId, hhash⟩

/-- Face 1 asks for an object under a key, and the object that it is sent has that key. -/
theorem object_satisfies_creator_small :
    let f := fresh {} .bestRoute
    let past := [Small.route,
      Small.frame 1 { Draft.interest Small.name with keyIdRestriction := some Small.key } 0]
    let object := Small.octets { Draft.object Small.name [1] with keyId := some Small.key }
    ∃ m o, f.creator? (.exact Small.name none) none past = some m ∧
      m.keyIdRestriction = some Small.key ∧ Message.parse object = .ok o ∧
      o.keyId = some Small.key := by
  intro f past object
  have hobject : ∃ o, Message.parse object = .ok o ∧ o.kind = .contentObject ∧
      candidates o = [.exact Small.name none] := ⟨_, by cbv, by cbv, by cbv⟩
  obtain ⟨o, ho, hkind, hcandidates⟩ := hobject
  have hsent : ((f.run past).handleFrame Small.faces ⟨2⟩ object ⟨100, 0⟩).2 =
      [sendTo ⟨1⟩ object .high] := by decide +kernel
  have hcreator : (f.creator? (.exact Small.name none) none past).map (·.keyIdRestriction) =
      some (some Small.key) := by decide +kernel
  obtain ⟨key, hkey, e, r, m, -, -, -, hm, hkeyId, -⟩ :=
    object_satisfies_creator (Small.built (s := {}) rfl) past ho hkind
      (hsent ▸ List.mem_singleton_self _) (g := ⟨1⟩) (by decide)
  rw [hcandidates, List.mem_singleton] at hkey
  subst hkey
  have hrestricted : m.keyIdRestriction = some Small.key := by
    rw [hm] at hcreator
    simpa using hcreator
  exact ⟨m, o, hm, hrestricted, ho, hkeyId _ hrestricted⟩

/-- Face 4 asks for an object under a key that face 1 has asked for under any, and is sent an
object without a key. -/
theorem object_against_joined_request :
    let restricted := { Draft.interest Small.name with keyIdRestriction := some Small.key }
    let past := [Small.route, Small.frame 1 (.interest Small.name) 0, Small.frame 4 restricted 100]
    let f := (fresh {} .bestRoute).run past
    let object := Small.octets (.object Small.name [1])
    ((f.handleFrame Small.faces ⟨2⟩ object ⟨200, 0⟩).2.any (·.reaches ⟨4⟩)) ∧
      (f.pending.record? (.exact Small.name none) ⟨4⟩).map (·.expiry) = some (100 + 4000) ∧
      ∃ m o, Message.parse (Small.octets restricted) = .ok m ∧
        m.keyIdRestriction = some Small.key ∧ Message.parse object = .ok o ∧ o.keyId = none := by
  intro restricted past f object
  exact ⟨by decide +kernel, by decide +kernel, _, _, by cbv, by cbv, by cbv, by cbv⟩

end Forwarder
end NamedData
