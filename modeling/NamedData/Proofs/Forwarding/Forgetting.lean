import NamedData.Proofs.Forwarding.Onward
import NamedData.Proofs.Route.Counting

/-!
# Faces that have gone

The tables refer to a face where it waits, where a request was sent to it and where a route goes
through it. A face that has gone is taken out of all three. From then on the tables copy references
from one to another but make none of their own, so the face stays forgotten until something is
received from it or a route through it is added. Until then nothing is sent to it either, whether
its number is in use again or not.
-/

namespace NamedData

namespace PendingTable

/-- What waits under a key was sent to a face. -/
def SentTo (t : PendingTable) (k : PendingKey) (g : FaceId) : Prop :=
  ∃ e, t.find? k = some e ∧ g ∈ e.onward

variable {t : PendingTable} {k : PendingKey} {g face : FaceId} {now : Instant}

theorem sentTo_deliver {reply : Message} (h : (t.deliver reply now).1.SentTo k g) :
    t.SentTo k g := by
  obtain ⟨d, hd, hg⟩ := h
  rw [find?_deliver] at hd
  split at hd
  · obtain ⟨e, he, hremainder⟩ := Option.bind_eq_some_iff.1 hd
    rw [onward_of_remainder hremainder] at hg
    exact ⟨e, he, hg⟩
  · exact ⟨d, hd, hg⟩

theorem sentTo_sweep (ht : t.Sound) (h : (t.sweep now).1.SentTo k g) : t.SentTo k g := by
  obtain ⟨d, hd, hg⟩ := h
  cases hrun : t.sweeps now with
  | false =>
    rw [sweep_of_not_sweeps hrun] at hd
    exact ⟨d, hd, hg⟩
  | true =>
    rw [find?_sweep ht.keys_nodup hrun] at hd
    obtain ⟨e, he, hkept⟩ := Option.bind_eq_some_iff.1 hd
    rw [onward_of_kept hkept] at hg
    exact ⟨e, he, hg⟩

theorem sentTo_releaseAll {keys : List PendingKey} (h : (t.releaseAll face keys).SentTo k g) :
    t.SentTo k g := by
  obtain ⟨d, hd, hg⟩ := h
  rw [find?_releaseAll] at hd
  split at hd
  · obtain ⟨hmap, -⟩ := Option.filter_eq_some_iff.1 hd
    obtain ⟨e, he, rfl⟩ := Option.map_eq_some_iff.1 hmap
    exact ⟨e, he, hg⟩
  · exact ⟨d, hd, hg⟩

theorem sentTo_foldl_addAllOnward {keys : List PendingKey} (hkeys : keys.Nodup)
    {targets : List FaceId}
    (h : (keys.foldl (fun t key => t.update key (·.addAllOnward targets)) t).SentTo k g) :
    t.SentTo k g ∨ g ∈ targets := by
  obtain ⟨d, hd, hg⟩ := h
  rw [find?_foldl_addAllOnward hkeys] at hd
  split at hd
  · obtain ⟨e, he, rfl⟩ := Option.map_eq_some_iff.1 hd
    rw [addAllOnward_eq] at hg
    exact ((mem_pushNew e.onward targets).1 hg).imp (fun hold => ⟨e, he, hold⟩) id
  · exact .inl ⟨d, hd, hg⟩

theorem sentTo_forget (h : (t.forget face).SentTo k g) : t.SentTo k g ∧ g ≠ face := by
  obtain ⟨d, hd, hg⟩ := h
  rw [find?_forget] at hd
  obtain ⟨e, he, rfl⟩ := Option.map_eq_some_iff.1 hd
  obtain ⟨hmem, hother⟩ := List.mem_filter.1 hg
  exact ⟨⟨e, he, hmem⟩, by simpa using hother⟩

theorem sentTo_of_join? {s : Suppression} {r : Entrant} {key : PendingKey × PendingKind}
    {j : Joined} (hj : t.join? s r key = some j) (h : j.table.SentTo k g) : t.SentTo k g := by
  obtain ⟨d, hd, hg⟩ := h
  rw [find?_of_join? hj] at hd
  split at hd
  · rename_i hk
    obtain rfl := Option.some.inj hd
    rw [(Entrant.joins_fields _).2.2.2.1, Entrant.host] at hg
    cases hfound : r.found? t key.1 with
    | none =>
      rw [hfound] at hg
      exact absurd hg List.not_mem_nil
    | some e =>
      rw [hfound] at hg
      exact ⟨e, hk ▸ (Entrant.found?_eq_some hfound).1, hg⟩
  · exact ⟨d, hd, hg⟩

theorem Sound.exists_waiting (h : t.Sound) :
    (∃ e ∈ t.entries, ∃ r ∈ e.waiting, r.face = g) ↔ ∃ k r, t.record? k g = some r := by
  constructor
  · rintro ⟨e, he, r, hr, hface⟩
    exact ⟨e.key, r, h.record?_eq_some_iff.2 ⟨e, he, rfl, hr, hface⟩⟩
  · rintro ⟨k, r, hr⟩
    obtain ⟨e, he, -, hmem, hface⟩ := h.record?_eq_some_iff.1 hr
    exact ⟨e, he, r, hmem, hface⟩

theorem Sound.exists_onward (h : t.Sound) :
    (∃ e ∈ t.entries, g ∈ e.onward) ↔ ∃ k, t.SentTo k g := by
  constructor
  · rintro ⟨e, he, hg⟩
    exact ⟨e.key, e, (find?_eq_some_iff h.keys_nodup).2 ⟨he, rfl⟩, hg⟩
  · rintro ⟨k, e, he, hg⟩
    exact ⟨e, mem_of_find? he, hg⟩

end PendingTable

namespace RouteTable

variable {t u : RouteTable} {name : Name} {face g : FaceId}

theorem mem_of_longestMatch {e : RouteEntry} (h : t.longestMatch name = some e) :
    e ∈ t.entries := by
  obtain ⟨found, -, hfound, -⟩ := probe_eq_some h
  exact mem_of_find? hfound

theorem uses_countAll (faces : List FaceId) (frameClass : FrameClass) :
    (t.countAll name faces frameClass).uses g = t.uses g := by
  rw [← uses_uncounted, uncounted_countAll, uses_uncounted]

theorem faces_addHop {e : RouteEntry} {hop h : NextHop} (hh : h ∈ (addHop e hop).1.hops) :
    h.face = hop.face ∨ ∃ old ∈ e.hops, old.face = h.face := by
  unfold addHop at hh
  split at hh
  · right
    have hfaces := RouteEntry.map_updateFirst (g := NextHop.face)
      (p := (·.isVia hop.face hop.keyId))
      (f := fun h => { h with flags := h.flags.union hop.flags, cost := hop.cost })
      (fun _ => rfl) e.hops
    have hmem := List.mem_map_of_mem (f := NextHop.face) hh
    rw [hfaces] at hmem
    exact List.mem_map.1 hmem
  · rcases List.mem_append.1 hh with hold | hnew
    · exact .inr ⟨h, hold, rfl⟩
    · exact .inl (congrArg NextHop.face (List.mem_singleton.1 hnew))

theorem uses_add {flags : RouteFlags} {cost : UInt16} {keyId : Option Digest}
    {change : RouteChange} (hadd : t.add name face flags cost keyId = .ok (u, change))
    (h : u.uses g) : t.uses g ∨ g = face := by
  obtain ⟨d, hd, hop, hhop, hface⟩ := uses_iff.1 h
  rcases add_cases hadd with ⟨-, -, -, rfl⟩ | ⟨-, -, -, rfl⟩
  · rcases List.mem_append.1 hd with hold | hnew
    · exact .inl (uses_iff.2 ⟨d, hold, hop, hhop, hface⟩)
    · rw [List.mem_singleton.1 hnew] at hhop
      rw [List.mem_singleton.1 hhop] at hface
      exact .inr hface.symm
  · obtain ⟨e, he, rfl⟩ := List.mem_map.1 hd
    split at hhop
    · rcases faces_addHop hhop with hnew | ⟨old, hold, hsame⟩
      · exact .inr (hface.symm.trans hnew)
      · exact .inl (uses_iff.2 ⟨e, he, old, hold, hsame.trans hface⟩)
    · exact .inl (uses_iff.2 ⟨e, he, hop, hhop, hface⟩)

theorem uses_remove {keyId : Option Digest} (h : (t.remove name face keyId).1.uses g) :
    t.uses g := by
  rcases t.remove_cases name face keyId with ⟨hsame, -⟩ | ⟨found, hfound, ⟨-, hlast⟩ | ⟨-, hrest⟩⟩
  · rwa [hsame] at h
  · rw [hlast] at h
    obtain ⟨e, he, hop⟩ := uses_iff.1 h
    exact uses_iff.2 ⟨e, List.mem_of_mem_filter he, hop⟩
  · rw [hrest] at h
    obtain ⟨d, hd, hop, hhop, hface⟩ := uses_iff.1 h
    obtain ⟨e, he, rfl⟩ := List.mem_map.1 hd
    split at hhop
    · exact uses_iff.2 ⟨found, mem_of_find? hfound, hop, List.mem_of_mem_filter hhop, hface⟩
    · exact uses_iff.2 ⟨e, he, hop, hhop, hface⟩

theorem uses_forget (h : (t.forget face).1.uses g) : t.uses g ∧ g ≠ face := by
  obtain ⟨d, hd, hop, hhop, rfl⟩ := uses_iff.1 h
  obtain ⟨e, he, rfl⟩ := List.mem_map.1 (List.mem_of_mem_filter hd)
  obtain ⟨hmem, hother⟩ := List.mem_filter.1 hhop
  exact ⟨uses_iff.2 ⟨e, he, hop, hmem, rfl⟩, by simpa using hother⟩

end RouteTable

namespace Forwarder

open PendingTable

/-- A face waits for something. -/
def Awaits (f : Forwarder) (g : FaceId) : Prop :=
  ∃ e ∈ f.pending.entries, ∃ r ∈ e.waiting, r.face = g

/-- Requests have been sent to a face, or a route goes through it. -/
def LeadsTo (f : Forwarder) (g : FaceId) : Prop :=
  (∃ e ∈ f.pending.entries, g ∈ e.onward) ∨ f.routes.uses g

def RefersTo (f : Forwarder) (g : FaceId) : Prop := f.Awaits g ∨ f.LeadsTo g

instance (f : Forwarder) (g : FaceId) : Decidable (f.Awaits g) :=
  inferInstanceAs (Decidable (∃ e ∈ f.pending.entries, ∃ r ∈ e.waiting, r.face = g))

instance (f : Forwarder) (g : FaceId) : Decidable (f.LeadsTo g) :=
  inferInstanceAs (Decidable ((∃ e ∈ f.pending.entries, g ∈ e.onward) ∨ f.routes.uses g))

instance (f : Forwarder) (g : FaceId) : Decidable (f.RefersTo g) :=
  inferInstanceAs (Decidable (f.Awaits g ∨ f.LeadsTo g))

namespace Event

def isFrom (g : FaceId) : Event → Bool
  | .frame _ face _ _ => face = g
  | .sweep _ | .faceClosed _ | .addRoute .. | .removeRoute .. => false

def routesVia (g : FaceId) : Event → Bool
  | .addRoute _ face _ _ => face = g
  | .frame .. | .sweep _ | .faceClosed _ | .removeRoute .. => false

/-- Whether an event can make the tables refer to a face. -/
def introduces (g : FaceId) (e : Event) : Bool := e.isFrom g || e.routesVia g

end Event

variable {f : Forwarder} {e : Event} {events : List Event} {k : PendingKey} {g face : FaceId}

theorem uses_of_hops? {faces : FaceView} {m : Message} {name : Name} {targets : List FaceId}
    (h : f.hops? faces face m = some (name, targets)) (hg : g ∈ targets) : f.routes.uses g := by
  obtain ⟨e, hmatch, -, hpicks⟩ := picks_of_hops? h
  exact RouteTable.uses_iff.2 ⟨e, RouteTable.mem_of_longestMatch hmatch, (hpicks g hg).hop⟩

theorem Enters.sentTo {s : Suppression} {r : Entrant} {t : PendingTable}
    {done : List (PendingKey × PendingKind)} {st : Entered} (h : Enters s r t done st)
    (hsent : st.table.SentTo k g) : t.SentTo k g := by
  induction h with
  | nil => exact hsent
  | next key _ hj ih => exact ih (sentTo_of_join? hj hsent)

theorem Handled.sentTo {faces : FaceView} {bytes : Octets} {clock : Clock} {f' : Forwarder}
    {actions : List Action} (h : Handled f faces face bytes clock f' actions)
    (hsent : f'.pending.SentTo k g) : f.pending.SentTo k g ∨ f.routes.uses g := by
  cases h with
  | malformed | refused | command | exceeded => exact .inl hsent
  | full _ _ _ _ henter =>
    obtain ⟨front, key, rest, -, hfront, -⟩ := enters_of_enter_error henter
    exact .inl (hfront.sentTo (sentTo_releaseAll hsent))
  | joined _ _ _ _ henter | held _ _ _ henter =>
    exact .inl ((enters_of_enter henter).sentTo hsent)
  | cached _ _ _ _ henter | unrouted _ _ _ henter =>
    exact .inl ((enters_of_enter henter).sentTo (sentTo_releaseAll hsent))
  | routed _ _ _ henter _ _ hhops =>
    have henters := enters_of_enter henter
    have hkeys := henters.keys_eq ▸ PendingRequest.nodup_keys _
    rcases sentTo_foldl_addAllOnward hkeys hsent with hold | htarget
    · exact .inl (henters.sentTo hold)
    · exact .inr (uses_of_hops? hhops htarget)
  | dropped | delivered | returned => exact .inl (sentTo_deliver hsent)

theorem sentTo_step (hf : f.pending.Sound) (h : (f.step e).1.pending.SentTo k g) :
    f.pending.SentTo k g ∨ f.routes.uses g := by
  cases e with
  | frame faces face bytes clock => exact (handled_handleFrame ..).sentTo h
  | sweep now =>
    have hpending : (f.step (.sweep now)).1.pending = (f.pending.sweep now).1 := pending_sweep f now
    rw [hpending] at h
    exact .inl (sentTo_sweep hf h)
  | faceClosed face => exact .inl (sentTo_forget h).1
  | addRoute name face flags cost =>
    obtain ⟨routes, metrics, hstep⟩ := f.step_addRoute name face flags cost
    rw [hstep] at h
    exact .inl h
  | removeRoute faces name face => exact .inl h

theorem uses_step (he : ¬e.routesVia g) (h : (f.step e).1.routes.uses g) : f.routes.uses g := by
  cases e with
  | frame faces face bytes clock =>
    have hsame : (f.step (.frame faces face bytes clock)).1.routes.uses g = f.routes.uses g :=
      (handled_handleFrame ..).routes (P := fun t => t.uses g = f.routes.uses g)
        (fun _ _ faces frameClass ht => (RouteTable.uses_countAll faces frameClass).trans ht) rfl
    rwa [hsame] at h
  | sweep now =>
    rcases f.sweep_cases now with ⟨-, hsame⟩ | ⟨-, μ, hswept⟩
    · rwa [step, hsame] at h
    · rwa [step, hswept] at h
  | faceClosed face => exact (RouteTable.uses_forget h).1
  | addRoute name face flags cost =>
    simp only [step, addRoute] at h
    cases hadd : f.routes.add name face flags cost none with
    | error full =>
      rw [hadd] at h
      exact h
    | ok added =>
      rw [hadd] at h
      refine (RouteTable.uses_add hadd h).resolve_right ?_
      rintro rfl
      exact he (decide_eq_true rfl)
  | removeRoute faces name face => exact RouteTable.uses_remove h

theorem awaits_step (hf : f.pending.Sound) (he : ¬e.isFrom g) (h : (f.step e).1.Awaits g) :
    f.Awaits g := by
  have hmoves := moves_step f e
  obtain ⟨k, r, hr⟩ := (hmoves.sound hf).exists_waiting.1 h
  rcases hmoves.record?_origin hf hr with hold | ⟨faces, bytes, clock, m, hop, rfl, -⟩
  · exact hf.exists_waiting.2 ⟨k, r, hold⟩
  · exact absurd (decide_eq_true rfl) he

theorem leadsTo_step (hf : f.pending.Sound) (he : ¬e.routesVia g) (h : (f.step e).1.LeadsTo g) :
    f.LeadsTo g := by
  rcases h with hentry | hroute
  · obtain ⟨k, hsent⟩ := ((moves_step f e).sound hf).exists_onward.1 hentry
    exact (sentTo_step hf hsent).imp (fun hold => hf.exists_onward.2 ⟨k, hold⟩) id
  · exact .inr (uses_step he hroute)

theorem awaits_run (hf : f.Sound) (hevents : ∀ e ∈ events, ¬e.isFrom g)
    (h : (f.run events).Awaits g) : f.Awaits g := by
  induction events generalizing f with
  | nil => exact h
  | cons e events ih =>
    obtain ⟨he, hlater⟩ := List.forall_mem_cons.1 hevents
    exact awaits_step hf.pending he (ih (hf.step e) hlater h)

theorem leadsTo_run (hf : f.Sound) (hevents : ∀ e ∈ events, ¬e.routesVia g)
    (h : (f.run events).LeadsTo g) : f.LeadsTo g := by
  induction events generalizing f with
  | nil => exact h
  | cons e events ih =>
    obtain ⟨he, hlater⟩ := List.forall_mem_cons.1 hevents
    exact leadsTo_step hf.pending he (ih (hf.step e) hlater h)

theorem reaches_sendTo {payload : Octets} {priority : Priority} :
    (sendTo face payload priority).reaches g ↔ g = face := by
  simp [Action.reaches, sendTo]

/-- A packet makes the forwarder send something back to where it comes from, or to faces that the
tables refer to. -/
theorem Handled.refersTo_of_reaches {faces : FaceView} {bytes : Octets} {clock : Clock}
    {f' : Forwarder} {actions : List Action} {a : Action}
    (h : Handled f faces face bytes clock f' actions) (hf : f.pending.Sound) (ha : a ∈ actions)
    (hg : a.reaches g) : g = face ∨ f.RefersTo g := by
  have hreturns : ∀ m code, a ∈ f.returnsOf face m code → g = face := by
    intro m code hmem
    unfold returnsOf at hmem
    split at hmem
    · rw [List.mem_singleton.1 hmem] at hg
      exact reaches_sendTo.1 hg
    · exact absurd hmem List.not_mem_nil
  have hfan : ∀ m priority, a ∈ fanOut m (f.targets faces face m clock.now) priority →
      f.RefersTo g := by
    intro m priority hmem
    obtain ⟨target, htarget, rfl⟩ := List.mem_map.1 hmem
    obtain rfl := reaches_sendTo.1 hg
    obtain ⟨key, -, e, r, he, -, hr, -⟩ := record?_of_mem_targets hf htarget
    exact .inl (hf.exists_waiting.2 ⟨key, r, (record?_of_find? he).trans hr⟩)
  cases h with
  | malformed | joined | held | dropped => exact absurd ha List.not_mem_nil
  | command =>
    split at ha
    · rw [List.mem_singleton.1 ha] at hg
      cases hg
    · exact absurd ha List.not_mem_nil
  | refused | exceeded | full | unrouted => exact .inl (hreturns _ _ ha)
  | cached =>
    rw [List.mem_singleton.1 ha] at hg
    exact .inl (reaches_sendTo.1 hg)
  | routed _ _ _ _ _ _ hhops =>
    rw [List.mem_singleton.1 ha] at hg
    exact .inr (.inr (.inr (uses_of_hops? hhops (of_decide_eq_true hg))))
  | delivered | returned => exact .inr (hfan _ _ ha)

/-- What is sent to a face goes back to where the event comes from, or some table refers to the
face. -/
theorem refersTo_of_reaches (hf : f.pending.Sound) (he : ¬e.introduces g) {a : Action}
    (ha : a ∈ (f.step e).2) (hg : a.reaches g) : f.RefersTo g := by
  cases e with
  | frame faces face bytes clock =>
    refine ((handled_handleFrame ..).refersTo_of_reaches hf ha hg).resolve_left ?_
    rintro rfl
    exact he (Bool.or_eq_true_iff.2 (.inl (decide_eq_true rfl)))
  | sweep now =>
    have hactions : (f.step (.sweep now)).2 = (f.sweep now).2 := rfl
    rw [hactions, actions_sweep] at ha
    obtain ⟨⟨target, payload⟩, hreturn, rfl⟩ := List.mem_map.1 ha
    obtain rfl := reaches_sendTo.1 hg
    obtain ⟨e, he, r, hr, hface, -⟩ := mem_returns_sweep hreturn
    exact .inl ⟨e, he, r, hr, hface⟩
  | faceClosed face => exact absurd ha List.not_mem_nil
  | addRoute name face flags cost =>
    obtain ⟨routes, metrics, hstep⟩ := f.step_addRoute name face flags cost
    rw [hstep] at ha
    exact absurd ha List.not_mem_nil
  | removeRoute faces name face =>
    obtain ⟨routes, metrics, actions, hstep, hclose⟩ := f.step_removeRoute faces name face
    rw [hstep] at ha
    rw [hclose a ha] at hg
    cases hg

theorem not_awaits_faceClosed (hf : f.pending.Sound) : ¬(f.faceClosed g).Awaits g := by
  intro h
  obtain ⟨k, r, hr⟩ := (hf.forget g).exists_waiting.1 h
  rw [record?_forget, if_pos rfl] at hr
  cases hr

theorem not_leadsTo_faceClosed (hf : f.pending.Sound) : ¬(f.faceClosed g).LeadsTo g := by
  rintro (hentry | hroute)
  · obtain ⟨k, hsent⟩ := (hf.forget g).exists_onward.1 hentry
    exact (sentTo_forget hsent).2 rfl
  · exact (RouteTable.uses_forget hroute).2 rfl

theorem not_refersTo_faceClosed (hf : f.pending.Sound) : ¬(f.faceClosed g).RefersTo g := by
  rintro (hawaits | hleads)
  · exact not_awaits_faceClosed hf hawaits
  · exact not_leadsTo_faceClosed hf hleads

theorem refersTo_run (hf : f.Sound) (hevents : ∀ e ∈ events, ¬e.introduces g)
    (h : (f.run events).RefersTo g) : f.RefersTo g := by
  have hfrom : ∀ e ∈ events, ¬e.isFrom g := fun e he h =>
    hevents e he (Bool.or_eq_true_iff.2 (.inl h))
  have hroutes : ∀ e ∈ events, ¬e.routesVia g := fun e he h =>
    hevents e he (Bool.or_eq_true_iff.2 (.inr h))
  exact h.imp (awaits_run hf hfrom) (leadsTo_run hf hroutes)

/-- A face that has gone is forgotten. As long as nothing is received from it and no route through
it is added, no table refers to it, and nothing is sent to it at any further such event, whether
its number is in use again or not. -/
theorem closed_face_forgotten (hf : f.Reachable) (hevents : ∀ e ∈ events, ¬e.introduces g) :
    let after := (f.faceClosed g).run events
    ¬after.RefersTo g ∧ ∀ e, ¬e.introduces g → ∀ a ∈ (after.step e).2, ¬a.reaches g := by
  intro after
  have hclosed : (f.faceClosed g).Sound := hf.sound.step (.faceClosed g)
  have hforgotten : ¬after.RefersTo g := fun h =>
    not_refersTo_faceClosed hf.sound.pending (refersTo_run hclosed hevents h)
  refine ⟨hforgotten, ?_⟩
  intro e he a ha hg
  exact hforgotten (refersTo_of_reaches (hclosed.run events).pending he ha hg)

/-- Face 2 waits for `/b`, and the route for `/a` goes through it, on which it has been sent a
request of face 1. Once it has gone, face 3 asks for `/a` as well and gets a return in the end,
while nothing goes to face 2. -/
theorem closed_face_forgotten_small :
    let ask := fun face n hopLimit => Small.frame face { Draft.interest n with hopLimit } 0
    let f := (Small.forwarder {}).run [ask 1 Small.name 2, ask 2 ⟨[[98]]⟩ 1]
    let after := (f.faceClosed ⟨2⟩).run [ask 3 Small.name 1]
    f.RefersTo ⟨2⟩ ∧ (f.pending.find? (.exact Small.name none)).any (⟨2⟩ ∈ ·.onward) ∧
      ¬after.RefersTo ⟨2⟩ ∧ (∀ a ∈ (after.sweep 5000).2, ¬a.reaches ⟨2⟩) ∧
      (after.sweep 5000).2.any (·.reaches ⟨3⟩) := by
  intro ask f after
  have hreachable : f.Reachable := (Small.reachable rfl).run [_, _]
  obtain ⟨hforgotten, hsilent⟩ :=
    @closed_face_forgotten f [ask 3 Small.name 1] ⟨2⟩ hreachable (by decide +kernel)
  refine ⟨by decide +kernel, by decide +kernel, hforgotten, ?_, by decide +kernel⟩
  exact hsilent (.sweep 5000) (by decide)

end Forwarder
end NamedData
