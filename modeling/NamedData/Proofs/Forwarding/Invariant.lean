import NamedData.Proofs.Cache
import NamedData.Proofs.Forwarding.Run
import NamedData.Proofs.Pending.Operations
import NamedData.Proofs.Route.Invariant

/-!
# What every run preserves

In every run the pending table and the table of routes keep their shapes, all Interest
Returns that wait are copies of Interests under another kind, and the cache holds
nothing but content objects as they were received.
-/

namespace NamedData

def Octets.IsReturn (payload : Octets) : Prop :=
  ∀ m, Message.parse payload = .ok m → m.kind = .interestReturn

def CachedObject.Received (c : CachedObject) : Prop :=
  Message.parse c.object.raw = .ok c.object ∧ c.object.kind = .contentObject

namespace Forwarder

open PendingTable

/-- What holds of the tables of a forwarder between two events. -/
structure Sound (f : Forwarder) : Prop where
  pending : f.pending.Sound
  fits : f.pending.Every PendingEntry.Fits
  returns : ∀ key g r payload, f.pending.record? key g = some r → r.pendingReturn = some payload →
    payload.IsReturn
  received : ∀ c ∈ f.cache.objects, c.Received
  distinct : f.cache.Distinct

variable {f : Forwarder} {e : Event} {t : PendingTable} {k : PendingKey} {g : FaceId}

theorem record?_entered {face : FaceId} {m : Message} {hop : HopLimit} {now : Instant}
    {st : Entered} (h : Enters f.suppression (f.entrant face m hop now) f.pending
      (f.entrant face m hop now).request.keys st) :
    st.table.record? k g =
      if k ∈ m.requestKeys ∧ g = face then some (f.entrant face m hop now).record
      else f.pending.record? k g :=
  h.record?_eq

theorem record?_withdrawn {face : FaceId} {m : Message} {hop : HopLimit} {now : Instant}
    {front : List (PendingKey × PendingKind)} {st : Entered}
    (h : Enters f.suppression (f.entrant face m hop now) f.pending front st) :
    (st.table.releaseAll face st.keys).record? k g =
      if k ∈ front.map (·.1) ∧ g = face then none else f.pending.record? k g := by
  rw [record?_releaseAll, h.keys_eq, h.record?_eq, face_entrant]
  split <;> rfl

theorem record?_of_withdrawn {face : FaceId} {m : Message} {hop : HopLimit} {now : Instant}
    {front : List (PendingKey × PendingKind)} {st : Entered} {r : WaitRecord}
    (h : Enters f.suppression (f.entrant face m hop now) f.pending front st)
    (hr : (st.table.releaseAll face st.keys).record? k g = some r) :
    f.pending.record? k g = some r := by
  rw [record?_withdrawn h] at hr
  split at hr
  · cases hr
  · exact hr

/-- A record is left by a request of its face that an event brings. -/
def LeftBy (f : Forwarder) (e : Event) (k : PendingKey) (g : FaceId) (r : WaitRecord) : Prop :=
  ∃ faces bytes clock m hop, e = .frame faces g bytes clock ∧ f.Requests bytes m ∧
    k ∈ m.requestKeys ∧ r = (f.entrant g m hop clock.now).record

theorem record?_of_entered {faces : FaceView} {face : FaceId} {bytes : Octets} {clock : Clock}
    {m : Message} {hop : HopLimit} {st : Entered} {r : WaitRecord} (hreq : f.Requests bytes m)
    (h : Enters f.suppression (f.entrant face m hop clock.now) f.pending
      (f.entrant face m hop clock.now).request.keys st)
    (hr : st.table.record? k g = some r) :
    f.pending.record? k g = some r ∨ f.LeftBy (.frame faces face bytes clock) k g r := by
  rw [record?_entered h] at hr
  split at hr
  · rename_i hk
    obtain ⟨hkey, rfl⟩ := hk
    exact .inr ⟨faces, bytes, clock, m, hop, rfl, hreq, hkey, (Option.some.inj hr).symm⟩
  · exact .inl hr

/-- A reply goes to the faces in use that wait for it under one of its keys, but not back to where
it comes from. -/
theorem mem_targets_iff {faces : FaceView} {face : FaceId} {m : Message} {now : Instant}
    (hf : f.pending.Sound) :
    g ∈ f.targets faces face m now ↔ (g ≠ face ∧ faces.active g) ∧
      ∃ key ∈ candidates m, ∃ e r, f.pending.find? key = some e ∧ takes m e ∧
        e.record? g = some r ∧ now < r.expiry := by
  have hlive : ∀ key e, f.pending.find? key = some e →
      (g ∈ e.liveFaces now ↔ ∃ r, e.record? g = some r ∧ now < r.expiry) := fun key e he =>
    PendingEntry.mem_liveFaces_iff (hf.entry he).faces_nodup
  simp only [targets, Strategy.forReply, List.mem_filter, mem_faces_deliver, Strategy.usableFace,
    Bool.and_eq_true, decide_eq_true_eq]
  constructor
  · rintro ⟨⟨key, hkey, e, he, htakes, hmem⟩, husable⟩
    obtain ⟨r, hr, htime⟩ := (hlive key e he).1 hmem
    exact ⟨husable, key, hkey, e, r, he, htakes, hr, htime⟩
  · rintro ⟨husable, key, hkey, e, r, he, htakes, hr, htime⟩
    exact ⟨⟨key, hkey, e, he, htakes, (hlive key e he).2 ⟨r, hr, htime⟩⟩, husable⟩

theorem record?_of_mem_targets {faces : FaceView} {face : FaceId} {m : Message} {now : Instant}
    (hf : f.pending.Sound) (hg : g ∈ f.targets faces face m now) :
    ∃ key ∈ candidates m, ∃ e r, f.pending.find? key = some e ∧ takes m e ∧ e.record? g = some r ∧
      now < r.expiry :=
  ((mem_targets_iff hf).1 hg).2

theorem Enters.operated {s : Suppression} {r : Entrant} {u : PendingTable}
    {done : List (PendingKey × PendingKind)} {st : Entered} (h : Enters s r u done st)
    (hu : u.Sound) : ∃ ops, st.table = u.operate ops := by
  induction h with
  | nil => exact ⟨[], rfl⟩
  | @next done st key j henter hj ih =>
    obtain ⟨ops, hops⟩ := ih
    have hstep := table_eq_operate (henter.sound hu) hj
    exact ⟨ops ++ _, by rw [operate_append, ← hops, ← hstep]; rfl⟩

namespace Moves

/-- A record comes from before the event, or from a request that the event brings. -/
theorem record?_origin (hf : f.pending.Sound) (h : Moves f e t) {r : WaitRecord}
    (hr : t.record? k g = some r) : f.pending.record? k g = some r ∨ f.LeftBy e k g r := by
  cases h with
  | same => exact .inl hr
  | entered hreq henter => exact record?_of_entered hreq henter hr
  | noted hreq henter =>
    rw [record?_foldl_addAllOnward] at hr
    exact record?_of_entered hreq henter hr
  | withdrawn _ _ henter => exact .inl (record?_of_withdrawn henter hr)
  | matched => exact .inl (record?_of_deliver hr)
  | swept => exact .inl (hf.record?_of_sweep hr)
  | forgot => exact .inl (record?_of_forget hr)

/-- A record stays as it is unless its face asks again or goes away, a sweep comes after its
expiry, or a reply is delivered. -/
theorem record?_or_delivered (hf : f.pending.Sound) (h : Moves f e t) {r : WaitRecord}
    (hr : f.pending.record? k g = some r) (hsweep : ∀ now, e = .sweep now → now < r.expiry)
    (hasks : ¬e.asks g k) (hface : e ≠ .faceClosed g) :
    t.record? k g = some r ∨
      ∃ face m now, e.packet? = some (face, m) ∧ m.kind.isRequest = false ∧
        t = (f.pending.deliver m now).1 := by
  have hother : ∀ {faces face bytes clock m}, e = .frame faces face bytes clock →
      f.Requests bytes m → ¬(k ∈ m.requestKeys ∧ g = face) := by
    rintro faces face bytes clock m rfl hreq ⟨hmem, rfl⟩
    exact hasks ((Event.asks_frame hreq.parse).2 ⟨rfl, hreq.request, hmem⟩)
  cases h with
  | same => exact .inl hr
  | entered hreq henter => exact .inl (by rw [record?_entered henter, if_neg (hother rfl hreq), hr])
  | noted hreq henter =>
    left
    rw [record?_foldl_addAllOnward, record?_entered henter, if_neg (hother rfl hreq), hr]
  | @withdrawn faces face bytes clock m hop front rest st hreq hkeys henter =>
    left
    rw [record?_withdrawn henter, if_neg, hr]
    rintro ⟨hmem, hg⟩
    refine hother rfl hreq ⟨?_, hg⟩
    rw [← map_fst_keys_entrant f face m hop clock.now, hkeys, List.map_append]
    exact List.mem_append_left _ hmem
  | matched hparse hkind => exact .inr ⟨_, _, _, Event.packet?_frame hparse, hkind, rfl⟩
  | swept => exact .inl (hf.record?_sweep_of_live hr (hsweep _ rfl))
  | forgot => exact .inl (by rw [record?_forget, if_neg fun hg => hface (by rw [hg]), hr])

/-- A record that is live at the time of the event stays as it is, unless its face asks again
or goes away, or a reply under the name and chunk of its key comes in. -/
theorem record?_of_live (hf : f.pending.Sound) (h : Moves f e t) {n : Name} {c : Option UInt32}
    {r : WaitRecord} (hr : f.pending.record? (.exact n c) g = some r)
    (htime : ∀ now, e.time? = some now → now < r.expiry) (hasks : ¬e.asks g (.exact n c))
    (hbrings : ¬e.brings n c) (hface : e ≠ .faceClosed g) :
    t.record? (.exact n c) g = some r := by
  have hsweep : ∀ now, e = .sweep now → now < r.expiry := by
    rintro now rfl
    exact htime now rfl
  rcases h.record?_or_delivered hf hr hsweep hasks hface with
    hsame | ⟨face, m, now, hpacket, hkind, rfl⟩
  · exact hsame
  · rw [record?_deliver_of_not_mem, hr]
    intro hmem
    obtain ⟨hname, hchunk⟩ := exact_mem_candidates.1 hmem
    simp [Event.brings, hpacket, hkind, hname, hchunk] at hbrings

theorem settings_eq (h : Moves f e t) : t.settings = f.pending.settings := by
  cases h with
  | same | forgot => rfl
  | entered _ henter => exact henter.settings_eq
  | noted _ henter => rw [settings_foldl_update, henter.settings_eq]
  | withdrawn _ _ henter => rw [settings_releaseAll, henter.settings_eq]
  | matched => exact settings_deliver
  | swept => exact settings_sweep

theorem sound (hf : f.pending.Sound) (h : Moves f e t) : t.Sound := by
  cases h with
  | same => exact hf
  | entered _ henter => exact henter.sound hf
  | noted _ henter => exact (henter.sound hf).foldl_addAllOnward _ _
  | withdrawn _ _ henter => exact (henter.sound hf).releaseAll _ _
  | matched => exact hf.deliver _ _
  | swept => exact hf.sweep _
  | forgot => exact hf.forget _

theorem fits (hf : f.pending.Every PendingEntry.Fits) (h : Moves f e t) :
    t.Every PendingEntry.Fits := by
  have hkeys : ∀ {r : Entrant}, ∀ key ∈ r.request.keys, key.1.Allows key.2 := fun _ =>
    PendingRequest.allows_of_mem_keys
  have hstable := PendingEntry.stable_fits
  cases h with
  | same => exact hf
  | entered _ henter => exact henter.fits hf hkeys
  | noted _ henter => exact (henter.fits hf hkeys).foldl_addAllOnward hstable _ _
  | @withdrawn faces face bytes clock m hop front rest st _ hfront henter =>
    refine (henter.fits hf fun key hkey => ?_).releaseAll hstable _
    refine hkeys (r := f.entrant face m hop clock.now) key ?_
    rw [hfront]
    exact List.mem_append_left _ hkey
  | matched => exact hf.deliver hstable _ _
  | swept => exact hf.sweep hstable _
  | forgot => exact hf.forget hstable

/-- What an event does to the pending table is a sequence of operations on it. -/
theorem operated (hf : f.pending.Sound) (h : Moves f e t) :
    ∃ ops, t = f.pending.operate ops := by
  cases h with
  | same => exact ⟨[], rfl⟩
  | entered _ henter => exact henter.operated hf
  | noted _ henter =>
    obtain ⟨ops, hops⟩ := henter.operated hf
    exact ⟨ops ++ _, by rw [operate_append, ← hops, foldl_addAllOnward_eq_operate]⟩
  | withdrawn _ _ henter =>
    obtain ⟨ops, hops⟩ := henter.operated hf
    exact ⟨ops ++ _, by rw [operate_append, ← hops, releaseAll_eq_operate]⟩
  | @matched _ _ _ clock m => exact ⟨[.deliver m clock.now], rfl⟩
  | @swept now => exact ⟨[.sweep now], rfl⟩
  | @forgot face => exact ⟨[.forget face], rfl⟩

end Moves

theorem cache_step {P : Cache → Prop} (hlookup : ∀ c n k now, P c → P (c.lookup n k now).1)
    (hpurge : ∀ c now, P c → P (c.purge now).1)
    (hput : ∀ c o now wall, P c → Message.parse o.raw = .ok o → o.kind = .contentObject →
      P (c.put o now wall)) (hf : P f.cache) (e : Event) : P (f.step e).1.cache := by
  have hprobed : ∀ {m now}, P (f.probed m now) := by
    intro m now
    unfold probed
    split
    · exact hlookup _ _ _ _ hf
    · exact hf
  have hframe : ∀ {faces face bytes clock f' actions}, Handled f faces face bytes clock f' actions →
      P f'.cache := by
    intro faces face bytes clock f' actions h
    cases h with
    | malformed | refused | command | exceeded | full | joined | dropped | returned => exact hf
    | cached | held | routed | unrouted => exact hprobed
    | delivered _ hparse =>
      dsimp only
      split
      · rename_i hkind
        exact hput _ _ _ _ hf (by rwa [Message.raw_of_parse hparse]) hkind
      · exact hf
  cases e with
  | frame faces face bytes clock => exact hframe (handled_handleFrame ..)
  | sweep now =>
    rcases f.sweep_cases now with ⟨-, hsame⟩ | ⟨-, μ, hswept⟩
    · rwa [step, hsame]
    · rw [step, hswept]
      exact hpurge _ _ hf
  | faceClosed face => exact hf
  | addRoute name face flags cost =>
    obtain ⟨routes, metrics, hstep⟩ := f.step_addRoute name face flags cost
    rwa [hstep]
  | removeRoute faces name face => exact hf

theorem Handled.routes {P : RouteTable → Prop} {faces : FaceView} {face : FaceId} {bytes : Octets}
    {clock : Clock} {f' : Forwarder} {actions : List Action}
    (h : Handled f faces face bytes clock f' actions)
    (hcount : ∀ t name faces frameClass, P t → P (t.countAll name faces frameClass))
    (hf : P f.routes) : P f'.routes := by
  have hcredited : ∀ m targets, P (f.credited m targets) := by
    intro m targets
    unfold credited
    split
    · exact hcount _ _ _ _ hf
    · exact hf
  cases h with
  | malformed | refused | command | exceeded | full | joined | cached | held | unrouted
  | dropped | returned => exact hf
  | routed => exact hcount _ _ _ _ hf
  | delivered => exact hcredited _ _

theorem routes_step {P : RouteTable → Prop}
    (hcount : ∀ t name faces frameClass, P t → P (t.countAll name faces frameClass))
    (hadd : ∀ {t : RouteTable} {name face flags cost u change}, P t →
      t.add name face flags cost none = .ok (u, change) → P u)
    (hremove : ∀ t name face, P t → P (t.remove name face none).1)
    (hforget : ∀ t face, P t → P (t.forget face).1) (hf : P f.routes) (e : Event) :
    P (f.step e).1.routes := by
  cases e with
  | frame faces face bytes clock => exact (handled_handleFrame ..).routes hcount hf
  | sweep now =>
    rcases f.sweep_cases now with ⟨-, hsame⟩ | ⟨-, μ, hswept⟩
    · rwa [step, hsame]
    · rwa [step, hswept]
  | faceClosed face => exact hforget _ _ hf
  | addRoute name face flags cost =>
    simp only [step, addRoute]
    cases hroutes : f.routes.add name face flags cost none with
    | error e => exact hf
    | ok added => exact hadd hf hroutes
  | removeRoute faces name face => exact hremove _ _ _ hf

theorem routesSound_step (hf : f.routes.Sound) (e : Event) : (f.step e).1.routes.Sound :=
  routes_step (fun _ name faces frameClass h => h.countAll name faces frameClass)
    (fun h hadd => h.add hadd) (fun _ name face h => h.remove name face none)
    (fun _ face h => h.forget face) hf e

theorem received_step (hf : ∀ c ∈ f.cache.objects, c.Received) (e : Event) :
    ∀ c ∈ (f.step e).1.cache.objects, c.Received := by
  refine cache_step (P := fun c => ∀ o ∈ c.objects, o.Received) ?_ ?_ ?_ hf e
  · exact fun c n k now hc o ho => hc o (Cache.mem_objects_lookup ho)
  · exact fun c now hc o ho => hc o (Cache.mem_objects_purge ho)
  · intro c object now wall hc hparse hkind o ho
    rcases Cache.mem_objects_put ho with hnew | hold
    · unfold CachedObject.Received
      rw [hnew]
      exact ⟨hparse, hkind⟩
    · exact hc o hold

/-- The cache answers with a fresh object that it holds under the name and chunk of the request,
and that has the key and the hash asked for. -/
theorem cached_of_stored? {m object : Message} {now : Instant}
    (h : f.stored? m now = some object) :
    cacheable m ∧ m.restrictions.accept object ∧
      ∃ cached ∈ f.cache.objects, cached.object = object ∧ cached.fresh now ∧
        object.name = m.name ∧ object.chunk = m.chunk := by
  unfold stored? at h
  split at h
  · rename_i hcacheable
    obtain ⟨hfound, haccept⟩ := Option.filter_eq_some_iff.1 h
    exact ⟨hcacheable, haccept, Cache.lookup_eq_some hfound⟩
  · cases h

theorem stored?_eq_some {m object : Message} {now : Instant}
    (hf : ∀ c ∈ f.cache.objects, c.Received) (h : f.stored? m now = some object) :
    cacheable m ∧ Message.parse object.raw = .ok object ∧ object.kind = .contentObject ∧
      object.name = m.name ∧ object.chunk = m.chunk := by
  obtain ⟨hcacheable, -, cached, hmem, rfl, -, hname, hchunk⟩ := cached_of_stored? h
  exact ⟨hcacheable, (hf cached hmem).1, (hf cached hmem).2, hname, hchunk⟩

theorem deferred_entrant {face : FaceId} {m : Message} {hop : HopLimit} {now : Instant}
    {payload : Octets} (h : (f.entrant face m hop now).record.pendingReturn = some payload) :
    m.kind = .interest ∧ payload = m.toInterestReturn f.hopLimitReturnCode := by
  have hdeferred : (f.entrant face m hop now).deferred = some payload := h
  unfold entrant at hdeferred
  dsimp only at hdeferred
  split at hdeferred
  · rename_i hholds
    exact ⟨hholds.2.2, (Option.some.inj hdeferred).symm⟩
  · cases hdeferred

/-- What holds of the returns of Interests under their keys holds of all that wait. -/
theorem deferred_step {P : PendingKey → Octets → Prop}
    (hP : ∀ bytes m code key, Message.parse bytes = .ok m → m.kind = .interest →
      key ∈ m.requestKeys → P key (m.toInterestReturn code))
    (hpending : f.pending.Sound)
    (hf : ∀ key g r payload, f.pending.record? key g = some r → r.pendingReturn = some payload →
      P key payload) (e : Event) :
    ∀ key g r payload, (f.step e).1.pending.record? key g = some r →
      r.pendingReturn = some payload → P key payload := by
  intro key g r payload hr hpayload
  rcases (moves_step f e).record?_origin hpending hr with
    hold | ⟨faces, bytes, clock, m, hop, -, hreq, hkey, rfl⟩
  · exact hf key g r payload hold hpayload
  · obtain ⟨hkind, rfl⟩ := deferred_entrant hpayload
    exact hP bytes m _ key hreq.parse hkind hkey

theorem Sound.step (h : f.Sound) (e : Event) : (f.step e).1.Sound where
  pending := (moves_step f e).sound h.pending
  fits := (moves_step f e).fits h.fits
  returns := by
    refine deferred_step (P := fun _ => Octets.IsReturn) ?_ h.pending h.returns e
    intro bytes m code key _ _ _ d
    exact Message.kind_of_parse_toInterestReturn
  received := received_step h.received e
  distinct := cache_step (fun _ n k now hc => hc.lookup n k now) (fun _ now hc => hc.purge now)
    (fun _ o now wall hc _ _ => hc.put o now wall) h.distinct e

theorem Sound.run (h : f.Sound) (events : List Event) : (f.run events).Sound := by
  induction events generalizing f with
  | nil => exact h
  | cons e events ih => exact ih (h.step e)

theorem Built.tables (h : f.Built) : (∃ s, f.pending = .empty s) ∧ f.cache.objects = [] := by
  obtain ⟨s, f₀, hs, hf⟩ := h
  unfold ofSettings at hs
  split at hs
  · cases hs
  · rw [hf, ← Except.ok.inj hs]
    exact ⟨⟨_, rfl⟩, rfl⟩

theorem Built.routes (h : f.Built) : ∃ capacity, f.routes = .empty capacity := by
  obtain ⟨s, f₀, hs, hf⟩ := h
  unfold ofSettings at hs
  split at hs
  · cases hs
  · rw [hf, ← Except.ok.inj hs]
    exact ⟨_, rfl⟩

theorem Built.find?_eq_none (h : f.Built) : f.pending.find? k = none := by
  obtain ⟨⟨s, hs⟩, -⟩ := h.tables
  rw [hs]
  rfl

theorem Built.record?_eq_none (h : f.Built) : f.pending.record? k g = none :=
  PendingTable.record?_eq_none h.find?_eq_none

theorem Built.sound (h : f.Built) : f.Sound := by
  obtain ⟨⟨s, hs⟩, hcache⟩ := h.tables
  refine ⟨hs ▸ .empty s, hs ▸ .empty s, ?_, ?_, ?_⟩
  · intro key g r payload hr
    rw [h.record?_eq_none] at hr
    cases hr
  · intro c hc
    rw [hcache] at hc
    exact absurd hc List.not_mem_nil
  · rw [Cache.Distinct, hcache]
    exact List.nodup_nil

theorem Reachable.sound (h : f.Reachable) : f.Sound := by
  obtain ⟨f₀, events, hbuilt, rfl⟩ := h
  exact hbuilt.sound.run events

theorem Reachable.routes (h : f.Reachable) : f.routes.Sound := by
  obtain ⟨f₀, events, hbuilt, rfl⟩ := h
  obtain ⟨capacity, hroutes⟩ := hbuilt.routes
  have hstart : f₀.routes.Sound := hroutes ▸ .empty capacity
  clear hbuilt hroutes
  induction events generalizing f₀ with
  | nil => exact hstart
  | cons e events ih => exact ih _ (routesSound_step hstart e)

theorem operated_run (hf : f.pending.Sound) (events : List Event) :
    ∃ ops, (f.run events).pending = f.pending.operate ops := by
  induction events generalizing f with
  | nil => exact ⟨[], rfl⟩
  | cons e events ih =>
    obtain ⟨ops, hops⟩ := (moves_step f e).operated hf
    obtain ⟨more, hmore⟩ := ih ((moves_step f e).sound hf)
    exact ⟨ops ++ more, by rw [run_cons, hmore, hops, operate_append]⟩

theorem Reachable.pending (h : f.Reachable) : f.pending.Reachable := by
  obtain ⟨f₀, events, hbuilt, rfl⟩ := h
  obtain ⟨⟨s, hs⟩, -⟩ := hbuilt.tables
  have hstart : f₀.pending.Reachable := ⟨s, [], hs⟩
  obtain ⟨ops, hops⟩ := operated_run hbuilt.sound.pending events
  rw [hops]
  exact hstart.operate ops

end Forwarder
end NamedData
