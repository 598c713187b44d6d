import NamedData.Proofs.Forwarding.Invariant

/-!
# Where the objects in the cache come from

An object gets into the cache by a packet that an entry of its name takes and of which a copy goes
to a face. It stays as it came until its time is up, it is evicted or another object under its name
and chunk is put, so the cache answers with the object that was put last and within its time.
-/

namespace NamedData.Forwarder

open PendingTable

def cacheTimeOf (f : Forwarder) (o : Message) : Nat :=
  (o.cacheTime.map UInt64.toNat).getD f.cache.defaultCacheTime

def puts? (f : Forwarder) : Event → Option CachedObject
  | .frame faces face bytes clock =>
    (Message.parse bytes).toOption.bind fun o =>
      if f.accepts o ∧ o.kind = .contentObject ∧ f.targets faces face o clock.now ≠ [] then
        f.cache.storedAs? o clock.now clock.wall
      else none
  | .sweep _ | .faceClosed _ | .addRoute .. | .removeRoute .. => none

def putsAt (f : Forwarder) (place : Name × Option UInt32) : List Event → Bool
  | [] => false
  | e :: events => (f.puts? e).any (·.place = place) || (f.step e).1.putsAt place events

/-- An object is received when an entry under its name takes it, and goes to some face. -/
structure Solicits (f : Forwarder) (faces : FaceView) (face : FaceId) (clock : Clock)
    (o : Message) : Prop where
  parse : Message.parse o.raw = .ok o
  kind : o.kind = .contentObject
  matched : ∃ key e, key.name = o.name ∧ f.pending.find? key = some e ∧ takes o e ∧
    e.restrictions.accept o
  sent : ∃ g, sendTo g o.raw .high ∈ (f.handleFrame faces face o.raw clock).2

/-- Some events put an object into the cache, and after that no other under its name and chunk. -/
def LastPut (f : Forwarder) (past : List Event) (c : CachedObject) : Prop :=
  ∃ before faces face clock after,
    past = before ++ .frame faces face c.object.raw clock :: after ∧
    (f.run before).Solicits faces face clock c.object ∧
    c.expires = clock.now + f.cacheTimeOf c.object ∧
    (f.run (before ++ [.frame faces face c.object.raw clock])).putsAt c.place after = false

variable {f f' : Forwarder} {e : Event} {faces : FaceView} {face : FaceId} {bytes : Octets}
variable {clock : Clock} {m o : Message} {c : CachedObject} {actions : List Action}

theorem putsAt_append (f : Forwarder) (place : Name × Option UInt32) (past events : List Event) :
    f.putsAt place (past ++ events) =
      (f.putsAt place past || (f.run past).putsAt place events) := by
  induction past generalizing f with
  | nil => rfl
  | cons e past ih => rw [List.cons_append, putsAt, ih, putsAt, run_cons, Bool.or_assoc]

theorem puts?_frame (h : Message.parse bytes = .ok m) :
    f.puts? (.frame faces face bytes clock) =
      if f.accepts m ∧ m.kind = .contentObject ∧ f.targets faces face m clock.now ≠ [] then
        f.cache.storedAs? m clock.now clock.wall
      else none := by
  rw [puts?, h]
  rfl

theorem solicits_of_puts? (hf : f.Sound)
    (h : f.puts? (.frame faces face bytes clock) = some c) :
    bytes = c.object.raw ∧ f.Solicits faces face clock c.object ∧
      c.expires = clock.now + f.cacheTimeOf c.object := by
  cases hparse : Message.parse bytes with
  | error e => simp [puts?, hparse, Except.toOption] at h
  | ok m =>
    rw [puts?_frame hparse] at h
    split at h
    · rename_i hput
      obtain ⟨haccepts, hkind, hsome⟩ := hput
      obtain ⟨-, -, rfl⟩ := Cache.storedAs?_eq_some_iff.1 h
      have hraw : m.raw = bytes := Message.raw_of_parse hparse
      obtain ⟨g, hg⟩ := List.exists_mem_of_ne_nil _ hsome
      obtain ⟨key, hkey, e, r, he, htakes, -⟩ := record?_of_mem_targets hf.pending hg
      refine ⟨hraw.symm, ⟨by rwa [hraw], hkind, ⟨key, e, ?_, he, htakes, ?_⟩, g, ?_⟩, rfl⟩
      · exact name_of_mem_candidates hkey
      · simpa [hkind] using (Bool.and_eq_true_iff.1 (Bool.and_eq_true_iff.1 htakes).1).2
      · dsimp only
        rw [hraw]
        rcases (handled_handleFrame f faces face bytes clock).reply hparse (by rw [hkind]; rfl) with
          ⟨hrefused, -⟩ | ⟨-, -, hactions⟩
        · rw [haccepts] at hrefused
          cases hrefused
        · rw [hactions, if_pos hkind, ← hraw]
          exact List.mem_map_of_mem hg
    · cases h

theorem kept_of_puts?_eq_none (h : f.puts? e = none) (hc : c ∈ f.cache.objects) :
    f.puts? e = some c ∨
      c ∈ f.cache.objects ∧ ∀ new, f.puts? e = some new → c.place ≠ new.place := by
  refine .inr ⟨hc, ?_⟩
  intro new hnew
  rw [h] at hnew
  cases hnew

theorem Handled.mem_cache (h : Handled f faces face bytes clock f' actions)
    (hc : c ∈ f'.cache.objects) :
    f.puts? (.frame faces face bytes clock) = some c ∨
      c ∈ f.cache.objects ∧
        ∀ new, f.puts? (.frame faces face bytes clock) = some new → c.place ≠ new.place := by
  have hother : ∀ {d}, Message.parse bytes = .ok d → d.kind ≠ .contentObject →
      f.puts? (.frame faces face bytes clock) = none := by
    intro d hparse hkind
    rw [puts?_frame hparse, if_neg fun hput => hkind hput.2.1]
  have hrequest : ∀ {d}, f.Requests bytes d →
      f.puts? (.frame faces face bytes clock) = none := by
    intro d hreq
    refine hother hreq.parse fun hkind => ?_
    have hasks := hreq.request
    rw [hkind] at hasks
    cases hasks
  have hprobed : ∀ {d}, c ∈ (f.probed d clock.now).objects → c ∈ f.cache.objects := by
    intro d hd
    unfold probed at hd
    split at hd
    · exact Cache.mem_objects_lookup hd
    · exact hd
  cases h with
  | malformed _ herror => exact kept_of_puts?_eq_none (by simp [puts?, herror, Except.toOption]) hc
  | refused _ hparse hrefused =>
    refine kept_of_puts?_eq_none ?_ hc
    rw [puts?_frame hparse, if_neg (by simp [hrefused])]
  | command _ hparse _ hkind => exact kept_of_puts?_eq_none (hother hparse (by simp [hkind])) hc
  | exceeded _ hreq | full _ hreq | joined _ hreq => exact kept_of_puts?_eq_none (hrequest hreq) hc
  | cached _ hreq | held _ hreq | routed _ hreq | unrouted _ hreq =>
    exact kept_of_puts?_eq_none (hrequest hreq) (hprobed hc)
  | dropped _ hparse _ _ htargets =>
    refine kept_of_puts?_eq_none ?_ hc
    rw [puts?_frame hparse, if_neg (by simp [htargets])]
  | @delivered d _ hparse haccepts _ htargets =>
    by_cases hkind : d.kind = .contentObject
    · rw [puts?_frame hparse, if_pos ⟨haccepts, hkind, htargets⟩]
      dsimp only at hc
      rw [if_pos hkind] at hc
      exact Cache.mem_put hc
    · dsimp only at hc
      rw [if_neg hkind] at hc
      exact kept_of_puts?_eq_none (hother hparse hkind) hc
  | returned _ hparse _ hkind => exact kept_of_puts?_eq_none (hother hparse (by simp [hkind])) hc

/-- After an event the cache holds what the event puts there, and of what was there before nothing
under the same name and chunk. -/
theorem mem_cache_step (hc : c ∈ (f.step e).1.cache.objects) :
    f.puts? e = some c ∨
      c ∈ f.cache.objects ∧ ∀ new, f.puts? e = some new → c.place ≠ new.place := by
  cases e with
  | frame faces face bytes clock => exact (handled_handleFrame ..).mem_cache hc
  | sweep now =>
    refine kept_of_puts?_eq_none rfl ?_
    rcases f.sweep_cases now with ⟨-, hsame⟩ | ⟨-, μ, hswept⟩
    · rwa [step, hsame] at hc
    · rw [step, hswept] at hc
      exact Cache.mem_objects_purge hc
  | faceClosed face => exact kept_of_puts?_eq_none rfl hc
  | addRoute name face flags cost =>
    obtain ⟨routes, metrics, hstep⟩ := f.step_addRoute name face flags cost
    rw [hstep] at hc
    exact kept_of_puts?_eq_none rfl hc
  | removeRoute faces name face => exact kept_of_puts?_eq_none rfl hc

theorem defaultCacheTime_run (f : Forwarder) (events : List Event) :
    (f.run events).cache.defaultCacheTime = f.cache.defaultCacheTime := by
  induction events generalizing f with
  | nil => rfl
  | cons e events ih =>
    refine (ih _).trans ?_
    refine cache_step (P := fun c => c.defaultCacheTime = f.cache.defaultCacheTime) ?_ ?_ ?_ rfl e
    · intro c n k now hc
      rw [← hc, Cache.lookup]
      repeat' split
      all_goals rfl
    · exact fun _ _ hc => hc
    · intro c o now wall hc _ _
      rw [← hc, Cache.put]
      repeat' split
      all_goals rfl

/-- Whatever the cache holds after a run was put there, and nothing under its name and chunk since
then. -/
theorem Built.lastPut (hf : f.Built) (past : List Event) (hc : c ∈ (f.run past).cache.objects) :
    f.LastPut past c := by
  induction past using List.reverseRecOn with
  | nil =>
    obtain ⟨-, hempty⟩ := hf.tables
    rw [run_nil, hempty] at hc
    exact absurd hc List.not_mem_nil
  | append_singleton past e ih =>
    rw [run_append, run_cons, run_nil] at hc
    rcases mem_cache_step hc with hput | ⟨hold, hother⟩
    · cases e with
      | frame faces face bytes clock =>
        obtain ⟨rfl, hsolicits, hexpires⟩ := solicits_of_puts? (hf.sound.run past) hput
        rw [cacheTimeOf, defaultCacheTime_run] at hexpires
        exact ⟨past, faces, face, clock, [], rfl, hsolicits, hexpires, rfl⟩
      | sweep | faceClosed | addRoute | removeRoute => cases hput
    · obtain ⟨before, faces, face, clock, after, rfl, hsolicits, hexpires, hlast⟩ := ih hold
      refine ⟨before, faces, face, clock, after ++ [e], ?_, hsolicits, hexpires, ?_⟩
      · rw [List.append_assoc, List.cons_append]
      · have hsame : (f.run (before ++ [.frame faces face c.object.raw clock])).run after =
            f.run (before ++ .frame faces face c.object.raw clock :: after) := by
          rw [← run_append, List.append_assoc, List.singleton_append]
        rw [putsAt_append, hlast, hsame, Bool.false_or, putsAt, putsAt, Bool.or_false]
        cases hnew : (f.run (before ++ .frame faces face c.object.raw clock :: after)).puts? e with
        | none => rfl
        | some new => simpa using (hother new hnew).symm

theorem Handled.stored?_of_mem (h : Handled f faces face bytes clock f' actions)
    (hparse : Message.parse bytes = .ok m) (hrequest : m.kind.isRequest) {frame : OutFrame}
    {priority : Priority} (ha : .send frame priority ∈ actions)
    (hobject : Message.parse frame.payload = .ok o) (hkind : o.kind = .contentObject) :
    ∃ object, f.stored? m clock.now = some object ∧ frame.payload = object.raw := by
  have hreturns : ∀ {d code}, .send frame priority ∉ f.returnsOf face d code := by
    intro d code hmem
    unfold returnsOf at hmem
    split at hmem
    · cases List.mem_singleton.1 hmem
      have hreturn := Message.kind_of_parse_toInterestReturn hobject
      rw [hkind] at hreturn
      cases hreturn
    · cases hmem
  have hanswer : ∀ {d}, Message.parse bytes = .ok d → d.kind.isRequest = false → False := by
    intro d hd hreply
    rw [Message.eq_of_parse hparse hd, hrequest] at hreply
    cases hreply
  cases h with
  | malformed | joined | held => cases ha
  | command =>
    split at ha
    · cases List.mem_singleton.1 ha
    · cases ha
  | refused | exceeded | full | unrouted => exact absurd ha hreturns
  | cached _ hreq _ _ _ _ hstored =>
    obtain rfl := Message.eq_of_parse hparse hreq.parse
    cases List.mem_singleton.1 ha
    exact ⟨_, hstored, rfl⟩
  | routed _ hreq =>
    obtain rfl := Message.eq_of_parse hparse hreq.parse
    cases List.mem_singleton.1 ha
    have hcopy := Message.kind_of_parse_withHopLimit hparse hobject
    rw [← hcopy, hkind] at hrequest
    cases hrequest
  | dropped _ hd _ hreply | delivered _ hd _ hreply =>
    exact (hanswer hd (PacketKind.isRequest_of_reply hreply)).elim
  | returned _ hd _ hreply => exact (hanswer hd (by rw [hreply]; rfl)).elim

/-- In every run, what the cache holds are objects that were received when an entry under their name
took them and that went to some face. An object that is sent for a request is such an object, as it
was received. It has the name and chunk of the request and the key and hash asked for, and it is
sent before its time is up, counted from when it was last put. -/
theorem cache_solicited (hf : f.Built) (past : List Event) :
    (∀ c ∈ (f.run past).cache.objects, f.LastPut past c) ∧
      ∀ faces face bytes clock m, Message.parse bytes = .ok m → m.kind.isRequest →
        ∀ frame priority o,
          .send frame priority ∈ ((f.run past).handleFrame faces face bytes clock).2 →
          Message.parse frame.payload = .ok o → o.kind = .contentObject →
            ∃ c, f.LastPut past c ∧ frame.payload = c.object.raw ∧
              c.object.name = m.name ∧ c.object.chunk = m.chunk ∧
              m.restrictions.accept c.object ∧ clock.now < c.expires := by
  refine ⟨fun c hc => hf.lastPut past hc, ?_⟩
  intro faces face bytes clock m hparse hrequest frame priority o ha hobject hkind
  obtain ⟨object, hstored, hpayload⟩ :=
    (handled_handleFrame ..).stored?_of_mem hparse hrequest ha hobject hkind
  obtain ⟨-, haccept, c, hc, rfl, hfresh, hname, hchunk⟩ := cached_of_stored? hstored
  have htime : clock.now < c.expires := by simpa [CachedObject.fresh] using hfresh
  exact ⟨c, hf.lastPut past hc, hpayload, hname, hchunk, haccept, htime⟩

/-- An object that nobody asked for is not kept. Face 1 asks, the object comes and may be cached for
half a second, and within that time face 3 is answered with it. -/
theorem cache_solicited_small :
    let f := fresh {} .bestRoute
    let object := { Draft.object Small.name [1] with cacheTime := some 500 }
    let past := [Small.route, Small.frame 2 (.object Small.name [7]) 0,
      Small.frame 1 (.interest Small.name) 10, Small.frame 2 object 20]
    let after := (f.run past).handleFrame Small.faces ⟨3⟩ (Small.octets (.interest Small.name))
      ⟨519, 0⟩
    after.2 = [sendTo ⟨3⟩ (Small.octets object) .high] ∧
      (f.run past).cache.objects.map (·.object.raw) = [Small.octets object] ∧
      ∃ c, f.LastPut past c ∧ c.object.raw = Small.octets object ∧ 519 < c.expires := by
  intro f object past after
  have hsent : after.2 = [sendTo ⟨3⟩ (Small.octets object) .high] := by decide +kernel
  have hcached : (f.run past).cache.objects.map (·.object.raw) = [Small.octets object] := by
    decide +kernel
  obtain ⟨m, hm, hrequest⟩ :=
    Small.exists_parse (Small.octets (.interest Small.name)) (·.kind.isRequest) (by decide +kernel)
  obtain ⟨o, ho, hkind⟩ :=
    Small.exists_parse (Small.octets object) (·.kind = .contentObject) (by decide +kernel)
  obtain ⟨-, hanswers⟩ := cache_solicited (Small.built (s := {}) rfl) past
  obtain ⟨c, hput, hraw, -, -, -, htime⟩ :=
    hanswers Small.faces ⟨3⟩ _ ⟨519, 0⟩ m hm hrequest ⟨Small.octets object, [⟨3⟩], .object⟩ .high o
      (hsent ▸ List.mem_singleton_self _) ho (by simpa using hkind)
  exact ⟨hsent, hcached, c, hput, hraw.symm, htime⟩

end NamedData.Forwarder
