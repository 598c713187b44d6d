import NamedData.Proofs.Forwarding.Refusal
import NamedData.Proofs.Forwarding.Sending
import NamedData.Proofs.Pending.Naming
import NamedData.Proofs.Route.Counting

/-!
# Names do not interfere

Without a cache, what a forwarder does with the packets of a name depends on no packet of another
name, as long as the pending table has room. A forwarder that has not seen the others has the same
entries under the name and the same routes but for their counters, and that is all that is looked
at. It sweeps at the same times too, since every sweep comes to both.
-/

namespace NamedData

def Octets.named (bytes : Octets) (n : Name) : Bool :=
  (Message.parse bytes).toOption.any (·.name = n)

def Action.named (n : Name) : Action → Bool
  | .send frame _ => frame.payload.named n
  | .command .. | .closeFace _ => false

theorem Octets.named_of_parse {bytes : Octets} {m : Message} (h : Message.parse bytes = .ok m)
    (n : Name) : bytes.named n = decide (m.name = n) := by
  simp [named, h, Except.toOption]

/-- A cache that holds nothing and takes nothing. -/
def Cache.Disabled (c : Cache) : Prop := c.capacity = 0 ∧ c.objects = []

namespace Cache.Disabled

variable {c : Cache} (h : c.Disabled)
include h

theorem lookup (n : Name) (k : Option UInt32) (now : Instant) : c.lookup n k now = (c, none) := by
  simp [Cache.lookup, find?, h.2]

theorem put (o : Message) (now : Instant) (wall : Nat) : (c.put o now wall).Disabled := by
  rw [Cache.put, if_pos (.inl h.1)]
  exact h

theorem purge (now : Instant) : (c.purge now).1.Disabled :=
  ⟨h.1, by simp [Cache.purge, h.2]⟩

end Cache.Disabled

namespace Forwarder

open PendingTable

variable {f g : Forwarder} {n : Name} {faces : FaceView} {face : FaceId} {bytes : Octets}
variable {clock : Clock} {m : Message} {now : Instant}

/-- Whether an event has to do with a name: it does unless it brings a packet with another. -/
def Event.concerns (n : Name) : Event → Bool
  | .frame _ _ bytes _ => (Message.parse bytes).toOption.all (·.name = n)
  | .sweep _ | .faceClosed _ | .addRoute .. | .removeRoute .. => true

theorem concerns_frame (h : Message.parse bytes = .ok m) :
    (Event.frame faces face bytes clock).concerns n = decide (m.name = n) := by
  simp [Event.concerns, h, Except.toOption]

/-- The pending table has no room for the request that an event brings, and that is counted. -/
def Refuses (f : Forwarder) (e : Event) : Prop :=
  (f.step e).1.metrics.pendingFull ≠ f.metrics.pendingFull

instance (f : Forwarder) (e : Event) : Decidable (f.Refuses e) :=
  inferInstanceAs (Decidable (_ ≠ _))

def NeverRefuses (f : Forwarder) : List Event → Prop
  | [] => True
  | e :: events => ¬f.Refuses e ∧ (f.step e).1.NeverRefuses events

instance decidableNeverRefuses (f : Forwarder) :
    (events : List Event) → Decidable (f.NeverRefuses events)
  | [] => inferInstanceAs (Decidable True)
  | e :: events =>
    have := decidableNeverRefuses (f.step e).1 events
    inferInstanceAs (Decidable (¬f.Refuses e ∧ (f.step e).1.NeverRefuses events))

theorem neverRefuses_append (f : Forwarder) (past events : List Event) :
    f.NeverRefuses (past ++ events) ↔ f.NeverRefuses past ∧ (f.run past).NeverRefuses events := by
  induction past generalizing f with
  | nil => simp [NeverRefuses]
  | cons e past ih => rw [List.cons_append, NeverRefuses, ih, NeverRefuses, run_cons, and_assoc]

/-! ## Entering requests -/

section Entering

variable {s : Suppression} {r : Entrant} {t : PendingTable} {key : PendingKey × PendingKind}

theorem join?_under (h : key.1.name = n) {j : Joined} (hj : t.join? s r key = some j) :
    (t.under n).join? s r key = some { j with table := j.table.under n } := by
  have hfind : (t.under n).find? key.1 = t.find? key.1 := find?_under h
  have hhost : r.host (t.under n) key = r.host t key := Enters.host_congr hfind rfl
  have houtcome : r.outcome s (t.under n) key = r.outcome s t key := Enters.outcome_congr hfind rfl
  have hfound : r.found? (t.under n) key.1 = r.found? t key.1 := by
    rw [Entrant.found?, hfind, Entrant.found?]
  have hput := under_put (t := t) (e := r.joins s (r.host t key)) (n := n) (by simpa using h)
  rw [join?_eq] at hj ⊢
  split at hj
  · cases hj
  · rename_i hroom
    obtain rfl := Option.some.inj hj
    rw [if_neg, hhost, houtcome, hfound, hput]
    rintro ⟨hnone, hfull⟩
    exact hroom ⟨hfind ▸ hnone, Nat.le_trans hfull size_under_le⟩

/-- A request under a name enters a table as it enters what the table has under the name. -/
theorem foldlM_enterKey_under {keys : List (PendingKey × PendingKind)}
    (hkeys : ∀ key ∈ keys, key.1.name = n) {st st' : Entered}
    (h : keys.foldlM (enterKey s r) st = .ok st') :
    keys.foldlM (enterKey s r) { st with table := st.table.under n } =
      .ok { st' with table := st'.table.under n } := by
  induction keys generalizing st with
  | nil =>
    obtain rfl := Except.ok.inj h
    rfl
  | cons key keys ih =>
    rw [List.foldlM_cons, enterKey_eq] at h
    rw [List.foldlM_cons, enterKey_eq]
    cases hj : st.table.join? s r key with
    | none =>
      rw [hj] at h
      cases h
    | some j =>
      rw [hj] at h
      rw [join?_under (hkeys key List.mem_cons_self) hj]
      exact ih (fun d hd => hkeys d (List.mem_cons_of_mem _ hd)) h

theorem Enters.under_of_ne {done : List (PendingKey × PendingKind)} {st : Entered}
    (h : Enters s r t done st) (hdone : ∀ k ∈ done.map (·.1), k.name ≠ n) :
    st.table.under n = t.under n := by
  induction h with
  | nil => rfl
  | next key _ hj ih =>
    have hkey : key.1.name ≠ n := hdone key.1 (by simp)
    rw [Entered.next, table_of_join? hj, under_put_of_ne (by simpa using hkey)]
    refine ih fun k hk => hdone k ?_
    rw [List.map_append]
    exact List.mem_append_left _ hk

end Entering

theorem Moves.under_of_not_concerns {e : Event} {t : PendingTable} (h : Moves f e t)
    (hother : e.concerns n = false) : t.under n = f.pending.under n := by
  have hne : ∀ {faces face bytes clock m}, e = .frame faces face bytes clock →
      Message.parse bytes = .ok m → m.name ≠ n := by
    rintro faces face bytes clock m rfl hparse
    rw [concerns_frame hparse] at hother
    exact of_decide_eq_false hother
  have hkeys : ∀ {m : Message}, m.name ≠ n → ∀ k ∈ m.requestKeys, k.name ≠ n := by
    intro m hm k hk
    rwa [Message.name_of_mem_requestKeys hk]
  cases h with
  | same => rfl
  | entered hreq henter => exact henter.under_of_ne (hkeys (hne rfl hreq.parse))
  | noted hreq henter =>
    have hnames := hkeys (hne rfl hreq.parse)
    rw [under_foldl_addAllOnward_of_ne, henter.under_of_ne hnames]
    rw [henter.keys_eq]
    exact hnames
  | @withdrawn faces face bytes clock m hop front rest st hreq hfront henter =>
    have hnames : ∀ k ∈ front.map (·.1), k.name ≠ n := by
      intro k hk
      refine hkeys (hne rfl hreq.parse) k ?_
      rw [← map_fst_keys_entrant f face m hop clock.now, hfront, List.map_append]
      exact List.mem_append_left _ hk
    rw [under_releaseAll_of_ne, henter.under_of_ne hnames]
    rw [henter.keys_eq]
    exact hnames
  | matched hparse => exact under_deliver_of_ne (hne rfl hparse)
  | swept | forgot => cases hother

/-! ## Two forwarders -/

/-- What is set when a forwarder is made. -/
def choices (f : Forwarder) :
    Strategy × Suppression × (Message → Bool) × Bool × ReturnCode :=
  (f.strategy, f.suppression, f.accepts, f.interestReturn, f.hopLimitReturnCode)

theorem choices_step (f : Forwarder) (e : Event) : (f.step e).1.choices = f.choices := by
  obtain ⟨pending, routes, cache, metrics, hstep⟩ := f.step_eq e
  rw [hstep]
  rfl

/-- A forwarder has what another has under a name. -/
structure Shadows (n : Name) (f g : Forwarder) : Prop where
  pending : g.pending = f.pending.under n
  routes : g.routes.uncounted = f.routes.uncounted
  choices : g.choices = f.choices
  disabled : f.cache.Disabled ∧ g.cache.Disabled

theorem disabled_step (h : f.cache.Disabled) (e : Event) : (f.step e).1.cache.Disabled := by
  refine cache_step (P := Cache.Disabled) ?_ (fun _ now hc => hc.purge now)
    (fun _ o now wall hc _ _ => hc.put o now wall) h e
  intro c n k now hc
  rw [hc.lookup]
  exact hc

theorem stored?_of_disabled (h : f.cache.Disabled) : f.stored? m now = none := by
  simp [stored?, h.lookup]

theorem hops?_eq_uncounted (f : Forwarder) (faces : FaceView) (face : FaceId) (m : Message) :
    f.hops? faces face m =
      (f.routes.uncounted.longestMatch m.name).map fun e =>
        (e.name, f.strategy.forInterest faces face e) := by
  rw [hops?, RouteTable.longestMatch_uncounted, Option.map_map]
  congr 1
  funext e
  exact Prod.ext rfl (Strategy.forInterest_uncounted _).symm

namespace Shadows

variable (h : Shadows n f g)
include h

theorem strategy : g.strategy = f.strategy := congrArg (·.1) h.choices

theorem suppression : g.suppression = f.suppression := congrArg (·.2.1) h.choices

theorem accepts : g.accepts = f.accepts := congrArg (·.2.2.1) h.choices

theorem interestReturn : g.interestReturn = f.interestReturn := congrArg (·.2.2.2.1) h.choices

theorem hopLimitReturnCode : g.hopLimitReturnCode = f.hopLimitReturnCode :=
  congrArg (·.2.2.2.2) h.choices

theorem hops? (faces : FaceView) (face : FaceId) (m : Message) :
    g.hops? faces face m = f.hops? faces face m := by
  rw [hops?_eq_uncounted, hops?_eq_uncounted, h.routes, h.strategy]

theorem returnsOf (face : FaceId) (m : Message) (code : ReturnCode) :
    g.returnsOf face m code = f.returnsOf face m code := by
  rw [Forwarder.returnsOf, h.interestReturn, Forwarder.returnsOf]

theorem entrant (face : FaceId) (m : Message) (hop : HopLimit) (now : Instant) :
    g.entrant face m hop now = f.entrant face m hop now := by
  have hsettings : g.pending.settings = f.pending.settings := by rw [h.pending]; rfl
  simp only [Forwarder.entrant, hsettings, h.interestReturn, h.hopLimitReturnCode]

theorem entering {hop : HopLimit} {st : Entered} (hname : m.name = n)
    (henter : f.entering face m hop now = .ok st) :
    g.entering face m hop now = .ok { st with table := st.table.under n } := by
  rw [Forwarder.entering, h.entrant, h.suppression, h.pending]
  refine foldlM_enterKey_under ?_ henter
  intro key hkey
  refine (Message.name_of_mem_requestKeys ?_).trans hname
  rw [← map_fst_keys_entrant f face m hop now]
  exact List.mem_map_of_mem hkey

theorem fate (hname : m.name = n)
    (hroom : HopLimit.ofMessage (faces.isLocal face) m ≠ .exceeded →
      ∀ st, f.entering face m (HopLimit.ofMessage (faces.isLocal face) m) now ≠ .error st) :
    g.fate faces face m now =
      ((f.fate faces face m now).1.under n, (f.fate faces face m now).2) := by
  have hnext : ∀ hop, g.nextHops faces face m hop = f.nextHops faces face m hop := by
    intro hop
    cases hop with
    | remaining hopLimit => simp only [nextHops, h.hops?]
    | exceeded | exhausted => rfl
  have honward : ∀ hop, g.onwardActions faces face m hop = f.onwardActions faces face m hop := by
    intro hop
    cases hop with
    | remaining hopLimit => simp only [onwardActions, hnext]
    | exceeded | exhausted => rfl
  simp only [Forwarder.fate, hnext, honward, h.returnsOf, stored?_of_disabled h.disabled.1,
    stored?_of_disabled h.disabled.2]
  by_cases hexceeded : HopLimit.ofMessage (faces.isLocal face) m = .exceeded
  · rw [if_pos hexceeded, if_pos hexceeded, h.pending]
  rw [if_neg hexceeded, if_neg hexceeded]
  cases henter : f.entering face m (HopLimit.ofMessage (faces.isLocal face) m) now with
  | error st => exact absurd henter (hroom hexceeded st)
  | ok st =>
    rw [h.entering hname henter]
    dsimp only
    -- whether it stops here or goes on, the same becomes of the entries under the name
    split
    · rfl
    · split
      · rfl
      · split
        · rw [under_releaseAll]
        · rw [under_foldl_addAllOnward]

theorem result (hconcerns : (Event.frame faces face bytes clock).concerns n)
    (hroom : ¬f.Refuses (.frame faces face bytes clock)) :
    g.result faces face bytes clock =
      ((f.result faces face bytes clock).1.under n, (f.result faces face bytes clock).2) := by
  cases hparse : Message.parse bytes with
  | error e => simp only [Forwarder.result, hparse, h.pending]
  | ok m =>
    have hname : m.name = n := by
      rw [concerns_frame hparse] at hconcerns
      exact of_decide_eq_true hconcerns
    have hdeliver : (f.pending.under n).deliver m clock.now =
        ((f.pending.deliver m clock.now).1.under n, (f.pending.deliver m clock.now).2) :=
      under_deliver hname
    simp only [Forwarder.result, hparse, h.accepts, h.returnsOf]
    split
    · rename_i haccepts
      split
      · rename_i hrequest
        split
        · rw [h.pending]
        · rename_i hcommand
          refine h.fate hname fun hexceeded st henter => hroom ?_
          exact (handled_handleFrame f faces face bytes clock).counted_of_full
            ⟨hparse, haccepts, hrequest, hcommand⟩ rfl hexceeded henter
      · simp only [targets, h.pending, hdeliver]
    · rw [h.pending]

end Shadows

theorem uncounted_frame (f : Forwarder) (faces : FaceView) (face : FaceId) (bytes : Octets)
    (clock : Clock) :
    (f.handleFrame faces face bytes clock).1.routes.uncounted = f.routes.uncounted :=
  (handled_handleFrame f faces face bytes clock).routes
    (P := fun t => t.uncounted = f.routes.uncounted)
    (fun _ _ _ _ ht => (RouteTable.uncounted_countAll _ _).trans ht) rfl

/-- A packet with the name makes both forwarders do the same. -/
theorem Shadows.frame (h : Shadows n f g)
    (hconcerns : (Event.frame faces face bytes clock).concerns n)
    (hroom : ¬f.Refuses (.frame faces face bytes clock)) :
    (g.handleFrame faces face bytes clock).1.pending =
        (f.handleFrame faces face bytes clock).1.pending.under n ∧
      (g.handleFrame faces face bytes clock).2 = (f.handleFrame faces face bytes clock).2 := by
  have hresult := h.result hconcerns hroom
  rw [(handled_handleFrame f faces face bytes clock).result_eq,
    (handled_handleFrame g faces face bytes clock).result_eq] at hresult
  exact Prod.mk.inj hresult

theorem Shadows.pending_step (h : Shadows n f g) {e : Event} (hconcerns : e.concerns n)
    (hroom : ¬f.Refuses e) : (g.step e).1.pending = (f.step e).1.pending.under n := by
  cases e with
  | frame faces face bytes clock => exact (h.frame hconcerns hroom).1
  | sweep now =>
    change (g.sweep now).1.pending = (f.sweep now).1.pending.under n
    rw [pending_sweep, pending_sweep, h.pending, under_sweep]
  | faceClosed face =>
    change g.pending.forget face = (f.pending.forget face).under n
    rw [h.pending, under_forget]
  | addRoute name face flags cost =>
    obtain ⟨routes, metrics, hf⟩ := f.step_addRoute name face flags cost
    obtain ⟨routes', metrics', hg⟩ := g.step_addRoute name face flags cost
    rw [hf, hg]
    exact h.pending
  | removeRoute faces name face => exact h.pending

theorem Shadows.routes_step (h : Shadows n f g) (e : Event) :
    (g.step e).1.routes.uncounted = (f.step e).1.routes.uncounted := by
  cases e with
  | frame faces face bytes clock =>
    exact (g.uncounted_frame ..).trans (h.routes.trans (f.uncounted_frame ..).symm)
  | sweep now =>
    have hsweep : ∀ d : Forwarder, (d.sweep now).1.routes = d.routes := by
      intro d
      rcases d.sweep_cases now with ⟨-, hsame⟩ | ⟨-, μ, hswept⟩
      · rw [hsame]
      · rw [hswept]
    rw [step, step, hsweep, hsweep]
    exact h.routes
  | faceClosed face =>
    have hforget : ∀ d : Forwarder, (d.step (.faceClosed face)).1.routes.uncounted =
        (d.routes.uncounted.forget face).1 := fun d => by
      rw [RouteTable.forget_uncounted]
      rfl
    rw [hforget, hforget, h.routes]
  | addRoute name face flags cost =>
    have hadd : ∀ d : Forwarder, (d.step (.addRoute name face flags cost)).1.routes.uncounted =
        ((d.routes.uncounted.add name face flags cost none).toOption.map (·.1)).getD
          d.routes.uncounted := by
      intro d
      rw [RouteTable.add_uncounted]
      simp only [step, addRoute]
      cases d.routes.add name face flags cost none <;> rfl
    rw [hadd, hadd, h.routes]
  | removeRoute faces name face =>
    have hremove : ∀ d : Forwarder, (d.step (.removeRoute faces name face)).1.routes.uncounted =
        (d.routes.uncounted.remove name face none).1 := fun d => by
      rw [RouteTable.remove_uncounted]
      rfl
    rw [hremove, hremove, h.routes]

theorem Shadows.step (h : Shadows n f g) {e : Event} (hconcerns : e.concerns n)
    (hroom : ¬f.Refuses e) : Shadows n (f.step e).1 (g.step e).1 where
  pending := h.pending_step hconcerns hroom
  routes := h.routes_step e
  choices := (g.choices_step e).trans (h.choices.trans (f.choices_step e).symm)
  disabled := ⟨disabled_step h.disabled.1 e, disabled_step h.disabled.2 e⟩

theorem Shadows.step_other (h : Shadows n f g) {e : Event} (hother : e.concerns n = false) :
    Shadows n (f.step e).1 g where
  pending := h.pending.trans ((moves_step f e).under_of_not_concerns hother).symm
  routes := by
    cases e with
    | frame faces face bytes clock => exact h.routes.trans (f.uncounted_frame ..).symm
    | sweep | faceClosed | addRoute | removeRoute => cases hother
  choices := h.choices.trans (f.choices_step e).symm
  disabled := ⟨disabled_step h.disabled.1 e, h.disabled.2⟩

theorem Shadows.run (h : Shadows n f g) {events : List Event} (hroom : f.NeverRefuses events) :
    Shadows n (f.run events) (g.run (events.filter (·.concerns n))) := by
  induction events generalizing f g with
  | nil => exact h
  | cons e events ih =>
    cases hconcerns : e.concerns n with
    | true =>
      rw [List.filter_cons_of_pos hconcerns]
      exact ih (h.step hconcerns hroom.1) hroom.2
    | false =>
      rw [List.filter_cons_of_neg (by simp [hconcerns])]
      exact ih (h.step_other hconcerns) hroom.2

/-! ## What is asked for -/

theorem Shadows.actions_eq (h : Shadows n f g) {e : Event} (hconcerns : e.concerns n)
    (hroom : ¬f.Refuses e) (hsweep : ∀ now, e ≠ .sweep now) : (g.step e).2 = (f.step e).2 := by
  cases e with
  | frame faces face bytes clock => exact (h.frame hconcerns hroom).2
  | sweep now => exact absurd rfl (hsweep now)
  | faceClosed face => rfl
  | addRoute name face flags cost =>
    obtain ⟨routes, metrics, hf⟩ := f.step_addRoute name face flags cost
    obtain ⟨routes', metrics', hg⟩ := g.step_addRoute name face flags cost
    rw [hf, hg]
  | removeRoute faces name face =>
    have hremove : ∀ d : Forwarder, (d.step (.removeRoute faces name face)).2 =
        let removed := d.routes.uncounted.remove name face none
        if removed.2 ≠ .notFound ∧ !removed.1.uses face ∧ !faces.isLocal face then
          [.closeFace face]
        else [] := by
      intro d
      rw [RouteTable.remove_uncounted]
      simp only [RouteTable.uses_uncounted]
      rfl
    rw [hremove, hremove, h.routes]

/-- The returns that wait have the names of their keys. -/
def HoldsNamed (f : Forwarder) : Prop :=
  ∀ key g r payload, f.pending.record? key g = some r → r.pendingReturn = some payload →
    ∃ m, Message.parse payload = .ok m ∧ m.name = key.name

theorem HoldsNamed.step (h : f.HoldsNamed) (hf : f.Sound) (e : Event) :
    (f.step e).1.HoldsNamed := by
  refine deferred_step
    (P := fun key payload => ∃ m, Message.parse payload = .ok m ∧ m.name = key.name) ?_
    hf.pending h e
  intro bytes m code key hparse hkind hkey
  exact ⟨_, Message.parse_toInterestReturn hparse hkind code,
    (Message.name_of_mem_requestKeys hkey).symm⟩

theorem HoldsNamed.run (h : f.HoldsNamed) (hf : f.Sound) (events : List Event) :
    (f.run events).HoldsNamed := by
  induction events generalizing f with
  | nil => exact h
  | cons e events ih => exact ih (h.step hf e) (hf.step e)

theorem Shadows.filter_sweep (h : Shadows n f g) (hf : f.Sound) (hnamed : f.HoldsNamed)
    (now : Instant) : (f.sweep now).2.filter (·.named n) = (g.sweep now).2 := by
  have hreturns : (f.pending.sweep now).2.returns.filter (fun due => due.2.named n) =
      (g.pending.sweep now).2.returns := by
    rw [h.pending]
    refine returns_sweep_under (p := fun payload => payload.named n) ?_
    intro e he r hr payload hpayload
    have hrecord := hf.pending.record?_eq_some_iff.2 ⟨e, he, rfl, hr, rfl⟩
    obtain ⟨m, hparse, hname⟩ := hnamed _ _ r payload hrecord hpayload
    rw [Octets.named_of_parse hparse, hname]
  rw [actions_sweep, actions_sweep, ← hreturns, List.filter_map]
  rfl

theorem Built.shadows (hf : f.Built) (hcache : f.cache.capacity = 0) (n : Name) :
    Shadows n f f := by
  obtain ⟨⟨s, hs⟩, hobjects⟩ := hf.tables
  have hpending : f.pending = f.pending.under n := by
    rw [hs]
    rfl
  exact ⟨hpending, rfl, rfl, ⟨hcache, hobjects⟩, ⟨hcache, hobjects⟩⟩

/-- Names do not interfere. In a run without a cache, in which the pending table always has room,
let all packets with other names be left out. Then every event that is left, if it is no sweep, has
the same actions as before, and every sweep sends just the packets with the name that it sent
before. -/
theorem names_apart (hf : f.Built) (hcache : f.cache.capacity = 0) (n : Name) {past : List Event}
    {e : Event} (hroom : f.NeverRefuses (past ++ [e])) (hconcerns : e.concerns n) :
    let all := (f.run past).step e
    let own := (f.run (past.filter (·.concerns n))).step e
    ((∀ now, e ≠ .sweep now) → all.2 = own.2) ∧
      ∀ now, e = .sweep now → all.2.filter (·.named n) = own.2 := by
  intro all own
  obtain ⟨hpast, hlast, -⟩ := (f.neverRefuses_append past [e]).1 hroom
  have hshadows := (hf.shadows hcache n).run hpast
  constructor
  · intro hsweep
    exact (hshadows.actions_eq hconcerns hlast hsweep).symm
  · rintro now rfl
    have hnamed : f.HoldsNamed := by
      intro key g r payload hr
      rw [hf.record?_eq_none] at hr
      cases hr
    exact hshadows.filter_sweep (hf.sound.run past) (hnamed.run hf.sound past) now

/-- Faces 1 and 4 each ask for a name of their own with a hop limit of one. An object for face 1,
and the return that it gets if there is none, come whether face 4 has asked or not. -/
theorem names_apart_small :
    let f := fresh { cache := { enabled := false } } .bestRoute
    let ask := fun face n => Small.frame face { Draft.interest n with hopLimit := 1 } 0
    let past := [Small.route, ask 1 Small.name, ask 4 ⟨[[98]]⟩]
    let object := Small.frame 2 (.object Small.name [7]) 20
    let both := f.run past
    let own := f.run (past.filter (·.concerns Small.name))
    (both.step object).2 = (own.step object).2 ∧ (own.step object).2.length = 1 ∧
      (both.sweep 5000).2.filter (·.named Small.name) = (own.sweep 5000).2 ∧
      (both.sweep 5000).2.length = 2 ∧ (own.sweep 5000).2.length = 1 := by
  intro f ask past object both own
  have hbuilt : f.Built := Small.built rfl
  have hobject : f.NeverRefuses (past ++ [object]) := by decide +kernel
  have hsweep : f.NeverRefuses (past ++ [.sweep 5000]) := by decide +kernel
  obtain ⟨hreplied, -⟩ := names_apart hbuilt rfl Small.name hobject (by decide +kernel)
  obtain ⟨-, hswept⟩ := names_apart hbuilt rfl Small.name hsweep rfl
  exact ⟨hreplied (fun _ => nofun), by decide +kernel, hswept 5000 rfl, by decide +kernel,
    by decide +kernel⟩

end Forwarder
end NamedData
