import NamedData.Proofs.Forwarding.Invariant

/-!
# Requesters that are held back

A request that has used up its hop limit waits without being sent on, and its record holds an
Interest Return for the end of its lifetime. All other requests wait where something has been
sent on. A face is left with neither when it repeats a request that is held back, now with hops
to spare: its record loses the return, and the repetition goes nowhere.
-/

namespace NamedData

/-- A face waits, nothing has been sent on for it, and it will not be told when its time is up. -/
def PendingEntry.Strands (e : PendingEntry) (g : FaceId) : Prop :=
  e.onward = [] ∧ ∃ r, e.record? g = some r ∧ r.pendingReturn = none

namespace PendingTable

def Strands (t : PendingTable) (k : PendingKey) (g : FaceId) : Prop :=
  ∃ e, t.find? k = some e ∧ e.Strands g

variable {t : PendingTable} {k : PendingKey} {g face : FaceId} {now : Instant}
variable {s : Suppression} {r : Entrant} {key : PendingKey × PendingKind} {q : WaitRecord}

theorem strands_deliver {reply : Message} (h : (t.deliver reply now).1.Strands k g) :
    t.Strands k g := by
  obtain ⟨d, hd, honward, q, hq, hnone⟩ := h
  rw [find?_deliver] at hd
  split at hd
  · obtain ⟨e, he, hrem⟩ := Option.bind_eq_some_iff.1 hd
    rw [onward_of_remainder hrem] at honward
    rw [PendingEntry.record?_congr (waiting_of_remainder hrem)] at hq
    exact ⟨e, he, honward, q, hq, hnone⟩
  · exact ⟨d, hd, honward, q, hq, hnone⟩

theorem strands_sweep (ht : t.Sound) (h : (t.sweep now).1.Strands k g) : t.Strands k g := by
  obtain ⟨d, hd, honward, q, hq, hnone⟩ := h
  have hrecord : t.record? k g = some q := ht.record?_of_sweep ((record?_of_find? hd).trans hq)
  obtain ⟨e, he, hrec⟩ := record?_eq_some_iff.1 hrecord
  refine ⟨e, he, ?_, q, hrec, hnone⟩
  cases hrun : t.sweeps now with
  | false =>
    rw [sweep_of_not_sweeps hrun, he] at hd
    rwa [Option.some.inj hd]
  | true =>
    rw [find?_sweep ht.keys_nodup hrun, he] at hd
    rwa [← onward_of_kept hd]

theorem strands_releaseAll {keys : List PendingKey} (h : (t.releaseAll face keys).Strands k g) :
    t.Strands k g ∧ ¬(k ∈ keys ∧ g = face) := by
  obtain ⟨d, hd, honward, q, hq, hnone⟩ := h
  rw [find?_releaseAll] at hd
  split at hd
  · obtain ⟨hmap, -⟩ := Option.filter_eq_some_iff.1 hd
    obtain ⟨e, he, rfl⟩ := Option.map_eq_some_iff.1 hmap
    rw [PendingEntry.record?_release] at hq
    split at hq
    · cases hq
    · rename_i hg
      exact ⟨⟨e, he, honward, q, hq, hnone⟩, fun hgone => hg hgone.2⟩
  · rename_i hk
    exact ⟨⟨d, hd, honward, q, hq, hnone⟩, fun hgone => hk hgone.1⟩

theorem strands_foldl_addAllOnward {keys : List PendingKey} (hkeys : keys.Nodup)
    {targets : List FaceId} (htargets : targets ≠ [])
    (h : (keys.foldl (fun t key => t.update key (·.addAllOnward targets)) t).Strands k g) :
    t.Strands k g ∧ k ∉ keys := by
  obtain ⟨d, hd, honward, hrecord⟩ := h
  rw [find?_foldl_addAllOnward hkeys] at hd
  split at hd
  · obtain ⟨e, he, rfl⟩ := Option.map_eq_some_iff.1 hd
    obtain ⟨target, htarget⟩ := List.exists_mem_of_ne_nil _ htargets
    have hmem := (mem_pushNew e.onward targets).2 (.inr htarget)
    rw [addAllOnward_eq] at honward
    rw [show pushNew e.onward targets = [] from honward] at hmem
    exact absurd hmem List.not_mem_nil
  · rename_i hk
    exact ⟨⟨d, hd, honward, hrecord⟩, hk⟩

end PendingTable

namespace Forwarder

open PendingTable

variable {f : Forwarder} {t : PendingTable} {k : PendingKey} {g face : FaceId} {m : Message}
variable {s : Suppression} {r : Entrant} {done : List (PendingKey × PendingKind)} {st : Entered}

/-- A request strands its own face alone, and only where it leaves no return and nothing has been
sent on before. -/
theorem strands_entered (h : Enters s r t done st) (hnodup : (done.map (·.1)).Nodup)
    (hs : st.table.Strands k g) :
    t.Strands k g ∨ g = r.face ∧ r.deferred = none ∧
      ∃ key ∈ done, key.1 = k ∧ (r.host t key).onward = [] := by
  by_cases hk : k ∈ done.map (·.1)
  · obtain ⟨key, hkey, rfl⟩ := List.mem_map.1 hk
    obtain ⟨d, hd, honward, q, hq, hnone⟩ := hs
    rw [h.find?_of_mem hnodup hkey] at hd
    obtain rfl := Option.some.inj hd
    rw [(Entrant.joins_fields _).2.2.2.1] at honward
    rw [Entrant.record?_joins] at hq
    split at hq
    · rename_i hg
      rw [← Option.some.inj hq] at hnone
      exact .inr ⟨hg, hnone, key, hkey, rfl, honward⟩
    · exact .inl ⟨_, Entrant.find?_of_host hq, honward, q, hq, hnone⟩
  · exact .inl (by rwa [Strands, h.find?_of_not_mem hk] at hs)

theorem strands_withdrawn (h : Enters s r t done st) (hnodup : (done.map (·.1)).Nodup)
    (hs : (st.table.releaseAll r.face st.keys).Strands k g) : t.Strands k g := by
  obtain ⟨hstill, hother⟩ := strands_releaseAll hs
  rcases strands_entered h hnodup hstill with hbefore | ⟨rfl, -, key, hkey, rfl, -⟩
  · exact hbefore
  · exact absurd ⟨h.keys_eq ▸ List.mem_map_of_mem hkey, rfl⟩ hother

theorem repetition_of_not_goesOn {key : PendingKey × PendingKind}
    (honward : (r.host t key).onward = [])
    (h : goesOn (r.joins s (r.host t key)) (r.outcome s t key) = false) :
    ∃ q, (r.host t key).record? r.face = some q ∧
      PendingEntry.repetition s q r.request.fingerprint r.now = .refreshed := by
  have hempty : (r.joins s (r.host t key)).onward = [] := by
    rw [(Entrant.joins_fields _).2.2.2.1, honward]
  have houtcome : r.outcome s t key = .refreshed := by
    -- every other outcome goes on where nothing has been sent on
    cases ho : r.outcome s t key with
    | refreshed => rfl
    | created | retransmitted | added => simp [goesOn, ho, JoinOutcome.mustForward, hempty] at h
  unfold Entrant.outcome PendingEntry.join at houtcome
  cases hrecord : (r.host t key).record? r.face with
  | none =>
    simp only [hrecord] at houtcome
    split at houtcome <;> cases houtcome
  | some q =>
    simp only [hrecord] at houtcome
    exact ⟨q, rfl, houtcome⟩

/-- A face repeats, with hops to spare, a live request of its own that is held back. -/
def RepeatsHeld (f : Forwarder) (k : PendingKey) (g : FaceId) (e : Event) : Prop :=
  ∃ faces bytes clock m hopLimit d q, e = .frame faces g bytes clock ∧ f.Requests bytes m ∧
    m.kind = .interest ∧ k ∈ m.requestKeys ∧
    HopLimit.ofMessage (faces.isLocal g) m = .remaining hopLimit ∧
    f.pending.find? k = some d ∧ d.onward = [] ∧ d.record? g = some q ∧
    PendingEntry.repetition f.suppression q m.fingerprint clock.now = .refreshed

theorem isSome_deferred {now : Instant} (hreturn : f.interestReturn) (hkind : m.kind = .interest) :
    (f.entrant face m .exhausted now).deferred.isSome := by
  simp [entrant, hreturn, hkind]

theorem strands_handled {faces : FaceView} {bytes : Octets} {clock : Clock} {f' : Forwarder}
    {actions : List Action} (hreturn : f.interestReturn)
    (hinterest : ∀ m, Message.parse bytes = .ok m → m.kind ≠ .traceRequest)
    (h : Handled f faces face bytes clock f' actions) (hs : f'.pending.Strands k g) :
    f.pending.Strands k g ∨ f.RepeatsHeld k g (.frame faces face bytes clock) ∧ actions = [] := by
  have hkind : ∀ {m}, f.Requests bytes m → m.kind = .interest := fun hreq =>
    (PacketKind.isRequest_iff.1 hreq.request).resolve_right (hinterest _ hreq.parse)
  have hheld : ∀ {m}, f.Requests bytes m →
      (f.entrant face m .exhausted clock.now).deferred ≠ none := fun hreq =>
    Option.isSome_iff_ne_none.1 (isSome_deferred hreturn (hkind hreq))
  have hnodup : ∀ {m hop}, (((f.entrant face m hop clock.now).request.keys).map (·.1)).Nodup :=
    PendingRequest.nodup_keys _
  cases h with
  | malformed | refused | command | exceeded => exact .inl hs
  | full _ hreq _ _ henter =>
    obtain ⟨front, key, rest, hkeys, hfront, -⟩ := enters_of_enter_error henter
    exact .inl (strands_withdrawn hfront (PendingRequest.nodup_front hkeys) hs)
  | @joined m hop st _ hreq hhop hpasses henter hforward =>
    rcases strands_entered (enters_of_enter henter) hnodup hs with
      hbefore | ⟨rfl, hnone, key, hkey, rfl, honward⟩
    · exact .inl hbefore
    · right
      have hstops := (enters_of_enter henter).not_goesOn_of_forward hnodup hforward hkey
      obtain ⟨q, hq, hrepeats⟩ := repetition_of_not_goesOn honward hstops
      -- with its last hop the request would have left a return
      cases hop with
      | exceeded => exact absurd rfl hpasses
      | exhausted => exact absurd hnone (hheld hreq)
      | remaining hopLimit =>
        exact ⟨⟨faces, bytes, clock, m, hopLimit, _, q, rfl, hreq, hkind hreq,
          List.mem_map_of_mem hkey, hhop, Entrant.find?_of_host hq, honward, hq, hrepeats⟩, rfl⟩
  | cached _ hreq _ _ henter | unrouted _ hreq _ henter =>
    exact .inl (strands_withdrawn (enters_of_enter henter) hnodup hs)
  | held _ hreq _ henter =>
    rcases strands_entered (enters_of_enter henter) hnodup hs with hbefore | ⟨-, hnone, -⟩
    · exact .inl hbefore
    · exact absurd hnone (hheld hreq)
  | routed _ hreq _ henter _ _ _ htargets =>
    have hkeys := (enters_of_enter henter).keys_eq
    obtain ⟨hstill, hother⟩ := strands_foldl_addAllOnward (hkeys ▸ hnodup) htargets hs
    rcases strands_entered (enters_of_enter henter) hnodup hstill with
      hbefore | ⟨-, -, key, hkey, rfl, -⟩
    · exact .inl hbefore
    · exact absurd (hkeys ▸ List.mem_map_of_mem hkey) hother
  | dropped | delivered | returned => exact .inl (strands_deliver hs)

/-- Nobody is stranded in an event, but by a repetition for which nothing is sent. -/
theorem strands_step (hf : f.Sound) (hreturn : f.interestReturn) {e : Event}
    (hinterest : e.packet?.all (·.2.kind ≠ .traceRequest))
    (hstay : ∀ face, e ≠ .faceClosed face) (hs : (f.step e).1.pending.Strands k g) :
    f.pending.Strands k g ∨ f.RepeatsHeld k g e ∧ (f.step e).2 = [] := by
  cases e with
  | frame faces face bytes clock =>
    refine strands_handled hreturn (fun m hparse => ?_) (handled_handleFrame ..) hs
    simpa [Event.packet?_frame hparse] using hinterest
  | sweep now =>
    change (f.sweep now).1.pending.Strands k g at hs
    rw [pending_sweep] at hs
    exact .inl (strands_sweep hf.pending hs)
  | faceClosed face => exact absurd rfl (hstay face)
  | addRoute name face flags cost =>
    obtain ⟨routes, metrics, hstep⟩ := f.step_addRoute name face flags cost
    rw [hstep] at hs
    exact .inl hs
  | removeRoute faces name face => exact .inl hs

theorem strands_run (hf : f.Sound) (hreturn : f.interestReturn) {events : List Event}
    (hinterests : ∀ e ∈ events, e.packet?.all (·.2.kind ≠ .traceRequest))
    (hstay : ∀ e ∈ events, ∀ face, e ≠ .faceClosed face)
    (hs : (f.run events).pending.Strands k g) :
    f.pending.Strands k g ∨
      ∃ past e rest, events = past ++ e :: rest ∧ (f.run past).RepeatsHeld k g e ∧
        ((f.run past).step e).2 = [] := by
  -- from the front, so that what comes before the repetition grows at its head
  induction events generalizing f with
  | nil => exact .inl hs
  | cons e events ih =>
    have hreturn' : (f.step e).1.interestReturn := (interestReturn_run f [e]).trans hreturn
    rcases ih (hf.step e) hreturn' (fun d hd => hinterests d (List.mem_cons_of_mem _ hd))
      (fun d hd => hstay d (List.mem_cons_of_mem _ hd)) hs with
      hstep | ⟨past, d, rest, rfl, hrepeats⟩
    · rcases strands_step hf hreturn (hinterests e List.mem_cons_self)
        (hstay e List.mem_cons_self) hstep with hbefore | hrepeats
      · exact .inl hbefore
      · exact .inr ⟨[], e, events, rfl, hrepeats⟩
    · exact .inr ⟨e :: past, d, rest, rfl, hrepeats⟩

theorem joined_of_nothing {faces : FaceView} {hopLimit : UInt8} {now : Instant}
    (hreturn : f.interestReturn) (hkind : m.kind = .interest)
    (hhop : HopLimit.ofMessage (faces.isLocal face) m = .remaining hopLimit)
    (h : f.fate faces face m now = (t, [])) :
    ∃ st, f.entering face m (.remaining hopLimit) now = .ok st ∧ st.forward = false ∧
      st.table = t := by
  have hback : ∀ code, f.returnsOf face m code ≠ [] := by simp [returnsOf, hreturn, hkind]
  cases henter : f.entering face m (.remaining hopLimit) now with
  | error st => simp [fate, hhop, henter, hback] at h
  | ok st =>
    by_cases hforward : st.forward = false
    · simp only [fate, hhop, henter, hforward, reduceCtorEq, if_false, if_true] at h
      exact ⟨st, rfl, hforward, congrArg Prod.fst h⟩
    · -- the request goes on, so something is sent for it
      cases hstored : f.stored? m now with
      | some object => simp [fate, hhop, henter, hforward, hstored] at h
      | none =>
        by_cases hhops : f.nextHops faces face m (.remaining hopLimit) = []
        · simp [fate, hhop, henter, hforward, hstored, hhops, hback] at h
        · simp [fate, hhop, henter, hforward, hstored, hhops, onwardActions] at h

/-- A repetition for which nothing is sent strands its face: the record is renewed without a
return, and all else stays as it was. -/
theorem strands_of_repeatsHeld (hreturn : f.interestReturn) {e : Event} (h : f.RepeatsHeld k g e)
    (hnothing : (f.step e).2 = []) : (f.step e).1.pending.Strands k g := by
  obtain ⟨faces, bytes, clock, m, hopLimit, d, q, rfl, hreq, hkind, hk, hhop, hd, honward, hq, -⟩ :=
    h
  have hfate : f.fate faces g m clock.now =
      ((f.step (.frame faces g bytes clock)).1.pending, []) := by
    rw [← hnothing]
    exact (handled_handleFrame f faces g bytes clock).fate_eq hreq
  obtain ⟨st, henter, -, htable⟩ := joined_of_nothing hreturn hkind hhop hfate
  rw [← map_fst_keys_entrant f g m (.remaining hopLimit) clock.now] at hk
  obtain ⟨key, hkey, rfl⟩ := List.mem_map.1 hk
  -- an entry with a record in it is not dead, so the request finds it
  have hhost : ((f.entrant g m (.remaining hopLimit) clock.now).host f.pending key) = d := by
    rw [← Option.some.inj (hd.symm.trans (Entrant.find?_of_host (g := g) (q := q) ?_))]
    rw [Entrant.record?_host, record?_of_find? hd, hq]
  have hfind := (enters_of_enter henter).find?_of_mem (PendingRequest.nodup_keys _) hkey
  rw [hhost, htable] at hfind
  refine ⟨_, hfind, ?_, _, by rw [Entrant.record?_joins, face_entrant, if_pos rfl], ?_⟩
  · rw [(Entrant.joins_fields _).2.2.2.1, honward]
  · simp [Entrant.record, entrant]

/-- In a run without trace requests in which no face goes away, a face that waits is told when its
time is up, or something has been sent on where it waits, or it has repeated, with hops to spare,
a request of its own that was held back. Whenever a face does that, it is left with neither. -/
theorem stranded_by_repetition {f : Forwarder} (hf : f.Built) (hreturn : f.interestReturn)
    {events : List Event}
    (hinterests : ∀ e ∈ events, e.packet?.all (·.2.kind ≠ .traceRequest))
    (hstay : ∀ e ∈ events, ∀ face, e ≠ .faceClosed face) (k : PendingKey) (g : FaceId) :
    (∀ d r, (f.run events).pending.find? k = some d → d.record? g = some r →
        r.pendingReturn.isSome ∨ d.onward ≠ [] ∨
          ∃ past e rest, events = past ++ e :: rest ∧ (f.run past).RepeatsHeld k g e ∧
            ((f.run past).step e).2 = []) ∧
      ∀ e, (f.run events).RepeatsHeld k g e → ((f.run events).step e).2 = [] →
        ((f.run events).step e).1.pending.Strands k g := by
  constructor
  · intro d r hd hr
    by_cases hstranded : (f.run events).pending.Strands k g
    · rcases strands_run hf.sound hreturn hinterests hstay hstranded with ⟨e, he, -⟩ | hrepeats
      · rw [hf.find?_eq_none] at he
        cases he
      · exact .inr (.inr hrepeats)
    · cases hpending : r.pendingReturn with
      | some payload => exact .inl rfl
      | none =>
        refine .inr (.inl fun honward => hstranded ?_)
        exact ⟨d, hd, honward, r, hr, hpending⟩
  · exact fun e => strands_of_repeatsHeld ((interestReturn_run f events).trans hreturn)

/-- Face 1 asks for `/a` with its last hop, and so holds a return. Then face 4 asks as well, and
something is sent on for both; or face 1 asks again with hops to spare, and is stranded. -/
theorem stranded_by_repetition_small :
    let f := fresh {} .bestRoute
    let key := PendingKey.exact Small.name none
    let held := [Small.route, Small.frame 1 { Draft.interest Small.name with hopLimit := 1 } 0]
    let other := Small.frame 4 (.interest Small.name) 100
    let again := Small.frame 1 (.interest Small.name) 100
    (∃ d r, (f.run (held ++ [other])).pending.find? key = some d ∧ d.record? ⟨4⟩ = some r ∧
      (r.pendingReturn.isSome ∨ d.onward ≠ [] ∨
        ∃ past e rest, held ++ [other] = past ++ e :: rest ∧ (f.run past).RepeatsHeld key ⟨4⟩ e ∧
          ((f.run past).step e).2 = [])) ∧
      (f.run (held ++ [again])).pending.Strands key ⟨1⟩ := by
  intro f key held other again
  have hreturn : f.interestReturn := rfl
  have hinterests : ∀ e ∈ held ++ [other], e.packet?.all (·.2.kind ≠ .traceRequest) := by
    decide +kernel
  have hstay : ∀ e ∈ held ++ [other], ∀ face, e ≠ .faceClosed face := by
    simp [held, other, Small.frame, Small.route]
  constructor
  · have hwaits : ((f.run (held ++ [other])).pending.find? key).any
        (fun d => (d.record? ⟨4⟩).isSome) := by decide +kernel
    obtain ⟨d, hd, hsome⟩ := (Option.any_eq_true _ _).1 hwaits
    obtain ⟨r, hr⟩ := Option.isSome_iff_exists.1 hsome
    exact ⟨d, r, hd, hr,
      (stranded_by_repetition (Small.built rfl) hreturn hinterests hstay key ⟨4⟩).1 d r hd hr⟩
  · obtain ⟨m, hm, hp⟩ := Small.exists_parse (Small.octets (.interest Small.name))
      (fun m => m.kind = .interest && command? m = none && m.requestKeys = [key] &&
        HopLimit.ofMessage false m = .remaining 31 &&
        ((f.run held).pending.find? key).any fun d => d.onward = [] && (d.record? ⟨1⟩).any fun q =>
          PendingEntry.repetition (f.run held).suppression q m.fingerprint 100 = .refreshed)
      (by decide +kernel)
    simp only [Bool.and_eq_true, decide_eq_true_eq] at hp
    obtain ⟨⟨⟨⟨hkind, hcommand⟩, hkeys⟩, hhop⟩, hwaits⟩ := hp
    obtain ⟨d, hd, hheld⟩ := (Option.any_eq_true _ _).1 hwaits
    obtain ⟨honward, hrecord⟩ := Bool.and_eq_true_iff.1 hheld
    obtain ⟨q, hq, hrepeats⟩ := (Option.any_eq_true _ _).1 hrecord
    have hrequests : (f.run held).Requests (Small.octets (.interest Small.name)) m :=
      ⟨hm, by rw [accepts_run]; rfl, by rw [hkind]; rfl, hcommand⟩
    have hagain : (f.run held).RepeatsHeld key ⟨1⟩ again :=
      ⟨Small.faces, _, ⟨100, 0⟩, m, 31, d, q, rfl, hrequests, hkind, by simp [hkeys], hhop, hd,
        by simpa using honward, hq, by simpa using hrepeats⟩
    have hnothing : ((f.run held).step again).2 = [] := by decide +kernel
    rw [run_append]
    refine (stranded_by_repetition (Small.built rfl) hreturn (fun e he => ?_) (fun e he => ?_)
      key ⟨1⟩).2 again hagain hnothing
    · exact hinterests e (List.mem_append_left _ he)
    · exact hstay e (List.mem_append_left _ he)

/-- The sweep at the end of its lifetime sends the stranded face nothing, in a run of Interests
only. -/
theorem waiting_untold :
    let f := fresh {} .bestRoute
    let events := [Small.route, Small.frame 1 { Draft.interest Small.name with hopLimit := 1 } 0,
      Small.frame 1 { Draft.interest Small.name with hopLimit := 5 } 100]
    f.Built ∧ f.interestReturn ∧ (∀ e ∈ events, e.packet?.all (·.2.kind = .interest)) ∧
      (((f.run events).pending.find? (.exact Small.name none)).any fun e =>
        e.onward = [] && (e.record? ⟨1⟩).any (·.pendingReturn = none)) ∧
      ((f.run events).sweep 5000).2 = [] := by
  intro f events
  exact ⟨Small.built rfl, rfl, by decide +kernel, by decide +kernel, by decide +kernel⟩

end Forwarder
end NamedData
