import Mathlib.Data.List.Perm.Subperm
import NamedData.Proofs.Forwarding.Invariant

/-!
# Entries that nobody waits on any longer

An entry is dead when it has no records and its deadline has passed. A request never finds a dead
entry: it brings about a new one, just as it would after a sweep. Any other entry is found and
stays as it is, even when all of its records have run out. Then its restrictions, its next hops
and the chunks that it has delivered last on for the new requester.
-/

namespace NamedData

namespace PendingTable

/-- A table has the settings of another and no other keys. -/
structure Sparser (u t : PendingTable) : Prop where
  sound : u.Sound
  full : t.Sound
  settings : u.settings = t.settings
  keys : ∀ k, t.find? k = none → u.find? k = none

variable {t u : PendingTable} {now : Instant} {s : Suppression} {r : Entrant}
variable {key : PendingKey × PendingKind}

theorem Sound.sparser_sweep (h : t.Sound) (now : Instant) : (t.sweep now).1.Sparser t where
  sound := h.sweep now
  full := h
  settings := settings_sweep
  keys k hk := by
    cases hrun : t.sweeps now with
    | false => rwa [sweep_of_not_sweeps hrun]
    | true => rw [find?_sweep h.keys_nodup hrun, hk, Option.bind_none]

namespace Sparser

theorem join? (h : u.Sparser t) {i j : Joined} (hi : u.join? s r key = some i)
    (hj : t.join? s r key = some j) : i.table.Sparser j.table where
  sound := h.sound.join? hi
  full := h.full.join? hj
  settings := by rw [table_of_join? hi, table_of_join? hj, settings_put, settings_put, h.settings]
  keys k := by
    rw [find?_of_join? hi, find?_of_join? hj]
    split
    · exact nofun
    · exact h.keys k

theorem exists_join? (h : u.Sparser t) {j : Joined} (hj : t.join? s r key = some j) :
    ∃ i, u.join? s r key = some i := by
  rw [← Option.ne_none_iff_exists']
  intro hfull
  obtain ⟨hnone, hcapacity⟩ := join?_eq_none_iff.1 hfull
  -- the keys of `u` with the new one are among those of `t` after it has joined, and these fit
  have hnodup : (u.entries.map (·.key) ++ [key.1]).Nodup := by
    refine List.Nodup.append h.sound.keys_nodup (by simp) ?_
    simpa using find?_eq_none_iff.1 hnone
  have hsubset : u.entries.map (·.key) ++ [key.1] ⊆ j.table.entries.map (·.key) := by
    intro k hk
    rw [mem_keys_iff, find?_of_join? hj]
    split
    · simp
    · rename_i hne
      have hmem : k ∈ u.entries.map (·.key) := by simpa [hne] using hk
      exact mt (h.keys k) (mem_keys_iff.1 hmem)
  have hlength := (hnodup.subperm hsubset).length_le
  have hsize := (h.full.join? hj).size_le
  rw [table_of_join? hj, settings_put, ← h.settings, ← table_of_join? hj] at hsize
  simp only [List.length_append, List.length_map, List.length_singleton] at hlength
  simp only [size] at hcapacity hsize
  omega

end Sparser

/-- A request that goes on changes nothing of an entry but its records, its deadline and its
next hops. -/
theorem Entrant.fields_of_joins (e : PendingEntry) (hops : List FaceId) :
    let d := (r.joins s e).addAllOnward hops
    d.restrictions = e.restrictions ∧ d.delivered = e.delivered ∧
      ∀ g, g ∈ d.onward ↔ g ∈ e.onward ∨ g ∈ hops := by
  intro d
  obtain ⟨-, -, hrestrictions, honward, hdelivered, -⟩ := joins_fields (r := r) (s := s) e
  have hd : d = { r.joins s e with onward := pushNew (r.joins s e).onward hops } :=
    addAllOnward_eq ..
  rw [hd]
  refine ⟨hrestrictions, hdelivered, fun g => ?_⟩
  rw [mem_pushNew, honward]

end PendingTable

namespace Forwarder

open PendingTable

variable {f : Forwarder} {faces : FaceView} {face : FaceId} {bytes : Octets} {clock : Clock}
variable {m : Message} {hop : HopLimit} {st : Entered} {now : Instant} {s : Suppression}
variable {r : Entrant} {t u : PendingTable} {key : PendingKey × PendingKind}

theorem enter_of_sparser (h : u.Sparser t) (henter : enter s r t = .ok st) :
    ∃ st', enter s r u = .ok st' := by
  have hfold : ∀ (keys : List (PendingKey × PendingKind)) {a b : Entered},
      a.table.Sparser b.table → keys.foldlM (enterKey s r) b = .ok st →
      ∃ st', keys.foldlM (enterKey s r) a = .ok st' := by
    intro keys
    -- both tables take the keys in step, and one stays sparser than the other
    induction keys with
    | nil => exact fun {a b} _ _ => ⟨a, rfl⟩
    | cons key keys ih =>
      intro a b hab hb
      rw [List.foldlM_cons, enterKey_eq] at hb ⊢
      cases hj : b.table.join? s r key with
      | none =>
        rw [hj] at hb
        cases hb
      | some j =>
        obtain ⟨i, hi⟩ := hab.exists_join? hj
        rw [hj] at hb
        rw [hi]
        exact ih (a := a.next key i) (b := b.next key j) (hab.join? hi hj) hb
  exact hfold r.request.keys (a := { table := u }) (b := { table := t }) h henter

/-- A request waits for what is sent on, or for the end of its lifetime if it may not be sent on:
it has been entered under all its keys, and nothing has answered it. -/
structure Passes (f : Forwarder) (faces : FaceView) (face : FaceId) (m : Message) (now : Instant)
    (hop : HopLimit) (st : Entered) : Prop where
  hop_eq : HopLimit.ofMessage (faces.isLocal face) m = hop
  entered : f.entering face m hop now = .ok st
  forward : st.forward
  unanswered : f.stored? m now = none
  goes : hop = .exhausted ∨ f.nextHops faces face m hop ≠ []

theorem Passes.fate_eq (h : f.Passes faces face m now hop st) :
    (∀ key ∈ (f.entrant face m hop now).request.keys,
        (f.fate faces face m now).1.find? key.1 =
          some (((f.entrant face m hop now).joins f.suppression
            ((f.entrant face m hop now).host f.pending key)).addAllOnward
              (f.nextHops faces face m hop))) ∧
      (f.fate faces face m now).2 = f.onwardActions faces face m hop := by
  obtain ⟨hhop, henter, hforward, hnone, hgoes⟩ := h
  have hnodup := (f.entrant face m hop now).request.nodup_keys
  have hkeys := (enters_of_enter henter).keys_eq
  have hfind : ∀ key ∈ (f.entrant face m hop now).request.keys, st.table.find? key.1 =
      some ((f.entrant face m hop now).joins f.suppression
        ((f.entrant face m hop now).host f.pending key)) := fun _ hkey =>
    (enters_of_enter henter).find?_of_mem hnodup hkey
  -- a request with its last hop is held, and has no next hops that could be added
  rcases eq_or_ne hop .exhausted with rfl | hlast
  · have hfate : f.fate faces face m now = (st.table, []) := by
      simp [fate, hhop, henter, hforward, hnone]
    rw [hfate]
    exact ⟨hfind, rfl⟩
  · have hhops := hgoes.resolve_left hlast
    have hpasses : hop ≠ .exceeded := by
      rintro rfl
      exact hhops rfl
    have hfate : f.fate faces face m now =
        (st.keys.foldl
          (fun t key => t.update key (·.addAllOnward (f.nextHops faces face m hop))) st.table,
          f.onwardActions faces face m hop) := by
      simp [fate, hhop, hpasses, henter, hforward, hnone, hlast, hhops]
    rw [hfate]
    refine ⟨fun key hkey => ?_, rfl⟩
    have hmem : key.1 ∈ st.keys := hkeys ▸ List.mem_map_of_mem hkey
    rw [find?_foldl_addAllOnward (hkeys ▸ hnodup), if_pos hmem, hfind key hkey]
    rfl

/-- A request leaves its record under a key only by joining others there or by going on. If its
face has a record all the same, the entry is as it was before. -/
theorem fate_cases (hkey : key ∈ (f.entrant face m hop now).request.keys)
    (hr : ((f.fate faces face m now).1.record? key.1 face).isSome) :
    (f.fate faces face m now).1.find? key.1 = f.pending.find? key.1 ∨
      (∃ hop st, f.entering face m hop now = .ok st ∧ st.forward = false ∧
        (f.fate faces face m now).1 = st.table) ∨
      ∃ hop st, f.Passes faces face m now hop st := by
  generalize hhop : HopLimit.ofMessage (faces.isLocal face) m = hop'
  by_cases hpasses : hop' = .exceeded
  · left
    simp only [fate, hhop, if_pos hpasses]
  cases henter : f.entering face m hop' now with
  | error st =>
    left
    obtain ⟨front, stuck, rest, -, hfront, -⟩ := enters_of_enter_error henter
    simp only [fate, hhop, if_neg hpasses, henter] at hr ⊢
    have hnew : key.1 ∉ front.map (·.1) := by
      intro hmem
      rw [record?_withdrawn hfront, if_pos ⟨hmem, rfl⟩] at hr
      cases hr
    rw [find?_releaseAll, hfront.keys_eq, if_neg hnew, hfront.find?_of_not_mem hnew]
  | ok st =>
    right
    have hwithdrawn : (st.table.releaseAll face st.keys).record? key.1 face = none := by
      rw [record?_withdrawn (enters_of_enter henter), if_pos ⟨List.mem_map_of_mem hkey, rfl⟩]
    by_cases hforward : st.forward = false
    · exact .inl ⟨hop', st, henter, hforward, by simp [fate, hhop, hpasses, henter, hforward]⟩
    right
    cases hstored : f.stored? m now with
    | some object => simp [fate, hhop, hpasses, henter, hforward, hstored, hwithdrawn] at hr
    | none =>
      refine ⟨hop', st, hhop, henter, by simpa using hforward, hstored, ?_⟩
      by_contra hstuck
      obtain ⟨hlast, hnone⟩ := not_or.1 hstuck
      have hhops : f.nextHops faces face m hop' = [] := not_ne_iff.1 hnone
      simp [fate, hhop, hpasses, henter, hforward, hstored, hlast, hhops, hwithdrawn] at hr

theorem forward_of_dead (henter : f.entering face m hop now = .ok st)
    (hkey : key ∈ (f.entrant face m hop now).request.keys)
    (hdead : (f.pending.find? key.1).all (·.dead now)) : st.forward := by
  refine ((enters_of_enter henter).forward_iff (PendingRequest.nodup_keys _)).2 ⟨key, hkey, ?_⟩
  have hunfound : (f.entrant face m hop now).found? f.pending key.1 = none :=
    Entrant.found?_eq_none_iff.2 hdead
  rw [goesOn, Entrant.outcome_of_unfound hunfound]
  rfl

theorem passes_of_dead (hkey : key ∈ (f.entrant face m hop now).request.keys)
    (hdead : (f.pending.find? key.1).all (·.dead now))
    (hr : ((f.fate faces face m now).1.record? key.1 face).isSome) :
    ∃ st, f.Passes faces face m now (.ofMessage (faces.isLocal face) m) st := by
  rcases fate_cases hkey hr with hsame | ⟨hop, st, henter, hstops, -⟩ | ⟨hop, st, hpasses⟩
  · rw [record?_congr hsame, record?_of_dead hdead] at hr
    cases hr
  · rw [forward_of_dead henter hkey hdead] at hstops
    cases hstops
  · obtain rfl := hpasses.hop_eq
    exact ⟨st, hpasses⟩

/-- What a request that goes on leaves under a key with a dead entry. -/
def renewed (f : Forwarder) (faces : FaceView) (face : FaceId) (m : Message) (hop : HopLimit)
    (now : Instant) (key : PendingKey × PendingKind) : PendingEntry :=
  ((f.entrant face m hop now).joins f.suppression
    ((f.entrant face m hop now).fresh f.pending key)).addAllOnward (f.nextHops faces face m hop)

theorem renewed_fields (f : Forwarder) (faces : FaceView) (face : FaceId) (m : Message)
    (hop : HopLimit) (now : Instant) (key : PendingKey × PendingKind) :
    let d := f.renewed faces face m hop now key
    d.restrictions = m.restrictions ∧ d.delivered = [] ∧
      ∀ g, g ∈ d.onward ↔ g ∈ f.nextHops faces face m hop := by
  obtain ⟨hrestrictions, hdelivered, honward⟩ := Entrant.fields_of_joins
    (r := f.entrant face m hop now) (s := f.suppression)
    (Entrant.fresh _ f.pending key) (f.nextHops faces face m hop)
  refine ⟨hrestrictions, hdelivered, fun g => (honward g).trans ?_⟩
  exact ⟨fun hg => hg.resolve_left List.not_mem_nil, .inr⟩

theorem Passes.find?_fate_of_dead (h : f.Passes faces face m now hop st)
    (hkey : key ∈ (f.entrant face m hop now).request.keys)
    (hdead : (f.pending.find? key.1).all (·.dead now)) :
    (f.fate faces face m now).1.find? key.1 = some (f.renewed faces face m hop now key) := by
  have hunfound : (f.entrant face m hop now).found? f.pending key.1 = none :=
    Entrant.found?_eq_none_iff.2 hdead
  rw [h.fate_eq.1 key hkey, Entrant.host, hunfound, Option.getD_none, renewed]

/-- A sweep changes none of the choices of a forwarder, and nothing that its cache answers. -/
theorem sweep_keeps (hf : f.Sound) (now : Instant) :
    (f.sweep now).1.suppression = f.suppression ∧ (f.sweep now).1.accepts = f.accepts ∧
      (∀ face m hop, (f.sweep now).1.entrant face m hop now = f.entrant face m hop now) ∧
      (∀ m, (f.sweep now).1.stored? m now = f.stored? m now) ∧
      ∀ faces face m hop, (f.sweep now).1.nextHops faces face m hop =
        f.nextHops faces face m hop := by
  rcases f.sweep_cases now with ⟨-, hsame⟩ | ⟨-, μ, hswept⟩
  · rw [hsame]
    exact ⟨rfl, rfl, fun _ _ _ => rfl, fun _ => rfl, fun _ _ _ _ => rfl⟩
  · rw [hswept]
    refine ⟨rfl, rfl, fun _ _ _ => ?_, fun _ => ?_, fun _ _ _ hop => ?_⟩
    · simp only [entrant, settings_sweep]
    · simp only [stored?, hf.distinct.lookup_purge]
    · cases hop <;> rfl

theorem Passes.fate_sweep (hf : f.Sound) (h : f.Passes faces face m now hop st)
    (hkey : key ∈ (f.entrant face m hop now).request.keys)
    (hdead : (f.pending.find? key.1).all (·.dead now)) :
    ((f.sweep now).1.fate faces face m now).1.find? key.1 =
        (f.fate faces face m now).1.find? key.1 ∧
      ((f.sweep now).1.fate faces face m now).2 = (f.fate faces face m now).2 := by
  obtain ⟨hsuppression, -, hentrant, hstored, hhops⟩ := sweep_keeps hf now
  have hkey' : key ∈ ((f.sweep now).1.entrant face m hop now).request.keys := hentrant .. ▸ hkey
  have hdead' : ((f.sweep now).1.pending.find? key.1).all (·.dead now) := by
    rw [pending_sweep]
    exact dead_sweep hf.pending.keys_nodup hdead
  obtain ⟨st', henter⟩ := enter_of_sparser (hf.pending.sparser_sweep now) h.entered
  have hentered : (f.sweep now).1.entering face m hop now = .ok st' := by
    rw [entering, hsuppression, hentrant, pending_sweep, henter]
  have hswept : (f.sweep now).1.Passes faces face m now hop st' :=
    ⟨h.hop_eq, hentered, forward_of_dead hentered hkey' hdead', (hstored m).trans h.unanswered,
      (hhops ..).symm ▸ h.goes⟩
  constructor
  · rw [hswept.find?_fate_of_dead hkey' hdead', h.find?_fate_of_dead hkey hdead]
    simp only [renewed, hentrant, hsuppression, hhops, Entrant.fresh, pending_sweep,
      settings_sweep]
  · rw [hswept.fate_eq.2, h.fate_eq.2]
    cases hop <;> simp only [onwardActions, hhops]

theorem fate_of_alive (hkey : key ∈ (f.entrant face m hop now).request.keys)
    {e : PendingEntry} (he : f.pending.find? key.1 = some e) (halive : e.dead now = false)
    (hr : ((f.fate faces face m now).1.record? key.1 face).isSome) :
    ∃ d, (f.fate faces face m now).1.find? key.1 = some d ∧ d.restrictions = e.restrictions ∧
      d.delivered = e.delivered ∧ (∀ g ∈ e.onward, g ∈ d.onward) ∧
      ∀ g ∈ d.onward, g ∈ e.onward ∨
        g ∈ f.nextHops faces face m (.ofMessage (faces.isLocal face) m) := by
  have hhost : ∀ hop, (f.entrant face m hop now).host f.pending key = e := fun hop =>
    Entrant.host_of_find? he halive
  rcases fate_cases hkey hr with hsame | ⟨hop, st, henter, -, htable⟩ | ⟨hop, st, hpasses⟩
  · exact ⟨e, hsame.trans he, rfl, rfl, fun g hg => hg, fun g hg => .inl hg⟩
  · have hfind := (enters_of_enter henter).find?_of_mem (PendingRequest.nodup_keys _) hkey
    rw [hhost, ← htable] at hfind
    obtain ⟨hrestrictions, hdelivered, honward⟩ := Entrant.fields_of_joins
      (r := f.entrant face m hop now) (s := f.suppression) e []
    exact ⟨_, hfind, hrestrictions, hdelivered, fun g hg => (honward g).2 (.inl hg),
      fun g hg => .inl (((honward g).1 hg).resolve_right List.not_mem_nil)⟩
  · obtain rfl := hpasses.hop_eq
    have hfind := hpasses.fate_eq.1 key hkey
    rw [hhost] at hfind
    obtain ⟨hrestrictions, hdelivered, honward⟩ := Entrant.fields_of_joins
      (r := f.entrant face m (.ofMessage (faces.isLocal face) m) now) (s := f.suppression) e
      (f.nextHops faces face m (.ofMessage (faces.isLocal face) m))
    exact ⟨_, hfind, hrestrictions, hdelivered, fun g hg => (honward g).2 (.inl hg),
      fun g => (honward g).1⟩

/-- A request that leaves its face waiting finds no dead entry: the entry under the key is then
new, with the restrictions of the request, its next hops and nothing delivered, and a sweep just
before makes no difference. An entry that was not dead stays with its restrictions and with what
it has delivered, and the next hops of the request are added to its own. -/
theorem renewed_or_kept {f : Forwarder} (hf : f.Reachable) {faces : FaceView} {face : FaceId}
    {bytes : Octets} {clock : Clock} {m : Message} (hparse : Message.parse bytes = .ok m)
    (hkind : m.kind.isRequest) {k : PendingKey} (hk : k ∈ m.requestKeys)
    (hr : ((f.handleFrame faces face bytes clock).1.pending.record? k face).isSome) :
    let hops := f.nextHops faces face m (.ofMessage (faces.isLocal face) m)
    let f' := (f.handleFrame faces face bytes clock).1
    ((f.pending.find? k).all (·.dead clock.now) →
        (∃ d, f'.pending.find? k = some d ∧ d.restrictions = m.restrictions ∧ d.delivered = [] ∧
          ∀ g, g ∈ d.onward ↔ g ∈ hops) ∧
        ((f.sweep clock.now).1.handleFrame faces face bytes clock).1.pending.find? k =
          f'.pending.find? k ∧
        ((f.sweep clock.now).1.handleFrame faces face bytes clock).2 =
          (f.handleFrame faces face bytes clock).2) ∧
      ∀ e, f.pending.find? k = some e → e.dead clock.now = false →
        ∃ d, f'.pending.find? k = some d ∧ d.restrictions = e.restrictions ∧
          d.delivered = e.delivered ∧ (∀ g ∈ e.onward, g ∈ d.onward) ∧
          ∀ g ∈ d.onward, g ∈ e.onward ∨ g ∈ hops := by
  intro hops f'
  have hhandled := handled_handleFrame f faces face bytes clock
  rw [← map_fst_keys_entrant f face m (.ofMessage (faces.isLocal face) m) clock.now] at hk
  obtain ⟨key, hkey, rfl⟩ := List.mem_map.1 hk
  by_cases hreq : f.Requests bytes m
  · have hfate := hhandled.fate_eq hreq
    have hrecord : ((f.fate faces face m clock.now).1.record? key.1 face).isSome := by rwa [hfate]
    have hpending : f'.pending = (f.fate faces face m clock.now).1 := by rw [hfate]
    constructor
    · intro hdead
      obtain ⟨st, hpasses⟩ := passes_of_dead hkey hdead hrecord
      obtain ⟨hentry, hactions⟩ := hpasses.fate_sweep hf.sound hkey hdead
      have hswept : (f.sweep clock.now).1.Requests bytes m :=
        { hreq with accepted := (sweep_keeps hf.sound clock.now).2.1 ▸ hreq.accepted }
      have hfate' := (handled_handleFrame _ faces face bytes clock).fate_eq hswept
      have hfind := hpasses.find?_fate_of_dead hkey hdead
      rw [hfate'] at hentry hactions
      rw [hfate] at hfind hentry hactions
      exact ⟨⟨_, hfind, renewed_fields ..⟩, hentry, hactions⟩
    · intro e he halive
      rw [hpending]
      exact fate_of_alive hkey he halive hrecord
  · -- the request is turned away at once, so a record of its face was there before
    have hsame : f'.pending = f.pending := hhandled.pending_eq hparse hkind hreq
    constructor
    · intro hdead
      change (f'.pending.record? key.1 face).isSome at hr
      rw [hsame, record?_of_dead hdead] at hr
      cases hr
    · intro e he _
      rw [hsame]
      exact ⟨e, he, rfl, rfl, fun g hg => hg, fun g hg => .inl hg⟩

/-- Face 1 asks for objects of `/a` under a key, and goes away. Face 4 then asks for any object of
`/a`: before the deadline it finds the entry of face 1, and after it a new one. -/
theorem renewed_or_kept_small :
    let asked := { Draft.interest Small.name with keyIdRestriction := some Small.key }
    let f := (Small.forwarder {}).run [Small.frame 1 asked 0, .faceClosed ⟨1⟩]
    let after := fun now =>
      (f.handleFrame Small.faces ⟨4⟩ (Small.octets (.interest Small.name)) ⟨now, 0⟩).1.pending
    let k := PendingKey.exact Small.name none
    (∃ d, (after 1000).find? k = some d ∧ d.restrictions = ⟨some Small.key, none⟩) ∧
      ∃ d, (after 5000).find? k = some d ∧ d.restrictions = {} ∧ ∀ g, g ∈ d.onward ↔ g = ⟨2⟩ := by
  intro asked f after k
  have hreachable : f.Reachable := (Small.reachable rfl).run _
  obtain ⟨m, hm, hp⟩ := Small.exists_parse (Small.octets (.interest Small.name))
    (fun m => m.kind.isRequest && m.requestKeys = [k] && m.restrictions = {} &&
      f.nextHops Small.faces ⟨4⟩ m (.ofMessage false m) = [⟨2⟩]) (by decide +kernel)
  simp only [Bool.and_eq_true, decide_eq_true_eq] at hp
  obtain ⟨⟨⟨hkind, hkeys⟩, hrestrictions⟩, hhops⟩ := hp
  have hk : k ∈ m.requestKeys := by simp [hkeys]
  have hwaits : ∀ now ∈ [1000, 5000], ((after now).record? k ⟨4⟩).isSome := by decide +kernel
  have hfound : (f.pending.find? k).any fun e =>
      !e.dead 1000 && e.restrictions = ⟨some Small.key, none⟩ := by decide +kernel
  obtain ⟨e, he, hheld⟩ := (Option.any_eq_true _ _).1 hfound
  obtain ⟨halive, hkey⟩ := Bool.and_eq_true_iff.1 hheld
  have hdead : (f.pending.find? k).all (·.dead 5000) := by decide +kernel
  constructor
  · obtain ⟨d, hd, hsame, -⟩ :=
      (renewed_or_kept hreachable hm hkind hk (hwaits 1000 (by simp))).2 e he
        (by simpa using halive)
    exact ⟨d, hd, hsame.trans (by simpa using hkey)⟩
  · obtain ⟨⟨d, hd, hnew, -, honward⟩, -⟩ :=
      (renewed_or_kept hreachable hm hkind hk (hwaits 5000 (by simp))).1 hdead
    refine ⟨d, hd, hnew.trans hrestrictions, fun g => (honward g).trans ?_⟩
    change g ∈ f.nextHops Small.faces ⟨4⟩ m (.ofMessage false m) ↔ g = ⟨2⟩
    rw [hhops, List.mem_singleton]

/-- Face 1 asks for objects of `/a` under a key, and its request runs out. No sweep comes before
face 4 asks for any object of `/a`. It waits under the restrictions of face 1, and an object that
is under no key does not reach it. -/
theorem restrictions_outlive_requesters :
    let asked := { Draft.interest Small.name with keyIdRestriction := some Small.key }
    let f := (Small.forwarder {}).run [Small.frame 1 asked 0]
    let request := Small.frame 4 (.interest Small.name) 5000
    let f' := (f.step request).1
    let k := PendingKey.exact Small.name none
    f.Reachable ∧ request.packet?.any (fun p => p.2.restrictions = {}) ∧
      (f.pending.find? k).all (fun e => e.waiting.all (!·.live 5000)) ∧
      (f'.pending.record? k ⟨4⟩).isSome ∧
      (f'.pending.find? k).any (fun d => d.restrictions = ⟨some Small.key, none⟩) ∧
      (((f.sweep 5000).1.step request).1.pending.find? k).any (fun d => d.restrictions = {}) ∧
      (f'.step (Small.frame 2 (.object Small.name [1]) 5100)).2 = [] := by
  intro asked f request f' k
  exact ⟨(Small.reachable rfl).run _, by decide +kernel, by decide +kernel, by decide +kernel,
    by decide +kernel, by decide +kernel, by decide +kernel⟩

end Forwarder
end NamedData
