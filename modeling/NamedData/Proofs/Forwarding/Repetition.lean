import NamedData.Proofs.Forwarding.RoundTrip

/-!
# Requests that are repeated

A face that asks again for what it waits for, with the same fingerprint and before its
record expires, gets a new expiry and nothing else. This goes on for as long as the face
repeats itself in time, whatever the other faces do, until a reply takes the entry.
-/

namespace NamedData
namespace PendingTable

/-- The keys of a table with the faces that wait under them. -/
def waits (t : PendingTable) : List (PendingKey × FaceId) :=
  t.records.map fun (key, r) => (key, r.face)

/-- A face waits under a key until a time, with the fingerprint of its request. -/
def WaitsUntil (t : PendingTable) (k : PendingKey) (g : FaceId) (φ : UInt64)
    (deadline : Instant) : Prop :=
  ∃ r, t.record? k g = some r ∧ r.expiry = deadline ∧ r.fingerprint = φ

variable {t : PendingTable} {r : Entrant} {key : PendingKey × PendingKind} {s : Suppression}

theorem waits_eq (t : PendingTable) :
    t.waits = t.entries.flatMap fun e => (e.waiting.map (·.face)).map (e.key, ·) := by
  simp [waits, records, List.map_flatMap, Function.comp_def]

theorem waits_put (ht : t.Sound) {d e : PendingEntry} (he : t.find? d.key = some e)
    (hfaces : d.waiting.map (·.face) = e.waiting.map (·.face)) : (t.put d).waits = t.waits := by
  have hput : (t.put d).entries = t.entries.map fun c => if c.key = d.key then d else c := by
    rw [put, he]
    rfl
  rw [waits_eq, waits_eq, hput, List.flatMap_map]
  refine List.flatMap_congr fun c hc => ?_
  split
  · rename_i hkey
    obtain rfl := ht.eq_of_find? he hc hkey
    rw [hfaces, hkey]
  · rfl

namespace Entrant

theorem map_face_joins {e : PendingEntry} {q : WaitRecord} (hq : e.record? r.face = some q) :
    (r.joins s e).waiting.map (·.face) = e.waiting.map (·.face) := by
  have hjoin : (e.join r.face r.request.lifetime r.request.fingerprint r.now s).1.waiting.map
      (·.face) = e.waiting.map (·.face) := by
    simp only [PendingEntry.join, hq]
    exact PendingEntry.map_face_updateRecord fun _ => rfl
  unfold joins
  dsimp only
  split
  · exact (PendingEntry.map_face_updateRecord (by exact fun _ => rfl)).trans hjoin
  · exact hjoin

structure Repeats (r : Entrant) (t : PendingTable) (k : PendingKey) (q : WaitRecord) : Prop where
  record : t.record? k r.face = some q
  live : r.now < q.expiry
  same : q.fingerprint = r.request.fingerprint

variable {q : WaitRecord}

theorem Repeats.record?_host (h : r.Repeats t key.1 q) :
    (r.host t key).record? r.face = some q := Entrant.record?_host.trans h.record

theorem Repeats.outcome_eq (h : r.Repeats t key.1 q) :
    r.outcome (.ofMode .suppress) t key = .refreshed := by
  simp [outcome, PendingEntry.join, h.record?_host, PendingEntry.repetition, Suppression.ofMode,
    WaitRecord.live, h.live, h.same]

theorem Repeats.put_joins (h : r.Repeats t key.1 q) (ht : t.Sound) :
    let u := t.put (r.joins s (r.host t key))
    u.entries.map (·.key) = t.entries.map (·.key) ∧ u.waits = t.waits := by
  intro u
  have hfind : t.find? (r.joins s (r.host t key)).key = some (r.host t key) := by
    rw [key_joins, key_host, find?_of_host h.record?_host]
  refine ⟨?_, waits_put ht hfind (map_face_joins h.record?_host)⟩
  rw [keys_put, hfind]
  exact List.append_nil _

end Entrant
end PendingTable

namespace Forwarder

open PendingTable

variable {f : Forwarder} {faces : FaceView} {g : FaceId} {bytes : Octets} {clock : Clock}
variable {m : Message} {k : PendingKey} {hop : HopLimit} {now deadline : Instant} {φ : UInt64}

/-- The keys and requesters are the same afterwards, nothing is sent on, and nothing at all is
asked for unless the request is not let in or comes with a hop limit of zero. -/
structure Suppressed (f : Forwarder) (faces : FaceView) (g : FaceId) (m : Message)
    (out : PendingTable × List Action) : Prop where
  keys : out.1.entries.map (·.key) = f.pending.entries.map (·.key)
  waits : out.1.waits = f.pending.waits
  unsent : ∀ a ∈ out.2, a.carries .interest = false
  silent : f.accepts m → HopLimit.ofMessage (faces.isLocal g) m ≠ .exceeded → out.2 = []

/-- A request whose only key is that of a live request that it repeats is entered there, and goes
no further. -/
theorem enter_of_repeats {r : Entrant} {t : PendingTable} {key : PendingKey × PendingKind}
    {q : WaitRecord} (hkeys : r.request.keys = [key]) (h : r.Repeats t key.1 q) :
    ∃ st, enter (.ofMode .suppress) r t = .ok st ∧ st.forward = false ∧
      st.table = t.put (r.joins (.ofMode .suppress) (r.host t key)) := by
  obtain ⟨e, he, -⟩ := record?_eq_some_iff.1 h.record
  let j : Joined :=
    { table := t.put (r.joins (.ofMode .suppress) (r.host t key))
      entry := r.joins (.ofMode .suppress) (r.host t key)
      isNew := (r.found? t key.1).isNone
      outcome := .refreshed }
  have hjoin : t.join? (.ofMode .suppress) r key = some j := by
    rw [join?_eq, if_neg (by simp [he]), h.outcome_eq]
  refine ⟨Entered.next { table := t } key j, ?_, ?_, rfl⟩
  · rw [enter, hkeys, List.foldlM_cons, enterKey_eq, hjoin]
    rfl
  · simp [Entered.next, goesOn, JoinOutcome.mustForward, j]

theorem fate_of_repeats (hf : f.Sound) (hmode : f.suppression = .ofMode .suppress)
    (hkeys : m.requestKeys = [k]) {q : WaitRecord}
    (hhop : HopLimit.ofMessage (faces.isLocal g) m = hop) (hpasses : hop ≠ .exceeded)
    (h : (f.entrant g m hop now).Repeats f.pending k q) :
    ∃ t, f.fate faces g m now = (t, []) ∧
      t.record? k g = some (f.entrant g m hop now).record ∧
      t.entries.map (·.key) = f.pending.entries.map (·.key) ∧ t.waits = f.pending.waits := by
  have hasked : k ∈ m.requestKeys := by simp [hkeys]
  rw [← map_fst_keys_entrant f g m hop now, List.map_eq_singleton_iff] at hkeys
  obtain ⟨key, hkey, rfl⟩ := hkeys
  obtain ⟨st, henter, hforward, htable⟩ := enter_of_repeats hkey h
  have hentering : f.entering g m hop now = .ok st := by rw [entering, hmode, henter]
  refine ⟨st.table, ?_, ?_, htable ▸ h.put_joins hf.pending⟩
  · simp only [fate, hhop, if_neg hpasses, hentering, hforward, if_true]
  · rw [record?_entered (enters_of_enter hentering), if_pos ⟨hasked, rfl⟩]

/-- Until when a face waits once it has repeated its request. Nothing is recorded of a repetition
that is not let in or that comes with a hop limit of zero. -/
def renewal (f : Forwarder) (faces : FaceView) (g : FaceId) (m : Message)
    (now deadline : Instant) : Instant :=
  if f.accepts m ∧ HopLimit.ofMessage (faces.isLocal g) m ≠ .exceeded then now + f.lifetimeOf m
  else deadline

theorem suppressed_of_returnsOf {code : ReturnCode}
    (h : f.accepts m → HopLimit.ofMessage (faces.isLocal g) m = .exceeded) :
    f.Suppressed faces g m (f.pending, f.returnsOf g m code) where
  keys := rfl
  waits := rfl
  unsent _ := carries_returnsOf
  silent haccepts hpasses := absurd (h haccepts) hpasses

/-- A repetition is suppressed and renews the record. -/
theorem result_of_repeats (faces : FaceView) (hf : f.Sound)
    (hmode : f.suppression = .ofMode .suppress)
    (hparse : Message.parse bytes = .ok m) (hkind : m.kind = .interest)
    (hcommand : command? m = none) (hkeys : m.requestKeys = [k])
    (h : f.pending.WaitsUntil k g m.fingerprint deadline) (hlive : clock.now < deadline) :
    f.Suppressed faces g m (f.result faces g bytes clock) ∧
      (f.result faces g bytes clock).1.WaitsUntil k g m.fingerprint
        (f.renewal faces g m clock.now deadline) := by
  cases haccepts : f.accepts m with
  | false =>
    have hresult : f.result faces g bytes clock =
        (f.pending, f.returnsOf g m .malformedInterest) := by
      simp only [result, hparse, haccepts]
      rfl
    rw [hresult, renewal, if_neg (by simp [haccepts])]
    exact ⟨suppressed_of_returnsOf (by simp [haccepts]), h⟩
  | true =>
    have hreq : f.Requests bytes m := ⟨hparse, haccepts, by rw [hkind]; rfl, hcommand⟩
    rw [hreq.result_eq]
    by_cases hexceeded : HopLimit.ofMessage (faces.isLocal g) m = .exceeded
    · have hfate : f.fate faces g m clock.now =
          (f.pending, f.returnsOf g m .hopLimitExceeded) := by
        simp only [fate, hexceeded, if_true]
      rw [hfate, renewal, if_neg (by simp [hexceeded])]
      exact ⟨suppressed_of_returnsOf fun _ => hexceeded, h⟩
    · obtain ⟨q, hq, rfl, hsame⟩ := h
      obtain ⟨t, hfate, hrecord, hentries, hwaits⟩ :=
        fate_of_repeats hf hmode hkeys rfl hexceeded ⟨hq, hlive, hsame⟩
      rw [hfate, renewal, if_pos ⟨haccepts, hexceeded⟩]
      exact ⟨⟨hentries, hwaits, by simp, fun _ _ => rfl⟩, _, hrecord, rfl, rfl⟩

/-- What may happen while a face waits under a key: anything but that the face itself asks there or
goes away, that a reply takes the entry, or that a sweep comes too late. -/
structure Undisturbed (f : Forwarder) (g : FaceId) (k : PendingKey) (deadline : Instant)
    (e : Event) : Prop where
  silent : ¬e.asks g k
  stays : e ≠ .faceClosed g
  unconsumed : (∃ face m, e.packet? = some (face, m) ∧ m.kind.isRequest = false) →
    (f.step e).1.pending.find? k ≠ none
  early : ∀ now, e = .sweep now → now < deadline

/-- A run in which a face repeats its request for a key, each time before the expiry that the last
request has set. -/
inductive Repeating (g : FaceId) (k : PendingKey) (φ : UInt64) :
    Forwarder → Instant → List Event → Prop
  | done {f : Forwarder} {deadline : Instant} : Repeating g k φ f deadline []
  | other {f : Forwarder} {deadline : Instant} {e events} : f.Undisturbed g k deadline e →
      Repeating g k φ (f.step e).1 deadline events → Repeating g k φ f deadline (e :: events)
  | again {f : Forwarder} {deadline : Instant} {faces bytes clock m events} :
      Message.parse bytes = .ok m → m.kind = .interest → m.requestKeys = [k] →
      m.fingerprint = φ → clock.now < deadline →
      Repeating g k φ (f.step (.frame faces g bytes clock)).1
        (f.renewal faces g m clock.now deadline) events →
      Repeating g k φ f deadline (.frame faces g bytes clock :: events)

theorem waitsUntil_step (hf : f.Sound) (h : f.pending.WaitsUntil k g φ deadline) {e : Event}
    (he : f.Undisturbed g k deadline e) : (f.step e).1.pending.WaitsUntil k g φ deadline := by
  obtain ⟨r, hr, rfl, rfl⟩ := h
  refine ⟨r, ?_, rfl, rfl⟩
  rcases (moves_step f e).record?_or_delivered hf.pending hr he.early he.silent he.stays with
    hsame | ⟨face, m, now, hpacket, hreply, htable⟩
  · exact hsame
  · have hkept := he.unconsumed ⟨face, m, hpacket, hreply⟩
    rw [htable] at hkept ⊢
    rw [record?_deliver_of_find? hkept, hr]

theorem suppressed_handleFrame (faces : FaceView) (hf : f.Sound)
    (hmode : f.suppression = .ofMode .suppress)
    (hcommand : Command.ofName? k.name = none)
    (h : f.pending.WaitsUntil k g m.fingerprint deadline) (hparse : Message.parse bytes = .ok m)
    (hkind : m.kind = .interest) (hkeys : m.requestKeys = [k]) (hlive : clock.now < deadline) :
    let after := f.handleFrame faces g bytes clock
    f.Suppressed faces g m (after.1.pending, after.2) ∧
      after.1.pending.WaitsUntil k g m.fingerprint (f.renewal faces g m clock.now deadline) := by
  intro after
  have hname : k.name = m.name := Message.name_of_mem_requestKeys (by simp [hkeys])
  have hnone : command? m = none := by rw [command?, if_pos hkind, ← hname, hcommand]
  have hresult : f.result faces g bytes clock = (after.1.pending, after.2) :=
    (handled_handleFrame f faces g bytes clock).result_eq
  have hrepeats := result_of_repeats faces hf hmode hparse hkind hnone hkeys h hlive
  rwa [hresult] at hrepeats

/-- Wherever the run is cut, the face waits and goes on repeating. -/
theorem Repeating.cut (hf : f.Sound) (hmode : f.suppression = .ofMode .suppress)
    (hcommand : Command.ofName? k.name = none) (h : f.pending.WaitsUntil k g φ deadline)
    {past rest : List Event} (hrun : Repeating g k φ f deadline (past ++ rest)) :
    ∃ deadline', (f.run past).pending.WaitsUntil k g φ deadline' ∧
      Repeating g k φ (f.run past) deadline' rest := by
  induction past generalizing f deadline with
  | nil => exact ⟨deadline, h, hrun⟩
  | cons e past ih =>
    have hmode' : (f.step e).1.suppression = .ofMode .suppress :=
      (suppression_run f [e]).trans hmode
    cases hrun with
    | other he hrest => exact ih (hf.step e) hmode' (waitsUntil_step hf h he) hrest
    | @again _ _ faces _ _ m _ hparse hkind hkeys hsame hlive hrest =>
      subst hsame
      have hwaits := (suppressed_handleFrame faces hf hmode hcommand h hparse hkind hkeys hlive).2
      exact ih (hf.step _) hmode' hwaits hrest

/-- An Interest with a single key was sent on. As long as its face repeats it under the same key
with the same fingerprint, each time before the record expires, and nothing but a repetition of
its own disturbs the record, each repetition is suppressed. -/
theorem repetitions_suppressed {f : Forwarder} (hf : f.Reachable)
    (hmode : f.suppression = .ofMode .suppress) {faces : FaceView} {g : FaceId} {bytes : Octets}
    {clock : Clock} {m : Message} {k : PendingKey} (hparse : Message.parse bytes = .ok m)
    (hkind : m.kind = .interest) (hkeys : m.requestKeys = [k])
    (hsent : ∃ a ∈ (f.handleFrame faces g bytes clock).2, a.carries .interest)
    {past rest : List Event} {faces' : FaceView} {bytes' : Octets} {clock' : Clock} {m' : Message}
    (hrun : Repeating g k m.fingerprint (f.handleFrame faces g bytes clock).1
      (clock.now + f.lifetimeOf m) (past ++ .frame faces' g bytes' clock' :: rest))
    (hparse' : Message.parse bytes' = .ok m') (hrequest : m'.kind.isRequest)
    (hkey : k ∈ m'.requestKeys) :
    let before := (f.handleFrame faces g bytes clock).1.run past
    let after := before.handleFrame faces' g bytes' clock'
    before.Suppressed faces' g m' (after.1.pending, after.2) := by
  intro before after
  have hasked : k ∈ m.requestKeys := by simp [hkeys]
  obtain ⟨hreq, hop, hrecord⟩ :=
    record?_of_sent (handled_handleFrame f faces g bytes clock) hsent hparse hasked
  have hname : k.name = m.name := Message.name_of_mem_requestKeys hasked
  have hcommand : Command.ofName? k.name = none := by
    have hnone := hreq.noCommand
    rwa [command?, if_pos hkind, ← hname] at hnone
  have hsound : (f.handleFrame faces g bytes clock).1.Sound :=
    hf.sound.step (.frame faces g bytes clock)
  have hmode' : (f.handleFrame faces g bytes clock).1.suppression = .ofMode .suppress :=
    (suppression_run f [.frame faces g bytes clock]).trans hmode
  obtain ⟨deadline, hwaits, hrest⟩ :=
    hrun.cut hsound hmode' hcommand ⟨_, hrecord, rfl, rfl⟩
  cases hrest with
  | other he => exact absurd ((Event.asks_frame hparse').2 ⟨rfl, hrequest, hkey⟩) he.silent
  | again hd hinterest hsingle hsame hlive =>
    obtain rfl := Message.eq_of_parse hparse' hd
    rw [← hsame] at hwaits
    exact (suppressed_handleFrame faces' (hsound.run past) ((suppression_run _ past).trans hmode')
      hcommand hwaits hd hinterest hsingle hlive).1

/-- Face 1 asks for `/a` and repeats itself twice, the second time after its first lifetime has
ended. In between face 4 asks too and everything is swept. -/
theorem repetitions_suppressed_small :
    let f := Small.forwarder {}
    let asked := Small.octets (.interest Small.name)
    let sent := f.handleFrame Small.faces ⟨1⟩ asked ⟨0, 0⟩
    let past := [Small.frame 4 { Draft.interest Small.name with nonce := some 7 } 1000,
      .sweep 2000, Small.frame 1 (.interest Small.name) 3000]
    let before := sent.1.run past
    let after := before.handleFrame Small.faces ⟨1⟩ asked ⟨6500, 0⟩
    (∃ a ∈ sent.2, a.carries .interest) ∧ after.2 = [] ∧
      ∃ m, Message.parse asked = .ok m ∧
        before.Suppressed Small.faces ⟨1⟩ m (after.1.pending, after.2) := by
  intro f asked sent past before after
  have hparse : ∃ m, Message.parse asked = .ok m ∧ m.kind = .interest ∧
      m.requestKeys = [.exact Small.name none] ∧ m.lifetime = some 4000 ∧ m.hopLimit = 32 :=
    ⟨_, by cbv, by cbv, by cbv, by cbv, by cbv⟩
  obtain ⟨m, hm, hkind, hkeys, hlifetime, hlimit⟩ := hparse
  have hlasts : ∀ f : Forwarder, f.lifetimeOf m = 4000 := by
    intro f
    simp [lifetimeOf, PendingRequest.ofMessage, hlifetime]
  have hhop : HopLimit.ofMessage (Small.faces.isLocal ⟨1⟩) m = .remaining 31 := by
    rw [show Small.faces.isLocal ⟨1⟩ = false from rfl]
    simp [HopLimit.ofMessage, hlimit]
  have hsent : ∃ a ∈ sent.2, a.carries .interest := by decide +kernel
  have hrenewal : ∀ (events : List Event) (d : Instant),
      (sent.1.run events).renewal Small.faces ⟨1⟩ m 3000 d = 7000 := by
    intro events d
    have haccepts : (sent.1.run events).accepts m :=
      congrFun (accepts_run f (.frame Small.faces ⟨1⟩ asked ⟨0, 0⟩ :: events)) m
    rw [renewal, if_pos ⟨haccepts, by simp [hhop]⟩, hlasts]
  have hrun : Repeating ⟨1⟩ (.exact Small.name none) m.fingerprint sent.1 (0 + f.lifetimeOf m)
      (past ++ [Small.frame 1 (.interest Small.name) 6500]) := by
    rw [hlasts]
    refine .other ⟨by decide +kernel, by simp [Small.frame], fun _ => by decide +kernel,
      by simp [Small.frame]⟩ ?_
    refine .other ⟨by decide, by simp, fun _ => by decide +kernel, ?_⟩ ?_
    · rintro now ⟨⟩
      decide
    refine .again hm hkind hkeys rfl (by decide) (.again hm hkind hkeys rfl ?_ .done)
    exact lt_of_lt_of_eq (by decide : 6500 < 7000) (hrenewal (past.take 2) _).symm
  refine ⟨hsent, by decide +kernel, m, hm, ?_⟩
  exact repetitions_suppressed (Small.reachable rfl) rfl hm hkind hkeys hsent hrun hm
    (by rw [hkind]; rfl) (by simp [hkeys])

end Forwarder
end NamedData
