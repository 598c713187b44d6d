import Mathlib.Algebra.GroupWithZero.Nat
import Mathlib.Data.List.Perm.Subperm
import NamedData.Proofs.Forwarding.Invariant

/-!
# How many Interest Returns are sent

A face is sent Interest Returns of the forwarder's own at once, when an Interest of its cannot be
served, or later, when its records run out. An Interest leaves a record under each of its keys,
and all of them hold a return if it came with its last hop. So every Interest pays for one
return, but one that comes with its last hop pays for one under each key. The records that hold
a return are what has been paid for and not been sent.
-/

namespace NamedData

def WaitRecord.owes (r : WaitRecord) (g : FaceId) : Bool := r.face = g && r.pendingReturn.isSome

def PendingEntry.owes (e : PendingEntry) (g : FaceId) : Bool := e.waiting.any (·.owes g)

def PendingTable.owing (t : PendingTable) (g : FaceId) : Nat := t.entries.countP (·.owes g)

namespace PendingEntry

variable {e : PendingEntry} {g : FaceId}

theorem owes_iff (h : (e.waiting.map (·.face)).Nodup) :
    e.owes g ↔ ∃ r, e.record? g = some r ∧ r.pendingReturn.isSome := by
  simp only [owes, List.any_eq_true, WaitRecord.owes, Bool.and_eq_true, decide_eq_true_eq,
    record?_eq_some_iff h, and_assoc]

theorem countP_owes_le (h : (e.waiting.map (·.face)).Nodup) :
    e.waiting.countP (·.owes g) ≤ if e.owes g then 1 else 0 := by
  have hface : e.waiting.countP (·.owes g) ≤ (e.waiting.map (·.face)).count g := by
    rw [List.count_eq_countP, List.countP_map]
    refine List.countP_mono_left fun r _ hr => ?_
    simpa using (Bool.and_eq_true_iff.1 hr).1
  by_cases howes : e.owes g
  · rw [if_pos howes]
    exact Nat.le_trans hface (List.nodup_iff_count_le_one.1 h g)
  · rw [if_neg howes, Nat.le_zero, List.countP_eq_zero]
    exact fun r hr hheld => howes (List.any_eq_true.2 ⟨r, hr, hheld⟩)

end PendingEntry

namespace PendingTable

variable {t u : PendingTable} {g : FaceId} {now : Instant}

theorem Sound.owes_iff (ht : t.Sound) {e : PendingEntry} (he : e ∈ t.entries) :
    e.owes g ↔ ∃ r, t.record? e.key g = some r ∧ r.pendingReturn.isSome := by
  rw [record?_of_find? ((find?_eq_some_iff ht.keys_nodup).2 ⟨he, rfl⟩)]
  exact PendingEntry.owes_iff (ht.entries e he).faces_nodup

/-- Where all returns that are held now were held before or stand under some keys, there are no
more of them than before and one under each of the keys. -/
theorem owing_le_add (ht : t.Sound) (hu : u.Sound) (keys : List PendingKey)
    (h : ∀ k r, u.record? k g = some r → r.pendingReturn.isSome →
      t.record? k g = some r ∨ k ∈ keys) : u.owing g ≤ t.owing g + keys.length := by
  -- an entry has its own key, so the keys under which a return is held are counted instead
  have hnodup : ((u.entries.filter (·.owes g)).map (·.key)).Nodup :=
    hu.keys_nodup.sublist (List.filter_sublist.map _)
  have hsubset : (u.entries.filter (·.owes g)).map (·.key) ⊆
      (t.entries.filter (·.owes g)).map (·.key) ++ keys := by
    intro k hk
    obtain ⟨e, he, rfl⟩ := List.mem_map.1 hk
    obtain ⟨hmem, howes⟩ := List.mem_filter.1 he
    obtain ⟨r, hr, hreturn⟩ := (hu.owes_iff hmem).1 howes
    rcases h e.key r hr hreturn with hbefore | hkey
    · obtain ⟨d, hd, hkey, -⟩ := ht.record?_eq_some_iff.1 hbefore
      have howed := (ht.owes_iff hd).2 ⟨r, hkey ▸ hbefore, hreturn⟩
      exact List.mem_append_left _ (List.mem_map.2 ⟨d, List.mem_filter.2 ⟨hd, howed⟩, hkey⟩)
    · exact List.mem_append_right _ hkey
  simpa [owing, List.countP_eq_length_filter] using (hnodup.subperm hsubset).length_le

theorem countP_dropped_add_kept {window : Nat} {e : PendingEntry} (h : e.Sound window)
    (g : FaceId) (now : Instant) (cleanInterval : Nat) :
    (dropped e now).countP (·.owes g) + (kept now cleanInterval e).toList.countP (·.owes g) ≤
      if e.owes g then 1 else 0 := by
  have hstays : (kept now cleanInterval e).toList.countP (·.owes g) ≤
      (swept e now cleanInterval).waiting.countP (·.owes g) := by
    unfold kept
    split
    · exact Nat.zero_le _
    · rw [Option.toList_some, List.countP_singleton]
      split
      · rename_i howes
        exact List.countP_pos_iff.2 (List.any_eq_true.1 howes)
      · exact Nat.zero_le _
  calc
    _ ≤ (dropped e now).countP (·.owes g) +
        (swept e now cleanInterval).waiting.countP (·.owes g) := Nat.add_le_add_left hstays _
    _ = e.waiting.countP (·.owes g) := by
      rw [dropped_eq, waiting_swept, ← List.countP_eq_countP_filter_add]
    _ ≤ _ := PendingEntry.countP_owes_le h.faces_nodup

theorem countP_dropped_add_owing (ht : t.Sound) (hrun : t.sweeps now) :
    (t.entries.flatMap (dropped · now)).countP (·.owes g) + (t.sweep now).1.owing g ≤
      t.owing g := by
  -- a sweep looks at each entry alone, so the bound is one on lists of entries
  have hentries := ht.entries
  rw [owing, entries_sweep hrun, owing]
  generalize t.entries = entries at hentries
  induction entries with
  | nil => simp
  | cons e es ih =>
    have hrest := ih fun d hd => hentries d (List.mem_cons_of_mem _ hd)
    have hfirst := countP_dropped_add_kept (hentries e List.mem_cons_self) g now
      t.settings.cleanInterval
    have hkept : ((e :: es).filterMap (kept now t.settings.cleanInterval)).countP (·.owes g) =
        (kept now t.settings.cleanInterval e).toList.countP (·.owes g) +
          (es.filterMap (kept now t.settings.cleanInterval)).countP (·.owes g) := by
      cases h : kept now t.settings.cleanInterval e with
      | none => simp [h]
      | some d => simp [h, List.countP_cons, Nat.add_comm]
    rw [List.flatMap_cons, List.countP_append, hkept, List.countP_cons]
    omega

end PendingTable

namespace Forwarder

open PendingTable

namespace Event

/-- Whether an action of an event sends a face an Interest Return, other than one that the event
brought. -/
def givesBack (e : Event) (g : FaceId) : Action → Bool
  | .send out _ =>
    g ∈ out.faces && out.payload.kind? = some .interestReturn && e.octets? ≠ some out.payload
  | .command .. | .closeFace _ => false

/-- How many returns a face may be sent for what an event brings. -/
def pays (g : FaceId) : Event → Nat
  | .frame faces face bytes _ =>
    match Message.parse bytes with
    | .ok m =>
      if face = g ∧ m.kind = .interest then
        if HopLimit.ofMessage (faces.isLocal face) m = .exhausted then max 1 m.requestKeys.length
        else 1
      else 0
    | .error _ => 0
  | .sweep _ | .faceClosed _ | .addRoute .. | .removeRoute .. => 0

def interests (e : Event) (g : FaceId) : Bool :=
  e.packet?.any fun (face, m) => face = g && m.kind = .interest

/-- Whether an event brings an Interest of a face for a run of chunks. -/
def selects (e : Event) (g : FaceId) : Bool :=
  e.packet?.any fun (face, m) => face = g && m.kind = .interest && m.interestType = .selective

end Event

def returns (f : Forwarder) (g : FaceId) : List Event → Nat
  | [] => 0
  | e :: events => (f.step e).2.countP (e.givesBack g) + (f.step e).1.returns g events

variable {f : Forwarder} {e : Event} {g face : FaceId} {m : Message} {payload : Octets}
variable {faces : FaceView} {bytes : Octets} {clock : Clock}

namespace Event

theorem pays_frame (h : Message.parse bytes = .ok m) :
    (frame faces face bytes clock).pays g =
      if face = g ∧ m.kind = .interest then
        if HopLimit.ofMessage (faces.isLocal face) m = .exhausted then max 1 m.requestKeys.length
        else 1
      else 0 := by
  simp only [pays, h]

theorem givesBack_sendTo {priority : Priority} :
    e.givesBack g (sendTo face payload priority) ↔
      g = face ∧ payload.kind? = some .interestReturn ∧ e.octets? ≠ some payload := by
  simp [givesBack, sendTo, and_assoc]

theorem countP_returnsOf_le {code : ReturnCode} (h : Message.parse bytes = .ok m) :
    (f.returnsOf face m code).countP ((frame faces face bytes clock).givesBack g) ≤
      (frame faces face bytes clock).pays g := by
  rw [pays_frame h, returnsOf]
  by_cases hmade : f.interestReturn ∧ m.kind = .interest
  · rw [if_pos hmade, List.countP_singleton]
    split
    · rename_i hgives
      rw [if_pos ⟨(givesBack_sendTo.1 hgives).1.symm, hmade.2⟩]
      split
      · exact Nat.le_max_left ..
      · exact Nat.le_refl _
    · exact Nat.zero_le _
  · rw [if_neg hmade]
    exact Nat.zero_le _

theorem countP_fanOut_eq_zero {targets : List FaceId} {priority : Priority}
    (h : Message.parse bytes = .ok m) :
    (fanOut m targets priority).countP ((frame faces face bytes clock).givesBack g) = 0 := by
  rw [List.countP_eq_zero]
  intro a ha
  obtain ⟨target, -, rfl⟩ := List.mem_map.1 ha
  rw [givesBack_sendTo, Message.raw_of_parse h]
  exact fun hgives => hgives.2.2 rfl

end Event

theorem owing_entered {hop : HopLimit} {st : Entered} (hf : f.pending.Sound)
    (hreq : f.Requests bytes m) (hhop : HopLimit.ofMessage (faces.isLocal face) m = hop)
    (h : Enters f.suppression (f.entrant face m hop clock.now) f.pending
      (f.entrant face m hop clock.now).request.keys st) :
    st.table.owing g ≤ f.pending.owing g + (Event.frame faces face bytes clock).pays g := by
  have hsound := h.sound hf
  -- only a record of an Interest that came with its last hop is written with a return in it
  by_cases hpaid : (face = g ∧ m.kind = .interest) ∧ hop = .exhausted
  · obtain ⟨hinterest, rfl⟩ := hpaid
    rw [Event.pays_frame hreq.parse, if_pos hinterest, if_pos hhop]
    refine Nat.le_trans (owing_le_add hf hsound m.requestKeys fun k r hr _ => ?_)
      (Nat.add_le_add_left (Nat.le_max_right ..) _)
    rw [record?_entered h] at hr
    split at hr
    · rename_i hk
      exact .inr hk.1
    · exact .inl hr
  · refine Nat.le_trans (owing_le_add hf hsound [] fun k r hr hreturn => ?_)
      (Nat.le_add_right ..)
    rw [record?_entered h] at hr
    split at hr
    · rename_i hk
      rw [← Option.some.inj hr] at hreturn
      obtain ⟨payload, hheld⟩ := Option.isSome_iff_exists.1 hreturn
      have hdeferred : (f.entrant face m hop clock.now).deferred = some payload := hheld
      simp only [entrant, Option.ite_none_right_eq_some] at hdeferred
      exact absurd ⟨⟨hk.2.symm, hdeferred.1.2.2⟩, hdeferred.1.1⟩ hpaid
    · exact .inl hr

theorem owing_mono {t : PendingTable} (hf : f.pending.Sound) (ht : t.Sound)
    (h : ∀ k r, t.record? k g = some r → f.pending.record? k g = some r) :
    t.owing g ≤ f.pending.owing g :=
  owing_le_add hf ht [] fun k r hr _ => .inl (h k r hr)

theorem owing_withdrawn {hop : HopLimit} {now : Instant} {front : List (PendingKey × PendingKind)}
    {st : Entered} (hf : f.pending.Sound)
    (h : Enters f.suppression (f.entrant face m hop now) f.pending front st) :
    (st.table.releaseAll face st.keys).owing g ≤ f.pending.owing g :=
  owing_mono hf ((h.sound hf).releaseAll _ _) fun _ _ => record?_of_withdrawn h

/-- The returns that a packet makes, now or later, have been owed before or are paid for. -/
theorem returns_handled (hf : f.Sound) {f' : Forwarder} {actions : List Action}
    (h : Handled f faces face bytes clock f' actions) :
    actions.countP ((Event.frame faces face bytes clock).givesBack g) + f'.pending.owing g ≤
      f.pending.owing g + (Event.frame faces face bytes clock).pays g := by
  -- each exit makes a return at once and leaves no record with one, or the other way round
  have hgiven : ∀ {d t code}, Message.parse bytes = .ok d →
      PendingTable.owing t g ≤ f.pending.owing g →
      (f.returnsOf face d code).countP ((Event.frame faces face bytes clock).givesBack g) +
        t.owing g ≤ f.pending.owing g + (Event.frame faces face bytes clock).pays g := by
    intro d t code hd ht
    have hle : (f.returnsOf face d code).countP
        ((Event.frame faces face bytes clock).givesBack g) ≤
          (Event.frame faces face bytes clock).pays g := Event.countP_returnsOf_le hd
    omega
  have hreply : ∀ {d targets priority}, Message.parse bytes = .ok d →
      (fanOut d targets priority).countP ((Event.frame faces face bytes clock).givesBack g) +
        (f.pending.deliver d clock.now).1.owing g ≤
          f.pending.owing g + (Event.frame faces face bytes clock).pays g := by
    intro d targets priority hd
    rw [Event.countP_fanOut_eq_zero hd, Nat.zero_add]
    refine Nat.le_trans ?_ (Nat.le_add_right ..)
    exact owing_mono hf.pending (hf.pending.deliver _ _) fun _ _ => record?_of_deliver
  cases h with
  | malformed =>
    rw [List.countP_nil, Nat.zero_add]
    exact Nat.le_add_right ..
  | refused _ hparse => exact hgiven hparse (Nat.le_refl _)
  | @command m order =>
    have hnone : (if faces.isLocal face then [Action.command order face m] else []).countP
        ((Event.frame faces face bytes clock).givesBack g) = 0 := by
      split <;> rfl
    rw [hnone, Nat.zero_add]
    exact Nat.le_add_right ..
  | exceeded _ hreq => exact hgiven hreq.parse (Nat.le_refl _)
  | full _ hreq _ _ henter =>
    obtain ⟨front, key, rest, -, hfront, -⟩ := enters_of_enter_error henter
    exact hgiven hreq.parse (owing_withdrawn hf.pending hfront)
  | joined _ hreq hhop _ henter =>
    rw [List.countP_nil, Nat.zero_add]
    exact owing_entered hf.pending hreq hhop (enters_of_enter henter)
  | @cached m hop st object _ hreq _ _ henter _ hobject =>
    rw [List.countP_singleton, if_neg, Nat.zero_add]
    · exact Nat.le_trans (owing_withdrawn hf.pending (enters_of_enter henter)) (Nat.le_add_right ..)
    · intro hgives
      obtain ⟨-, hparse, hkind, -⟩ := stored?_eq_some hf.received hobject
      have hreturn := (Event.givesBack_sendTo.1 hgives).2.1
      rw [Message.kind?_of_parse hparse, hkind] at hreturn
      cases hreturn
  | held _ hreq hhop henter =>
    rw [List.countP_nil, Nat.zero_add]
    exact owing_entered hf.pending hreq hhop (enters_of_enter henter)
  | @routed m hopLimit st name targets _ hreq hhop henter =>
    have hsound := (enters_of_enter henter).sound hf.pending
    rw [List.countP_singleton, if_neg, Nat.zero_add]
    · refine Nat.le_trans ?_ (owing_entered hf.pending hreq hhop (enters_of_enter henter))
      refine owing_le_add hsound (hsound.foldl_addAllOnward _ _) [] fun k r hr _ => .inl ?_
      rwa [record?_foldl_addAllOnward] at hr
    · intro hgives
      simp only [Event.givesBack, Message.kind?_withHopLimit hopLimit hreq.parse,
        Bool.and_eq_true, decide_eq_true_eq, Option.some.injEq] at hgives
      have hrequest := hreq.request
      rw [hgives.1.2] at hrequest
      cases hrequest
  | unrouted _ hreq _ henter =>
    exact hgiven hreq.parse (owing_withdrawn hf.pending (enters_of_enter henter))
  | dropped _ hparse => exact @hreply _ [] .low hparse
  | delivered _ hparse => exact hreply hparse
  | returned _ hparse => exact hreply hparse

theorem returns_swept (hf : f.Sound) (now : Instant) :
    (f.sweep now).2.countP ((Event.sweep now).givesBack g) + (f.sweep now).1.pending.owing g ≤
      f.pending.owing g := by
  rw [actions_sweep, pending_sweep]
  cases hrun : f.pending.sweeps now with
  | false =>
    rw [sweep_of_not_sweeps hrun]
    simp
  | true =>
    refine Nat.le_trans (Nat.add_le_add_right ?_ _) (countP_dropped_add_owing hf.pending hrun)
    rw [returns_sweep hrun, PendingTable.returnsOf, List.countP_map, List.countP_filterMap]
    refine List.countP_mono_left fun r _ hr => ?_
    cases hheld : r.pendingReturn with
    | none => simp [hheld] at hr
    | some payload =>
      have hgives : (Event.sweep now).givesBack g (sendTo r.face payload .low) := by
        simpa [hheld] using hr
      simp [WaitRecord.owes, hheld, (Event.givesBack_sendTo.1 hgives).1]

/-- The returns that an event makes, now or later, have been owed before or are paid for. -/
theorem returns_step (hf : f.Sound) (e : Event) :
    (f.step e).2.countP (e.givesBack g) + (f.step e).1.pending.owing g ≤
      f.pending.owing g + e.pays g := by
  cases e with
  | frame faces face bytes clock => exact returns_handled hf (handled_handleFrame ..)
  | sweep now => exact returns_swept hf now
  | faceClosed face =>
    rw [step, List.countP_nil, Nat.zero_add]
    exact owing_mono hf.pending (hf.pending.forget face) fun _ _ => record?_of_forget
  | addRoute name face flags cost =>
    obtain ⟨routes, metrics, hstep⟩ := f.step_addRoute name face flags cost
    rw [hstep, List.countP_nil, Nat.zero_add]
    exact Nat.le_add_right ..
  | removeRoute faces name face =>
    obtain ⟨routes, metrics, actions, hstep, hclose⟩ := f.step_removeRoute faces name face
    have hnone : actions.countP ((Event.removeRoute faces name face).givesBack g) = 0 :=
      List.countP_eq_zero.2 fun a ha => by simp [hclose a ha, Event.givesBack]
    rw [hstep, hnone, Nat.zero_add]
    exact Nat.le_add_right ..

theorem returns_add_owing_le (hf : f.Sound) (events : List Event) :
    f.returns g events + (f.run events).pending.owing g ≤
      f.pending.owing g + (events.map (·.pays g)).sum := by
  induction events generalizing f with
  | nil => simp [returns]
  | cons e events ih =>
    have hstep := returns_step (g := g) hf e
    have hrest := ih (hf.step e)
    rw [returns, run_cons, List.map_cons, List.sum_cons]
    omega

theorem Event.pays_le (h : ¬e.selects g) : e.pays g ≤ if e.interests g then 1 else 0 := by
  cases e with
  | sweep | faceClosed | addRoute | removeRoute => exact Nat.zero_le _
  | frame faces face bytes clock =>
    cases hparse : Message.parse bytes with
    | error _ => simp [pays, hparse]
    | ok m =>
      by_cases hinterest : face = g ∧ m.kind = .interest
      · have hsingle : m.interestType ≠ .selective := by
          simpa [selects, packet?_frame hparse, hinterest] using h
        have hkeys : m.requestKeys.length = 1 := by
          unfold Message.requestKeys PendingRequest.keys PendingRequest.ofMessage
          split
          · rfl
          · contradiction
          · rfl
        simp [pays_frame hparse, hkeys, interests, packet?_frame hparse, hinterest]
      · rw [pays_frame hparse, if_neg hinterest]
        exact Nat.zero_le _

/-- In every run, a face is sent no more Interest Returns of the forwarder's own than it has paid
for. If it has asked for no runs of chunks, these are no more than the Interests that it has
sent. -/
theorem returns_paid_for {f : Forwarder} (hf : f.Built) (g : FaceId) (events : List Event) :
    f.returns g events ≤ (events.map (·.pays g)).sum ∧
      ((∀ e ∈ events, ¬e.selects g) → f.returns g events ≤ events.countP (·.interests g)) := by
  have hzero : f.pending.owing g = 0 := by
    obtain ⟨⟨s, hs⟩, -⟩ := hf.tables
    rw [hs]
    rfl
  have hpaid : f.returns g events ≤ (events.map (·.pays g)).sum := by
    have hle := returns_add_owing_le (g := g) hf.sound events
    omega
  refine ⟨hpaid, fun h => Nat.le_trans hpaid ?_⟩
  clear hpaid
  induction events with
  | nil => exact Nat.le_refl _
  | cons e events ih =>
    have hfirst := Event.pays_le (h e List.mem_cons_self)
    have hrest := ih fun d hd => h d (List.mem_cons_of_mem _ hd)
    rw [List.map_cons, List.sum_cons, List.countP_cons]
    omega

/-- Face 1 asks for `/a` with its last hop, and for `/b` in vain. The one Interest is returned when
its time is up, the other at once. -/
theorem returns_paid_for_small :
    let f := fresh {} .bestRoute
    let events := [Small.route, Small.frame 1 { Draft.interest Small.name with hopLimit := 1 } 0,
      Small.frame 1 (.interest ⟨[[98]]⟩) 100, .sweep 5000]
    f.returns ⟨1⟩ events = 2 ∧ 2 ≤ (events.map (·.pays ⟨1⟩)).sum ∧
      2 ≤ events.countP (·.interests ⟨1⟩) := by
  intro f events
  have hreturns : f.returns ⟨1⟩ events = 2 := by decide +kernel
  have hsingle : ∀ e ∈ events, ¬e.selects ⟨1⟩ := by decide +kernel
  obtain ⟨hpaid, hcount⟩ := returns_paid_for (Small.built (s := {}) rfl) ⟨1⟩ events
  exact ⟨hreturns, hreturns ▸ hpaid, hreturns ▸ hcount hsingle⟩

/-- An Interest for two chunks that comes with its last hop is returned twice. -/
theorem returned_twice :
    let f := fresh {} .bestRoute
    let draft := { Draft.interest Small.name with hopLimit := 1, span := .run ⟨0, 2⟩ }
    let events := [Small.frame 1 draft 0, .sweep 5000]
    f.Built ∧ events.countP (·.interests ⟨1⟩) = 1 ∧ f.returns ⟨1⟩ events = 2 := by
  intro f draft events
  exact ⟨Small.built rfl, by decide +kernel, by decide +kernel⟩

end Forwarder
end NamedData
