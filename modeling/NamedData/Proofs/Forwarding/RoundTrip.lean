import NamedData.Proofs.Forwarding.Invariant

/-!
# From a request to its reply

A request that was sent on has a record under each of its keys. The record lasts
through whatever happens in time, and a reply then goes to the face that asked.
-/

namespace NamedData

def Action.carries (k : FrameClass) : Action → Bool
  | .send frame _ => frame.frameClass = k
  | .command .. | .closeFace _ => false

namespace Forwarder

open PendingTable

/-- What may happen before a deadline while a face waits for a name and a chunk: anything but
that it asks again or goes away, or that a reply under the name and chunk comes in. -/
structure Event.Spares (e : Event) (g : FaceId) (n : Name) (c : Option UInt32)
    (deadline : Instant) : Prop where
  early : ∀ now, e.time? = some now → now < deadline
  silent : ¬e.asks g (.exact n c)
  unanswered : ¬e.brings n c
  stays : e ≠ .faceClosed g

variable {f : Forwarder} {g face : FaceId} {n : Name} {c : Option UInt32} {r : WaitRecord}

/-- A live record lasts through a run that spares it. -/
theorem record?_run (hf : f.Sound) (hr : f.pending.record? (.exact n c) g = some r)
    {events : List Event} (h : ∀ e ∈ events, e.Spares g n c r.expiry) :
    (f.run events).pending.record? (.exact n c) g = some r := by
  induction events generalizing f with
  | nil => exact hr
  | cons e events ih =>
    have he := h e List.mem_cons_self
    refine ih (hf.step e) ?_ fun d hd => h d (List.mem_cons_of_mem _ hd)
    exact (moves_step f e).record?_of_live hf.pending hr he.early he.silent he.unanswered he.stays

theorem carries_returnsOf {m : Message} {code : ReturnCode} {a : Action}
    (ha : a ∈ f.returnsOf g m code) : a.carries .interest = false := by
  unfold returnsOf at ha
  split at ha
  · rw [List.mem_singleton.1 ha]
    rfl
  · exact absurd ha List.not_mem_nil

/-- What goes on as a request is a copy of a request that has been entered, on its way to next hops
of its name. -/
theorem Handled.routed_of_mem {faces : FaceView} {bytes : Octets} {clock : Clock} {f' : Forwarder}
    {actions : List Action} {a : Action} (h : Handled f faces g bytes clock f' actions)
    (ha : a ∈ actions) (hcarries : a.carries .interest) :
    ∃ m hopLimit st name targets, f.Requests bytes m ∧
      HopLimit.ofMessage (faces.isLocal g) m = .remaining hopLimit ∧
      f.entering g m (.remaining hopLimit) clock.now = .ok st ∧
      f'.pending = st.keys.foldl (fun t key => t.update key (·.addAllOnward targets)) st.table ∧
      f.hops? faces g m = some (name, targets) ∧ targets ≠ [] ∧
      a = .send ⟨m.withHopLimit hopLimit, targets, .interest⟩
        (if m.kind = .traceRequest then .low else .normal) := by
  have hobject : ∀ (face : FaceId) (payload : Octets) (p : Priority),
      a ≠ sendTo face payload p := by
    rintro face payload p rfl
    cases hcarries
  have hreturns : ∀ (d : Message) (code : ReturnCode), a ∉ f.returnsOf g d code := by
    intro d code hmem
    rw [carries_returnsOf hmem] at hcarries
    cases hcarries
  have hfan : ∀ (d : Message) (targets : List FaceId) (p : Priority), a ∉ fanOut d targets p := by
    intro d targets p hmem
    obtain ⟨target, -, rfl⟩ := List.mem_map.1 hmem
    exact hobject _ _ _ rfl
  cases h with
  | malformed | joined | held | dropped => exact absurd ha List.not_mem_nil
  | command =>
    split at ha
    · rw [List.mem_singleton.1 ha] at hcarries
      cases hcarries
    · exact absurd ha List.not_mem_nil
  | refused | exceeded | full | unrouted => exact absurd ha (hreturns _ _)
  | cached => exact absurd (List.mem_singleton.1 ha) (hobject _ _ _)
  | delivered | returned => exact absurd ha (hfan _ _ _)
  | routed _ hreq hhop henter _ _ hhops htargets =>
    exact ⟨_, _, _, _, _, hreq, hhop, henter, rfl, hhops, htargets, List.mem_singleton.1 ha⟩

theorem record?_of_sent {faces : FaceView} {bytes : Octets} {clock : Clock} {f' : Forwarder}
    {actions : List Action} {m : Message} {key : PendingKey}
    (h : Handled f faces g bytes clock f' actions) (hsent : ∃ a ∈ actions, a.carries .interest)
    (hparse : Message.parse bytes = .ok m) (hkey : key ∈ m.requestKeys) :
    f.Requests bytes m ∧
      ∃ hop, f'.pending.record? key g = some (f.entrant g m hop clock.now).record := by
  obtain ⟨a, ha, hcarries⟩ := hsent
  obtain ⟨d, hopLimit, st, name, targets, hreq, -, henter, hpending, -⟩ :=
    h.routed_of_mem ha hcarries
  obtain rfl := Except.ok.inj (hparse.symm.trans hreq.parse)
  have hrecord := record?_entered (k := key) (g := g) (enters_of_enter henter)
  rw [if_pos ⟨hkey, rfl⟩] at hrecord
  rw [hpending]
  exact ⟨hreq, _, (record?_foldl_addAllOnward _ _).trans hrecord⟩

theorem record?_of_routed {faces : FaceView} {bytes : Octets} {clock : Clock} {f' : Forwarder}
    {actions : List Action} {a : Action} {m : Message} {key : PendingKey}
    (h : Handled f faces g bytes clock f' actions) (ha : a ∈ actions)
    (hcarries : a.carries .interest) (hparse : Message.parse bytes = .ok m)
    (hkey : key ∈ m.requestKeys) :
    ∃ r, f'.pending.record? key g = some r ∧ r.expiry = clock.now + f.lifetimeOf m := by
  obtain ⟨-, hop, hrecord⟩ := record?_of_sent h ⟨a, ha, hcarries⟩ hparse hkey
  exact ⟨_, hrecord, rfl⟩

theorem filter_fanOut {targets : List FaceId} (h : targets.Nodup) (hg : g ∈ targets) (m : Message)
    (priority : Priority) :
    (fanOut m targets priority).filter (·.reaches g) = [sendTo g m.raw priority] := by
  have hreaches : ((·.reaches g) ∘ fun target => sendTo target m.raw priority) =
      fun target => decide (target = g) := by
    funext target
    simp [Action.reaches, sendTo, eq_comm]
  rw [fanOut, List.filter_map, hreaches, List.filter_eq, h.count, if_pos hg]
  rfl

theorem filter_fanOut_of_not_mem {targets : List FaceId} (hg : g ∉ targets) (m : Message)
    (priority : Priority) : (fanOut m targets priority).filter (·.reaches g) = [] := by
  rw [List.filter_eq_nil_iff]
  intro a ha hreaches
  obtain ⟨target, htarget, rfl⟩ := List.mem_map.1 ha
  obtain rfl : g = target := by simpa [Action.reaches, sendTo] using hreaches
  exact hg htarget

/-- An object goes once to a face that waits for its name and chunk, if the entry takes it. -/
theorem filter_handleFrame_of_record? (hf : f.Sound) {o : Message}
    (hr : f.pending.record? (.exact o.name o.chunk) g = some r) {e : PendingEntry}
    (he : f.pending.find? (.exact o.name o.chunk) = some e) (haccept : e.restrictions.accept o)
    {faces : FaceView} {bytes : Octets} {clock : Clock} (hparse : Message.parse bytes = .ok o)
    (hopen : f.accepts o) (hkind : o.kind = .contentObject) (htime : clock.now < r.expiry)
    (hface : g ≠ face) (hactive : faces.active g) :
    (f.handleFrame faces face bytes clock).2.filter (·.reaches g) = [sendTo g bytes .high] := by
  have htakes := takes_of_accept (hf.fits.find? he) (key_of_find? he) hkind haccept
  have hlive : g ∈ e.liveFaces clock.now := by
    rw [record?_of_find? he] at hr
    exact (PendingEntry.mem_liveFaces_iff (hf.pending.entry he).faces_nodup).2 ⟨r, hr, htime⟩
  have htarget : g ∈ f.targets faces face o clock.now := by
    refine List.mem_filter.2 ⟨?_, by simp [Strategy.usableFace, hface, hactive]⟩
    exact mem_faces_deliver.2 ⟨_, exact_mem_candidates.2 ⟨rfl, rfl⟩, e, he, htakes, hlive⟩
  rcases (handled_handleFrame f faces face bytes clock).reply hparse
    (by simp [hkind, PacketKind.isRequest]) with ⟨hrefused, -, -⟩ | ⟨-, -, hactions⟩
  · rw [hopen] at hrefused
    cases hrefused
  rw [hactions, filter_fanOut nodup_targets htarget, if_pos hkind, Message.raw_of_parse hparse]

/-- A request that was sent on is answered. Whatever happens before the end of its lifetime, as
long as it spares the requester under a key of the request, the entry under the key is still
there, and an object under its name and chunk that the entry accepts goes to the requester,
once and unchanged. -/
theorem request_answered {f : Forwarder} (hf : f.Reachable) (hopen : ∀ m, f.accepts m)
    {faces : FaceView} {g : FaceId} {bytes : Octets} {clock : Clock} {m : Message}
    (hparse : Message.parse bytes = .ok m) {n : Name} {c : Option UInt32}
    (hkey : .exact n c ∈ m.requestKeys)
    (hsent : ∃ a ∈ (f.handleFrame faces g bytes clock).2, a.carries .interest)
    {events : List Event}
    (hevents : ∀ e ∈ events, e.Spares g n c (clock.now + f.lifetimeOf m)) :
    ∃ e, ((f.handleFrame faces g bytes clock).1.run events).pending.find? (.exact n c) = some e ∧
      ∀ (faces' : FaceView) (face : FaceId) (bytes' : Octets) (clock' : Clock) (o : Message),
        Message.parse bytes' = .ok o → o.kind = .contentObject → o.name = n → o.chunk = c →
        e.restrictions.accept o → clock'.now < clock.now + f.lifetimeOf m →
        face ≠ g → faces'.active g →
        (((f.handleFrame faces g bytes clock).1.run events).handleFrame faces' face bytes'
          clock').2.filter (·.reaches g) = [sendTo g bytes' .high] := by
  obtain ⟨a, ha, hcarries⟩ := hsent
  obtain ⟨r, hr, hexpiry⟩ :=
    record?_of_routed (handled_handleFrame f faces g bytes clock) ha hcarries hparse hkey
  have hsound : (f.handleFrame faces g bytes clock).1.Sound :=
    hf.sound.step (.frame faces g bytes clock)
  have hlast := record?_run hsound hr (by rwa [hexpiry])
  obtain ⟨e, he, -⟩ := record?_eq_some_iff.1 hlast
  refine ⟨e, he, ?_⟩
  rintro faces' face bytes' clock' o hobject hkind rfl rfl haccept htime hface hactive
  have haccepts : ((f.handleFrame faces g bytes clock).1.run events).accepts o := by
    rw [accepts_run]
    have hsame := accepts_run f [.frame faces g bytes clock]
    exact (congrFun hsame o).trans (hopen o)
  exact filter_handleFrame_of_record? (hsound.run events) hlast he haccept hobject haccepts hkind
    (hexpiry ▸ htime) hface.symm hactive

/-- Face 1 asks for `/a`, face 4 asks too and everything is swept, and the object from face 2
goes to face 1. -/
theorem request_answered_small :
    let f := Small.forwarder {}
    let waiting := (f.run [Small.frame 1 (.interest Small.name) 0,
      Small.frame 4 (.interest Small.name) 1000, .sweep 2000])
    let object := Small.octets (.object Small.name [1])
    (waiting.handleFrame Small.faces ⟨2⟩ object ⟨3000, 0⟩).2.filter (·.reaches ⟨1⟩) =
      [sendTo ⟨1⟩ object .high] := by
  intro f waiting object
  have hparse : ∃ m, Message.parse (Small.octets (.interest Small.name)) = .ok m ∧
      m.requestKeys = [.exact Small.name none] ∧ f.lifetimeOf m = 4000 :=
    ⟨_, by cbv, by cbv, by cbv⟩
  obtain ⟨m, hm, hkeys, hlifetime⟩ := hparse
  have hobject : ∃ o, Message.parse object = .ok o ∧ o.kind = .contentObject ∧
      o.name = Small.name ∧ o.chunk = none := ⟨_, by cbv, by cbv, by cbv, by cbv⟩
  obtain ⟨o, ho, hkind, hname, hchunk⟩ := hobject
  have hspares : ∀ e ∈ [Small.frame 4 (.interest Small.name) 1000, .sweep 2000],
      e.Spares ⟨1⟩ Small.name none (0 + f.lifetimeOf m) := by
    rw [hlifetime]
    intro e he
    rcases List.mem_pair.1 he with rfl | rfl
    · exact ⟨by rintro now ⟨⟩; decide, by decide +kernel, by decide +kernel, by simp [Small.frame]⟩
    · exact ⟨by rintro now ⟨⟩; decide, by decide, by decide, by simp⟩
  have hsent : ∃ a ∈ (f.handleFrame Small.faces ⟨1⟩ (Small.octets (.interest Small.name)) ⟨0, 0⟩).2,
      a.carries .interest := by decide +kernel
  obtain ⟨e, he, hreply⟩ := request_answered (Small.reachable rfl) (fun _ => rfl) hm
    (n := Small.name) (c := none) (by simp [hkeys]) hsent hspares
  have hrestrictions : (waiting.pending.find? (.exact Small.name none)).map (·.restrictions) =
      some {} := by decide +kernel
  have hfind : waiting.pending.find? (.exact Small.name none) = some e := he
  have hempty : e.restrictions = {} := by simpa [hfind] using hrestrictions
  have haccept : e.restrictions.accept o := by
    rw [hempty]
    rfl
  exact hreply Small.faces ⟨2⟩ object ⟨3000, 0⟩ o ho hkind hname hchunk haccept
    (by rw [hlifetime]; decide) (by decide) rfl

end Forwarder
end NamedData
