import NamedData.Proofs.Forwarding.Invariant

/-!
# Replies are asked for

A face is sent no more replies under a name and a chunk than it has asked for. Every
request of the face under that key pays for one reply: either the record that it
leaves does, until a reply takes the record away, or the answer of the cache does at
once. Windows serve any number of chunks, so faces that have one are left out.
-/

namespace NamedData.Forwarder

open PendingTable

namespace Event

/-- Whether a packet sent in an event is a reply under a name and chunk: an object, a trace
reply, or the Interest Return that the event brought. -/
def isReply (e : Event) (n : Name) (c : Option UInt32) (payload : Octets) : Bool :=
  match Message.parse payload with
  | .ok m =>
    m.name = n && m.chunk = c &&
      (m.kind = .contentObject || m.kind = .traceReply ||
        (m.kind = .interestReturn && e.octets? = some payload))
  | .error _ => false

def replies (e : Event) (g : FaceId) (n : Name) (c : Option UInt32) : Action → Bool
  | .send out _ => g ∈ out.faces && e.isReply n c out.payload
  | .command .. | .closeFace _ => false

end Event

def replies (f : Forwarder) (g : FaceId) (n : Name) (c : Option UInt32) : List Event → Nat
  | [] => 0
  | e :: events => (f.step e).2.countP (e.replies g n c) + (f.step e).1.replies g n c events

/-- A face has asked for a key in one of some events, and the request waits until some time. -/
def Asked (f : Forwarder) (events : List Event) (g : FaceId) (key : PendingKey)
    (deadline : Instant) : Prop :=
  ∃ faces bytes clock m, .frame faces g bytes clock ∈ events ∧ Message.parse bytes = .ok m ∧
    m.kind.isRequest ∧ key ∈ m.requestKeys ∧ deadline = clock.now + f.lifetimeOf m

/-- Whether a face waits under a key, as a number. -/
def waits (t : PendingTable) (key : PendingKey) (g : FaceId) : Nat :=
  (t.record? key g).toList.length

variable {f : Forwarder} {e : Event} {t u : PendingTable} {g face : FaceId} {n : Name}
variable {c : Option UInt32} {k : PendingKey} {m : Message} {payload : Octets}

theorem waits_le_one : waits t k g ≤ 1 := by
  unfold waits
  cases t.record? k g <;> simp

theorem waits_mono (h : ∀ r, u.record? k g = some r → t.record? k g = some r) :
    waits u k g ≤ waits t k g := by
  unfold waits
  cases hu : u.record? k g with
  | none => exact Nat.zero_le _
  | some r => exact Nat.le_of_eq (by rw [h r hu])

theorem waits_congr (h : u.record? k g = t.record? k g) : waits u k g = waits t k g := by
  rw [waits, waits, h]

namespace Event

theorem isReply_of_request (h : Message.parse payload = .ok m) (hkind : m.kind.isRequest) :
    e.isReply n c payload = false := by
  rcases PacketKind.isRequest_iff.1 hkind with hk | hk <;> simp [isReply, h, hk]

theorem isReply_of_isReturn (h : payload.IsReturn) (hnew : e.octets? ≠ some payload) :
    e.isReply n c payload = false := by
  unfold isReply
  cases hm : Message.parse payload with
  | error _ => rfl
  | ok m => simp [h m hm, hnew]

theorem key_of_isReply (h : e.isReply n c payload) (hm : Message.parse payload = .ok m) :
    m.name = n ∧ m.chunk = c := by
  rw [isReply, hm] at h
  simp only [Bool.and_eq_true, decide_eq_true_eq] at h
  exact h.1

theorem reaches_of_replies {a : Action} (h : e.replies g n c a) : a.reaches g := by
  cases a with
  | send out priority => exact (Bool.and_eq_true_iff.1 h).1
  | command order face m => cases h
  | closeFace face => cases h

theorem replies_sendTo {priority : Priority} :
    e.replies g n c (sendTo face payload priority) ↔ g = face ∧ e.isReply n c payload := by
  simp [replies, sendTo]

theorem countP_returnsOf {faces : FaceView} {bytes : Octets} {clock : Clock} {code : ReturnCode}
    (h : Message.parse bytes = .ok m) :
    (f.returnsOf face m code).countP ((frame faces face bytes clock).replies g n c) = 0 := by
  rw [List.countP_eq_zero]
  intro a ha
  unfold returnsOf at ha
  split at ha
  · rename_i hreturn
    rw [List.mem_singleton.1 ha, replies_sendTo, isReply_of_isReturn]
    · simp
    · exact fun _ => Message.kind_of_parse_toInterestReturn
    · intro hsame
      have hkind := Message.kind_of_parse_toInterestReturn (Option.some.inj hsame ▸ h)
      rw [hreturn.2] at hkind
      cases hkind
  · exact absurd ha List.not_mem_nil

theorem countP_fanOut {targets : List FaceId} {priority : Priority} (h : targets.Nodup) :
    (fanOut m targets priority).countP (e.replies g n c) =
      if g ∈ targets ∧ e.isReply n c m.raw then 1 else 0 := by
  rw [fanOut, List.countP_map]
  cases hreply : e.isReply n c m.raw with
  | false =>
    rw [if_neg (by simp), List.countP_eq_zero]
    intro target _
    rw [Function.comp_apply, replies_sendTo, hreply]
    simp
  | true =>
    have hcount : targets.countP (e.replies g n c ∘ fun target => sendTo target m.raw priority) =
        targets.count g := by
      rw [List.count_eq_countP]
      refine List.countP_congr fun target _ => ?_
      rw [Function.comp_apply, replies_sendTo, hreply, beq_iff_eq]
      simp [eq_comm]
    rw [hcount, h.count]
    simp

end Event

theorem waits_entered {m : Message} {hop : HopLimit} {now : Instant} {st : Entered}
    (h : Enters f.suppression (f.entrant face m hop now) f.pending
      (f.entrant face m hop now).request.keys st) :
    waits st.table k g ≤ waits f.pending k g + if face = g ∧ k ∈ m.requestKeys then 1 else 0 := by
  by_cases hk : face = g ∧ k ∈ m.requestKeys
  · rw [if_pos hk]
    exact Nat.le_trans waits_le_one (Nat.le_add_left ..)
  · have hother : ¬(k ∈ m.requestKeys ∧ g = face) := fun h => hk ⟨h.2.symm, h.1⟩
    rw [if_neg hk, waits_congr ((record?_entered h).trans (if_neg hother))]
    exact Nat.le_refl _

theorem waits_withdrawn {m : Message} {hop : HopLimit} {now : Instant}
    {front : List (PendingKey × PendingKind)} {st : Entered}
    (h : Enters f.suppression (f.entrant face m hop now) f.pending front st) :
    waits (st.table.releaseAll face st.keys) k g ≤ waits f.pending k g :=
  waits_mono fun _ => record?_of_withdrawn h

theorem waits_withdrawn_of_mem {m : Message} {hop : HopLimit} {now : Instant} {st : Entered}
    (h : Enters f.suppression (f.entrant face m hop now) f.pending
      (f.entrant face m hop now).request.keys st)
    (hk : k ∈ m.requestKeys) : waits (st.table.releaseAll face st.keys) k face = 0 := by
  have hnone := record?_withdrawn (k := k) (g := face) h
  rw [map_fst_keys_entrant, if_pos ⟨hk, rfl⟩] at hnone
  rw [waits, hnone]
  rfl

theorem isReply_of_stored? {now : Instant} {object : Message} (hf : f.Sound)
    (hobject : f.stored? m now = some object) (hreply : e.isReply n c object.raw) :
    .exact n c ∈ m.requestKeys := by
  obtain ⟨hcacheable, hparse, -, hname, hchunk⟩ := stored?_eq_some hf.received hobject
  obtain ⟨rfl, rfl⟩ := Event.key_of_isReply hreply hparse
  have hregular : m.interestType = .regular := by
    simp only [cacheable, Bool.and_eq_true, decide_eq_true_eq] at hcacheable
    exact hcacheable.1.2
  have hkeys : m.requestKeys = [.exact m.name m.chunk] := by
    simp [Message.requestKeys, PendingRequest.keys, PendingRequest.ofMessage, hregular]
  rw [hkeys, hname, hchunk]
  exact List.mem_singleton_self _

theorem exact_of_mem_targets {faces : FaceView} {now : Instant} (hf : f.Sound)
    (hwindow : f.pending.record? (.window m.name) g = none)
    (hg : g ∈ f.targets faces face m now) :
    ∃ e r, f.pending.find? (.exact m.name m.chunk) = some e ∧ takes m e ∧ e.record? g = some r ∧
      now < r.expiry := by
  obtain ⟨key, hkey, e, r, he, htakes, hr, htime⟩ := record?_of_mem_targets hf.pending hg
  unfold candidates at hkey
  rcases List.mem_cons.1 hkey with rfl | hmem
  · exact ⟨e, r, he, htakes, hr, htime⟩
  · split at hmem
    · obtain rfl := List.mem_singleton.1 hmem
      rw [record?_of_find? he, hr] at hwindow
      cases hwindow
    · exact absurd hmem List.not_mem_nil

theorem waits_deliver {faces : FaceView} {now : Instant} (hf : f.Sound)
    (hwindow : f.pending.record? (.window m.name) g = none)
    (hg : g ∈ f.targets faces face m now) :
    waits f.pending (.exact m.name m.chunk) g = 1 ∧
      waits (f.pending.deliver m now).1 (.exact m.name m.chunk) g = 0 := by
  obtain ⟨d, r, hd, htakes, hr, -⟩ := exact_of_mem_targets hf hwindow hg
  have hsymbolic := ne_symbolic_of_fits (hf.fits.find? hd) (key_of_find? hd)
  have hgone : (f.pending.deliver m now).1.find? (.exact m.name m.chunk) = none := by
    rw [find?_deliver, if_pos (exact_mem_candidates.2 ⟨rfl, rfl⟩), hd, Option.bind_some]
    simp [remainder, htakes, hsymbolic]
  constructor
  · rw [waits, record?_of_find? hd, hr]
    rfl
  · rw [waits, record?_eq_none hgone]
    rfl

/-- What a packet pays for: a request of the face for the key pays for one reply, now or later,
and a reply uses up what was paid. -/
theorem replies_handled (hf : f.Sound) (hwindow : f.pending.record? (.window n) g = none)
    {faces : FaceView} {bytes : Octets} {clock : Clock} {f' : Forwarder} {actions : List Action}
    (h : Handled f faces face bytes clock f' actions) :
    actions.countP ((Event.frame faces face bytes clock).replies g n c) +
        waits f'.pending (.exact n c) g ≤
      waits f.pending (.exact n c) g +
        if (Event.frame faces face bytes clock).asks g (.exact n c) then 1 else 0 := by
  have hasks : ∀ {m}, f.Requests bytes m →
      ((if (Event.frame faces face bytes clock).asks g (.exact n c) then 1 else 0) =
        if face = g ∧ .exact n c ∈ m.requestKeys then 1 else 0) := by
    intro m hreq
    simp only [Event.asks_frame hreq.parse, hreq.request, true_and]
  have hreply : ∀ {m priority}, Message.parse bytes = .ok m →
      (fanOut m (f.targets faces face m clock.now) priority).countP
          ((Event.frame faces face bytes clock).replies g n c) +
        waits (f.pending.deliver m clock.now).1 (.exact n c) g ≤
          waits f.pending (.exact n c) g := by
    intro m priority hparse
    rw [Event.countP_fanOut nodup_targets]
    split
    · rename_i hg
      rw [Message.raw_of_parse hparse] at hg
      obtain ⟨rfl, rfl⟩ := Event.key_of_isReply hg.2 hparse
      obtain ⟨hbefore, hafter⟩ := waits_deliver hf hwindow hg.1
      omega
    · rw [Nat.zero_add]
      exact waits_mono fun r hr => record?_of_deliver hr
  cases h with
  | malformed =>
    rw [List.countP_nil, Nat.zero_add]
    exact Nat.le_add_right ..
  | refused _ hparse =>
    rw [Event.countP_returnsOf hparse, Nat.zero_add]
    exact Nat.le_add_right ..
  | @command m order =>
    have hnone : (if faces.isLocal face then [Action.command order face m] else []).countP
        ((Event.frame faces face bytes clock).replies g n c) = 0 := by
      split <;> rfl
    rw [hnone, Nat.zero_add]
    exact Nat.le_add_right ..
  | exceeded _ hreq =>
    rw [Event.countP_returnsOf hreq.parse, Nat.zero_add]
    exact Nat.le_add_right ..
  | full _ hreq _ _ henter =>
    obtain ⟨front, key, rest, -, hfront, -⟩ := enters_of_enter_error henter
    rw [Event.countP_returnsOf hreq.parse, Nat.zero_add]
    exact Nat.le_trans (waits_withdrawn hfront) (Nat.le_add_right ..)
  | joined _ hreq _ _ henter =>
    rw [List.countP_nil, Nat.zero_add, hasks hreq]
    exact waits_entered (enters_of_enter henter)
  | @cached m hop st object _ hreq _ _ henter _ hobject =>
    rw [hasks hreq, List.countP_singleton]
    split
    · rename_i hsent
      obtain ⟨rfl, hanswer⟩ := Event.replies_sendTo.1 hsent
      have hkey := isReply_of_stored? hf hobject hanswer
      rw [waits_withdrawn_of_mem (enters_of_enter henter) hkey, if_pos ⟨rfl, hkey⟩]
      exact Nat.le_add_left ..
    · rw [Nat.zero_add]
      exact Nat.le_trans (waits_withdrawn (enters_of_enter henter)) (Nat.le_add_right ..)
  | held _ hreq _ henter =>
    rw [List.countP_nil, Nat.zero_add, hasks hreq]
    exact waits_entered (enters_of_enter henter)
  | @routed m hopLimit st name targets _ hreq _ henter =>
    have hrequest : (Event.frame faces face bytes clock).isReply n c
        (m.withHopLimit hopLimit) = false := by
      cases hcopy : Message.parse (m.withHopLimit hopLimit) with
      | error _ => simp [Event.isReply, hcopy]
      | ok m' =>
        refine Event.isReply_of_request hcopy ?_
        rw [Message.kind_of_parse_withHopLimit hreq.parse hcopy]
        exact hreq.request
    rw [List.countP_singleton, if_neg (by simp [Event.replies, hrequest]), Nat.zero_add, hasks hreq,
      waits_congr (record?_foldl_addAllOnward _ _)]
    exact waits_entered (enters_of_enter henter)
  | unrouted _ hreq _ henter =>
    rw [Event.countP_returnsOf hreq.parse, Nat.zero_add]
    exact Nat.le_trans (waits_withdrawn (enters_of_enter henter)) (Nat.le_add_right ..)
  | dropped =>
    rw [List.countP_nil, Nat.zero_add]
    exact Nat.le_trans (waits_mono fun r hr => record?_of_deliver hr) (Nat.le_add_right ..)
  | delivered _ hparse => exact Nat.le_trans (hreply hparse) (Nat.le_add_right ..)
  | returned _ hparse => exact Nat.le_trans (hreply hparse) (Nat.le_add_right ..)

theorem countP_sweep (hf : f.Sound) (now : Instant) :
    (f.sweep now).2.countP ((Event.sweep now).replies g n c) = 0 := by
  rw [List.countP_eq_zero]
  intro a ha
  rw [actions_sweep] at ha
  obtain ⟨⟨target, payload⟩, hreturn, rfl⟩ := List.mem_map.1 ha
  obtain ⟨d, hd, r, hr, hface, hpayload⟩ := mem_returns_sweep hreturn
  have hrecord := hf.pending.record?_eq_some_iff.2 ⟨d, hd, rfl, hr, hface⟩
  have hnew : (Event.sweep now).octets? ≠ some payload := by simp [Event.octets?]
  rw [Event.replies_sendTo,
    Event.isReply_of_isReturn (hf.returns _ _ r _ hrecord hpayload) hnew]
  simp

theorem replies_step (hf : f.Sound) (hwindow : f.pending.record? (.window n) g = none) (e : Event) :
    (f.step e).2.countP (e.replies g n c) + waits (f.step e).1.pending (.exact n c) g ≤
      waits f.pending (.exact n c) g + if e.asks g (.exact n c) then 1 else 0 := by
  cases e with
  | frame faces face bytes clock => exact replies_handled hf hwindow (handled_handleFrame ..)
  | sweep now =>
    have hsent : (f.step (.sweep now)).2.countP ((Event.sweep now).replies g n c) = 0 :=
      countP_sweep hf now
    rw [hsent, Nat.zero_add]
    refine Nat.le_trans (waits_mono fun r hr => ?_) (Nat.le_add_right ..)
    change (f.sweep now).1.pending.record? _ g = some r at hr
    rw [pending_sweep] at hr
    exact hf.pending.record?_of_sweep hr
  | faceClosed face =>
    refine Nat.le_trans ?_ (Nat.le_add_right ..)
    rw [step, List.countP_nil, Nat.zero_add]
    exact waits_mono fun r hr => record?_of_forget hr
  | addRoute name face flags cost =>
    obtain ⟨routes, metrics, hstep⟩ := f.step_addRoute name face flags cost
    rw [hstep, List.countP_nil, Nat.zero_add]
    exact Nat.le_add_right ..
  | removeRoute faces name face =>
    obtain ⟨routes, metrics, actions, hstep, hclose⟩ := f.step_removeRoute faces name face
    have hnone : actions.countP ((Event.removeRoute faces name face).replies g n c) = 0 :=
      List.countP_eq_zero.2 fun a ha => by simp [hclose a ha, Event.replies]
    rw [hstep, hnone, Nat.zero_add]
    exact Nat.le_add_right ..

theorem window_step (hf : f.Sound) (hwindow : f.pending.record? (.window n) g = none)
    (h : ¬e.asks g (.window n)) : (f.step e).1.pending.record? (.window n) g = none := by
  by_contra hsome
  obtain ⟨r, hr⟩ := Option.ne_none_iff_exists'.1 hsome
  rcases (moves_step f e).record?_origin hf.pending hr with
    hold | ⟨faces, bytes, clock, m, hop, rfl, hreq, hkey, -⟩
  · rw [hwindow] at hold
    cases hold
  · exact h ((Event.asks_frame hreq.parse).2 ⟨rfl, hreq.request, hkey⟩)

/-- The replies of a run, with the one that is still waited for, have been asked for. -/
theorem replies_add_waits_le (hf : f.Sound) (hwindow : f.pending.record? (.window n) g = none)
    {events : List Event} (h : ∀ e ∈ events, ¬e.asks g (.window n)) :
    f.replies g n c events + waits (f.run events).pending (.exact n c) g ≤
      waits f.pending (.exact n c) g + events.countP (·.asks g (.exact n c)) := by
  induction events generalizing f with
  | nil => simp [replies]
  | cons e events ih =>
    have hstep := replies_step (c := c) hf hwindow e
    have hrest := ih (hf.step e) (window_step hf hwindow (h e List.mem_cons_self))
      fun d hd => h d (List.mem_cons_of_mem _ hd)
    rw [replies, run_cons, List.countP_cons]
    omega

theorem record?_origin_run (hf : f.Sound) {events : List Event} {r : WaitRecord}
    (hr : (f.run events).pending.record? k g = some r) :
    f.pending.record? k g = some r ∨ f.Asked events g k r.expiry := by
  induction events generalizing f with
  | nil => exact .inl hr
  | cons e events ih =>
    rcases ih (hf.step e) hr with
      hstep | ⟨faces, bytes, clock, m, hmem, hparse, hkind, hkey, hexpiry⟩
    · rcases (moves_step f e).record?_origin hf.pending hstep with
        hold | ⟨faces, bytes, clock, m, hop, rfl, hreq, hkey, rfl⟩
      · exact .inl hold
      · exact .inr ⟨faces, bytes, clock, m, List.mem_cons_self, hreq.parse, hreq.request, hkey, rfl⟩
    · rw [lifetimeOf, (moves_step f e).settings_eq] at hexpiry
      exact .inr ⟨faces, bytes, clock, m, List.mem_cons_of_mem _ hmem, hparse, hkind, hkey, hexpiry⟩

theorem window_run (hf : f.Sound) (hwindow : f.pending.record? (.window n) g = none)
    {events : List Event} (h : ∀ e ∈ events, ¬e.asks g (.window n)) :
    (f.run events).pending.record? (.window n) g = none := by
  induction events generalizing f with
  | nil => exact hwindow
  | cons e events ih =>
    exact ih (hf.step e) (window_step hf hwindow (h e List.mem_cons_self))
      fun d hd => h d (List.mem_cons_of_mem _ hd)

/-- In every run, a face that opens no window on a name is sent no more replies under the name
and a chunk than it has sent requests for that key. Each reply that answers a record goes out
before the lifetime of some such request, which came before it, has passed. -/
theorem replies_asked_for {f : Forwarder} (hf : f.Built) {g : FaceId} {n : Name}
    (c : Option UInt32) {events : List Event} (h : ∀ e ∈ events, ¬e.asks g (.window n)) :
    f.replies g n c events ≤ events.countP (·.asks g (.exact n c)) ∧
      ∀ past faces face bytes clock rest m a,
        events = past ++ .frame faces face bytes clock :: rest →
        Message.parse bytes = .ok m → m.kind.isRequest = false →
        a ∈ ((f.run past).handleFrame faces face bytes clock).2 →
        (Event.frame faces face bytes clock).replies g n c a →
        ∃ deadline, f.Asked past g (.exact n c) deadline ∧ clock.now < deadline := by
  constructor
  · have hle := replies_add_waits_le (c := c) hf.sound hf.record?_eq_none h
    have hzero : waits f.pending (.exact n c) g = 0 := by
      rw [waits, hf.record?_eq_none]
      rfl
    rw [hzero, Nat.zero_add] at hle
    exact Nat.le_trans (Nat.le_add_right ..) hle
  · rintro past faces face bytes clock rest m a rfl hparse hkind ha hreply
    have hsound := hf.sound.run past
    have hwindow := window_run hf.sound hf.record?_eq_none fun e he =>
      h e (List.mem_append_left _ he)
    obtain ⟨htarget, priority, rfl⟩ := (handled_handleFrame (f.run past) faces face bytes clock)
      |>.target_of_reaches hparse hkind ha (Event.reaches_of_replies hreply)
    have hsent := (Event.replies_sendTo.1 hreply).2
    rw [Message.raw_of_parse hparse] at hsent
    obtain ⟨rfl, rfl⟩ := Event.key_of_isReply hsent hparse
    obtain ⟨e, r, he, -, hr, htime⟩ := exact_of_mem_targets hsound hwindow htarget
    rcases record?_origin_run hf.sound ((record?_of_find? he).trans hr) with hold | hasked
    · rw [hf.record?_eq_none] at hold
      cases hold
    · exact ⟨r.expiry, hasked, htime⟩

/-- Face 1 asks for `/a` and is sent one object, long before its request runs out. -/
theorem replies_asked_for_small :
    let f := fresh {} .bestRoute
    let past := [Small.route, Small.frame 1 (.interest Small.name) 0]
    let reply := Small.frame 2 (.object Small.name [1]) 100
    f.replies ⟨1⟩ Small.name none (past ++ [reply]) = 1 ∧
      1 ≤ (past ++ [reply]).countP (·.asks ⟨1⟩ (.exact Small.name none)) ∧
      ∃ deadline, f.Asked past ⟨1⟩ (.exact Small.name none) deadline ∧ 100 < deadline := by
  intro f past reply
  have hcount : f.replies ⟨1⟩ Small.name none (past ++ [reply]) = 1 := by decide +kernel
  have hwindow : ∀ e ∈ past ++ [reply], ¬e.asks ⟨1⟩ (.window Small.name) := by decide +kernel
  have hobject : ∃ o, Message.parse (Small.octets (.object Small.name [1])) = .ok o ∧
      o.kind.isRequest = false := ⟨_, by cbv, by cbv⟩
  obtain ⟨o, ho, hkind⟩ := hobject
  have hsent : ((f.run past).step reply).2 =
      [sendTo ⟨1⟩ (Small.octets (.object Small.name [1])) .high] := by decide +kernel
  have hreply : reply.replies ⟨1⟩ Small.name none
      (sendTo ⟨1⟩ (Small.octets (.object Small.name [1])) .high) := by decide +kernel
  obtain ⟨hle, hasked⟩ := replies_asked_for (Small.built (s := {}) rfl) none hwindow
  refine ⟨hcount, hcount ▸ hle, ?_⟩
  refine hasked past Small.faces ⟨2⟩ _ ⟨100, 0⟩ [] o _ rfl ho hkind ?_ hreply
  exact hsent ▸ List.mem_singleton_self _

/-- A window that a trace request has opened brings chunks that nobody asked for one by one, and
the face that they go to has sent no Interest at all. -/
theorem chunk_without_interest :
    let f := fresh {} .bestRoute
    let window : Draft := { kind := .traceRequest, name := Small.name, span := .window }
    let object : Draft := { Draft.object Small.name [1] with chunk := some 0 }
    let events := [Small.route, Small.frame 1 window 0, Small.frame 2 object 100]
    f.Built ∧
      (∀ e ∈ events, e.packet?.all fun (face, m) => face ≠ ⟨1⟩ || m.kind ≠ .interest) ∧
      events.countP (·.asks ⟨1⟩ (.exact Small.name (some 0))) = 0 ∧
      f.replies ⟨1⟩ Small.name (some 0) events = 1 := by
  intro f window object events
  exact ⟨Small.built rfl, by decide +kernel, by decide +kernel, by decide +kernel⟩

end NamedData.Forwarder
