import NamedData.Proofs.Forwarding.Administration
import NamedData.Proofs.Forwarding.Refusal
import NamedData.Proofs.Forwarding.Sending
import NamedData.Proofs.Pending.Expiry

/-!
# The meters of a run

Each counter of a forwarder counts, modulo 2^64, something that can be seen from outside: the
packets that come in, what is asked for because of them, or the records that sweeps drop. Every
exit of a packet counts it once by its kind and counts what is sent there, so the counts go along
step by step. The gauges show the sizes of the tables after every event.
-/

namespace NamedData

/-! ## What is counted -/

def Action.sentKind? : Action → Option PacketKind
  | .send frame _ => (Message.parse frame.payload).toOption.map (·.kind)
  | .command .. | .closeFace _ => none

/-- Whether an action sends something as an Interest. -/
def Action.isForward : Action → Bool
  | .send frame _ => frame.frameClass = .interest
  | .command .. | .closeFace _ => false

/-- Whether an action sends a content object or a trace reply. -/
def Action.isReply (a : Action) : Bool :=
  a.sentKind? = some .contentObject || a.sentKind? = some .traceReply

def Action.isReturn (a : Action) : Bool := a.sentKind? = some .interestReturn

/-- Numbers of packets, of what is asked for and of records, modulo 2^64. -/
@[ext]
structure Tally where
  handled : UInt64 := 0
  forwarded : UInt64 := 0
  answered : UInt64 := 0
  returned : UInt64 := 0
  commands : UInt64 := 0
  expired : UInt64 := 0
deriving DecidableEq

namespace Tally

instance : Add Tally where
  add s t :=
    { handled := s.handled + t.handled
      forwarded := s.forwarded + t.forwarded
      answered := s.answered + t.answered
      returned := s.returned + t.returned
      commands := s.commands + t.commands
      expired := s.expired + t.expired }

def shown (m : Metrics) : Tally where
  handled := m.malformed.value + m.validationFailures.value + m.interestsReceived.value +
    m.objectsReceived.value + m.returnsReceived.value
  forwarded := m.interestsForwarded.value
  answered := m.objectsForwarded.value + m.cacheHits.value
  returned := m.returnsSent.value
  commands := m.commands.value
  expired := m.pendingExpirations.value

/-- The numbers for some packets, some actions and some records. -/
def count (packets : Nat) (acts : List Action) (records : Nat) : Tally where
  handled := .ofNat packets
  forwarded := .ofNat (acts.countP (·.isForward))
  answered := .ofNat (acts.countP (·.isReply))
  returned := .ofNat (acts.countP (·.isReturn))
  commands := .ofNat (acts.countP (·.isCommand))
  expired := .ofNat records

@[simp] theorem handled_add (s t : Tally) : (s + t).handled = s.handled + t.handled := rfl

@[simp] theorem forwarded_add (s t : Tally) : (s + t).forwarded = s.forwarded + t.forwarded := rfl

@[simp] theorem answered_add (s t : Tally) : (s + t).answered = s.answered + t.answered := rfl

@[simp] theorem returned_add (s t : Tally) : (s + t).returned = s.returned + t.returned := rfl

@[simp] theorem commands_add (s t : Tally) : (s + t).commands = s.commands + t.commands := rfl

@[simp] theorem expired_add (s t : Tally) : (s + t).expired = s.expired + t.expired := rfl

theorem add_assoc (s t u : Tally) : s + t + u = s + (t + u) := by
  apply Tally.ext <;> simp [UInt64.add_assoc]

@[simp] theorem count_nothing : count 0 [] 0 = {} := rfl

@[simp] theorem add_nothing (s : Tally) : s + {} = s := by
  apply Tally.ext <;> simp

@[simp] theorem nothing_add (s : Tally) : {} + s = s := by
  apply Tally.ext <;> simp

theorem count_add (packets records packets' records' : Nat) (acts acts' : List Action) :
    count packets acts records + count packets' acts' records' =
      count (packets + packets') (acts ++ acts') (records + records') := by
  apply Tally.ext <;> simp [count, List.countP_append, UInt64.ofNat_add]

end Tally

namespace PendingTable

variable {t : PendingTable} {now : Instant}

/-- How many records of a table are not there any more in another. -/
def lost (before after : PendingTable) : Nat :=
  before.records.countP fun r => (after.record? r.1 r.2.face).isNone

theorem Sound.isNone_record?_sweep (h : t.Sound) (hrun : t.sweeps now) {e : PendingEntry}
    (he : e ∈ t.entries) {r : WaitRecord} (hr : r ∈ e.waiting) :
    ((t.sweep now).1.record? e.key r.face).isNone = drops now e r := by
  have hbefore : t.record? e.key r.face = some r :=
    h.record?_eq_some_iff.2 ⟨e, he, rfl, hr, rfl⟩
  have hstays := h.mem_records_sweep hrun he hr
  rw [(h.sweep now).mem_records] at hstays
  cases hafter : (t.sweep now).1.record? e.key r.face with
  | none =>
    rw [hafter] at hstays
    simpa using hstays
  | some r' =>
    obtain rfl : r = r' := Option.some.inj (hbefore.symm.trans (h.record?_of_sweep hafter))
    rw [hstays.1 hafter]
    rfl

theorem Sound.lost_sweep (h : t.Sound) (now : Instant) :
    t.lost (t.sweep now).1 = (t.sweep now).2.expired := by
  cases hrun : t.sweeps now with
  | false =>
    rw [sweep_of_not_sweeps hrun, lost, List.countP_eq_zero]
    rintro ⟨key, r⟩ hr
    simp [h.mem_records.1 hr]
  | true =>
    rw [expired_sweep hrun, lost, records, List.countP_flatMap, List.length_flatMap]
    congr 1
    apply List.map_congr_left
    intro e he
    rw [Function.comp_apply, List.countP_map, dropped_eq, ← List.countP_eq_length_filter]
    apply List.countP_congr
    intro r hr
    exact Bool.eq_iff_iff.1 (h.isNone_record?_sweep hrun he hr)

end PendingTable

def Action.Sends (kind : PacketKind) (frameClass : FrameClass) (a : Action) : Prop :=
  ∃ frame priority m, a = .send frame priority ∧ frame.frameClass = frameClass ∧
    Message.parse frame.payload = .ok m ∧ m.kind = kind

namespace Forwarder

variable {f f' : Forwarder} {faces : FaceView} {face : FaceId} {bytes : Octets} {clock : Clock}
variable {m : Message} {now : Instant} {acts : List Action} {result : Forwarder × List Action}

/-- Actions that all send packets of one kind are counted under one heading, and those that go out
as Interests under another. -/
theorem count_sends {kind : PacketKind} {frameClass : FrameClass}
    (h : ∀ a ∈ acts, a.Sends kind frameClass) :
    Tally.count 0 acts 0 =
      { forwarded := if frameClass = .interest then .ofNat acts.length else 0
        answered :=
          if kind = .contentObject ∨ kind = .traceReply then .ofNat acts.length else 0
        returned := if kind = .interestReturn then .ofNat acts.length else 0 } := by
  have hall : ∀ (p : Action → Bool) (q : Prop) [Decidable q], (∀ a ∈ acts, p a ↔ q) →
      UInt64.ofNat (acts.countP p) = if q then .ofNat acts.length else 0 := by
    intro p q _ hp
    split
    · rename_i hq
      rw [List.countP_eq_length.2 fun a ha => (hp a ha).2 hq]
    · rename_i hq
      rw [List.countP_eq_zero.2 fun a ha => mt (hp a ha).1 hq]
      rfl
  have hkind : ∀ a ∈ acts, a.sentKind? = some kind := by
    intro a ha
    obtain ⟨frame, priority, m, rfl, -, hparse, rfl⟩ := h a ha
    simp [Action.sentKind?, hparse, Except.toOption]
  apply Tally.ext
  · rfl
  · apply hall
    intro a ha
    obtain ⟨frame, priority, m, rfl, rfl, -, -⟩ := h a ha
    simp [Action.isForward]
  · apply hall
    intro a ha
    simp [Action.isReply, hkind a ha]
  · apply hall
    intro a ha
    simp [Action.isReturn, hkind a ha]
  · refine congrArg UInt64.ofNat (List.countP_eq_zero.2 ?_)
    intro a ha
    obtain ⟨frame, priority, m, rfl, -⟩ := h a ha
    exact Bool.false_ne_true
  · rfl

/-! ## Packets -/

/-- What becomes of some packets is counted, and the gauges are left alone. -/
structure Meters (f : Forwarder) (packets : Nat) (result : Forwarder × List Action) : Prop where
  tally : .shown result.1.metrics = .shown f.metrics + Tally.count packets result.2 0
  pendingSize : result.1.metrics.pendingSize = f.metrics.pendingSize
  routesSize : result.1.metrics.routesSize = f.metrics.routesSize

theorem Meters.nothing (f : Forwarder) : f.Meters 0 (f, []) := ⟨by simp, rfl, rfl⟩

theorem Meters.after {packets : Nat} (h : f'.Meters 0 result) (hf : f.Meters packets (f', [])) :
    f.Meters packets result where
  tally := by rw [h.tally, hf.tally, Tally.add_assoc, Tally.count_add]; rfl
  pendingSize := h.pendingSize.trans hf.pendingSize
  routesSize := h.routesSize.trans hf.routesSize

theorem sends_sendTo {payload : Octets} {priority : Priority} (h : Message.parse payload = .ok m) :
    (sendTo face payload priority).Sends m.kind .object :=
  ⟨_, _, m, rfl, rfl, h, rfl⟩

theorem meters_giveBack (f : Forwarder) (hparse : Message.parse bytes = .ok m) (code : ReturnCode) :
    f.Meters 0 (f.giveBack face m code) := by
  unfold giveBack
  split
  · rename_i hreturns
    have hsends : ∀ a ∈ [sendTo face (m.toInterestReturn code) .low],
        a.Sends .interestReturn .object := by
      intro a ha
      rw [List.mem_singleton.1 ha]
      exact sends_sendTo (Message.parse_toInterestReturn hparse hreturns.2 code)
    refine ⟨?_, rfl, rfl⟩
    rw [count_sends hsends]
    apply Tally.ext <;> simp [Tally.shown, meter, Counter.increment, Counter.add]
  · exact .nothing f

theorem meters_route (f : Forwarder) (r : Transit) (hparse : Message.parse bytes = .ok r.message)
    (hkind : r.message.kind.isRequest) : f.Meters 0 (f.route faces r) := by
  unfold route
  split
  · rename_i hopLimit hhop
    dsimp only
    split
    · rename_i name target more hfound
      have hsends : ∀ a ∈ [Action.send
          ⟨r.message.withHopLimit hopLimit, target :: more, .interest⟩
          (if r.message.kind = .traceRequest then .low else .normal)],
          a.Sends r.message.kind .interest := by
        intro a ha
        rw [List.mem_singleton.1 ha]
        exact ⟨_, _, _, rfl, rfl, Message.parse_withHopLimit hparse hopLimit, rfl⟩
      refine ⟨?_, rfl, rfl⟩
      rw [count_sends hsends]
      rcases PacketKind.isRequest_iff.1 hkind with hinterest | htrace
      · apply Tally.ext <;> simp [Tally.shown, Counter.increment, Counter.add, hinterest]
      · apply Tally.ext <;> simp [Tally.shown, Counter.increment, Counter.add, htrace]
    · exact (meters_giveBack _ hparse _).after ⟨by simp [Tally.shown, meter, withdraw], rfl, rfl⟩
  · exact ⟨by simp [Tally.shown, meter], rfl, rfl⟩

theorem meters_answer (hf : ∀ c ∈ f.cache.objects, c.Received) (r : Transit)
    (hparse : Message.parse bytes = .ok r.message) (hkind : r.message.kind.isRequest)
    (hrequest : r.request.restrictions = r.message.restrictions) :
    f.Meters 0 (f.answer faces r now) := by
  unfold answer
  split
  · rename_i hcacheable
    dsimp only
    split
    · rename_i object hfound
      have hstored : f.stored? r.message now = some object := by
        rw [stored?, if_pos hcacheable, ← hrequest]
        exact hfound
      obtain ⟨-, hobject, hcontent, -⟩ := stored?_eq_some hf hstored
      have hsends : ∀ a ∈ [sendTo r.face object.raw .high], a.Sends .contentObject .object := by
        intro a ha
        rw [List.mem_singleton.1 ha, ← hcontent]
        exact sends_sendTo hobject
      refine ⟨?_, rfl, rfl⟩
      rw [count_sends hsends]
      apply Tally.ext <;>
        simp [Tally.shown, meter, withdraw, Counter.increment, Counter.add, UInt64.add_assoc]
    · exact (meters_route _ r hparse hkind).after ⟨by simp [Tally.shown, meter], rfl, rfl⟩
  · exact meters_route f r hparse hkind

theorem meters_register (hf : ∀ c ∈ f.cache.objects, c.Received)
    (hparse : Message.parse bytes = .ok m) (hkind : m.kind.isRequest) (hop : HopLimit) :
    f.Meters 0 (f.register faces face m hop now) := by
  have hsettled : ∀ st, f.Meters 0 (f.settle st, []) := by
    intro st
    exact ⟨by simp [Tally.shown, settle], rfl, rfl⟩
  unfold register
  dsimp only
  split
  · rename_i st henter
    refine (meters_giveBack _ hparse _).after ⟨?_, rfl, rfl⟩
    simp [Tally.shown, settle, meter, withdraw]
  · rename_i st henter
    split
    · refine (meters_answer ?_ _ hparse hkind rfl).after (hsettled st)
      exact hf
    · exact hsettled st

theorem meters_limitHops (hf : ∀ c ∈ f.cache.objects, c.Received)
    (hparse : Message.parse bytes = .ok m) (hkind : m.kind.isRequest) :
    f.Meters 0 (f.limitHops faces face m now) := by
  unfold limitHops
  split
  · exact (meters_giveBack _ hparse _).after ⟨by simp [Tally.shown, meter], rfl, rfl⟩
  · exact meters_register hf hparse hkind _

theorem meters_onRequest (hf : ∀ c ∈ f.cache.objects, c.Received)
    (hparse : Message.parse bytes = .ok m) (hkind : m.kind.isRequest) :
    f.Meters 1 (f.onRequest faces face m now) := by
  have hreceived : f.Meters 1
      (f.meter fun s => { s with interestsReceived := s.interestsReceived.increment }, []) := by
    refine ⟨?_, rfl, rfl⟩
    apply Tally.ext <;> simp [Tally.shown, Tally.count, meter, Counter.increment, Counter.add]
    ac_rfl
  unfold onRequest
  dsimp only
  split
  · rename_i c hcommand
    split
    · refine Meters.after ?_ hreceived
      refine ⟨?_, rfl, rfl⟩
      apply Tally.ext <;>
        simp [Tally.shown, Tally.count, meter, Counter.increment, Counter.add, Action.isForward,
          Action.isReply, Action.isReturn, Action.sentKind?, Action.isCommand]
    · exact hreceived
  · refine Meters.after ?_ hreceived
    exact meters_limitHops hf hparse hkind

theorem sends_fanOut (hparse : Message.parse bytes = .ok m) (targets : List FaceId)
    (priority : Priority) : ∀ a ∈ fanOut m targets priority, a.Sends m.kind .object := by
  intro a ha
  obtain ⟨target, -, rfl⟩ := List.mem_map.1 ha
  rw [← Message.raw_of_parse hparse] at hparse
  exact sends_sendTo hparse

theorem length_fanOut (m : Message) (targets : List FaceId) (priority : Priority) :
    (fanOut m targets priority).length = targets.length :=
  List.length_map ..

theorem meters_onReply (hparse : Message.parse bytes = .ok m)
    (hkind : m.kind = .contentObject ∨ m.kind = .traceReply) :
    f.Meters 1 (f.onReply faces face m clock) := by
  let delivered := f.pending.deliver m clock.now
  let received : Forwarder := ({ f with pending := delivered.1 } : Forwarder).meter fun s =>
    { s with
      objectsReceived := s.objectsReceived.increment
      restrictionRejects := s.restrictionRejects.add delivered.2.rejected
      objectsUnsolicited := s.objectsUnsolicited.add (if delivered.2.matched = 0 then 1 else 0) }
  have hreceived : f.Meters 1 (received, []) := by
    refine ⟨?_, rfl, rfl⟩
    apply Tally.ext <;>
      simp [received, Tally.shown, Tally.count, meter, Counter.increment, Counter.add]
    ac_rfl
  suffices hsent : received.Meters 0 (f.onReply faces face m clock) from hsent.after hreceived
  unfold onReply
  dsimp only
  split
  · exact .nothing received
  · refine ⟨?_, rfl, rfl⟩
    rw [count_sends (sends_fanOut hparse _ _), length_fanOut]
    rcases hkind with hobject | htrace
    · apply Tally.ext <;> simp [received, delivered, Tally.shown, meter, Counter.add, hobject]
      ac_rfl
    · apply Tally.ext <;> simp [received, delivered, Tally.shown, meter, Counter.add, htrace]
      ac_rfl

theorem meters_onReturn (hparse : Message.parse bytes = .ok m) (hkind : m.kind = .interestReturn) :
    f.Meters 1 (f.onReturn faces face m now) := by
  have hsends := sends_fanOut hparse (f.targets faces face m now) .low
  refine ⟨?_, rfl, rfl⟩
  have hactions : (f.onReturn faces face m now).2 =
      fanOut m (f.targets faces face m now) .low := rfl
  have hcount : Tally.count 1 (f.onReturn faces face m now).2 0 =
      Tally.count 1 [] 0 + Tally.count 0 (fanOut m (f.targets faces face m now) .low) 0 := by
    rw [Tally.count_add, hactions]
    rfl
  rw [hcount, count_sends hsends, length_fanOut]
  apply Tally.ext <;>
    simp [Tally.shown, Tally.count, onReturn, meter, Counter.increment, Counter.add, hkind, targets]
  ac_rfl

theorem meters_dispatch (hf : ∀ c ∈ f.cache.objects, c.Received)
    (hparse : Message.parse bytes = .ok m) : f.Meters 1 (f.dispatch faces face m clock) := by
  unfold dispatch
  cases hkind : m.kind with
  | interest | traceRequest => exact meters_onRequest hf hparse (by rw [hkind]; rfl)
  | contentObject => exact meters_onReply hparse (.inl hkind)
  | traceReply => exact meters_onReply hparse (.inr hkind)
  | interestReturn => exact meters_onReturn hparse hkind

/-! ## Events -/

theorem pending_giveBack (f : Forwarder) (code : ReturnCode) :
    (f.giveBack face m code).1.pending = f.pending := by
  unfold giveBack
  split <;> rfl

/-- A packet is counted once, by its kind or by what is wrong with it. The pending table can only
change when it is let in, and then the gauge is set again. -/
theorem handleFrame_cases (f : Forwarder) (hf : ∀ c ∈ f.cache.objects, c.Received)
    (faces : FaceView) (face : FaceId) (bytes : Octets) (clock : Clock) :
    ∃ result, f.Meters 1 result ∧ (f.handleFrame faces face bytes clock).2 = result.2 ∧
      ((f.handleFrame faces face bytes clock).1 = result.1 ∧ result.1.pending = f.pending ∨
        (f.handleFrame faces face bytes clock).1 = result.1.meter fun s =>
          { s with
            pendingSize := .set result.1.pending.size
            processed := s.processed.increment }) := by
  let weighed := f.meter fun s => { s with bytesReceived := s.bytesReceived.add bytes.length }
  have hweighed : ∀ {result}, weighed.Meters 1 result → f.Meters 1 result := by
    intro result h
    exact ⟨h.tally, h.pendingSize, h.routesSize⟩
  unfold handleFrame
  dsimp only
  cases hparse : Message.parse bytes with
  | error e =>
    refine ⟨_, hweighed ⟨?_, rfl, rfl⟩, rfl, .inl ⟨rfl, rfl⟩⟩
    apply Tally.ext <;>
      simp [weighed, Tally.shown, Tally.count, meter, Counter.increment, Counter.add]
    ac_rfl
  | ok m =>
    dsimp only
    split
    · exact ⟨_, hweighed (meters_dispatch hf hparse), rfl, .inr rfl⟩
    · have hrefused : weighed.Meters 1
          (weighed.meter fun s => { s with validationFailures := s.validationFailures.increment },
            []) := by
        refine ⟨?_, rfl, rfl⟩
        apply Tally.ext <;>
          simp [weighed, Tally.shown, Tally.count, meter, Counter.increment, Counter.add]
        ac_rfl
      exact ⟨_, hweighed ((meters_giveBack _ hparse .malformedInterest).after hrefused), rfl,
        .inl ⟨rfl, pending_giveBack ..⟩⟩

def expiredBy (f : Forwarder) (e : Event) : Nat :=
  match e with
  | .sweep _ => f.pending.lost (f.step e).1.pending
  | .frame .. | .faceClosed _ | .addRoute .. | .removeRoute .. => 0

def expired (f : Forwarder) : List Event → Nat
  | [] => 0
  | e :: events => f.expiredBy e + (f.step e).1.expired events

def Event.isFrame : Event → Bool
  | .frame .. => true
  | .sweep _ | .faceClosed _ | .addRoute .. | .removeRoute .. => false

def tallyOf (f : Forwarder) (e : Event) : Tally :=
  .count (if e.isFrame then 1 else 0) (f.step e).2 (f.expiredBy e)

theorem sends_sweep (hf : f.Sound) (hholds : f.HoldsPackets) :
    ∀ a ∈ (f.sweep now).2, a.Sends .interestReturn .object := by
  intro a ha
  rw [actions_sweep] at ha
  obtain ⟨⟨target, payload⟩, hreturn, rfl⟩ := List.mem_map.1 ha
  obtain ⟨d, hd, r, hr, hface, hpayload⟩ := PendingTable.mem_returns_sweep hreturn
  have hrecord := hf.pending.record?_eq_some_iff.2 ⟨d, hd, rfl, hr, hface⟩
  obtain ⟨m, hparse⟩ := hholds _ _ r _ hrecord hpayload
  rw [← hf.returns _ _ r _ hrecord hpayload m hparse]
  exact sends_sendTo hparse

theorem shown_sweep (hf : f.Sound) (hholds : f.HoldsPackets) (now : Instant) :
    .shown (f.sweep now).1.metrics = .shown f.metrics + f.tallyOf (.sweep now) := by
  have hcount : f.tallyOf (.sweep now) =
      Tally.count 0 (f.sweep now).2 0 + Tally.count 0 [] (f.pending.sweep now).2.expired := by
    rw [Tally.count_add, List.append_nil, Nat.zero_add (PendingTable.sweep ..).2.expired,
      ← hf.pending.lost_sweep, ← pending_sweep]
    rfl
  rw [hcount, count_sends (sends_sweep hf hholds), actions_sweep, List.length_map]
  cases hrun : f.pending.sweeps now with
  | false =>
    have hsame := PendingTable.sweep_of_not_sweeps hrun
    simp [sweep, hsame]
  | true =>
    have hran := PendingTable.ran_sweep hrun
    apply Tally.ext <;> simp [sweep, hran, Tally.shown, Tally.count, meter, Counter.add]

/-- The meters count what an event does. -/
theorem shown_step (hf : f.Sound) (hholds : f.HoldsPackets) (e : Event) :
    .shown (f.step e).1.metrics = .shown f.metrics + f.tallyOf e := by
  cases e with
  | frame faces face bytes clock =>
    obtain ⟨result, hmeters, hactions, hresult⟩ :=
      f.handleFrame_cases hf.received faces face bytes clock
    have hshown : Tally.shown (f.handleFrame faces face bytes clock).1.metrics =
        .shown result.1.metrics := by
      rcases hresult with ⟨hsame, -⟩ | hset
      · rw [hsame]
      · rw [hset]
        rfl
    rw [step, hshown, hmeters.tally, ← hactions]
    rfl
  | sweep now => exact shown_sweep hf hholds now
  | faceClosed face => exact (Tally.add_nothing _).symm
  | addRoute name face flags cost =>
    simp only [tallyOf, expiredBy, step, addRoute]
    cases f.routes.add name face flags cost none <;> exact (Tally.add_nothing _).symm
  | removeRoute faces name face =>
    have hclose : ∀ (unused : Prop) [Decidable unused],
        Tally.count 0 (if unused then [.closeFace face] else []) 0 = {} := by
      intro unused _
      split <;> rfl
    have hnothing : f.tallyOf (.removeRoute faces name face) = {} := hclose _
    rw [hnothing, Tally.add_nothing]
    rfl

theorem shown_run (hf : f.Sound) (hholds : f.HoldsPackets) (events : List Event) :
    Tally.shown (f.run events).metrics = .shown f.metrics +
      .count (events.countP (·.isFrame)) (f.actions events) (f.expired events) := by
  induction events generalizing f with
  | nil => exact (Tally.add_nothing _).symm
  | cons e events ih =>
    rw [run_cons, ih (hf.step e) (hholds.step hf e), shown_step hf hholds, Tally.add_assoc, tallyOf,
      Tally.count_add, List.countP_cons, Nat.add_comm (events.countP _)]
    rfl

/-! ## Gauges -/

/-- The gauges show the sizes of the tables. -/
structure Shows (f : Forwarder) : Prop where
  pending : f.metrics.pendingSize = .set f.pending.size
  routes : f.metrics.routesSize = .set f.routes.size

theorem size_countAll (t : RouteTable) (name : Name) (targets : List FaceId)
    (frameClass : FrameClass) : (t.countAll name targets frameClass).size = t.size :=
  targets.foldlRecOn _ (motive := fun u : RouteTable => u.size = t.size) rfl
    fun _ hu _ _ => (List.length_map ..).trans hu

theorem Shows.handleFrame (h : f.Shows) (hf : ∀ c ∈ f.cache.objects, c.Received) :
    (f.handleFrame faces face bytes clock).1.Shows := by
  have hsize : (f.handleFrame faces face bytes clock).1.routes.size = f.routes.size :=
    (handled_handleFrame f faces face bytes clock).routes (P := fun t => t.size = f.routes.size)
      (fun t name targets frameClass ht => (size_countAll t name targets frameClass).trans ht) rfl
  obtain ⟨result, hmeters, -, ⟨hsame, hpending⟩ | hset⟩ :=
    f.handleFrame_cases hf faces face bytes clock
  · rw [hsame] at hsize ⊢
    refine ⟨?_, ?_⟩
    · rw [hmeters.pendingSize, hpending, h.pending]
    · rw [hmeters.routesSize, hsize, h.routes]
  · refine ⟨?_, ?_⟩
    · rw [hset]
      rfl
    · rw [hsize, hset, ← h.routes, ← hmeters.routesSize]
      rfl

theorem Shows.step (h : f.Shows) (hf : f.Sound) (e : Event) : (f.step e).1.Shows := by
  cases e with
  | frame faces face bytes clock => exact h.handleFrame hf.received
  | sweep now =>
    have hswept : f.sweep now = (f, []) ∨
        (f.sweep now).1.metrics.pendingSize = .set (f.sweep now).1.pending.size ∧
          (f.sweep now).1.metrics.routesSize = f.metrics.routesSize ∧
          (f.sweep now).1.routes = f.routes := by
      unfold sweep
      dsimp only
      split
      · exact .inr ⟨rfl, rfl, rfl⟩
      · exact .inl rfl
    rw [Forwarder.step]
    rcases hswept with hsame | ⟨hpending, hgauge, hroutes⟩
    · rwa [hsame]
    · exact ⟨hpending, by rw [hgauge, hroutes, h.routes]⟩
  | faceClosed face => exact ⟨rfl, rfl⟩
  | addRoute name face flags cost =>
    simp only [Forwarder.step, addRoute]
    cases f.routes.add name face flags cost none with
    | error e => exact h
    | ok added => exact ⟨h.pending, rfl⟩
  | removeRoute faces name face => exact ⟨h.pending, rfl⟩

theorem Shows.run (h : f.Shows) (hf : f.Sound) (events : List Event) : (f.run events).Shows := by
  induction events generalizing f with
  | nil => exact h
  | cons e events ih => exact ih (h.step hf e) (hf.step e)

theorem Built.metrics (h : f.Built) : f.metrics = {} := by
  obtain ⟨s, f₀, hs, hf⟩ := h
  unfold ofSettings at hs
  split at hs
  · cases hs
  · rw [hf, ← Except.ok.inj hs]

theorem Built.shows (h : f.Built) : f.Shows := by
  obtain ⟨⟨s, hpending⟩, -⟩ := h.tables
  obtain ⟨capacity, hroutes⟩ := h.routes
  refine ⟨?_, ?_⟩
  · rw [h.metrics, hpending]
    rfl
  · rw [h.metrics, hroutes]
    rfl

/-- The meters of a new forwarder agree, after any events, with what these have brought, what was
asked for because of them and what has expired. -/
theorem meters_agree (h : f.Built) (events : List Event) :
    let shown := (f.run events).metrics
    let asked := f.actions events
    shown.malformed.value + shown.validationFailures.value + shown.interestsReceived.value +
        shown.objectsReceived.value + shown.returnsReceived.value =
          .ofNat (events.countP (·.isFrame)) ∧
      shown.interestsForwarded.value = .ofNat (asked.countP (·.isForward)) ∧
      shown.objectsForwarded.value + shown.cacheHits.value = .ofNat (asked.countP (·.isReply)) ∧
      shown.returnsSent.value = .ofNat (asked.countP (·.isReturn)) ∧
      shown.commands.value = .ofNat (asked.countP (·.isCommand)) ∧
      shown.pendingExpirations.value = .ofNat (f.expired events) ∧
      shown.pendingSize.value = .ofNat (f.run events).pending.size ∧
      shown.routesSize.value = .ofNat (f.run events).routes.size := by
  intro shown asked
  have hholds : f.HoldsPackets := Reachable.holdsPackets ⟨f, [], h, rfl⟩
  have hcount : Tally.shown shown =
      .count (events.countP (·.isFrame)) asked (f.expired events) := by
    rw [shown_run h.sound hholds, h.metrics]
    exact Tally.nothing_add _
  have hshows := h.shows.run h.sound events
  exact ⟨congrArg Tally.handled hcount, congrArg Tally.forwarded hcount,
    congrArg Tally.answered hcount, congrArg Tally.returned hcount, congrArg Tally.commands hcount,
    congrArg Tally.expired hcount, congrArg Gauge.value hshows.pending,
    congrArg Gauge.value hshows.routes⟩

/-- Face 1 asks for `/a` and gets an object, and face 3 gets it from the cache. Face 1 asks for
`/b` with its last hop, which comes back when its time is up, and sends what is no packet. -/
theorem meters_agree_small :
    let f := fresh {} .bestRoute
    let events := [Small.route, Small.frame 1 (.interest Small.name) 0,
      Small.frame 2 (.object Small.name [1]) 100, Small.frame 3 (.interest Small.name) 200,
      Small.frame 1 { Draft.interest ⟨[[98]]⟩ with hopLimit := 1 } 200,
      .frame Small.faces ⟨1⟩ [] ⟨300, 0⟩, .sweep 5000]
    let shown := (f.run events).metrics
    f.Built ∧
      shown.malformed.value + shown.validationFailures.value + shown.interestsReceived.value +
        shown.objectsReceived.value + shown.returnsReceived.value = 5 ∧
      shown.interestsForwarded.value = 1 ∧
      shown.objectsForwarded.value + shown.cacheHits.value = 2 ∧
      shown.returnsSent.value = 1 ∧ shown.commands.value = 0 ∧
      shown.pendingExpirations.value = 1 ∧
      shown.pendingSize.value = 0 ∧ shown.routesSize.value = 1 := by
  intro f events shown
  have hbuilt : f.Built := Small.built rfl
  have hcount : Tally.count (events.countP (·.isFrame)) (f.actions events) (f.expired events) =
      { handled := 5, forwarded := 1, answered := 2, returned := 1, expired := 1 } := by
    decide +kernel
  have hsizes : (f.run events).pending.size = 0 ∧ (f.run events).routes.size = 1 := by
    decide +kernel
  obtain ⟨hhandled, hforwarded, hanswered, hreturned, hcommands, hexpired, hpending, hroutes⟩ :=
    meters_agree hbuilt events
  rw [hsizes.1] at hpending
  rw [hsizes.2] at hroutes
  exact ⟨hbuilt, hhandled.trans (congrArg Tally.handled hcount),
    hforwarded.trans (congrArg Tally.forwarded hcount),
    hanswered.trans (congrArg Tally.answered hcount),
    hreturned.trans (congrArg Tally.returned hcount),
    hcommands.trans (congrArg Tally.commands hcount),
    hexpired.trans (congrArg Tally.expired hcount), hpending, hroutes⟩

end Forwarder
end NamedData
