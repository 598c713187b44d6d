import NamedData.Proofs.Forwarding.RoundTrip
import NamedData.Proofs.Packet.Copies
import NamedData.Proofs.Route.Selection

/-!
# Where packets go

A request goes on as a copy with what is left of its hop limit, to next hops of the longest
registered name that begins its own. What answers it goes to faces that wait. Neither goes to a
face that is not in use, back to where it came from, or to a face twice.
-/

namespace NamedData.Forwarder

variable {f : Forwarder} {faces : FaceView} {face g : FaceId} {bytes : Octets} {clock : Clock}
variable {m : Message} {frame : OutFrame} {priority : Priority}

/-- A frame carries a request on. -/
structure Onward (f : Forwarder) (faces : FaceView) (face : FaceId) (bytes : Octets) (m : Message)
    (frame : OutFrame) : Prop where
  request : m.kind.isRequest
  /-- The octets are those of the request but for the hop limit, and they are read so. -/
  copy : ∃ hopLimit, frame.payload = bytes.set FixedHeader.hopLimitOffset hopLimit ∧
    Message.parse frame.payload = .ok { m with hopLimit, raw := frame.payload } ∧
    if faces.isLocal face then hopLimit = m.hopLimit
    else 2 ≤ m.hopLimit ∧ hopLimit = m.hopLimit - 1
  faces_ne_nil : frame.faces ≠ []
  faces_nodup : frame.faces.Nodup
  not_back : face ∉ frame.faces
  hops : ∃ e ∈ f.routes.entries, e.name.isPrefixOf m.name ∧
    (∀ d ∈ f.routes.entries, d.name.isPrefixOf m.name → d.name.size ≤ e.name.size) ∧
    ∀ g ∈ frame.faces, faces.active g ∧ ∃ h ∈ e.hops, h.face = g

/-- A request that may go on keeps the hop limit of an application on this host. Of any other
hop limit one hop is taken, and something is left. -/
theorem HopLimit.ofMessage_eq_remaining {isLocal : Bool} {hopLimit : UInt8}
    (h : HopLimit.ofMessage isLocal m = .remaining hopLimit) :
    if isLocal then hopLimit = m.hopLimit else 2 ≤ m.hopLimit ∧ hopLimit = m.hopLimit - 1 := by
  unfold HopLimit.ofMessage at h
  cases isLocal with
  | true =>
    rw [if_pos rfl] at h
    exact (HopLimit.remaining.inj h).symm
  | false =>
    rw [if_neg Bool.false_ne_true] at h
    split at h
    · cases h
    · rename_i hzero
      split at h
      · cases h
      · rename_i hone
        rw [if_neg Bool.false_ne_true]
        refine ⟨?_, (HopLimit.remaining.inj h).symm⟩
        have hne : m.hopLimit.toNat ≠ 0 ∧ m.hopLimit.toNat ≠ 1 :=
          ⟨fun hn => hzero (UInt8.toNat_inj.1 hn), fun hn => hone (UInt8.toNat_inj.1 hn)⟩
        have htwo : 2 ≤ m.hopLimit.toNat := by omega
        exact htwo

theorem picks_of_hops? {name : Name} {targets : List FaceId}
    (h : f.hops? faces face m = some (name, targets)) :
    ∃ e, f.routes.longestMatch m.name = some e ∧ targets.Nodup ∧
      ∀ g ∈ targets, Strategy.Picks faces face e g := by
  obtain ⟨e, he, heq⟩ := Option.map_eq_some_iff.1 h
  obtain ⟨-, rfl⟩ := Prod.mk.inj heq
  exact ⟨e, he, Strategy.nodup_forInterest, fun _ => Strategy.picks_of_mem⟩

theorem Handled.onward {f' : Forwarder} {actions : List Action}
    (h : Handled f faces face bytes clock f' actions) (hroutes : f.routes.Sound)
    (hparse : Message.parse bytes = .ok m) (ha : .send frame priority ∈ actions)
    (hclass : frame.frameClass = .interest) : f.Onward faces face bytes m frame := by
  have hcarries : (Action.send frame priority).carries .interest := by simp [Action.carries, hclass]
  obtain ⟨d, hopLimit, st, name, targets, hreq, hhop, -, -, hhops, hsome, hsend⟩ :=
    h.routed_of_mem ha hcarries
  obtain rfl := Message.eq_of_parse hparse hreq.parse
  obtain ⟨rfl, -⟩ := Action.send.inj hsend
  obtain ⟨e, hmatch, hnodup, hpicks⟩ := picks_of_hops? hhops
  obtain ⟨he, hprefix, hlongest⟩ := RouteTable.longestMatch_eq_some hroutes hmatch
  refine ⟨hreq.request, ⟨hopLimit, ?_, ?_, HopLimit.ofMessage_eq_remaining hhop⟩, hsome, hnodup, ?_,
    e, he, hprefix, hlongest, fun g hg => ⟨(hpicks g hg).active, (hpicks g hg).hop⟩⟩
  · rw [← Message.raw_of_parse hparse]
    rfl
  · exact Message.parse_withHopLimit hparse hopLimit
  · intro hback
    exact (hpicks face hback).other rfl

theorem Handled.passedOn {f' : Forwarder} {actions : List Action} {a : Action}
    (h : Handled f faces face bytes clock f' actions) (hparse : Message.parse bytes = .ok m)
    (hkind : m.kind.isRequest = false) (ha : a ∈ actions) :
    ∃ g priority, a = sendTo g bytes priority ∧ g ≠ face ∧ faces.active g := by
  rcases h.reply hparse hkind with ⟨-, -, hnone⟩ | ⟨-, -, hactions⟩
  · rw [hnone] at ha
    cases ha
  · rw [hactions] at ha
    obtain ⟨g, hg, rfl⟩ := List.mem_map.1 ha
    have husable := (List.mem_filter.1 hg).2
    simp only [Strategy.usableFace, Bool.and_eq_true, decide_eq_true_eq] at husable
    exact ⟨g, _, by rw [Message.raw_of_parse hparse], husable⟩

theorem Handled.passedOn_once {f' : Forwarder} {actions : List Action}
    (h : Handled f faces face bytes clock f' actions) (hparse : Message.parse bytes = .ok m)
    (hkind : m.kind.isRequest = false) (g : FaceId) :
    (actions.filter (·.reaches g)).length ≤ 1 := by
  rcases h.reply hparse hkind with ⟨-, -, hnone⟩ | ⟨-, -, hactions⟩
  · simp [hnone]
  · rw [hactions]
    by_cases hg : g ∈ f.targets faces face m clock.now
    · simp [filter_fanOut nodup_targets hg]
    · simp [filter_fanOut_of_not_mem hg]

/-- Whatever has happened to a forwarder and whichever strategy it has, all that goes on as a
request is a copy of the packet, which is a request, with what is left of its hop limit, for some
next hops of its longest match, all in use and not the face it came from. A reply or a return
goes on as it is to faces in use, each of them once and none the face it came from. -/
theorem packets_go_onward (hf : f.Reachable) (hparse : Message.parse bytes = .ok m) :
    let actions := (f.handleFrame faces face bytes clock).2
    (∀ frame priority, .send frame priority ∈ actions → frame.frameClass = .interest →
        f.Onward faces face bytes m frame) ∧
      (m.kind.isRequest = false →
        (∀ a ∈ actions, ∃ g priority, a = sendTo g bytes priority ∧ g ≠ face ∧ faces.active g) ∧
        ∀ g, (actions.filter (·.reaches g)).length ≤ 1) := by
  intro actions
  have hhandled := handled_handleFrame f faces face bytes clock
  constructor
  · intro frame priority ha hclass
    exact hhandled.onward hf.routes hparse ha hclass
  · intro hkind
    exact ⟨fun a ha => hhandled.passedOn hparse hkind ha, hhandled.passedOn_once hparse hkind⟩

/-- Face 1 asks for `/a/b` with two hops left, and the request goes to the faces 2 and 3 with one.
The route of a shorter name, the second route through face 2 and that back to face 1 make no
difference. The object goes back to face 1. -/
theorem packets_go_onward_flooded :
    let f := (fresh { strategy := "flooding" } .flooding).run
      [.addRoute ⟨[]⟩ ⟨4⟩ .static 1, .addRoute Small.name ⟨2⟩ .static 10,
        .addRoute Small.name ⟨3⟩ .static 5, .addRoute Small.name ⟨2⟩ .dynamic 7,
        .addRoute Small.name ⟨1⟩ .static 1]
    let asked := Small.octets { Draft.interest ⟨[[97], [98]]⟩ with hopLimit := 2 }
    let copy : OutFrame := ⟨asked.set FixedHeader.hopLimitOffset 1, [⟨2⟩, ⟨3⟩], .interest⟩
    let object := Small.octets (.object ⟨[[97], [98]]⟩ [1])
    let after := f.handleFrame Small.faces ⟨1⟩ asked ⟨0, 0⟩
    let back := (after.1.handleFrame Small.faces ⟨3⟩ object ⟨5, 0⟩).2
    f.Reachable ∧ after.2 = [.send copy .normal] ∧
      (∃ m, Message.parse asked = .ok m ∧ f.Onward Small.faces ⟨1⟩ asked m copy) ∧
      back = [sendTo ⟨1⟩ object .high] ∧ ∀ g, (back.filter (·.reaches g)).length ≤ 1 := by
  intro f asked copy object after back
  have hbuilt : (fresh { strategy := "flooding" } .flooding).Built :=
    built_fresh (Strategy.ofSetting?_setting .flooding)
  have hreachable : f.Reachable := ⟨_, _, hbuilt, rfl⟩
  have hsent : after.2 = [.send copy .normal] := by decide +kernel
  have hback : back = [sendTo ⟨1⟩ object .high] := by decide +kernel
  obtain ⟨m, hm, -⟩ := Small.exists_parse asked (fun _ => true) (by decide +kernel)
  obtain ⟨o, ho, hanswer⟩ := Small.exists_parse object (!·.kind.isRequest) (by decide +kernel)
  obtain ⟨honward, -⟩ :=
    @packets_go_onward f Small.faces ⟨1⟩ asked ⟨0, 0⟩ m hreachable hm
  obtain ⟨-, hreplies⟩ :=
    @packets_go_onward after.1 Small.faces ⟨3⟩ object ⟨5, 0⟩ o
      (hreachable.run [.frame Small.faces ⟨1⟩ asked ⟨0, 0⟩]) ho
  refine ⟨hreachable, hsent, ⟨m, hm, ?_⟩, hback, (hreplies (by simpa using hanswer)).2⟩
  exact honward copy .normal (hsent ▸ List.mem_singleton_self _) rfl

end NamedData.Forwarder
