import NamedData.CommandLine.ControlTool
import NamedData.Proofs.Daemon.Run
import NamedData.Proofs.Forwarding.Administration
import NamedData.Proofs.Packet.Drafting
import NamedData.Proofs.Pending.Delivery

/-!
# Answers to administrative Interests

An administrative Interest that is let in from this host touches no table. It is answered with an
object, provided that the object fits into a packet, and the object waits behind whatever is on the
lane for the most urgent frames. It has the name of the Interest, but never a chunk. So those who
wait for a name without a chunk get what they have asked for, while an Interest with a chunk is
carried out and its answer is not taken for one.
-/

namespace NamedData

namespace Pipeline

variable {p q : Pipeline} {frame : OutFrame} {priority : Priority}
variable {pause : Nat → Pipeline → Pipeline}

theorem lane_of_offer? (h : p.offer? frame priority = some q) :
    q.lane priority = p.lane priority ++ [frame] := by
  unfold offer? at h
  dsimp only at h
  split at h
  · obtain rfl := Option.some.inj h
    cases priority <;> rfl
  · cases h

/-- A frame that is accepted stands behind all others on its lane. -/
theorem exists_lane_of_insist {tries : Nat} (h : (insist frame priority pause tries p).2) :
    ∃ before, (insist frame priority pause tries p).1.lane priority = before ++ [frame] := by
  induction tries generalizing p with
  | zero =>
    unfold insist at h ⊢
    cases hq : p.offer? frame priority with
    | some q => exact ⟨p.lane priority, lane_of_offer? hq⟩
    | none => simp [hq] at h
  | succ tries ih =>
    unfold insist at h ⊢
    cases hq : p.offer? frame priority with
    | some q => exact ⟨p.lane priority, lane_of_offer? hq⟩
    | none =>
      rw [hq] at h
      exact ih h

theorem push_eq_insist (hfaces : frame.faces ≠ []) :
    p.push pause frame priority = insist frame priority pause p.settings.pushRetries p := by
  have hempty : frame.faces.isEmpty = false := by simpa using hfaces
  rw [push, hempty, if_neg Bool.false_ne_true]

theorem push_of_room (hfaces : frame.faces ≠ [])
    (hroom : (p.lane priority).length < p.settings.laneCapacity) :
    p.push pause frame priority =
      ((p.putLane priority (p.lane priority ++ [frame])).countQueued, true) := by
  have hoffer : p.offer? frame priority =
      some (p.putLane priority (p.lane priority ++ [frame])).countQueued := if_pos hroom
  rw [push_eq_insist hfaces]
  cases p.settings.pushRetries <;> rw [insist, hoffer]

end Pipeline

namespace Daemon

open PendingTable

variable {d : Daemon} {w : Surroundings} {face : FaceId} {frame : Frame} {m reply : Message}
variable {c : Command} {body : String} {packet : Octets} {name : Name} {chunk : Option UInt32}

/-- Whoever waits for a name and a chunk gets what they wait for. -/
structure Satisfies (reply : Message) (name : Name) (chunk : Option UInt32) : Prop where
  tool : ∀ f : ControlTool.Fetch, Name.ofString f.name = name → f.chunk = chunk →
    f.answeredBy reply
  table : ∀ (t : PendingTable) (now : Instant) (e : PendingEntry),
    t.find? (.exact name chunk) = some e → e.kind = .regular → e.restrictions.accept reply →
      (t.deliver reply now).1.find? (.exact name chunk) = none ∧
        e.liveFaces now ⊆ (t.deliver reply now).2.faces

/-- Whoever waits for a name and a chunk goes on waiting. -/
structure PassesBy (reply : Message) (name : Name) (chunk : Option UInt32) : Prop where
  tool : ∀ f : ControlTool.Fetch, Name.ofString f.name = name → f.chunk = chunk →
    ¬f.answeredBy reply
  table : ∀ (t : PendingTable) (now : Instant),
    (t.deliver reply now).1.find? (.exact name chunk) = t.find? (.exact name chunk) ∧
      ∀ g ∈ (t.deliver reply now).2.faces, ∃ key e, key ≠ .exact name chunk ∧
        t.find? key = some e ∧ g ∈ e.liveFaces now

theorem satisfies_of_matches (hkind : reply.kind = .contentObject) :
    Satisfies reply reply.name reply.chunk where
  tool f hname hchunk := by simp [ControlTool.Fetch.answeredBy, hname, hchunk, hkind]
  table t now e hfind hregular haccepts := by
    have hkey : .exact reply.name reply.chunk ∈ candidates reply := List.mem_cons_self
    have htakes : takes reply e := by simp [takes, matchesKind, hregular, haccepts]
    refine ⟨?_, fun g hg => mem_faces_deliver.2 ⟨_, hkey, e, hfind, htakes, hg⟩⟩
    rw [find?_deliver, if_pos hkey, hfind, Option.bind_some, remainder_eq_none_iff]
    exact ⟨htakes, by simp [hregular]⟩

theorem passesBy_of_chunk_ne (h : reply.chunk ≠ chunk) (name : Name) :
    PassesBy reply name chunk where
  tool f _ hchunk := by simp [ControlTool.Fetch.answeredBy, hchunk, h]
  table t now := by
    have hkey : .exact name chunk ∉ candidates reply := fun hmem =>
      h (exact_mem_candidates.1 hmem).2
    refine ⟨by rw [find?_deliver, if_neg hkey], ?_⟩
    intro g hg
    obtain ⟨key, hcandidate, e, hfind, -, hlive⟩ := mem_faces_deliver.1 hg
    exact ⟨key, e, fun hsame => hkey (hsame ▸ hcandidate), hfind, hlive⟩

/-- The object that answers a request. -/
def answerTo (request : Message) (body : String) : Draft :=
  .object request.name (Octets.ofString body)

theorem size_name_le (c : Command) : c.name.size ≤ 64 := by
  cases c <;> decide +kernel

theorem reply?_cases (hname : m.name.size ≤ 64) (body : String) :
    (65535 < (answerTo m body).size ∧ reply? m body = none) ∨
      (answerTo m body).size ≤ 65535 ∧ ∃ packet reply, reply? m body = some packet ∧
        Message.parse packet = .ok reply ∧ (answerTo m body).Agrees reply := by
  obtain ⟨herror, hok⟩ := Draft.encode_round_trip (answerTo m body) hname
  rcases Nat.lt_or_ge 65535 (answerTo m body).size with hlarge | hsmall
  · obtain ⟨e, he⟩ := herror.2 hlarge
    exact .inl ⟨hlarge, congrArg Except.toOption he⟩
  · obtain ⟨packet, reply, hencode, -, hparse, hagrees⟩ := hok hsmall
    exact .inr ⟨hsmall, packet, reply, congrArg Except.toOption hencode, hparse, hagrees⟩

/-- A packet waits for one face, behind what was there before, if a lane has room for it. -/
structure Queues (w : Surroundings) (d : Daemon) (frame : OutFrame) (d' : Daemon) : Prop where
  pipeline : d'.pipeline = (d.pipeline.push (w.pause d.faces) frame .high).1
  last : (d.pipeline.push (w.pause d.faces) frame .high).2 →
    ∃ before, d'.pipeline.high = before ++ [frame]
  room : d.pipeline.high.length < d.pipeline.settings.laneCapacity →
    d'.pipeline.high = d.pipeline.high ++ [frame]

theorem queues_push (w : Surroundings) (d : Daemon) {frame : OutFrame} (hfaces : frame.faces ≠ []) :
    d.Queues w frame (d.push w frame .high) where
  pipeline := rfl
  last h := by
    rw [Pipeline.push_eq_insist hfaces] at h
    rw [push, Pipeline.push_eq_insist hfaces]
    exact Pipeline.exists_lane_of_insist h
  room h := by
    have hroom : (d.pipeline.lane .high).length < d.pipeline.settings.laneCapacity := h
    rw [push, Pipeline.push_of_room hfaces hroom]
    rfl

/-- A command is all that an administrative Interest of this host comes to. -/
theorem handleFrame_of_commanded (hparse : Message.parse frame.bytes = .ok m)
    (haccepts : d.forwarder.accepts m) (hkind : m.kind = .interest) (hname : m.name = c.name)
    (hlocal : d.faces.view.isLocal face) (w : Surroundings) :
    let forwarder := (d.forwarder.handleFrame d.faces.view face frame.bytes w.clock).1
    (forwarder.pending = d.forwarder.pending ∧ forwarder.routes = d.forwarder.routes ∧
      forwarder.cache = d.forwarder.cache) ∧
      d.handleFrame w face frame = { d with forwarder }.administer w c face m := by
  obtain ⟨hpending, hroutes, hcache, hactions⟩ :=
    (Forwarder.handled_handleFrame d.forwarder d.faces.view face frame.bytes
      w.clock).eq_of_commanded hparse haccepts hkind hname
  refine ⟨⟨hpending, hroutes, hcache⟩, ?_⟩
  rw [if_pos hlocal] at hactions
  unfold handleFrame
  dsimp only
  rw [hactions]
  rfl

/-- An administrative Interest that is let in from this host changes no table and is carried out.
Its answer is pushed once, for the face it came from, if it fits into a packet. The answer has the
name of the Interest and no chunk. So an Interest without a chunk is answered, be it by the control
tool or through a pending table that it waits in, and no Interest with a chunk is. -/
theorem answer_without_chunk (hparse : Message.parse frame.bytes = .ok m)
    (haccepts : d.forwarder.accepts m) (hkind : m.kind = .interest) (hname : m.name = c.name)
    (hlocal : d.faces.view.isLocal face) (w : Surroundings) :
    let forwarder := (d.forwarder.handleFrame d.faces.view face frame.bytes w.clock).1
    let asked := { d with forwarder, stopping := d.stopping || c == .stop }
    let answer := answerTo m ({ d with forwarder }.report w.clock.now c)
    let after := d.handleFrame w face frame
    (forwarder.pending = d.forwarder.pending ∧ forwarder.routes = d.forwarder.routes ∧
      forwarder.cache = d.forwarder.cache) ∧
      (65535 < answer.size ∧ after = asked ∨
        answer.size ≤ 65535 ∧ ∃ packet reply,
          after = { asked with pipeline := after.pipeline } ∧
          asked.Queues w ⟨packet, [face], .object⟩ after ∧
          Message.parse packet = .ok reply ∧ answer.Agrees reply ∧
          (m.chunk = none → Satisfies reply m.name m.chunk) ∧
          (m.chunk ≠ none → PassesBy reply m.name m.chunk)) := by
  intro forwarder asked answer after
  obtain ⟨htables, hafter⟩ :=
    handleFrame_of_commanded hparse haccepts hkind hname hlocal w
  refine ⟨htables, ?_⟩
  have hsize : m.name.size ≤ 64 := hname ▸ size_name_le c
  change after = _ at hafter
  rw [administer] at hafter
  dsimp only at hafter
  rcases reply?_cases hsize ({ d with forwarder }.report w.clock.now c) with
    ⟨hlarge, hnone⟩ | ⟨hsmall, packet, reply, hsome, hread, hagrees⟩
  · left
    rw [hnone] at hafter
    exact ⟨hlarge, hafter⟩
  · right
    rw [hsome] at hafter
    have hqueues : asked.Queues w ⟨packet, [face], .object⟩ after := by
      rw [hafter]
      exact queues_push w asked (List.cons_ne_nil _ _)
    have hchunk : reply.chunk = none := hagrees.chunk
    refine ⟨hsmall, packet, reply, ?_, hqueues, hread, hagrees, ?_, ?_⟩
    · rw [hafter]
      rfl
    · intro hnone
      have hsatisfies := satisfies_of_matches hagrees.kind
      rwa [hagrees.name, hchunk, ← hnone] at hsatisfies
    · intro hsome
      exact passesBy_of_chunk_ne (hchunk ▸ hsome.symm) m.name

namespace Small

/-- A daemon to which an application has connected. -/
def connected : Daemon := (daemon {}).run [.opening .unix none]

def asking (chunk : Option UInt32) : Frame :=
  ⟨Forwarder.Small.octets { Draft.interest Command.statusPending.name with chunk }, 0⟩

def asked (chunk : Option UInt32) : Daemon :=
  connected.handleFrame surroundings ⟨1⟩ (asking chunk)

/-- The answer: there are none. -/
def nothing : OutFrame :=
  ⟨Forwarder.Small.octets (.object Command.statusPending.name (Octets.ofString "[]")), [⟨1⟩],
    .object⟩

end Small

/-- An application asks for the pending requests without a chunk. -/
theorem answer_without_chunk_small :
    (Small.asked none).pipeline.high = [Small.nothing] ∧
      ∃ reply, Message.parse Small.nothing.payload = .ok reply ∧
        Satisfies reply Command.statusPending.name none := by
  have hhigh : (Small.asked none).pipeline.high = [Small.nothing] := by decide +kernel
  obtain ⟨m, hparse, hm⟩ := Forwarder.Small.exists_parse (Small.asking none).bytes
    (fun m => m.kind = .interest ∧ m.name = Command.statusPending.name ∧ m.chunk = none)
    (by decide +kernel)
  obtain ⟨hkind, hname, hchunk⟩ :
      m.kind = .interest ∧ m.name = Command.statusPending.name ∧ m.chunk = none := by simpa using hm
  have hlocal : Small.connected.faces.view.isLocal ⟨1⟩ := by decide
  obtain ⟨-, ⟨-, hsilent⟩ | ⟨-, packet, reply, -, hqueues, hread, -, hsatisfies, -⟩⟩ :=
    answer_without_chunk hparse rfl hkind hname hlocal Small.surroundings
  · have hnone : (Small.asked none).pipeline.high = [] := congrArg (·.pipeline.high) hsilent
    rw [hhigh] at hnone
    cases hnone
  · have hsame : [Small.nothing] = [⟨packet, [⟨1⟩], .object⟩] :=
      hhigh.symm.trans (hqueues.room (by decide))
    have hpacket : Small.nothing.payload = packet := by rw [(List.cons.inj hsame).1]
    refine ⟨hhigh, reply, hpacket ▸ hread, ?_⟩
    rw [← hname, ← hchunk]
    exact hsatisfies hchunk

/-- It asks for chunk 3 of them, and the answer is not for chunk 3. -/
theorem chunk_left_unanswered : ∃ m reply,
    Message.parse (Small.asking (some 3)).bytes = .ok m ∧
      m.kind = .interest ∧ m.name = Command.statusPending.name ∧ m.chunk = some 3 ∧
      Small.connected.faces.view.isLocal ⟨1⟩ ∧
      (Small.asked (some 3)).pipeline.high = [Small.nothing] ∧
      Message.parse Small.nothing.payload = .ok reply ∧ reply.name = m.name ∧
      reply.chunk ≠ m.chunk ∧ PassesBy reply m.name m.chunk := by
  obtain ⟨m, hparse, hm⟩ := Forwarder.Small.exists_parse (Small.asking (some 3)).bytes
    (fun m => m.kind = .interest ∧ m.name = Command.statusPending.name ∧ m.chunk = some 3)
    (by decide +kernel)
  obtain ⟨hkind, hname, hchunk⟩ :
      m.kind = .interest ∧ m.name = Command.statusPending.name ∧ m.chunk = some 3 := by
    simpa using hm
  obtain ⟨reply, hread, hreply⟩ := Forwarder.Small.exists_parse Small.nothing.payload
    (fun o => o.name = Command.statusPending.name ∧ o.chunk = none) (by decide +kernel)
  obtain ⟨hsame, hnone⟩ : reply.name = Command.statusPending.name ∧ reply.chunk = none := by
    simpa using hreply
  have hother : reply.chunk ≠ m.chunk := by simp [hnone, hchunk]
  exact ⟨m, reply, hparse, hkind, hname, hchunk, by decide, by decide +kernel, hread,
    hsame.trans hname.symm, hother, passesBy_of_chunk_ne hother m.name⟩

end Daemon
end NamedData
