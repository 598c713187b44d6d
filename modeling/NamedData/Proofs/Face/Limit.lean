import NamedData.Proofs.Face.History

/-!
# Unknown senders of datagrams

The registry counts its open faces over datagrams, those that are exempt from the limit included.
The count is right at any time, so an unknown sender gets a face if and only if there are fewer of
them than the limit allows. The face of a sender stays its face until it is closed.
-/

namespace NamedData.FaceRegistry

variable {r s : FaceRegistry} {id face : FaceId} {address sender : SocketAddress}
variable {data : Octets} {op : Operation}

/-- Whether an operation closes a face that is open. -/
def Operation.Closes (op : Operation) (face : FaceId) : Prop := op = .close face ∨ op = .closeAll

theorem findPeer?_eq_none (h : r.Coherent) (hunknown : ∀ f ∈ r.faces, ¬f.Towards .udp sender) :
    r.findPeer? .udp sender = none := by
  cases hfound : r.findPeer? .udp sender with
  | none => rfl
  | some id =>
    obtain ⟨f, hf, -, htowards⟩ := h.peersOpen.exists_towards hfound
    exact absurd htowards (hunknown f hf)

theorem datagram?_of_findPeer? (hfound : r.findPeer? .udp sender = some face) (data : Octets) :
    (r.datagram? sender data).map (·.1) = some face := by
  simp [datagram?, learn?, hfound]

theorem findPeer?_of_datagram? (h : r.datagram? sender data = some (face, s)) :
    s.findPeer? .udp sender = some face := by
  obtain ⟨⟨face, t⟩, hlearn, hposted⟩ := Option.map_eq_some_iff.1 h
  obtain ⟨rfl, rfl⟩ := Prod.mk.inj hposted
  obtain ⟨events, hevents⟩ := t.getD_receive face data
  rw [hevents]
  rcases udpFace?_cases (udpFace?_of_learn? hlearn) with ⟨rfl, hfound⟩ | ⟨hopened, -⟩
  · exact hfound
  · exact (hopened.findPeer? .udp sender).trans (if_pos ⟨rfl, rfl⟩)

theorem opened_of_unknown (hnone : r.findPeer? .udp sender = none) (hroom : r.mayLearn)
    (hfree : Free r.isOpen id) (data : Octets) :
    ∃ face s, r.datagram? sender data = some (face, s) ∧
      r.Opened s ⟨face, .udp, some sender⟩ := by
  obtain ⟨⟨face, t⟩, hopen⟩ := Option.isSome_iff_exists.1 (isSome_open? hfree .udp (some sender))
  obtain ⟨events, hevents⟩ := t.getD_receive face data
  refine ⟨face, { t with events }, ?_, (opened_of_open? hopen).with_events events⟩
  simp [datagram?, learn?, udpFace?, hnone, hroom, hopen, hevents]

theorem apply_of_unknown (hnone : r.findPeer? .udp sender = none) (hfull : ¬r.mayLearn)
    (data : Octets) : r.apply (.ask (.datagram sender data)) = r := by
  simp [apply, grant?, datagram?, learn?, hnone, hfull]

theorem findPeer?_apply (h : r.Coherent) (hkept : r.findPeer? .udp address = some face)
    (hop : ¬op.Closes face) : (r.apply op).findPeer? .udp address = some face := by
  cases op with
  | ask request =>
    rcases r.ask_cases request with ⟨events, heq⟩ | ⟨new, hopened, hnone⟩
    · rw [heq]
      exact hkept
    · rw [hopened.findPeer?, if_neg, hkept]
      intro htowards
      rw [hnone address htowards] at hkept
      cases hkept
  | close id =>
    cases hfind : r.find? id with
    | none => rwa [apply, close_of_find?_eq_none hfind]
    | some closed =>
      rw [apply, findPeer?_close hfind, if_neg, hkept]
      -- A closed face towards the same peer would be the one that is kept for it.
      intro htowards
      have hsame := h.udpKept closed (List.mem_of_find?_eq_some hfind) address htowards
      have hid : closed.id = id := by simpa using List.find?_some hfind
      rw [hkept, hid] at hsame
      exact hop (.inl (by rw [Option.some.inj hsame]))
  | closeAll => exact absurd (.inr rfl) hop

theorem findPeer?_operate (h : r.Coherent) (hkept : r.findPeer? .udp address = some face)
    {ops : List Operation} (hops : ∀ op ∈ ops, ¬op.Closes face) :
    (r.operate ops).findPeer? .udp address = some face := by
  induction ops generalizing r with
  | nil => exact hkept
  | cons op ops ih =>
    obtain ⟨hop, hops⟩ := List.forall_mem_cons.1 hops
    exact ih (h.apply op) (findPeer?_apply h hkept hop) hops

/-- Whatever has happened, the counter is the number of open faces over datagrams, and closing one
of them takes one from it. The datagram of a sender without a face opens one if fewer of them are
open than the limit, and else changes nothing. Two datagrams of one sender count for the same face
unless it has been closed in between. -/
theorem datagrams_limited (capacity : Nat) (limit : Option Nat) (ops : List Operation) :
    let r := (empty capacity limit).operate ops
    (r.udpFaces = r.udpOpen ∧
      ∀ f ∈ r.faces, f.transport = .udp → (r.close f.id).udpFaces + 1 = r.udpFaces) ∧
    (∀ sender data, (∀ f ∈ r.faces, ¬f.Towards .udp sender) → (∃ id, Free r.isOpen id) →
      if ∀ bound ∈ limit, r.udpOpen < bound then
        ∃ face s, r.datagram? sender data = some (face, s) ∧
          r.Opened s ⟨face, .udp, some sender⟩
      else r.apply (.ask (.datagram sender data)) = r) ∧
    ∀ sender data face s between more, r.datagram? sender data = some (face, s) →
      (∀ op ∈ between, ¬op.Closes face) →
      ((s.operate between).datagram? sender more).map (·.1) = some face := by
  intro r
  have hr : r.Coherent := (coherent_empty capacity limit).operate ops
  have hlimit : r.mayLearn ↔ ∀ bound ∈ limit, r.udpOpen < bound := by
    rw [mayLearn, udpLimit_operate, hr.counted]
    cases limit <;> simp [empty]
  refine ⟨⟨hr.counted, ?_⟩, ?_, ?_⟩
  · intro f hf hudp
    have hcount := hr.udpOpen_close hf
    rw [if_pos hudp] at hcount
    rw [(hr.close f.id).counted, hr.counted, hcount]
  · rintro sender data hunknown ⟨id, hfree⟩
    have hnone := findPeer?_eq_none hr hunknown
    split
    · rename_i hroom
      exact opened_of_unknown hnone (hlimit.2 hroom) hfree data
    · rename_i hfull
      exact apply_of_unknown hnone (mt hlimit.1 hfull) data
  · intro sender data face s between more hgiven hopen
    have hs : s.Coherent := by
      have hsame : r.apply (.ask (.datagram sender data)) = s := by simp [apply, grant?, hgiven]
      exact hsame ▸ hr.apply _
    exact datagram?_of_findPeer? (findPeer?_operate hs (findPeer?_of_datagram? hgiven) hopen) more

/-- Only one sender may get a face. A second one is ignored, and the face of the first stays. -/
theorem datagrams_limited_small :
    let first : SocketAddress := ⟨.octets 0x0a000001, 9896⟩
    let second : SocketAddress := ⟨.octets 0x0a000002, 9896⟩
    let r := (empty 4 (some 1)).operate []
    let s := (empty 4 (some 1)).operate [.ask (.datagram first [7])]
    r.datagram? first [7] = some (⟨1⟩, s) ∧ (∀ f ∈ s.faces, ¬f.Towards .udp second) ∧
      Free s.isOpen ⟨2⟩ ∧ s.apply (.ask (.datagram second [8])) = s ∧
      ((s.operate [.ask (.datagram second [8]), .close ⟨2⟩]).datagram? first [9]).map (·.1) =
        some ⟨1⟩ := by
  intro first second r s
  have hgiven : r.datagram? first [7] = some (⟨1⟩, s) := by decide +kernel
  have hunknown : ∀ f ∈ s.faces, ¬f.Towards .udp second := by decide +kernel
  have hfree : Free s.isOpen ⟨2⟩ := by
    constructor <;> decide +kernel
  have hfull : ¬∀ bound ∈ some 1, s.udpOpen < bound := by decide +kernel
  have hignored :=
    (datagrams_limited 4 (some 1) [.ask (.datagram first [7])]).2.1 second [8] hunknown ⟨_, hfree⟩
  rw [if_neg hfull] at hignored
  refine ⟨hgiven, hunknown, hfree, hignored, ?_⟩
  refine (datagrams_limited 4 (some 1) []).2.2 first [7] ⟨1⟩ s _ [9] hgiven ?_
  simp [Operation.Closes]

end NamedData.FaceRegistry
