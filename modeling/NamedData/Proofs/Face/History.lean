import Mathlib.Data.List.Basic
import Mathlib.Data.List.Nodup
import NamedData.Proofs.Face.Peers

/-!
# Registries over time

Faces are asked for by peers, by applications and by the daemon itself, and closed one by one or all
at once, in any order. Whoever asks, a face that is open already is given as it is, and a new one is
opened in one and the same way. The faces of a registry have different numbers, those over datagrams
are counted, and each of these is the one that is kept for its peer.
-/

namespace NamedData

def Face.Towards (f : Face) (transport : Transport) (address : SocketAddress) : Prop :=
  f.transport = transport ∧ f.peer = some address

instance (f : Face) (transport : Transport) (address : SocketAddress) :
    Decidable (f.Towards transport address) :=
  inferInstanceAs (Decidable (_ ∧ _))

namespace FaceRegistry

/-- Posts a datagram as received on the face that it counts for. -/
def datagram? (r : FaceRegistry) (sender : SocketAddress) (data : Octets) :
    Option (FaceId × FaceRegistry) :=
  (r.learn? sender).map fun (face, r) => (face, (r.receive face data).toOption.getD r)

inductive Request
  | stream (peer : SocketAddress)
  | application
  | peer (address : SocketAddress)
  | connect (network : Network) (transport : Transport) (address : String)
  | datagram (sender : SocketAddress) (data : Octets)
  | memory (transport : Transport)

def grant? (r : FaceRegistry) : Request → Option (FaceId × FaceRegistry)
  | .stream peer => r.attachTcp? peer
  | .application => r.attachLocal?
  | .peer address => r.udpFace? address
  | .connect network transport address => (r.connect network transport address).toOption
  | .datagram sender data => r.datagram? sender data
  | .memory transport => r.open? transport none

inductive Operation
  | ask (request : Request)
  | close (face : FaceId)
  | closeAll

def apply (r : FaceRegistry) : Operation → FaceRegistry
  | .ask request => ((r.grant? request).map (·.2)).getD r
  | .close face => r.close face
  | .closeAll => r.closeAll

def operate (r : FaceRegistry) (ops : List Operation) : FaceRegistry := ops.foldl apply r

/-- The open faces over datagrams. -/
def udpOpen (r : FaceRegistry) : Nat := r.faces.countP (·.transport = .udp)

variable {r s : FaceRegistry} {id : FaceId} {f face : Face} {transport : Transport}
variable {address : SocketAddress} {peer : Option SocketAddress} {request : Request}

theorem operate_append (r : FaceRegistry) (ops more : List Operation) :
    r.operate (ops ++ more) = (r.operate ops).operate more :=
  List.foldl_append ..

theorem operate_concat (r : FaceRegistry) (ops : List Operation) (op : Operation) :
    r.operate (ops ++ [op]) = (r.operate ops).apply op :=
  List.foldl_concat ..

theorem isOpen_eq_false_iff : r.isOpen id = false ↔ ∀ f ∈ r.faces, f.id ≠ id := by
  simp [isOpen, find?]

structure Opened (r s : FaceRegistry) (face : Face) : Prop where
  free : Free r.isOpen face.id
  faces : s.faces = r.faces ++ [face]
  findPeer? : ∀ transport address, s.findPeer? transport address =
    if face.Towards transport address then some face.id else r.findPeer? transport address
  udpFaces : s.udpFaces = r.udpFaces + if face.transport = .udp then 1 else 0
  udpLimit : s.udpLimit = r.udpLimit
  peersOpen : r.PeersOpen → s.PeersOpen

theorem find?_putPeer (key k : PeerKey) (id : FaceId) (peers : List (PeerKey × FaceId)) :
    ((putPeer key id peers).find? (·.1 = k)).map (·.2) =
      if k = key then some id else (peers.find? (·.1 = k)).map (·.2) := by
  rw [putPeer, List.find?_append, find?_filter_ne Prod.fst]
  split
  · rename_i h
    simp [h]
  · rename_i h
    simp [Ne.symm h]

theorem opened_of_open? (h : r.open? transport peer = some (id, s)) :
    r.Opened s ⟨id, transport, peer⟩ := by
  have hpeersOpen := fun hpeers : r.PeersOpen => hpeers.open? h
  obtain ⟨hfree, nextId, rfl⟩ := open?_eq_some h
  refine ⟨hfree, ?_, ?_, ?_, rfl, hpeersOpen⟩
  · have hother : ∀ f ∈ r.faces, f.id ≠ id := isOpen_eq_false_iff.1 hfree.2
    simpa [insert, List.filter_eq_self] using hother
  · intro t a
    cases peer with
    | none => simp [insert, FaceRegistry.findPeer?, Face.Towards]
    | some address =>
      rw [FaceRegistry.findPeer?, insert]
      dsimp only
      rw [find?_putPeer]
      simp only [PeerKey.mk.injEq, Face.Towards, Option.some.injEq, eq_comm, FaceRegistry.findPeer?]
  · simp only [insert]
    split <;> rfl

theorem udpFace?_cases (h : r.udpFace? address = some (id, s)) :
    s = r ∧ r.findPeer? .udp address = some id ∨
      r.Opened s ⟨id, .udp, some address⟩ ∧ r.findPeer? .udp address = none := by
  unfold udpFace? at h
  split at h
  · rename_i hfound
    obtain ⟨rfl, rfl⟩ := Prod.mk.inj (Option.some.inj h)
    exact .inl ⟨rfl, hfound⟩
  · rename_i hnone
    exact .inr ⟨opened_of_open? h, hnone⟩

theorem udpFace?_of_learn? (h : r.learn? address = some (id, s)) :
    r.udpFace? address = some (id, s) := by
  unfold learn? at h
  split at h
  · rename_i hfound
    rw [udpFace?, hfound]
    exact h
  · split at h
    · exact h
    · cases h

theorem getD_receive (r : FaceRegistry) (face : FaceId) (data : Octets) :
    ∃ events, (r.receive face data).toOption.getD r = { r with events } := by
  unfold receive
  split
  · exact ⟨_, rfl⟩
  · exact ⟨r.events, rfl⟩

theorem Opened.with_events (h : r.Opened s face) (events : EventQueue) :
    r.Opened { s with events } face :=
  ⟨h.free, h.faces, h.findPeer?, h.udpFaces, h.udpLimit, h.peersOpen⟩

/-- A face that is asked for is one that is kept for a peer, or a new one. Over datagrams a new one
is opened only where none is kept for the peer. -/
theorem grant?_cases (h : r.grant? request = some (id, s)) :
    (∃ events transport address, s = { r with events } ∧
      r.findPeer? transport address = some id) ∨
    ∃ transport peer, r.Opened s ⟨id, transport, peer⟩ ∧
      (transport = .udp → ∀ address ∈ peer, r.findPeer? .udp address = none) := by
  cases request with
  | stream peer => exact .inr ⟨.tcp, some peer, opened_of_open? h, nofun⟩
  | application => exact .inr ⟨.unix, none, opened_of_open? h, nofun⟩
  | memory transport => exact .inr ⟨transport, none, opened_of_open? h, nofun⟩
  | peer address =>
    rcases udpFace?_cases h with ⟨rfl, hfound⟩ | ⟨hopened, hnone⟩
    · exact .inl ⟨s.events, .udp, address, rfl, hfound⟩
    · refine .inr ⟨.udp, some address, hopened, fun _ a ha => ?_⟩
      rwa [← Option.some.inj ha]
  | connect network transport address =>
    have hok : r.connect network transport address = .ok (id, s) := by
      simp only [grant?] at h
      cases hconnect : r.connect network transport address with
      | error e => simp [hconnect, Except.toOption] at h
      | ok found =>
        rw [hconnect] at h
        exact congrArg _ (Option.some.inj h)
    obtain ⟨peer, -, ⟨hfound, rfl⟩ | ⟨hnone, hopen⟩⟩ := connect_cases hok
    · exact .inl ⟨s.events, transport, peer, rfl, hfound⟩
    · refine .inr ⟨transport, some peer, opened_of_open? hopen, fun htransport a ha => ?_⟩
      rwa [← htransport, ← Option.some.inj ha]
  | datagram sender data =>
    obtain ⟨⟨face, t⟩, hlearn, hposted⟩ := Option.map_eq_some_iff.1 h
    obtain ⟨rfl, rfl⟩ := Prod.mk.inj hposted
    obtain ⟨events, hevents⟩ := t.getD_receive face data
    rw [hevents]
    rcases udpFace?_cases (udpFace?_of_learn? hlearn) with ⟨rfl, hfound⟩ | ⟨hopened, hnone⟩
    · exact .inl ⟨events, .udp, sender, rfl, hfound⟩
    · refine .inr ⟨.udp, some sender, hopened.with_events events, fun _ a ha => ?_⟩
      rwa [← Option.some.inj ha]

theorem ask_cases (r : FaceRegistry) (request : Request) :
    (∃ events, r.apply (.ask request) = { r with events }) ∨
    ∃ face, r.Opened (r.apply (.ask request)) face ∧
      ∀ address, face.Towards .udp address → r.findPeer? .udp address = none := by
  rw [apply]
  cases hgrant : r.grant? request with
  | none => exact .inl ⟨r.events, rfl⟩
  | some granted =>
    rcases grant?_cases hgrant with ⟨events, _, _, heq, -⟩ | ⟨transport, peer, hopened, hnone⟩
    · exact .inl ⟨events, heq⟩
    · exact .inr ⟨_, hopened, fun address h => hnone h.1 address h.2⟩

theorem faces_close (r : FaceRegistry) (id : FaceId) :
    (r.close id).faces = r.faces.filter (·.id ≠ id) := by
  unfold close
  split
  · rename_i h
    refine (List.filter_eq_self.2 fun f hf => ?_).symm
    simpa using List.find?_eq_none.1 h f hf
  · rfl

theorem findPeer?_close (h : r.find? id = some f) (transport : Transport)
    (address : SocketAddress) :
    (r.close id).findPeer? transport address =
      if f.Towards transport address then none else r.findPeer? transport address := by
  unfold close FaceRegistry.findPeer?
  rw [h]
  dsimp only
  cases hpeer : f.peer with
  | none => simp [Face.Towards, hpeer]
  | some peer =>
    dsimp only
    rw [find?_filter_ne Prod.fst]
    simp only [PeerKey.mk.injEq, Face.Towards, hpeer, Option.some.injEq, eq_comm]
    split <;> rfl

theorem udpFaces_close (h : r.find? id = some f) :
    (r.close id).udpFaces = if f.transport = .udp then r.udpFaces - 1 else r.udpFaces := by
  rw [close, h]

theorem udpLimit_close (r : FaceRegistry) (id : FaceId) : (r.close id).udpLimit = r.udpLimit := by
  unfold close
  split <;> rfl

theorem close_of_find?_eq_none (h : r.find? id = none) : r.close id = r := by
  rw [close, h]

theorem udpLimit_apply (r : FaceRegistry) (op : Operation) :
    (r.apply op).udpLimit = r.udpLimit := by
  cases op with
  | ask request =>
    rcases r.ask_cases request with ⟨events, heq⟩ | ⟨face, hopened, -⟩
    · rw [heq]
    · exact hopened.udpLimit
  | close id => exact r.udpLimit_close id
  | closeAll => rfl

theorem udpLimit_operate (r : FaceRegistry) (ops : List Operation) :
    (r.operate ops).udpLimit = r.udpLimit := by
  induction ops generalizing r with
  | nil => rfl
  | cons op ops ih => exact (ih (r.apply op)).trans (r.udpLimit_apply op)

theorem PeersOpen.exists_towards (h : r.PeersOpen)
    (hfound : r.findPeer? transport address = some id) :
    ∃ f ∈ r.faces, f.id = id ∧ f.Towards transport address := by
  obtain ⟨⟨key, found⟩, hfind, rfl⟩ := Option.map_eq_some_iff.1 hfound
  obtain ⟨f, hf, htransport, hpeer⟩ := h key found (List.mem_of_find?_eq_some hfind)
  have hkey : key = ⟨transport, address⟩ := by simpa using List.find?_some hfind
  rw [hkey] at htransport hpeer
  exact ⟨f, List.mem_of_find?_eq_some hf, by simpa using List.find?_some hf, htransport, hpeer⟩

/-- What the faces of a registry, their number and the peers have to do with each other. -/
structure Coherent (r : FaceRegistry) : Prop where
  nodup : (r.faces.map (·.id)).Nodup
  peersOpen : r.PeersOpen
  counted : r.udpFaces = r.udpOpen
  /-- Over datagrams there is one face towards a peer. -/
  udpKept : ∀ f ∈ r.faces, ∀ address, f.Towards .udp address →
    r.findPeer? .udp address = some f.id

namespace Coherent

variable (h : r.Coherent)
include h

theorem find?_of_mem (hf : f ∈ r.faces) : r.find? f.id = some f := by
  cases hfind : r.find? f.id with
  | none => simpa using List.find?_eq_none.1 hfind f hf
  | some g =>
    have hid : g.id = f.id := by simpa using List.find?_some hfind
    rw [List.inj_on_of_nodup_map h.nodup (List.mem_of_find?_eq_some hfind) hf hid]

theorem udpOpen_close (hf : f ∈ r.faces) :
    (r.close f.id).udpOpen + (if f.transport = .udp then 1 else 0) = r.udpOpen := by
  have hrest : (r.close f.id).faces = r.faces.erase f := by
    rw [faces_close, List.Nodup.erase_eq_filter h.nodup.of_map]
    refine List.filter_congr fun g hg => ?_
    by_cases hsame : g = f
    · simp [hsame]
    · have hid : g.id ≠ f.id := fun hid => hsame (List.inj_on_of_nodup_map h.nodup hg hf hid)
      simp [hsame, hid]
  have hperm := (List.perm_cons_erase hf).countP_eq (·.transport = .udp)
  rw [List.countP_cons] at hperm
  simpa [udpOpen, hrest] using hperm.symm

theorem of_opened (hopened : r.Opened s face)
    (hnone : ∀ address, face.Towards .udp address → r.findPeer? .udp address = none) :
    s.Coherent where
  nodup := by
    rw [hopened.faces, List.map_append, List.map_singleton, ← List.concat_eq_append]
    refine List.Nodup.concat (fun hmem => ?_) h.nodup
    obtain ⟨f, hf, hid⟩ := List.mem_map.1 hmem
    exact isOpen_eq_false_iff.1 hopened.free.2 f hf hid
  peersOpen := hopened.peersOpen h.peersOpen
  counted := by
    rw [hopened.udpFaces, h.counted, udpOpen, udpOpen, hopened.faces, List.countP_append]
    simp
  udpKept f hf address htowards := by
    rw [hopened.faces] at hf
    rw [hopened.findPeer?]
    rcases List.mem_append.1 hf with hold | hnew
    · have hkept := h.udpKept f hold address htowards
      rw [if_neg, hkept]
      intro hface
      rw [hnone address hface] at hkept
      cases hkept
    · rw [List.mem_singleton.1 hnew] at htowards ⊢
      rw [if_pos htowards]

theorem close (id : FaceId) : (r.close id).Coherent := by
  cases hfind : r.find? id with
  | none => rwa [close_of_find?_eq_none hfind]
  | some closed =>
    have hmem := List.mem_of_find?_eq_some hfind
    have hid : closed.id = id := by simpa using List.find?_some hfind
    refine ⟨?_, h.peersOpen.close id, ?_, ?_⟩
    · rw [faces_close]
      exact h.nodup.sublist (List.filter_sublist.map _)
    · have hcount := h.udpOpen_close hmem
      rw [hid] at hcount
      rw [udpFaces_close hfind, h.counted, ← hcount]
      split <;> omega
    · intro f hf address htowards
      rw [faces_close] at hf
      obtain ⟨hf, hother⟩ := List.mem_filter.1 hf
      have hkept := h.udpKept f hf address htowards
      rw [findPeer?_close hfind, if_neg, hkept]
      -- The closed face would be kept for the same peer, but there is one face for each.
      intro hclosed
      have hsame := (h.udpKept closed hmem address hclosed).symm.trans hkept
      rw [← hid, Option.some.inj hsame] at hother
      simp at hother

end Coherent

theorem coherent_empty (capacity : Nat) (limit : Option Nat) : (empty capacity limit).Coherent :=
  ⟨List.nodup_nil, nofun, rfl, nofun⟩

theorem Coherent.apply (h : r.Coherent) (op : Operation) : (r.apply op).Coherent := by
  cases op with
  | ask request =>
    rcases r.ask_cases request with ⟨events, heq⟩ | ⟨face, hopened, hnone⟩
    · rw [heq]
      exact ⟨h.nodup, h.peersOpen, h.counted, h.udpKept⟩
    · exact h.of_opened hopened hnone
  | close id => exact h.close id
  | closeAll => exact ⟨List.nodup_nil, nofun, rfl, nofun⟩

theorem Coherent.operate (h : r.Coherent) (ops : List Operation) : (r.operate ops).Coherent :=
  ops.foldlRecOn _ h fun _ hr op _ => hr.apply op

end FaceRegistry
end NamedData
