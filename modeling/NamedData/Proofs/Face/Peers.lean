import NamedData.Proofs.Face.Allocation

/-!
# Peers and their faces

A number is handed out only while no open face has it, and the face that the registry keeps for a
peer is open and leads to this peer. Closing a face under a number therefore leaves no peer with
that number behind.
-/

namespace NamedData.FaceRegistry

variable {r r' : FaceRegistry} {id g : FaceId} {transport : Transport}
variable {peer : Option SocketAddress}

theorem find?_filter_ne {α κ : Type} [DecidableEq κ] (key : α → κ) (items : List α) (k g : κ) :
    (items.filter (key · ≠ k)).find? (key · = g) =
      if g = k then none else items.find? (key · = g) := by
  split
  · rename_i h
    refine List.find?_eq_none.2 ?_
    intro item hitem
    simpa [h] using (List.mem_filter.1 hitem).2
  · rename_i h
    rw [List.find?_filter]
    congr 1
    funext item
    by_cases hitem : key item = g <;> simp [hitem, h]

theorem find?_insert (r : FaceRegistry) (face : Face) (g : FaceId) :
    (r.insert face).find? g = if g = face.id then some face else r.find? g := by
  unfold find? insert
  dsimp only
  rw [List.find?_append, find?_filter_ne Face.id]
  split
  · rename_i h
    simp [h]
  · rename_i h
    simp [Ne.symm h]

theorem isOpen_insert (r : FaceRegistry) (face : Face) (g : FaceId) :
    (r.insert face).isOpen g = (decide (g = face.id) || r.isOpen g) := by
  rw [isOpen, find?_insert]
  split
  · rename_i h
    simp [h]
  · rename_i h
    simp [h, isOpen]

theorem find?_close (r : FaceRegistry) (id g : FaceId) :
    (r.close id).find? g = if g = id then none else r.find? g := by
  unfold close
  split
  · rename_i h
    split
    · rename_i hg
      rw [hg, h]
    · rfl
  · exact find?_filter_ne Face.id r.faces id g

theorem isOpen_close_of_ne (r : FaceRegistry) (h : g ≠ id) : (r.close id).isOpen g = r.isOpen g := by
  rw [isOpen, find?_close, if_neg h, isOpen]

theorem open?_eq_some (h : r.open? transport peer = some (id, r')) :
    Free r.isOpen id ∧
      ∃ nextId, r' = { r with nextId }.insert { id, transport, peer } := by
  unfold open? at h
  obtain ⟨⟨face, s⟩, hfree, hinsert⟩ := Option.map_eq_some_iff.1 h
  obtain ⟨rfl, rfl⟩ := Prod.mk.inj hinsert
  obtain ⟨_, nextId, hfinds, rfl⟩ := freeId?_eq_some_iff.1 hfree
  exact ⟨hfinds.isFree, nextId, rfl⟩

theorem isOpen_of_open? (h : r.open? transport peer = some (id, r')) (g : FaceId) :
    r'.isOpen g = (decide (g = id) || r.isOpen g) := by
  obtain ⟨-, nextId, rfl⟩ := open?_eq_some h
  exact isOpen_insert _ _ g

/-- The face that is kept for a peer is open and leads to this peer. -/
def PeersOpen (r : FaceRegistry) : Prop :=
  ∀ key id, (key, id) ∈ r.peers →
    ∃ f, r.find? id = some f ∧ f.transport = key.transport ∧ f.peer = some key.address

theorem PeersOpen.isOpen_of_findPeer? (h : r.PeersOpen) {address : SocketAddress}
    (hfound : r.findPeer? transport address = some id) : r.isOpen id := by
  obtain ⟨⟨key, found⟩, hfind, rfl⟩ := Option.map_eq_some_iff.1 hfound
  obtain ⟨f, hf, -⟩ := h key found (List.mem_of_find?_eq_some hfind)
  rw [isOpen, hf, Option.isSome_some]

theorem PeersOpen.open? (h : r.PeersOpen) (hopen : r.open? transport peer = some (id, r')) :
    r'.PeersOpen := by
  obtain ⟨⟨-, hfree⟩, nextId, rfl⟩ := open?_eq_some hopen
  have hold : ∀ key old, (key, old) ∈ r.peers → ∃ f,
      ({ r with nextId }.insert { id, transport, peer }).find? old = some f ∧
        f.transport = key.transport ∧ f.peer = some key.address := by
    intro key old hmem
    obtain ⟨f, hf, hkey⟩ := h key old hmem
    refine ⟨f, ?_, hkey⟩
    have hne : old ≠ id := by
      rintro rfl
      rw [isOpen, hf] at hfree
      cases hfree
    rw [find?_insert, if_neg hne]
    exact hf
  intro key old hmem
  cases peer with
  | none => exact hold key old hmem
  | some address =>
    rcases List.mem_append.1 hmem with hkept | hnew
    · exact hold key old ((List.mem_filter.1 hkept).1)
    · obtain ⟨rfl, rfl⟩ := Prod.mk.inj (List.mem_singleton.1 hnew)
      exact ⟨_, by rw [find?_insert, if_pos rfl], rfl, rfl⟩

theorem PeersOpen.close (h : r.PeersOpen) (id : FaceId) : (r.close id).PeersOpen := by
  intro key old hmem
  cases hfound : r.find? id with
  | none =>
    have hsame : r.close id = r := by rw [FaceRegistry.close, hfound]
    rw [hsame] at hmem ⊢
    exact h key old hmem
  | some closed =>
    have hpeers : (key, old) ∈ r.peers ∧ ∀ address, closed.peer = some address →
        key ≠ ⟨closed.transport, address⟩ := by
      simp only [FaceRegistry.close, hfound] at hmem
      cases hpeer : closed.peer with
      | none =>
        rw [hpeer] at hmem
        exact ⟨hmem, nofun⟩
      | some address =>
        rw [hpeer] at hmem
        obtain ⟨hmem, hother⟩ := List.mem_filter.1 hmem
        refine ⟨hmem, ?_⟩
        rintro _ ⟨⟩
        simpa using hother
    obtain ⟨f, hf, htransport, hpeer⟩ := h key old hpeers.1
    refine ⟨f, ?_, htransport, hpeer⟩
    have hne : old ≠ id := by
      rintro rfl
      obtain rfl := Option.some.inj (hf.symm.trans hfound)
      exact hpeers.2 key.address hpeer (by rw [htransport])
    rw [find?_close, if_neg hne, hf]

/-- A face towards a peer is the one that is open, or a new one if there is none. -/
theorem connect_cases {network : Network} {address : String}
    (h : r.connect network transport address = .ok (id, r')) :
    ∃ peer, network.resolve address.toList = .ok peer ∧
      (r.findPeer? transport peer = some id ∧ r' = r ∨
        r.findPeer? transport peer = none ∧ r.open? transport (some peer) = some (id, r')) := by
  unfold connect at h
  split at h
  · cases h
  · rename_i peer hresolve
    refine ⟨peer, hresolve, ?_⟩
    split at h
    · rename_i face hfound
      obtain ⟨rfl, rfl⟩ := Prod.mk.inj (Except.ok.inj h)
      exact .inl ⟨hfound, rfl⟩
    · rename_i hnone
      refine .inr ⟨hnone, ?_⟩
      have hopened : ∀ o : Option (FaceId × FaceRegistry),
          o.elim (.error noFreeId) Except.ok = .ok (id, r') → o = some (id, r') := by
        intro o ho
        cases o with
        | none => cases ho
        | some found => rw [Except.ok.inj ho]
      cases transport with
      | udp =>
        have hudp := hopened _ h
        rwa [udpFace?, hnone] at hudp
      | tcp =>
        dsimp only at h
        split at h
        · cases h
        · exact hopened _ h
      | unix => cases h

theorem connect_eq_ok {network : Network} {address : String}
    (h : r.connect network transport address = .ok (id, r')) :
    (∃ peer, r.findPeer? transport peer = some id ∧ r' = r) ∨
      ∃ peer, r.open? transport peer = some (id, r') := by
  obtain ⟨peer, -, ⟨hfound, hsame⟩ | ⟨-, hopen⟩⟩ := connect_cases h
  · exact .inl ⟨peer, hfound, hsame⟩
  · exact .inr ⟨some peer, hopen⟩

end NamedData.FaceRegistry
