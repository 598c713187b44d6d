import Mathlib.Data.List.Induction
import NamedData.Proofs.Face.History

/-!
# Finding the face of a peer

What is found for a peer is an open face towards it. A peer may open a second stream while the face
of its first one is still open, and the registry keeps the newer face. Closing either of them makes
it forget the peer although the other one is open, and so it stays until a face towards the peer is
opened again. Nothing else makes an open face unfindable.
-/

namespace NamedData.FaceRegistry

def Opens (r : FaceRegistry) (op : Operation) (transport : Transport) (address : SocketAddress) :
    Prop :=
  ∃ f ∈ (r.apply op).faces, f ∉ r.faces ∧ f.Towards transport address

def NoneOpened (r : FaceRegistry) (transport : Transport) (address : SocketAddress) :
    List Operation → Prop
  | [] => True
  | op :: ops => ¬r.Opens op transport address ∧ (r.apply op).NoneOpened transport address ops

/-- How the peer of an open face has been forgotten: another face towards it was closed while the
face was open, and none has been opened since. -/
structure Forgotten (r : FaceRegistry) (ops : List Operation) (f : Face) (transport : Transport)
    (address : SocketAddress) where
  before : List Operation
  other : Face
  after : List Operation
  split : ops = before ++ .close other.id :: after
  mem : f ∈ (r.operate before).faces
  other_mem : other ∈ (r.operate before).faces
  other_ne : other ≠ f
  other_towards : other.Towards transport address
  unopened : (r.operate (before ++ [.close other.id])).NoneOpened transport address after

variable {r s : FaceRegistry} {f face : Face} {transport : Transport} {address : SocketAddress}
variable {op : Operation} {ops : List Operation}

theorem notMem_of_opened (h : r.Opened s face) : face ∉ r.faces :=
  fun hmem => isOpen_eq_false_iff.1 h.free.2 face hmem rfl

theorem not_opens_close (r : FaceRegistry) (id : FaceId) :
    ¬r.Opens (.close id) transport address := by
  rintro ⟨f, hf, hnew, -⟩
  rw [apply, faces_close] at hf
  exact hnew (List.mem_filter.1 hf).1

theorem findPeer?_apply_eq_none (hnone : r.findPeer? transport address = none)
    (hop : ¬r.Opens op transport address) : (r.apply op).findPeer? transport address = none := by
  cases op with
  | ask request =>
    rcases r.ask_cases request with ⟨events, heq⟩ | ⟨face, hopened, -⟩
    · rw [heq]
      exact hnone
    · rw [hopened.findPeer?, if_neg, hnone]
      intro htowards
      exact hop ⟨face, by simp [hopened.faces], notMem_of_opened hopened, htowards⟩
  | close id =>
    cases hfind : r.find? id with
    | none => rwa [apply, close_of_find?_eq_none hfind]
    | some closed =>
      rw [apply, findPeer?_close hfind, hnone]
      split <;> rfl
  | closeAll => rfl

/-- Where the peer of an open face is not found after an operation, it was not found before and no
face towards it was opened, or another face towards it was closed. -/
theorem missing_apply (hf : f ∈ (r.apply op).faces) (htowards : f.Towards transport address)
    (hnone : (r.apply op).findPeer? transport address = none) :
    f ∈ r.faces ∧
      (r.findPeer? transport address = none ∧ ¬r.Opens op transport address ∨
        ∃ other ∈ r.faces, op = .close other.id ∧ other ≠ f ∧
          other.Towards transport address) := by
  cases op with
  | ask request =>
    rcases r.ask_cases request with ⟨events, heq⟩ | ⟨face, hopened, -⟩
    · have hsame : (r.apply (.ask request)).faces = r.faces := by rw [heq]
      rw [heq] at hnone
      refine ⟨hsame ▸ hf, .inl ⟨hnone, ?_⟩⟩
      rintro ⟨new, hnew, hfresh, -⟩
      exact hfresh (hsame ▸ hnew)
    · have hother : ¬face.Towards transport address := by
        intro hface
        rw [hopened.findPeer?, if_pos hface] at hnone
        cases hnone
      have hold : ∀ g ∈ (r.apply (.ask request)).faces, g.Towards transport address →
          g ∈ r.faces := by
        intro g hg hgtowards
        rw [hopened.faces] at hg
        rcases List.mem_append.1 hg with hg | hg
        · exact hg
        · rw [List.mem_singleton.1 hg] at hgtowards
          exact absurd hgtowards hother
      rw [hopened.findPeer?, if_neg hother] at hnone
      refine ⟨hold f hf htowards, .inl ⟨hnone, ?_⟩⟩
      rintro ⟨new, hnew, hfresh, hnewTowards⟩
      exact hfresh (hold new hnew hnewTowards)
  | close id =>
    rw [apply, faces_close] at hf
    obtain ⟨hf, hid⟩ := List.mem_filter.1 hf
    refine ⟨hf, ?_⟩
    cases hfind : r.find? id with
    | none =>
      rw [apply, close_of_find?_eq_none hfind] at hnone
      exact .inl ⟨hnone, r.not_opens_close id⟩
    | some closed =>
      have hclosed : closed.id = id := by simpa using List.find?_some hfind
      rw [apply, findPeer?_close hfind] at hnone
      split at hnone
      · rename_i hclosedTowards
        refine .inr ⟨closed, List.mem_of_find?_eq_some hfind, by rw [hclosed], ?_, hclosedTowards⟩
        rintro rfl
        simp [hclosed] at hid
      · exact .inl ⟨hnone, r.not_opens_close id⟩
  | closeAll => cases hf

theorem noneOpened_append (r : FaceRegistry) (ops more : List Operation) :
    r.NoneOpened transport address (ops ++ more) ↔
      r.NoneOpened transport address ops ∧
        (r.operate ops).NoneOpened transport address more := by
  induction ops generalizing r with
  | nil => exact (iff_of_eq (true_and _)).symm
  | cons op ops ih =>
    rw [List.cons_append, NoneOpened, NoneOpened, ih, and_assoc]
    rfl

theorem findPeer?_operate_eq_none (hnone : r.findPeer? transport address = none)
    (hops : r.NoneOpened transport address ops) :
    (r.operate ops).findPeer? transport address = none := by
  induction ops generalizing r with
  | nil => exact hnone
  | cons op ops ih => exact ih (findPeer?_apply_eq_none hnone hops.1) hops.2

/-- The peer has just been forgotten. -/
def Forgotten.ofClose {other : Face} (hmem : f ∈ (r.operate ops).faces)
    (hother : other ∈ (r.operate ops).faces) (hne : other ≠ f)
    (htowards : other.Towards transport address) :
    r.Forgotten (ops ++ [.close other.id]) f transport address where
  before := ops
  other := other
  after := []
  split := rfl
  mem := hmem
  other_mem := hother
  other_ne := hne
  other_towards := htowards
  unopened := trivial

/-- The history goes on, and still no face towards the peer is opened. -/
def Forgotten.concat (h : r.Forgotten ops f transport address)
    (hop : ¬(r.operate ops).Opens op transport address) :
    r.Forgotten (ops ++ [op]) f transport address where
  before := h.before
  other := h.other
  after := h.after ++ [op]
  split := by
    conv_lhs => rw [h.split]
    rw [List.append_assoc, List.cons_append]
  mem := h.mem
  other_mem := h.other_mem
  other_ne := h.other_ne
  other_towards := h.other_towards
  unopened := by
    refine (noneOpened_append ..).2 ⟨h.unopened, ?_, trivial⟩
    rw [← operate_append, List.append_assoc, List.singleton_append, ← h.split]
    exact hop

theorem Forgotten.findPeer? (h : r.Forgotten ops f transport address)
    (hr : (r.operate h.before).Coherent) :
    (r.operate ops).findPeer? transport address = none := by
  have hclosed : (r.operate (h.before ++ [.close h.other.id])).findPeer? transport address =
      none := by
    rw [operate_concat, apply, findPeer?_close (hr.find?_of_mem h.other_mem),
      if_pos h.other_towards]
  have hend := findPeer?_operate_eq_none hclosed h.unopened
  rwa [← operate_append, List.append_assoc, List.singleton_append, ← h.split] at hend

theorem forgotten_of_missing (hempty : r.faces = []) (hf : f ∈ (r.operate ops).faces)
    (htowards : f.Towards transport address)
    (hnone : (r.operate ops).findPeer? transport address = none) :
    Nonempty (r.Forgotten ops f transport address) := by
  induction ops using List.reverseRecOn with
  | nil =>
    rw [operate, List.foldl_nil, hempty] at hf
    cases hf
  | append_singleton ops op ih =>
    rw [operate_concat] at hf hnone
    obtain ⟨hmem, ⟨hbefore, hop⟩ | ⟨other, hother, rfl, hne, hotherTowards⟩⟩ :=
      missing_apply hf htowards hnone
    · obtain ⟨hforgotten⟩ := ih hmem hbefore
      exact ⟨hforgotten.concat hop⟩
    · exact ⟨.ofClose hmem hother hne hotherTowards⟩

/-- Whatever has happened, what is found for a peer is an open face towards it, and over datagrams
every open face is found for its peer. Over the other transports the peer of an open face is found
unless it has been forgotten when another face towards it was closed. -/
theorem missing_iff_forgotten (capacity : Nat) (limit : Option Nat) (ops : List Operation) :
    let start := empty capacity limit
    let r := start.operate ops
    (∀ transport address id, r.findPeer? transport address = some id →
      ∃ f ∈ r.faces, f.id = id ∧ f.Towards transport address) ∧
    (∀ f ∈ r.faces, ∀ address, f.Towards .udp address →
      r.findPeer? .udp address = some f.id) ∧
    ∀ f ∈ r.faces, ∀ transport address, f.Towards transport address →
      (r.findPeer? transport address = none ↔
        Nonempty (start.Forgotten ops f transport address)) := by
  intro start r
  have hcoherent : ∀ ops, (start.operate ops).Coherent :=
    fun ops => (coherent_empty capacity limit).operate ops
  refine ⟨?_, (hcoherent ops).udpKept, ?_⟩
  · intro transport address id hfound
    exact (hcoherent ops).peersOpen.exists_towards hfound
  · intro f hf transport address htowards
    constructor
    · exact forgotten_of_missing rfl hf htowards
    · rintro ⟨hforgotten⟩
      exact hforgotten.findPeer? (hcoherent _)

/-- A peer opens a second stream before the face of its first one is closed. -/
theorem open_face_not_found :
    let peer : SocketAddress := ⟨.octets 0x7f000001, 49152⟩
    let r := (empty 4 none).operate [.ask (.stream peer), .ask (.stream peer), .close ⟨1⟩]
    (⟨⟨2⟩, .tcp, some peer⟩ : Face) ∈ r.faces ∧ r.findPeer? .tcp peer = none := by
  decide +kernel

end NamedData.FaceRegistry
