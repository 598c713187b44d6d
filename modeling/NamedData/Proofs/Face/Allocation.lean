import NamedData.Face.Registry

/-!
# Free face numbers

Numbers are tried one after the other, around the end and back to the first. The search for a free
one has no bound of its own: it goes on until it meets one. A free number is met in as many rounds
as it is away from the number that is tried first, and no number is further away than there are
numbers, so as many rounds as there are numbers are enough for every search that ends at all.
-/

namespace NamedData.FaceRegistry

variable {used : FaceId → Bool} {id : FaceId} {rounds bound : Nat} {next after : UInt16}

def Free (used : FaceId → Bool) (id : FaceId) : Prop := id.number ≠ 0 ∧ used id = false

/-- Numbers are tried from `next` upward until one is free. After so many rounds one is found, and
the number after it is tried first the next time. -/
inductive Finds (used : FaceId → Bool) :
    (next : UInt16) → (rounds : Nat) → (id : FaceId) → (after : UInt16) → Prop
  | free {next : UInt16} : Free used ⟨next⟩ → Finds used next 1 ⟨next⟩ (next + 1)
  | taken {next : UInt16} {rounds : Nat} {id : FaceId} {after : UInt16} : ¬Free used ⟨next⟩ →
      Finds used (next + 1) rounds id after → Finds used next (rounds + 1) id after

namespace Finds

theorem isFree (h : Finds used next rounds id after) : Free used id := by
  induction h with
  | free hfree => exact hfree
  | taken _ _ ih => exact ih

theorem unique {rounds' : Nat} {id' : FaceId} {after' : UInt16}
    (h : Finds used next rounds id after) (h' : Finds used next rounds' id' after') :
    rounds = rounds' ∧ id = id' ∧ after = after' := by
  induction h generalizing rounds' with
  | free hfree =>
    cases h' with
    | free => exact ⟨rfl, rfl, rfl⟩
    | taken htaken => exact absurd hfree htaken
  | taken htaken _ ih =>
    cases h' with
    | free hfree => exact absurd hfree htaken
    | taken _ h' =>
      obtain ⟨rfl, hsame⟩ := ih h'
      exact ⟨rfl, hsame⟩

end Finds

theorem finds_of_distance {distance : Nat}
    (hfree : Free used ⟨next + UInt16.ofNat distance⟩) :
    ∃ rounds ≤ distance + 1, ∃ found after, Finds used next rounds found after := by
  induction distance generalizing next with
  | zero =>
    have hzero : UInt16.ofNat 0 = 0 := rfl
    rw [hzero, UInt16.add_zero] at hfree
    exact ⟨1, Nat.le_refl 1, _, _, .free hfree⟩
  | succ distance ih =>
    by_cases hnext : Free used ⟨next⟩
    · exact ⟨1, Nat.succ_pos _, _, _, .free hnext⟩
    · have hdistance : next + 1 + UInt16.ofNat distance = next + UInt16.ofNat (distance + 1) := by
        rw [UInt16.ofNat_add, UInt16.add_assoc, UInt16.add_comm 1]
        rfl
      obtain ⟨rounds, hrounds, found, after, hfinds⟩ := ih (hdistance ▸ hfree)
      exact ⟨rounds + 1, Nat.succ_le_succ hrounds, found, after, .taken hnext hfinds⟩

theorem exists_finds (hfree : Free used id) (next : UInt16) :
    ∃ rounds ≤ idCount, ∃ found after, Finds used next rounds found after := by
  have hdistance : next + UInt16.ofNat (id.number - next).toNat = id.number := by
    rw [UInt16.ofNat_toNat, UInt16.add_comm, UInt16.sub_add_cancel]
  have hreached : Free used ⟨next + UInt16.ofNat (id.number - next).toNat⟩ := by rwa [hdistance]
  obtain ⟨rounds, hrounds, hfinds⟩ := finds_of_distance hreached
  exact ⟨rounds, Nat.le_trans hrounds (id.number - next).toNat_lt, hfinds⟩

theorem allocate?_of_free (hfree : Free used ⟨next⟩) :
    allocate? used (rounds + 1) next = some (⟨next⟩, next + 1) := by
  rw [allocate?, if_pos ⟨hfree.1, by simp [hfree.2]⟩]

theorem allocate?_of_taken (htaken : ¬Free used ⟨next⟩) :
    allocate? used (rounds + 1) next = allocate? used rounds (next + 1) := by
  rw [allocate?, if_neg]
  rintro ⟨hzero, hunused⟩
  exact htaken ⟨hzero, by simpa using hunused⟩

/-- A search that is given up after some rounds finds what the search without a bound finds by
then. -/
theorem allocate?_eq_some_iff : allocate? used bound next = some (id, after) ↔
    ∃ rounds ≤ bound, Finds used next rounds id after := by
  constructor
  · intro h
    induction bound generalizing next with
    | zero => cases h
    | succ bound ih =>
      by_cases hnext : Free used ⟨next⟩
      · rw [allocate?_of_free hnext] at h
        obtain ⟨rfl, rfl⟩ := Prod.mk.inj (Option.some.inj h)
        exact ⟨1, Nat.succ_pos bound, .free hnext⟩
      · rw [allocate?_of_taken hnext] at h
        obtain ⟨rounds, hrounds, hfinds⟩ := ih h
        exact ⟨rounds + 1, Nat.succ_le_succ hrounds, .taken hnext hfinds⟩
  · rintro ⟨rounds, hrounds, hfinds⟩
    induction hfinds generalizing bound with
    | free hfree =>
      obtain ⟨bound, rfl⟩ := Nat.exists_eq_add_of_le' hrounds
      exact allocate?_of_free hfree
    | taken htaken _ ih =>
      obtain ⟨bound, rfl⟩ := Nat.exists_eq_add_one_of_ne_zero (Nat.ne_zero_of_lt hrounds)
      rw [allocate?_of_taken htaken]
      exact ih (Nat.le_of_succ_le_succ hrounds)

/-- As many rounds as there are numbers are as good as a search without a bound. -/
theorem allocate?_idCount_eq_some_iff : allocate? used idCount next = some (id, after) ↔
    ∃ rounds, Finds used next rounds id after := by
  rw [allocate?_eq_some_iff]
  constructor
  · rintro ⟨rounds, -, hfinds⟩
    exact ⟨rounds, hfinds⟩
  · rintro ⟨rounds, hfinds⟩
    obtain ⟨rounds', hrounds, found, after', hfinds'⟩ := exists_finds hfinds.isFree next
    obtain ⟨rfl, -, -⟩ := hfinds.unique hfinds'
    exact ⟨rounds, hrounds, hfinds⟩

theorem freeId?_eq_some_iff {r s : FaceRegistry} : r.freeId? = some (id, s) ↔
    ∃ rounds after, Finds r.isOpen r.nextId rounds id after ∧ s = { r with nextId := after } := by
  rw [freeId?, Option.map_eq_some_iff]
  constructor
  · rintro ⟨⟨found, after⟩, hfound, heq⟩
    obtain ⟨rfl, rfl⟩ := Prod.mk.inj heq
    obtain ⟨rounds, hfinds⟩ := allocate?_idCount_eq_some_iff.1 hfound
    exact ⟨rounds, after, hfinds, rfl⟩
  · rintro ⟨rounds, after, hfinds, rfl⟩
    exact ⟨(id, after), allocate?_idCount_eq_some_iff.2 ⟨rounds, hfinds⟩, rfl⟩

theorem isSome_open? {r : FaceRegistry} (hfree : Free r.isOpen id) (transport : Transport)
    (peer : Option SocketAddress) : (r.open? transport peer).isSome := by
  obtain ⟨rounds, -, found, after, hfinds⟩ := exists_finds hfree r.nextId
  rw [open?, freeId?_eq_some_iff.2 ⟨rounds, after, hfinds, rfl⟩]
  rfl

end NamedData.FaceRegistry
