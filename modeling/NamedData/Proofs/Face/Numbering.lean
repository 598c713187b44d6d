import Mathlib.Data.List.Basic
import Mathlib.Data.List.Induction
import NamedData.Proofs.Face.Peers

/-!
# The numbers of faces over time

A number is taken before a face is entered under it, and other faces may be entered and closed in
between. Whatever happens in whichever order, a registry knows as open just the faces that have been
entered and not closed since. So a number that it hands out is that of no open face, and it hands
one out as long as there is one.
-/

namespace NamedData.FaceRegistry

/-- What may happen to the numbers of a registry. -/
inductive Move
  | allocate
  | insert (face : Face)
  | close (id : FaceId)
  | closeAll

/-- Whether a move closes the face of a number, if it is open. -/
def Move.Closes (m : Move) (id : FaceId) : Prop := m = .close id ∨ m = .closeAll

def Move.Enters (m : Move) (id : FaceId) : Prop := ∃ face : Face, m = .insert face ∧ face.id = id

def move (r : FaceRegistry) : Move → FaceRegistry
  | .allocate => (r.freeId?.map (·.2)).getD r
  | .insert face => r.insert face
  | .close id => r.close id
  | .closeAll => r.closeAll

def play (r : FaceRegistry) (moves : List Move) : FaceRegistry := moves.foldl move r

/-- Whether the face of a number is open after some moves, as they tell: one was entered under the
number, and it has not been closed since. -/
def OpenAfter (moves : List Move) (id : FaceId) : Prop :=
  ∃ before entering after, moves = before ++ entering :: after ∧ entering.Enters id ∧
    ∀ m ∈ after, ¬m.Closes id

theorem isOpen_allocate (r : FaceRegistry) (id : FaceId) :
    (r.move .allocate).isOpen id = r.isOpen id := by
  rw [move]
  cases hfree : r.freeId? with
  | none => rfl
  | some found =>
    obtain ⟨rounds, after, -, heq⟩ := freeId?_eq_some_iff.1 hfree
    rw [Option.map_some, Option.getD_some, heq]
    rfl

theorem isOpen_move (r : FaceRegistry) (m : Move) (id : FaceId) :
    (r.move m).isOpen id ↔ m.Enters id ∨ r.isOpen id ∧ ¬m.Closes id := by
  cases m with
  | allocate => simp [isOpen_allocate, Move.Enters, Move.Closes]
  | insert face => simp [move, isOpen_insert, Move.Enters, Move.Closes, @eq_comm _ id]
  | close other =>
    by_cases h : other = id
    · simp [move, h, isOpen_close, Move.Enters, Move.Closes]
    · simp [move, h, isOpen_close_of_ne r (Ne.symm h), Move.Enters, Move.Closes]
  | closeAll => simp [move, closeAll, isOpen, find?, Move.Enters, Move.Closes]

theorem openAfter_concat (moves : List Move) (m : Move) (id : FaceId) :
    OpenAfter (moves ++ [m]) id ↔ m.Enters id ∨ OpenAfter moves id ∧ ¬m.Closes id := by
  constructor
  · rintro ⟨before, entering, after, hsplit, henters, hkept⟩
    -- the entering move is the last one, or the last one is among those after it
    rcases List.eq_nil_or_concat' after with rfl | ⟨after, last, rfl⟩
    · obtain ⟨-, hlast⟩ := List.append_inj' hsplit rfl
      obtain rfl := List.singleton_inj.1 hlast
      exact .inl henters
    · rw [← List.cons_append, ← List.append_assoc] at hsplit
      obtain ⟨rfl, hlast⟩ := List.append_inj' hsplit rfl
      obtain rfl := List.singleton_inj.1 hlast
      rw [List.forall_mem_append] at hkept
      exact .inr ⟨⟨before, entering, after, rfl, henters, hkept.1⟩, hkept.2 m (by simp)⟩
  · rintro (henters | ⟨⟨before, entering, after, rfl, henters, hkept⟩, hm⟩)
    · exact ⟨moves, m, [], rfl, henters, by simp⟩
    · refine ⟨before, entering, after ++ [m], by simp, henters, ?_⟩
      rw [List.forall_mem_append]
      exact ⟨hkept, by simpa using hm⟩

theorem play_concat (r : FaceRegistry) (moves : List Move) (m : Move) :
    r.play (moves ++ [m]) = (r.play moves).move m :=
  List.foldl_concat ..

/-- A registry knows the faces that are open as its history tells them. -/
theorem isOpen_play_iff (capacity : Nat) (limit : Option Nat) (moves : List Move) (id : FaceId) :
    ((empty capacity limit).play moves).isOpen id ↔ OpenAfter moves id := by
  induction moves using List.reverseRecOn with
  | nil =>
    constructor
    · rintro ⟨⟩
    · rintro ⟨before, m, after, hsplit, -⟩
      simp at hsplit
  | append_singleton moves m ih =>
    rw [openAfter_concat, ← ih, ← isOpen_move, play_concat]

/-- Wherever the search begins, it ends within 65536 rounds if some number is free, and the number
that it ends at is handed out and is free. Whatever has happened to a registry, a number that it
hands out is that of no face that is open then. -/
theorem fresh_numbers :
    (∀ r : FaceRegistry, (∃ id, Free r.isOpen id) →
      ∃ rounds ≤ 65536, ∃ id after, Finds r.isOpen r.nextId rounds id after ∧
        r.freeId? = some (id, { r with nextId := after }) ∧
          id.number ≠ 0 ∧ r.isOpen id = false) ∧
    ∀ capacity limit moves id s, ((empty capacity limit).play moves).freeId? = some (id, s) →
      id.number ≠ 0 ∧ ¬OpenAfter moves id := by
  constructor
  · rintro r ⟨free, hfree⟩
    obtain ⟨rounds, hrounds, id, after, hfinds⟩ := exists_finds hfree r.nextId
    have hid : r.freeId? = some (id, { r with nextId := after }) :=
      freeId?_eq_some_iff.2 ⟨rounds, after, hfinds, rfl⟩
    exact ⟨rounds, hrounds, id, after, hfinds, hid, hfinds.isFree⟩
  · intro capacity limit moves id s hid
    obtain ⟨rounds, after, hfinds, -⟩ := freeId?_eq_some_iff.1 hid
    obtain ⟨hzero, hclosed⟩ := hfinds.isFree
    refine ⟨hzero, ?_⟩
    rw [← isOpen_play_iff capacity limit, hclosed]
    exact Bool.false_ne_true

/-- The search goes past the last number, which is in use, past zero, and past another number in
use. In the other registry the second number has been taken though no face has it yet, and the first
one is free again, but the search has not come around to it. -/
theorem fresh_numbers_small :
    let r : FaceRegistry :=
      { faces := [⟨⟨65535⟩, .tcp, none⟩, ⟨⟨1⟩, .unix, none⟩], nextId := 65535,
        events := { capacity := 4 } }
    let moves : List Move :=
      [.allocate, .insert ⟨⟨1⟩, .udp, none⟩, .allocate, .insert ⟨⟨3⟩, .tcp, none⟩, .close ⟨1⟩]
    Free r.isOpen ⟨2⟩ ∧ (∃ rounds ≤ 65536, Finds r.isOpen 65535 rounds ⟨2⟩ 3) ∧
      r.freeId? = some (⟨2⟩, { r with nextId := 3 }) ∧
        ((empty 4 none).play moves).freeId?.map (·.1) = some ⟨4⟩ ∧ ¬OpenAfter moves ⟨4⟩ := by
  intro r moves
  have hfree : Free r.isOpen ⟨2⟩ := by constructor <;> decide +kernel
  have hid : r.freeId? = some (⟨2⟩, { r with nextId := 3 }) := by decide +kernel
  have hafter : ((empty 4 none).play moves).freeId?.map (·.1) = some ⟨4⟩ := by decide +kernel
  obtain ⟨rounds, hrounds, id, after, hfinds, hfound, -⟩ := fresh_numbers.1 r ⟨_, hfree⟩
  obtain ⟨⟨_, s⟩, hgiven, rfl⟩ := Option.map_eq_some_iff.1 hafter
  obtain ⟨rfl, hnext⟩ := Prod.mk.inj (Option.some.inj (hid.symm.trans hfound))
  obtain rfl : 3 = after := congrArg nextId hnext
  exact ⟨hfree, ⟨rounds, hrounds, hfinds⟩, hid, hafter, (fresh_numbers.2 _ _ _ _ _ hgiven).2⟩

end NamedData.FaceRegistry
