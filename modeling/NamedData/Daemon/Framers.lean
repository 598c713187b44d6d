import NamedData.Face
import NamedData.Framer

/-!
# The framers of the faces

Every face from which something was received has a framer of its own, which
keeps the beginning of a packet until the rest of it arrives.
-/

namespace NamedData

/-- The framers by face, each face once. -/
structure Framers where
  framers : List (FaceId × Framer) := []
deriving DecidableEq, Repr

/-- What one piece of received data came to. -/
structure Reception where
  frames : List Frame
  discarded : Nat
deriving DecidableEq, Repr

namespace Framers

def find? (t : Framers) (face : FaceId) : Option Framer :=
  (t.framers.find? (·.1 = face)).map (·.2)

def erase (t : Framers) (face : FaceId) : Framers := ⟨t.framers.filter (·.1 ≠ face)⟩

def put (t : Framers) (face : FaceId) (framer : Framer) : Framers :=
  ⟨(t.erase face).framers ++ [(face, framer)]⟩

def start (t : Framers) (face : FaceId) : Framers := t.put face {}

/-- Feeds data to the framer of a face, which is a new one if there is none. -/
def receive (t : Framers) (face : FaceId) (data : Octets) : Reception × Framers :=
  let before := (t.find? face).getD {}
  let (frames, after) := (before.push data).drain
  (⟨frames, after.discarded - before.discarded⟩, t.put face after)

@[simp] theorem find?_erase_self (t : Framers) (face : FaceId) :
    (t.erase face).find? face = none := by
  simp [find?, erase, List.find?_filter]

@[simp] theorem find?_put_self (t : Framers) (face : FaceId) (framer : Framer) :
    (t.put face framer).find? face = some framer := by
  have h : (t.erase face).framers.find? (·.1 = face) = none := by
    simp [erase, List.find?_filter]
  simp [find?, put, List.find?_append, h]

theorem find?_erase_of_ne (t : Framers) {face other : FaceId} (h : other ≠ face) :
    (t.erase face).find? other = t.find? other := by
  unfold find? erase
  rw [List.find?_filter]
  congr 2
  funext entry
  by_cases he : entry.1 = other <;> simp [he, h]

theorem find?_put_of_ne (t : Framers) (framer : Framer) {face other : FaceId} (h : other ≠ face) :
    (t.put face framer).find? other = t.find? other := by
  rw [← find?_erase_of_ne t h]
  simp [find?, put, Ne.symm h]

end Framers
end NamedData
