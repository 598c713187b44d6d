import Mathlib.Data.List.Nodup
import NamedData.Pending.Entry

/-!
# The records of an entry

Every change of an entry is described by what it does to the record of each
face. A face has at most one record in an entry, so the record of a face stands
for all that the entry knows of it.
-/

namespace NamedData.PendingEntry

variable {e : PendingEntry} {face g : FaceId} {r : WaitRecord} {now : Instant}

theorem mem_of_record? (h : e.record? g = some r) : r ∈ e.waiting := List.mem_of_find?_eq_some h

theorem face_of_record? (h : e.record? g = some r) : r.face = g := by
  simpa using List.find?_some h

theorem record?_eq_none_iff : e.record? g = none ↔ ∀ r ∈ e.waiting, r.face ≠ g := by
  simp [record?]

theorem record?_eq_some_iff (h : (e.waiting.map (·.face)).Nodup) :
    e.record? g = some r ↔ r ∈ e.waiting ∧ r.face = g := by
  refine ⟨fun hr => ⟨mem_of_record? hr, face_of_record? hr⟩, ?_⟩
  rintro ⟨hr, rfl⟩
  cases hq : e.record? r.face with
  | none => exact absurd rfl (record?_eq_none_iff.1 hq r hr)
  | some q =>
    have hface : q.face = r.face := face_of_record? hq
    rw [List.inj_on_of_nodup_map h (mem_of_record? hq) hr hface]

theorem record?_congr {d e : PendingEntry} (h : d.waiting = e.waiting) :
    d.record? g = e.record? g := by
  rw [record?, record?, h]

theorem mem_liveFaces : g ∈ e.liveFaces now ↔ ∃ r ∈ e.waiting, r.face = g ∧ now < r.expiry := by
  simp only [liveFaces, List.mem_map, List.mem_filter, WaitRecord.live, decide_eq_true_eq]
  constructor
  · rintro ⟨r, ⟨hr, hlive⟩, rfl⟩
    exact ⟨r, hr, rfl, hlive⟩
  · rintro ⟨r, hr, rfl, hlive⟩
    exact ⟨r, ⟨hr, hlive⟩, rfl⟩

theorem mem_liveFaces_iff (h : (e.waiting.map (·.face)).Nodup) :
    g ∈ e.liveFaces now ↔ ∃ r, e.record? g = some r ∧ now < r.expiry := by
  simp only [mem_liveFaces, record?_eq_some_iff h, and_assoc]

theorem record?_updateRecord {f : WaitRecord → WaitRecord} (hf : ∀ r, (f r).face = r.face) :
    (e.updateRecord face f).record? g =
      if g = face then (e.record? g).map f else e.record? g := by
  have hp : ((fun r : WaitRecord => decide (r.face = g)) ∘
      fun r => if r.face = face then f r else r) =
      fun r => decide (r.face = g) := by
    funext r
    by_cases h : r.face = face <;> simp [h, hf]
  rw [record?, updateRecord, List.find?_map, hp]
  split
  · subst g
    cases hr : e.waiting.find? fun r => decide (r.face = face) with
    | none => simp [record?, hr]
    | some r =>
      have : r.face = face := face_of_record? hr
      simp [record?, hr, this]
  · rename_i hne
    cases hr : e.waiting.find? fun r => decide (r.face = g) with
    | none => simp [record?, hr]
    | some r =>
      have : r.face = g := face_of_record? hr
      simp [record?, hr, this, hne]

@[simp] theorem record?_release :
    (e.release face).record? g = if g = face then none else e.record? g := by
  rw [record?, release, List.find?_filter]
  split
  · subst g
    simp
  · rename_i hne
    congr 1
    funext r
    by_cases h : r.face = g <;> simp [h, hne]

theorem record?_forget : (e.forget face).record? g = (e.release face).record? g :=
  record?_congr rfl

@[simp] theorem waiting_addOnward : (e.addOnward face).waiting = e.waiting := by
  unfold addOnward
  split <;> rfl

@[simp] theorem waiting_addAllOnward (faces : List FaceId) :
    (e.addAllOnward faces).waiting = e.waiting := by
  induction faces generalizing e with
  | nil => rfl
  | cons f fs ih => exact (ih (e := e.addOnward f)).trans waiting_addOnward

@[simp] theorem record?_addAllOnward (faces : List FaceId) :
    (e.addAllOnward faces).record? g = e.record? g := record?_congr (waiting_addAllOnward faces)

theorem record?_deferReturn (payload : Octets) :
    (e.deferReturn face payload).record? g =
      if g = face then (e.record? g).map fun r => { r with pendingReturn := some payload }
      else e.record? g :=
  record?_updateRecord fun _ => rfl

/-- A request leaves a record of its own and touches no other. -/
theorem record?_join (lifetime : Nat) (fingerprint : UInt64) (s : Suppression) :
    (e.join face lifetime fingerprint now s).1.record? g =
      if g = face then some { face, expiry := now + lifetime, fingerprint } else e.record? g := by
  cases hr : e.record? face with
  | none =>
    simp only [join, hr]
    by_cases hg : g = face
    · subst hg
      have hnone : e.waiting.find? (fun r => decide (r.face = g)) = none := hr
      simp [record?, hnone]
    · simp only [record?, List.find?_append, if_neg hg]
      simp [Ne.symm hg]
  | some recorded =>
    have hface : recorded.face = face := face_of_record? hr
    simp only [join, hr]
    rw [record?_updateRecord (by exact fun _ => rfl)]
    by_cases hg : g = face
    · subst hg
      have hsame : e.waiting.find? (fun r => decide (r.face = g)) = some recorded := hr
      simp [record?, hsame, hface]
    · rw [if_neg hg, if_neg hg]
      exact record?_congr rfl

@[simp] theorem key_addAllOnward (faces : List FaceId) : (e.addAllOnward faces).key = e.key := by
  induction faces generalizing e with
  | nil => rfl
  | cons f fs ih =>
    refine (ih (e := e.addOnward f)).trans ?_
    unfold addOnward
    split <;> rfl

end NamedData.PendingEntry
