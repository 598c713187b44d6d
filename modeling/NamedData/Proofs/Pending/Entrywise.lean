import NamedData.Proofs.Pending.Invariant

/-!
# Properties of single entries

A property that an entry keeps when records are dropped, next hops are noted and
chunks are remembered is kept by every operation of the table but joining. What
joining does is left to the property.
-/

namespace NamedData

/-- A property of entries that only a request can break. -/
structure PendingEntry.Stable (P : PendingEntry → Prop) : Prop where
  drop : ∀ (e : PendingEntry) (waiting : List WaitRecord) (cleanDue : Instant),
    waiting.Sublist e.waiting → P e → P { e with waiting, cleanDue }
  onward : ∀ (e : PendingEntry) (onward : List FaceId), P e → P { e with onward }
  delivered : ∀ (e : PendingEntry) (delivered : List UInt32), P e → P { e with delivered }

def PendingTable.Every (P : PendingEntry → Prop) (t : PendingTable) : Prop := ∀ e ∈ t.entries, P e

namespace PendingEntry.Stable

variable {P : PendingEntry → Prop} (hP : Stable P) {e : PendingEntry}
include hP

theorem release (face : FaceId) (h : P e) : P (e.release face) :=
  hP.drop e _ e.cleanDue List.filter_sublist h

theorem forget (face : FaceId) (h : P e) : P (e.forget face) :=
  hP.onward _ _ (hP.release face h)

theorem addAllOnward (faces : List FaceId) (h : P e) : P (e.addAllOnward faces) := by
  induction faces generalizing e with
  | nil => exact h
  | cons f fs ih =>
    refine ih (e := e.addOnward f) ?_
    unfold addOnward
    split
    · exact h
    · exact hP.onward e _ h

theorem kept {now cleanInterval : Nat} {d : PendingEntry} (h : P e)
    (hd : PendingTable.kept now cleanInterval e = some d) : P d := by
  rw [← PendingTable.swept_of_kept hd]
  unfold PendingTable.swept
  split
  · exact hP.drop e [] e.cleanDue (List.nil_sublist _) h
  · split
    · exact hP.drop e _ _ List.filter_sublist h
    · exact h

end PendingEntry.Stable

namespace PendingTable.Every

variable {P : PendingEntry → Prop} {t : PendingTable} {face : FaceId} {key : PendingKey}

theorem empty (settings : PendingSettings) : (PendingTable.empty settings).Every P :=
  fun _ h => absurd h List.not_mem_nil

theorem find? (h : t.Every P) {e : PendingEntry} (he : t.find? key = some e) : P e :=
  h e (mem_of_find? he)

theorem update (h : t.Every P) {f : PendingEntry → PendingEntry} (hf : ∀ e, P e → P (f e)) :
    (t.update key f).Every P := by
  intro d hd
  obtain ⟨e, he, rfl⟩ := List.mem_map.1 hd
  split
  · exact hf e (h e he)
  · exact h e he

theorem erase (h : t.Every P) : (t.erase key).Every P := fun e he =>
  h e (List.mem_of_mem_filter he)

theorem join? (h : t.Every P) {s : Suppression} {r : Entrant} {key : PendingKey × PendingKind}
    {j : Joined} (hj : t.join? s r key = some j) (hjoins : P (r.joins s (r.host t key))) :
    j.table.Every P := by
  rw [table_of_join? hj]
  intro d hd
  rcases mem_put hd with rfl | hd
  · exact hjoins
  · exact h d hd

variable (hP : PendingEntry.Stable P)
include hP

theorem release (h : t.Every P) : (t.release face key).Every P := by
  unfold PendingTable.release
  split
  · exact h
  · split
    · exact h.erase
    · exact h.update fun _ => hP.release face

theorem releaseAll (h : t.Every P) (keys : List PendingKey) : (t.releaseAll face keys).Every P :=
  keys.foldlRecOn _ h fun _ hu _ _ => hu.release hP

theorem forget (h : t.Every P) : (t.forget face).Every P := by
  intro d hd
  obtain ⟨e, he, rfl⟩ := List.mem_map.1 hd
  exact hP.forget face (h e he)

theorem addAllOnward (h : t.Every P) (faces : List FaceId) :
    (t.update key (·.addAllOnward faces)).Every P :=
  h.update fun _ => hP.addAllOnward faces

theorem foldl_addAllOnward (h : t.Every P) (keys : List PendingKey) (faces : List FaceId) :
    (keys.foldl (fun t key => t.update key (·.addAllOnward faces)) t).Every P :=
  keys.foldlRecOn _ h fun _ hu _ _ => hu.addAllOnward hP faces

theorem deliverTo (h : t.Every P) (reply : Message) (now : Instant) (d : Delivery) :
    (PendingTable.deliverTo reply now (t, d) key).1.Every P := by
  cases he : t.find? key with
  | none =>
    rw [deliverTo_of_find?_eq_none he]
    exact h
  | some e =>
    rcases deliverTo_cases reply now d he with ⟨-, ht⟩ | ⟨-, ht⟩
    · rw [ht]
      exact h
    · rw [ht]
      split
      · exact h.update fun c hc => hP.delivered c _ hc
      · exact h.erase

theorem deliver (h : t.Every P) (reply : Message) (now : Instant) :
    (t.deliver reply now).1.Every P :=
  (candidates reply).foldlRecOn _ (motive := fun u : PendingTable × Delivery => u.1.Every P) h
    fun u hu _ _ => hu.deliverTo hP reply now u.2

theorem sweep (h : t.Every P) (now : Instant) : (t.sweep now).1.Every P := by
  cases hrun : t.sweeps now with
  | false =>
    rw [sweep_of_not_sweeps hrun]
    exact h
  | true =>
    intro d hd
    rw [entries_sweep hrun] at hd
    obtain ⟨e, he, hkept⟩ := List.mem_filterMap.1 hd
    exact hP.kept (h e he) hkept

end PendingTable.Every
end NamedData
