import NamedData.Proofs.Pending.Delivery
import NamedData.Proofs.Pending.Joining
import NamedData.Proofs.Pending.Sweeping

/-!
# The shape of the table

In every table that the operations make there are no more entries than the
capacity, no two under one key, and no face waits twice on an entry. No record
outlives the deadline of its entry, which is why a sweep may drop all records of
an entry at its deadline.
-/

namespace NamedData

/-- The shape of an entry of a table whose windows remember so many chunks. -/
structure PendingEntry.Sound (window : Nat) (e : PendingEntry) : Prop where
  faces_nodup : (e.waiting.map (·.face)).Nodup
  onward_nodup : e.onward.Nodup
  expiry_le : ∀ r ∈ e.waiting, r.expiry ≤ e.deadline
  delivered_nodup : e.delivered.Nodup
  delivered_le : e.delivered.length ≤ window

/-- The shape of a table. -/
structure PendingTable.Sound (t : PendingTable) : Prop where
  size_le : t.size ≤ t.settings.capacity
  keys_nodup : (t.entries.map (·.key)).Nodup
  entries : ∀ e ∈ t.entries, e.Sound t.window

namespace PendingEntry

variable {e : PendingEntry} {face : FaceId} {window : Nat} {now : Instant}

theorem map_face_updateRecord {f : WaitRecord → WaitRecord} (hf : ∀ r, (f r).face = r.face) :
    (e.updateRecord face f).waiting.map (·.face) = e.waiting.map (·.face) := by
  simp only [updateRecord, List.map_map]
  apply List.map_congr_left
  intro r _
  by_cases h : r.face = face <;> simp [h, hf]

namespace Sound

theorem create (key : PendingKey) (kind : PendingKind) (now cleanInterval : Nat)
    (restrictions : Restrictions) :
    Sound window { PendingEntry.create key kind now cleanInterval with restrictions } := by
  constructor <;> simp [PendingEntry.create]

theorem of_sublist (h : e.Sound window) {waiting : List WaitRecord}
    (hs : waiting.Sublist e.waiting) : Sound window { e with waiting } where
  faces_nodup := h.faces_nodup.sublist (hs.map _)
  onward_nodup := h.onward_nodup
  expiry_le r hr := h.expiry_le r (hs.subset hr)
  delivered_nodup := h.delivered_nodup
  delivered_le := h.delivered_le

theorem release (h : e.Sound window) (face : FaceId) : (e.release face).Sound window :=
  h.of_sublist List.filter_sublist

theorem forget (h : e.Sound window) (face : FaceId) : (e.forget face).Sound window :=
  { h.release face with onward_nodup := h.onward_nodup.filter _ }

theorem swept (h : e.Sound window) (cleanInterval : Nat) :
    (PendingTable.swept e now cleanInterval).Sound window := by
  unfold PendingTable.swept
  split
  · exact h.of_sublist (List.nil_sublist _)
  · split
    · have hs := h.of_sublist (List.filter_sublist (p := (·.live now)))
      exact ⟨hs.1, hs.2, hs.3, hs.4, hs.5⟩
    · exact h

theorem addOnward (h : e.Sound window) (face : FaceId) : (e.addOnward face).Sound window := by
  unfold PendingEntry.addOnward
  split
  · exact h
  · rename_i hface
    exact { h with
      onward_nodup := List.Nodup.append h.onward_nodup (by simp) (by simpa using hface) }

theorem addAllOnward (h : e.Sound window) (faces : List FaceId) :
    (e.addAllOnward faces).Sound window :=
  faces.foldlRecOn _ h fun _ hd face _ => hd.addOnward face

theorem deferReturn (h : e.Sound window) (face : FaceId) (payload : Octets) :
    (e.deferReturn face payload).Sound window := by
  refine ⟨?_, h.onward_nodup, ?_, h.delivered_nodup, h.delivered_le⟩
  · rw [PendingEntry.deferReturn, map_face_updateRecord (by exact fun _ => rfl)]
    exact h.faces_nodup
  · intro r hmem
    obtain ⟨q, hq, rfl⟩ := List.mem_map.1 hmem
    have hle := h.expiry_le q hq
    split <;> exact hle

/-- A window that is full forgets its oldest chunk before it remembers another. -/
theorem remember (h : e.Sound window) (hwindow : 0 < window) {chunk : UInt32}
    (hchunk : chunk ∉ e.delivered) : (e.remember chunk window).Sound window := by
  have hlen := h.delivered_le
  refine ⟨h.faces_nodup, h.onward_nodup, h.expiry_le, ?_, ?_⟩
  · simp only [PendingEntry.remember]
    split
    · refine List.Nodup.append (h.delivered_nodup.sublist (List.tail_sublist _)) (by simp) ?_
      simpa using fun hmem => hchunk (List.mem_of_mem_tail hmem)
    · exact List.Nodup.append h.delivered_nodup (by simp) (by simpa using hchunk)
  · simp only [PendingEntry.remember]
    split
    · simp
      omega
    · simp
      omega

theorem join (h : e.Sound window) (lifetime : Nat) (fingerprint : UInt64) (s : Suppression) :
    (e.join face lifetime fingerprint now s).1.Sound window := by
  cases hr : e.record? face with
  | some recorded =>
    simp only [PendingEntry.join, hr]
    refine ⟨?_, h.onward_nodup, ?_, h.delivered_nodup, h.delivered_le⟩
    · rw [map_face_updateRecord (by exact fun _ => rfl)]
      exact h.faces_nodup
    · intro r hmem
      obtain ⟨q, hq, rfl⟩ := List.mem_map.1 hmem
      split
      · exact Nat.le_max_right _ _
      · exact Nat.le_trans (h.expiry_le q hq) (Nat.le_max_left _ _)
  | none =>
    simp only [PendingEntry.join, hr]
    refine ⟨?_, h.onward_nodup, ?_, h.delivered_nodup, h.delivered_le⟩
    · rw [List.map_append]
      refine List.Nodup.append h.faces_nodup (by simp) ?_
      have hnone := record?_eq_none_iff.1 hr
      simpa using hnone
    · intro r hmem
      rcases List.mem_append.1 hmem with hmem | hmem
      · exact Nat.le_trans (h.expiry_le r hmem) (Nat.le_max_left _ _)
      · rw [List.mem_singleton.1 hmem]
        exact Nat.le_max_right _ _

theorem joins (h : e.Sound window) (r : PendingTable.Entrant) (s : Suppression) :
    (r.joins s e).Sound window := by
  have hjoin : (e.join r.face r.request.lifetime r.request.fingerprint r.now s).1.Sound window :=
    h.join _ _ s
  unfold PendingTable.Entrant.joins
  dsimp only
  split
  · exact hjoin.deferReturn _ _
  · exact hjoin

end Sound
end PendingEntry

namespace PendingTable

variable {t : PendingTable} {key : PendingKey} {face g : FaceId} {now : Instant}

theorem window_pos : 0 < t.window := Nat.lt_of_lt_of_le Nat.zero_lt_one (Nat.le_max_right _ _)

namespace Sound

theorem empty (settings : PendingSettings) : (PendingTable.empty settings).Sound :=
  ⟨Nat.zero_le _, List.nodup_nil, nofun⟩

theorem entry (h : t.Sound) {e : PendingEntry} (he : t.find? key = some e) : e.Sound t.window :=
  h.entries e (mem_of_find? he)

theorem eq_of_find? (h : t.Sound) {d e : PendingEntry} (he : t.find? key = some e)
    (hd : d ∈ t.entries) (hkey : d.key = key) : d = e :=
  Option.some.inj (((find?_eq_some_iff h.keys_nodup).2 ⟨hd, hkey⟩).symm.trans he)

/-- Dropping entries, and changing entries under their keys, keeps the shape. -/
theorem of_entries (h : t.Sound) {entries : List PendingEntry}
    (hkeys : (entries.map (·.key)).Sublist (t.entries.map (·.key)))
    (hentries : ∀ e ∈ entries, e.Sound t.window) : Sound { t with entries } where
  size_le := by
    have hlen := hkeys.length_le
    rw [List.length_map, List.length_map] at hlen
    exact Nat.le_trans hlen h.size_le
  keys_nodup := h.keys_nodup.sublist hkeys
  entries := hentries

theorem update (h : t.Sound) {f : PendingEntry → PendingEntry}
    (hkey : ∀ e, e.key = key → (f e).key = key)
    (hf : ∀ e ∈ t.entries, e.key = key → e.Sound t.window → (f e).Sound t.window) :
    (t.update key f).Sound := by
  refine h.of_entries ?_ ?_
  · rw [List.map_map, List.map_congr_left (g := (·.key))]
    intro e _
    by_cases he : e.key = key <;> simp [he, hkey]
  · intro d hd
    obtain ⟨e, he, rfl⟩ := List.mem_map.1 hd
    split
    · rename_i hk
      exact hf e he hk (h.entries e he)
    · exact h.entries e he

theorem erase (h : t.Sound) (key : PendingKey) : (t.erase key).Sound :=
  h.of_entries (List.filter_sublist.map _) fun e he => h.entries e (List.mem_of_mem_filter he)

theorem release (h : t.Sound) (face : FaceId) (key : PendingKey) : (t.release face key).Sound := by
  unfold PendingTable.release
  split
  · exact h
  · split
    · exact h.erase key
    · exact h.update (fun _ he => he) fun _ _ _ he => he.release face

theorem releaseAll (h : t.Sound) (face : FaceId) (keys : List PendingKey) :
    (t.releaseAll face keys).Sound :=
  keys.foldlRecOn _ h fun _ hu key _ => hu.release face key

theorem addAllOnward (h : t.Sound) (key : PendingKey) (faces : List FaceId) :
    (t.update key (·.addAllOnward faces)).Sound :=
  h.update (fun _ he => (PendingEntry.key_addAllOnward faces).trans he)
    fun _ _ _ he => he.addAllOnward faces

theorem foldl_addAllOnward (h : t.Sound) (keys : List PendingKey) (faces : List FaceId) :
    (keys.foldl (fun t key => t.update key (·.addAllOnward faces)) t).Sound :=
  keys.foldlRecOn _ h fun _ hu key _ => hu.addAllOnward key faces

theorem forget (h : t.Sound) (face : FaceId) : (t.forget face).Sound := by
  refine h.of_entries ?_ ?_
  · rw [List.map_map]
    exact List.Sublist.refl _
  · intro d hd
    obtain ⟨e, he, rfl⟩ := List.mem_map.1 hd
    exact (h.entries e he).forget face

theorem put (h : t.Sound) {e : PendingEntry} (he : e.Sound t.window)
    (hroom : ¬(t.find? e.key = none ∧ t.settings.capacity ≤ t.size)) : (t.put e).Sound where
  size_le := by
    rw [settings_put, size_put]
    by_cases hnone : t.find? e.key = none
    · rw [if_pos hnone]
      exact Nat.lt_of_not_le fun hfull => hroom ⟨hnone, hfull⟩
    · rw [if_neg hnone]
      exact h.size_le
  keys_nodup := by
    rw [keys_put]
    split
    · rename_i hnone
      refine List.Nodup.append h.keys_nodup (by simp) ?_
      simpa using find?_eq_none_iff.1 hnone
    · simpa using h.keys_nodup
  entries d hd := by
    rw [window, settings_put]
    rcases mem_put hd with rfl | hd
    · exact he
    · exact h.entries d hd

theorem join? (h : t.Sound) {s : Suppression} {r : Entrant} {key : PendingKey × PendingKind}
    {j : Joined} (hj : t.join? s r key = some j) : j.table.Sound := by
  have hroom : ¬(t.find? key.1 = none ∧ t.settings.capacity ≤ t.size) := by
    rw [← join?_eq_none_iff (s := s) (r := r), hj]
    simp
  have hhost : (r.host t key).Sound t.window := by
    unfold Entrant.host
    cases hfound : r.found? t key.1 with
    | none => exact .create ..
    | some e => exact h.entry (Entrant.found?_eq_some hfound).1
  rw [table_of_join? hj]
  exact h.put (hhost.joins r s) (by simpa using hroom)

theorem deliverTo (h : t.Sound) (reply : Message) (d : Delivery) (key : PendingKey) :
    (PendingTable.deliverTo reply now (t, d) key).1.Sound := by
  cases he : t.find? key with
  | none =>
    rw [deliverTo_of_find?_eq_none he]
    exact h
  | some e =>
    rcases deliverTo_cases reply now d he with ⟨-, ht⟩ | ⟨htake, ht⟩
    · rw [ht]
      exact h
    · rw [ht]
      split
      · rename_i hkind
        refine h.update (fun _ hk => hk) fun c hc hk hsound => ?_
        obtain rfl := h.eq_of_find? he hc hk
        have hfresh : reply.chunk.getD 0 ∉ c.delivered := by
          simpa [takes, hkind] using (Bool.and_eq_true_iff.1 htake).2
        exact hsound.remember window_pos hfresh
      · exact h.erase key

theorem deliver (h : t.Sound) (reply : Message) (now : Instant) :
    (t.deliver reply now).1.Sound :=
  (candidates reply).foldlRecOn _ (motive := fun u : PendingTable × Delivery => u.1.Sound) h
    fun u hu key _ => hu.deliverTo reply u.2 key

theorem sweep (h : t.Sound) (now : Instant) : (t.sweep now).1.Sound := by
  cases hrun : t.sweeps now with
  | false =>
    rw [sweep_of_not_sweeps hrun]
    exact h
  | true =>
    have hsound : Sound { t with
        entries := t.entries.filterMap (kept now t.settings.cleanInterval) } := by
      refine h.of_entries (keys_filterMap_sublist (fun _ _ => key_of_kept) _) ?_
      intro d hd
      obtain ⟨e, he, hkept⟩ := List.mem_filterMap.1 hd
      rw [← swept_of_kept hkept]
      exact (h.entries e he).swept _
    have hentries := entries_sweep hrun
    constructor
    · rw [size, hentries, settings_sweep]
      exact hsound.size_le
    · rw [hentries]
      exact hsound.keys_nodup
    · rw [hentries, window, settings_sweep]
      exact hsound.entries

theorem record?_eq_some_iff (h : t.Sound) {r : WaitRecord} :
    t.record? key g = some r ↔ ∃ e ∈ t.entries, e.key = key ∧ r ∈ e.waiting ∧ r.face = g := by
  rw [PendingTable.record?_eq_some_iff]
  constructor
  · rintro ⟨e, he, hr⟩
    exact ⟨e, mem_of_find? he, key_of_find? he, PendingEntry.mem_of_record? hr,
      PendingEntry.face_of_record? hr⟩
  · rintro ⟨e, he, hkey, hr, hface⟩
    have hfind := (find?_eq_some_iff h.keys_nodup).2 ⟨he, hkey⟩
    exact ⟨e, hfind, (PendingEntry.record?_eq_some_iff (h.entries e he).faces_nodup).2 ⟨hr, hface⟩⟩

theorem mem_records (h : t.Sound) {r : WaitRecord} :
    (key, r) ∈ t.records ↔ t.record? key r.face = some r := by
  rw [h.record?_eq_some_iff]
  simp only [records, List.mem_flatMap, List.mem_map, Prod.mk.injEq, and_true]
  constructor
  · rintro ⟨e, he, q, hq, rfl, rfl⟩
    exact ⟨e, he, rfl, hq⟩
  · rintro ⟨e, he, rfl, hr⟩
    exact ⟨e, he, r, hr, rfl, rfl⟩

theorem mem_records_withdrawn {u : PendingTable} (h : t.Sound) (hu : u.Sound)
    {keys : List PendingKey} {r : WaitRecord}
    (hrecord : ∀ k f, u.record? k f = if k ∈ keys ∧ f = g then none else t.record? k f) :
    (key, r) ∈ u.records ↔ (key, r) ∈ t.records ∧ ¬(key ∈ keys ∧ r.face = g) := by
  rw [hu.mem_records, h.mem_records, hrecord]
  split
  · rename_i hgone
    simp [hgone]
  · rename_i hkept
    simp [hkept]

theorem expiry_le (h : t.Sound) {e : PendingEntry} {r : WaitRecord} (he : t.find? key = some e)
    (hr : e.record? g = some r) : r.expiry ≤ e.deadline :=
  (h.entry he).expiry_le r (PendingEntry.mem_of_record? hr)

theorem record?_sweep_of_live (h : t.Sound) {r : WaitRecord} (hr : t.record? key g = some r)
    (hlive : now < r.expiry) : (t.sweep now).1.record? key g = some r := by
  cases hrun : t.sweeps now with
  | false => rwa [sweep_of_not_sweeps hrun]
  | true =>
    obtain ⟨e, he, hrec⟩ := PendingTable.record?_eq_some_iff.1 hr
    obtain ⟨d, hd, hmem, hsub, -⟩ := kept_of_live t.settings.cleanInterval
      (PendingEntry.mem_of_record? hrec) hlive (h.expiry_le he hrec)
    have hfind : (t.sweep now).1.find? key = some d := by
      rw [find?_sweep h.keys_nodup hrun, he, Option.bind_some, hd]
    have hnodup := (h.entry he).faces_nodup.sublist (hsub.map (·.face))
    rw [record?_of_find? hfind, PendingEntry.record?_eq_some_iff hnodup]
    exact ⟨hmem, PendingEntry.face_of_record? hrec⟩

theorem record?_of_sweep (h : t.Sound) {r : WaitRecord}
    (hr : (t.sweep now).1.record? key g = some r) : t.record? key g = some r := by
  cases hrun : t.sweeps now with
  | false => rwa [sweep_of_not_sweeps hrun] at hr
  | true =>
    obtain ⟨d, hd, hrec⟩ := PendingTable.record?_eq_some_iff.1 hr
    rw [find?_sweep h.keys_nodup hrun] at hd
    obtain ⟨e, he, hkept⟩ := Option.bind_eq_some_iff.1 hd
    rw [record?_of_find? he, PendingEntry.record?_eq_some_iff (h.entry he).faces_nodup]
    exact ⟨(waiting_of_kept hkept).subset (PendingEntry.mem_of_record? hrec),
      PendingEntry.face_of_record? hrec⟩

theorem mem_returns_of_gone (h : t.Sound) {r : WaitRecord} {payload : Octets}
    (hr : t.record? key g = some r) (hreturn : r.pendingReturn = some payload)
    (hgone : (t.sweep now).1.record? key g = none) : (g, payload) ∈ (t.sweep now).2.returns := by
  cases hrun : t.sweeps now with
  | false =>
    rw [sweep_of_not_sweeps hrun, hr] at hgone
    cases hgone
  | true =>
    obtain ⟨e, he, hrec⟩ := PendingTable.record?_eq_some_iff.1 hr
    have hmem := PendingEntry.mem_of_record? hrec
    have hface := PendingEntry.face_of_record? hrec
    refine (mem_returns_iff hrun).2 ⟨e, mem_of_find? he, r, hmem, ?_, hface, hreturn⟩
    by_contra hkeeps
    have hstays : r ∈ (PendingTable.swept e now t.settings.cleanInterval).waiting := by
      rw [waiting_swept]
      exact List.mem_filter.2 ⟨hmem, by simpa using hkeeps⟩
    have hkept : kept now t.settings.cleanInterval e =
        some (PendingTable.swept e now t.settings.cleanInterval) := by
      refine if_neg ?_
      rw [PendingEntry.dead, Bool.and_eq_true, List.isEmpty_iff]
      rintro ⟨hempty, -⟩
      rw [hempty] at hstays
      exact absurd hstays List.not_mem_nil
    have hfind : (t.sweep now).1.find? key =
        some (PendingTable.swept e now t.settings.cleanInterval) := by
      rw [find?_sweep h.keys_nodup hrun, he, Option.bind_some, hkept]
    rw [record?_of_find? hfind, PendingEntry.record?_eq_none_iff] at hgone
    exact hgone r hstays hface

end Sound
end PendingTable
end NamedData
