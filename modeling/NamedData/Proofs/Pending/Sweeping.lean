import NamedData.Proofs.Pending.Lookup

/-!
# What a sweep does to the table

A sweep looks at every entry on its own: it drops records, and the entry itself
when nobody is left waiting and its deadline has come.
-/

namespace NamedData.PendingTable

variable {t : PendingTable} {k : PendingKey} {g : FaceId} {now : Instant} {cleanInterval : Nat}

def kept (now cleanInterval : Nat) (e : PendingEntry) : Option PendingEntry :=
  if (swept e now cleanInterval).dead now then none else some (swept e now cleanInterval)

/-- Whether a sweep runs, which it does once in every period. -/
def sweeps (t : PendingTable) (now : Instant) : Bool := !t.nextSweep.any (now < ·)

@[simp] theorem key_swept (e : PendingEntry) : (swept e now cleanInterval).key = e.key := by
  unfold swept
  repeat' split
  all_goals rfl

theorem swept_of_kept {e d : PendingEntry} (h : kept now cleanInterval e = some d) :
    swept e now cleanInterval = d := by
  unfold kept at h
  split at h
  · cases h
  · exact Option.some.inj h

theorem key_of_kept {e d : PendingEntry} (h : kept now cleanInterval e = some d) :
    d.key = e.key := by
  rw [← swept_of_kept h, key_swept]

theorem due_of_sweeps (h : t.sweeps now) : ¬t.nextSweep.any (now < ·) := by
  simpa [sweeps] using h

theorem entries_sweep (h : t.sweeps now) :
    (t.sweep now).1.entries = t.entries.filterMap (kept now t.settings.cleanInterval) := by
  simp only [sweep, if_neg (due_of_sweeps h)]
  induction t.entries with
  | nil => rfl
  | cons e es ih =>
    rw [List.map_cons, List.filter_cons, List.filterMap_cons, ih]
    by_cases hdead : (swept e now t.settings.cleanInterval).dead now <;> simp [kept, hdead]

theorem sweep_of_not_sweeps (h : t.sweeps now = false) : t.sweep now = (t, {}) := by
  have hrun : t.nextSweep.any (now < ·) := by simpa [sweeps] using h
  simp only [sweep, if_pos hrun]

theorem ran_sweep (h : t.sweeps now) : (t.sweep now).2.ran := by
  rw [sweep, if_neg (due_of_sweeps h)]

@[simp] theorem settings_sweep : (t.sweep now).1.settings = t.settings := by
  unfold sweep
  split <;> rfl

/-- Where no key comes twice, changing or dropping every entry commutes with looking one up. -/
theorem find?_filterMap {f : PendingEntry → Option PendingEntry}
    (hf : ∀ e d, f e = some d → d.key = e.key) {entries : List PendingEntry}
    (h : (entries.map (·.key)).Nodup) :
    (entries.filterMap f).find? (·.key = k) = (entries.find? (·.key = k)).bind f := by
  induction entries with
  | nil => rfl
  | cons e es ih =>
    obtain ⟨hkey, hes⟩ := List.nodup_cons.1 h
    by_cases he : e.key = k
    · subst he
      have hnone : es.find? (fun d => decide (d.key = e.key)) = none := by
        rw [List.find?_eq_none]
        intro d hd
        simpa using fun hk => hkey (List.mem_map.2 ⟨d, hd, hk⟩)
      cases hfe : f e with
      | none => simp [hfe, ih hes, hnone]
      | some d => simp [hfe, hf e d hfe]
    · cases hfe : f e with
      | none => simp [hfe, ih hes, he]
      | some d => simp [hfe, ih hes, he, hf e d hfe]

theorem keys_filterMap_sublist {f : PendingEntry → Option PendingEntry}
    (hf : ∀ e d, f e = some d → d.key = e.key) (entries : List PendingEntry) :
    ((entries.filterMap f).map (·.key)).Sublist (entries.map (·.key)) := by
  induction entries with
  | nil => exact List.Sublist.refl _
  | cons e es ih =>
    cases hfe : f e with
    | none => simpa [hfe] using ih.cons _
    | some d => simpa [hfe, hf e d hfe] using ih

theorem find?_sweep (hkeys : (t.entries.map (·.key)).Nodup) (h : t.sweeps now) :
    (t.sweep now).1.find? k = (t.find? k).bind (kept now t.settings.cleanInterval) := by
  rw [find?, entries_sweep h]
  exact find?_filterMap (fun _ _ => key_of_kept) hkeys

theorem kept_of_dead {e : PendingEntry} (h : e.dead now) : kept now cleanInterval e = none := by
  have hdeadline : e.deadline ≤ now := by simpa using (Bool.and_eq_true_iff.1 h).2
  refine if_pos ?_
  simp [swept, hdeadline, PendingEntry.dead]

theorem dead_sweep (hkeys : (t.entries.map (·.key)).Nodup)
    (hdead : (t.find? k).all (·.dead now)) : ((t.sweep now).1.find? k).all (·.dead now) := by
  cases hrun : t.sweeps now with
  | false => rwa [sweep_of_not_sweeps hrun]
  | true =>
    rw [find?_sweep hkeys hrun]
    cases he : t.find? k with
    | none => rfl
    | some e => rw [Option.bind_some, kept_of_dead (by simpa [he] using hdead), Option.all_none]

/-- A live record outlasts a sweep, with all of its entry but the other records,
as long as no record outlives the deadline. -/
theorem kept_of_live (cleanInterval : Nat) {e : PendingEntry} {r : WaitRecord} (hr : r ∈ e.waiting)
    (hlive : now < r.expiry) (hdeadline : r.expiry ≤ e.deadline) :
    ∃ d, kept now cleanInterval e = some d ∧ r ∈ d.waiting ∧ d.waiting.Sublist e.waiting ∧
      d.kind = e.kind ∧ d.restrictions = e.restrictions ∧ d.onward = e.onward ∧
      d.delivered = e.delivered ∧ d.deadline = e.deadline := by
  have hopen : ¬e.deadline ≤ now := Nat.not_le.2 (Nat.lt_of_lt_of_le hlive hdeadline)
  have hmem : r ∈ (swept e now cleanInterval).waiting := by
    simp only [swept, if_neg hopen]
    split
    · exact List.mem_filter.2 ⟨hr, by simpa [WaitRecord.live] using hlive⟩
    · exact hr
  have hdead : (swept e now cleanInterval).dead now = false := by
    rw [PendingEntry.dead, Bool.and_eq_false_iff]
    left
    cases hw : (swept e now cleanInterval).waiting with
    | nil => simp [hw] at hmem
    | cons q qs => rfl
  refine ⟨swept e now cleanInterval, by simp [kept, hdead], hmem, ?_⟩
  simp only [swept, if_neg hopen]
  split
  · exact ⟨List.filter_sublist, rfl, rfl, rfl, rfl, rfl⟩
  · exact ⟨List.Sublist.refl _, rfl, rfl, rfl, rfl, rfl⟩

def drops (now : Instant) (e : PendingEntry) (r : WaitRecord) : Bool :=
  e.deadline ≤ now || e.cleanDue ≤ now && !r.live now

theorem dropped_eq (e : PendingEntry) : dropped e now = e.waiting.filter (drops now e) := by
  unfold dropped drops
  by_cases hdeadline : e.deadline ≤ now
  · simp [hdeadline]
  · by_cases hdue : e.cleanDue ≤ now <;> simp [hdeadline, hdue]

theorem waiting_swept (e : PendingEntry) :
    (swept e now cleanInterval).waiting = e.waiting.filter (!drops now e ·) := by
  unfold swept drops
  by_cases hdeadline : e.deadline ≤ now
  · simp [hdeadline]
  · by_cases hdue : e.cleanDue ≤ now <;> simp [hdeadline, hdue]

theorem waiting_of_kept {e d : PendingEntry} (h : kept now cleanInterval e = some d) :
    d.waiting.Sublist e.waiting := by
  rw [← swept_of_kept h, waiting_swept]
  exact List.filter_sublist

theorem onward_of_kept {e d : PendingEntry} (h : kept now cleanInterval e = some d) :
    d.onward = e.onward := by
  rw [← swept_of_kept h, swept]
  repeat' split
  all_goals rfl

theorem returns_sweep (h : t.sweeps now) :
    (t.sweep now).2.returns = returnsOf (t.entries.flatMap (dropped · now)) := by
  rw [sweep, if_neg (due_of_sweeps h)]

theorem expired_sweep (h : t.sweeps now) :
    (t.sweep now).2.expired = (t.entries.flatMap (dropped · now)).length := by
  rw [sweep, if_neg (due_of_sweeps h)]

theorem mem_returnsOf {records : List WaitRecord} {payload : Octets} :
    (g, payload) ∈ returnsOf records ↔
      ∃ r ∈ records, r.face = g ∧ r.pendingReturn = some payload := by
  unfold returnsOf
  rw [List.mem_filterMap]
  constructor
  · rintro ⟨r, hr, hreturn⟩
    obtain ⟨payload', hpayload, heq⟩ := Option.map_eq_some_iff.1 hreturn
    obtain ⟨rfl, rfl⟩ := Prod.mk.inj heq
    exact ⟨r, hr, rfl, hpayload⟩
  · rintro ⟨r, hr, rfl, hpayload⟩
    exact ⟨r, hr, by rw [hpayload]; rfl⟩

theorem mem_returns_iff (h : t.sweeps now) {payload : Octets} :
    (g, payload) ∈ (t.sweep now).2.returns ↔
      ∃ e ∈ t.entries, ∃ r ∈ e.waiting, drops now e r ∧ r.face = g ∧
        r.pendingReturn = some payload := by
  simp only [returns_sweep h, mem_returnsOf, List.mem_flatMap, dropped_eq, List.mem_filter]
  constructor
  · rintro ⟨r, ⟨e, he, hr, hdrop⟩, hface, hpayload⟩
    exact ⟨e, he, r, hr, hdrop, hface, hpayload⟩
  · rintro ⟨e, he, r, hr, hdrop, hface, hpayload⟩
    exact ⟨r, ⟨e, he, hr, hdrop⟩, hface, hpayload⟩

theorem mem_returns_sweep {payload : Octets} (h : (g, payload) ∈ (t.sweep now).2.returns) :
    ∃ e ∈ t.entries, ∃ r ∈ e.waiting, r.face = g ∧ r.pendingReturn = some payload := by
  cases hrun : t.sweeps now with
  | false =>
    rw [sweep_of_not_sweeps hrun] at h
    exact absurd h List.not_mem_nil
  | true =>
    obtain ⟨e, he, r, hr, -, hface, hpayload⟩ := (mem_returns_iff hrun).1 h
    exact ⟨e, he, r, hr, hface, hpayload⟩

end NamedData.PendingTable
