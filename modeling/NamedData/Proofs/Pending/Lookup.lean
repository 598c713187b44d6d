import NamedData.Pending.Table
import NamedData.Proofs.Pending.Record

/-!
# What the operations of the table do to each key

The table is seen through `find?`, and through the record of each face under
each key. Every operation has one equation for either view.
-/

namespace NamedData.PendingTable

variable {t : PendingTable} {key k : PendingKey} {face g : FaceId} {now : Instant}

def record? (t : PendingTable) (key : PendingKey) (face : FaceId) : Option WaitRecord :=
  (t.find? key).bind (·.record? face)

def records (t : PendingTable) : List (PendingKey × WaitRecord) :=
  t.entries.flatMap fun e => e.waiting.map (e.key, ·)

theorem mem_of_find? {e : PendingEntry} (h : t.find? key = some e) : e ∈ t.entries :=
  List.mem_of_find?_eq_some h

theorem key_of_find? {e : PendingEntry} (h : t.find? key = some e) : e.key = key := by
  simpa using List.find?_some h

theorem find?_eq_none_iff : t.find? key = none ↔ ∀ e ∈ t.entries, e.key ≠ key := by
  simp [find?]

theorem mem_keys_iff : key ∈ t.entries.map (·.key) ↔ t.find? key ≠ none := by
  rw [ne_eq, find?_eq_none_iff, List.mem_map]
  simp

theorem find?_eq_some_iff (h : (t.entries.map (·.key)).Nodup) {e : PendingEntry} :
    t.find? key = some e ↔ e ∈ t.entries ∧ e.key = key := by
  refine ⟨fun he => ⟨mem_of_find? he, key_of_find? he⟩, ?_⟩
  rintro ⟨he, rfl⟩
  cases hd : t.find? e.key with
  | none => exact absurd rfl (find?_eq_none_iff.1 hd e he)
  | some d =>
    have hkey : d.key = e.key := key_of_find? hd
    rw [List.inj_on_of_nodup_map h (mem_of_find? hd) he hkey]

theorem record?_eq_some_iff {r : WaitRecord} :
    t.record? key g = some r ↔ ∃ e, t.find? key = some e ∧ e.record? g = some r :=
  Option.bind_eq_some_iff

theorem record?_of_find? {e : PendingEntry} (h : t.find? key = some e) :
    t.record? key g = e.record? g := by
  rw [record?, h, Option.bind_some]

theorem record?_eq_none (h : t.find? key = none) : t.record? key g = none := by
  rw [record?, h, Option.bind_none]

theorem record?_of_dead (h : (t.find? key).all (·.dead now)) : t.record? key g = none := by
  cases he : t.find? key with
  | none => exact record?_eq_none he
  | some e =>
    have hdead : e.dead now := by simpa [he] using h
    have hempty : e.waiting = [] := by simpa using (Bool.and_eq_true_iff.1 hdead).1
    rw [record?_of_find? he, PendingEntry.record?_eq_none_iff, hempty]
    exact nofun

theorem record?_congr {u : PendingTable} (h : u.find? key = t.find? key) :
    u.record? key g = t.record? key g := by
  rw [record?, record?, h]

theorem find?_update {f : PendingEntry → PendingEntry} (hf : ∀ e, e.key = key → (f e).key = key) :
    (t.update key f).find? k = if k = key then (t.find? key).map f else t.find? k := by
  have hp : ((fun e : PendingEntry => decide (e.key = k)) ∘
      fun e => if e.key = key then f e else e) = fun e => decide (e.key = k) := by
    funext e
    by_cases h : e.key = key <;> simp [h, hf]
  rw [find?, update, List.find?_map, hp]
  split
  · subst k
    cases he : t.entries.find? fun e => decide (e.key = key) with
    | none => simp [find?, he]
    | some e =>
      have : e.key = key := key_of_find? he
      simp [find?, he, this]
  · rename_i hne
    cases he : t.entries.find? fun e => decide (e.key = k) with
    | none => simp [find?, he]
    | some e =>
      have : e.key = k := key_of_find? he
      simp [find?, he, this, hne]

@[simp] theorem find?_erase : (t.erase key).find? k = if k = key then none else t.find? k := by
  rw [find?, erase, List.find?_filter]
  split
  · subst k
    simp
  · rename_i hne
    rw [find?]
    congr 1
    funext e
    by_cases h : e.key = k <;> simp [h, hne]

@[simp] theorem find?_forget : (t.forget face).find? k = (t.find? k).map (·.forget face) := by
  rw [find?, forget, List.find?_map]
  rfl

@[simp] theorem record?_forget :
    (t.forget face).record? k g = if g = face then none else t.record? k g := by
  rw [record?, find?_forget, record?]
  cases t.find? k with
  | none => simp
  | some e => simp [PendingEntry.record?_forget]

theorem record?_of_forget {r : WaitRecord} (h : (t.forget face).record? k g = some r) :
    t.record? k g = some r := by
  rw [record?_forget] at h
  split at h
  · cases h
  · exact h

theorem record?_update_addAllOnward (faces : List FaceId) :
    (t.update key (·.addAllOnward faces)).record? k g = t.record? k g := by
  rw [record?, find?_update fun e he => (PendingEntry.key_addAllOnward faces).trans he, record?]
  split
  · subst k
    cases t.find? key <;> simp
  · rfl

theorem record?_foldl_addAllOnward (keys : List PendingKey) (faces : List FaceId) :
    (keys.foldl (fun t key => t.update key (·.addAllOnward faces)) t).record? k g =
      t.record? k g := by
  induction keys generalizing t with
  | nil => rfl
  | cons key keys ih => rw [List.foldl_cons, ih, record?_update_addAllOnward]

theorem find?_foldl_addAllOnward {keys : List PendingKey} (hkeys : keys.Nodup)
    (faces : List FaceId) :
    (keys.foldl (fun t key => t.update key (·.addAllOnward faces)) t).find? k =
      if k ∈ keys then (t.find? k).map (·.addAllOnward faces) else t.find? k := by
  induction keys generalizing t with
  | nil => simp
  | cons key keys ih =>
    obtain ⟨hkey, hkeys⟩ := List.nodup_cons.1 hkeys
    rw [List.foldl_cons, ih hkeys,
      find?_update fun e he => (PendingEntry.key_addAllOnward faces).trans he]
    by_cases hk : k = key
    · subst hk
      simp [hkey]
    · simp [hk]

theorem settings_foldl_update (keys : List PendingKey) (f : PendingEntry → PendingEntry) :
    (keys.foldl (fun t key => t.update key f) t).settings = t.settings :=
  keys.foldlRecOn _ (motive := fun u : PendingTable => u.settings = t.settings) rfl
    fun _ hu _ _ => hu

theorem find?_release :
    (t.release face key).find? k =
      if k = key then
        ((t.find? key).map (·.release face)).filter fun e => !e.waiting.isEmpty
      else t.find? k := by
  cases he : t.find? key with
  | none =>
    simp only [release, he]
    by_cases hk : k = key
    · simp [hk, he]
    · simp [hk]
  | some e =>
    simp only [release, he]
    by_cases hempty : (e.release face).waiting.isEmpty
    · rw [if_pos hempty, find?_erase]
      simp [Option.filter, hempty]
    · rw [if_neg hempty, find?_update (by exact fun _ h => h)]
      simp [Option.filter, he, hempty]

theorem record?_release :
    (t.release face key).record? k g =
      if k = key ∧ g = face then none else t.record? k g := by
  rw [record?, find?_release]
  by_cases hk : k = key
  · subst hk
    cases he : t.find? k with
    | none => simp [record?, he]
    | some e =>
      rw [record?_of_find? he]
      by_cases hempty : (e.release face).waiting = []
      · have hnone : (e.release face).record? g = none := by
          rw [PendingEntry.record?_eq_none_iff, hempty]
          simp
        rw [PendingEntry.record?_release] at hnone
        simp [Option.filter, hempty, hnone]
      · simp [Option.filter, hempty]
  · simp [hk, record?]

theorem record?_releaseAll (keys : List PendingKey) :
    (t.releaseAll face keys).record? k g =
      if k ∈ keys ∧ g = face then none else t.record? k g := by
  induction keys generalizing t with
  | nil => simp [releaseAll]
  | cons key keys ih =>
    have hstep : t.releaseAll face (key :: keys) = (t.release face key).releaseAll face keys := rfl
    rw [hstep, ih, record?_release]
    by_cases hg : g = face <;> by_cases hk : k = key <;> simp [hg, hk]

/-- Releasing a face from some keys changes the entries there, and those that nobody waits on any
longer are gone. -/
theorem find?_releaseAll (keys : List PendingKey) :
    (t.releaseAll face keys).find? k =
      if k ∈ keys then ((t.find? k).map (·.release face)).filter fun e => !e.waiting.isEmpty
      else t.find? k := by
  induction keys generalizing t with
  | nil => simp [releaseAll]
  | cons key keys ih =>
    have hstep : t.releaseAll face (key :: keys) = (t.release face key).releaseAll face keys := rfl
    rw [hstep, ih, find?_release]
    by_cases hk : k = key
    · subst hk
      rw [if_pos rfl, if_pos List.mem_cons_self]
      split
      · cases he : t.find? k with
        | none => rfl
        | some e =>
          have htwice : (e.release face).release face = e.release face := by
            simp [PendingEntry.release]
          by_cases hempty : (e.release face).waiting = [] <;>
            simp [Option.filter, hempty, htwice]
      · rfl
    · simp [hk]

@[simp] theorem settings_release : (t.release face key).settings = t.settings := by
  unfold release
  repeat' split
  all_goals rfl

theorem settings_releaseAll (keys : List PendingKey) :
    (t.releaseAll face keys).settings = t.settings :=
  keys.foldlRecOn _ (motive := fun u : PendingTable => u.settings = t.settings) rfl
    fun _ hu _ _ => settings_release.trans hu

end NamedData.PendingTable
