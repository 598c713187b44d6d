import NamedData.Proofs.Pending.Invariant

/-!
# Tables made by operations

Nine operations change the table or the entry under one of its keys. A table is
reachable when some sequence of them makes it from an empty table, and whatever
the sequence and its times, the table has its shape. What a request does when it
joins the table is one such sequence.
-/

namespace NamedData

def PendingEntry.restrict (e : PendingEntry) (restrictions : Restrictions) : PendingEntry :=
  { e with restrictions }

namespace PendingTable

/-- What can be done to a table, or to the entry under one of its keys. -/
inductive Operation
  | obtain (key : PendingKey) (kind : PendingKind) (now : Instant)
  | join (key : PendingKey) (face : FaceId) (lifetime : Nat) (fingerprint : UInt64) (now : Instant)
    (s : Suppression)
  | restrict (key : PendingKey) (restrictions : Restrictions)
  | deferReturn (key : PendingKey) (face : FaceId) (payload : Octets)
  | addOnward (key : PendingKey) (face : FaceId)
  | release (face : FaceId) (key : PendingKey)
  | deliver (reply : Message) (now : Instant)
  | sweep (now : Instant)
  | forget (face : FaceId)

/-- The table after an operation. One on an entry does nothing where there is no entry. -/
def apply (t : PendingTable) : Operation → PendingTable
  | .obtain key kind now => ((t.obtain? key kind now).map (·.1)).getD t
  | .join key face lifetime fingerprint now s =>
    t.update key fun e => (e.join face lifetime fingerprint now s).1
  | .restrict key restrictions => t.update key (·.restrict restrictions)
  | .deferReturn key face payload => t.update key (·.deferReturn face payload)
  | .addOnward key face => t.update key (·.addOnward face)
  | .release face key => t.release face key
  | .deliver reply now => (t.deliver reply now).1
  | .sweep now => (t.sweep now).1
  | .forget face => t.forget face

def operate (t : PendingTable) (ops : List Operation) : PendingTable := ops.foldl apply t

def Reachable (t : PendingTable) : Prop :=
  ∃ (settings : PendingSettings) (ops : List Operation), t = (empty settings).operate ops

variable {t u : PendingTable} {key : PendingKey} {kind : PendingKind} {now : Instant}
variable {e : PendingEntry}

theorem operate_append (t : PendingTable) (ops more : List Operation) :
    t.operate (ops ++ more) = (t.operate ops).operate more :=
  List.foldl_append ..

theorem Reachable.operate (h : t.Reachable) (ops : List Operation) : (t.operate ops).Reachable := by
  obtain ⟨settings, past, rfl⟩ := h
  exact ⟨settings, past ++ ops, (operate_append ..).symm⟩

theorem settings_apply (t : PendingTable) (op : Operation) :
    (t.apply op).settings = t.settings := by
  cases op with
  | obtain key kind now =>
    simp only [apply]
    cases h : t.obtain? key kind now with
    | none => rfl
    | some found =>
      rcases obtain?_cases h with ⟨-, hsame, -⟩ | ⟨-, hput, -⟩
      · simp [hsame]
      · simp [hput]
  | join | restrict | deferReturn | addOnward | forget => rfl
  | release face key => exact settings_release
  | deliver reply now => exact settings_deliver
  | sweep now => exact settings_sweep

namespace Sound

theorem obtain (h : t.Sound) (key : PendingKey) (kind : PendingKind) (now : Instant) :
    (t.apply (.obtain key kind now)).Sound := by
  simp only [apply]
  cases hfound : t.obtain? key kind now with
  | none => exact h
  | some found =>
    have hsome : t.obtain? key kind now ≠ none := by simp [hfound]
    have hroom := mt obtain?_eq_none_iff.2 hsome
    rcases obtain?_cases hfound with ⟨-, hsame, -⟩ | ⟨-, hput, hnew, -⟩
    · rwa [Option.map_some, Option.getD_some, hsame]
    · rw [Option.map_some, Option.getD_some, hput, hnew]
      exact h.put (.create _ _ _ _ {}) hroom

theorem apply (h : t.Sound) (op : Operation) : (t.apply op).Sound := by
  cases op with
  | obtain key kind now => exact h.obtain key kind now
  | join key face lifetime fingerprint now s =>
    refine h.update ?_ fun _ _ _ he => he.join _ _ s
    exact fun e hkey => (e.join_fields ..).1.trans hkey
  | restrict => exact h.update (fun _ hkey => hkey) fun _ _ _ he => ⟨he.1, he.2, he.3, he.4, he.5⟩
  | deferReturn key face payload =>
    exact h.update (fun _ hkey => hkey) fun _ _ _ he => he.deferReturn face payload
  | addOnward key face =>
    refine h.update ?_ fun _ _ _ he => he.addOnward face
    exact fun _ hkey => (PendingEntry.key_addAllOnward [face]).trans hkey
  | release face key => exact h.release face key
  | deliver reply now => exact h.deliver reply now
  | sweep now => exact h.sweep now
  | forget face => exact h.forget face

theorem operate (h : t.Sound) (ops : List Operation) : (t.operate ops).Sound :=
  ops.foldlRecOn _ h fun _ hu op _ => hu.apply op

end Sound

theorem settings_operate (t : PendingTable) (ops : List Operation) :
    (t.operate ops).settings = t.settings :=
  ops.foldlRecOn _ (motive := fun u : PendingTable => u.settings = t.settings) rfl
    fun u hu op _ => (settings_apply u op).trans hu

theorem Reachable.sound (h : t.Reachable) : t.Sound := by
  obtain ⟨settings, ops, rfl⟩ := h
  exact (Sound.empty settings).operate ops

/-- Whatever operations make a table, it has at most as many entries as it may, each found
under its own key and no two under one. No face is twice among those that wait on an entry or
among those that its request was sent to, no record outlives the deadline of its entry, and
the chunks that an entry remembers are distinct and no more than the window. -/
theorem shape_of_operate (settings : PendingSettings) (ops : List Operation) :
    let t := (empty settings).operate ops
    t.size ≤ settings.capacity ∧
      (t.entries.map (·.key)).Nodup ∧
      (∀ e ∈ t.entries, t.find? e.key = some e) ∧
      ∀ e ∈ t.entries,
        (e.waiting.map (·.face)).Nodup ∧ e.onward.Nodup ∧
        (∀ r ∈ e.waiting, r.expiry ≤ e.deadline) ∧
        e.delivered.Nodup ∧ e.delivered.length ≤ max settings.symbolicWindow 1 := by
  intro t
  have h : t.Sound := (Sound.empty settings).operate ops
  have hsettings : t.settings = settings := settings_operate (empty settings) ops
  refine ⟨?_, h.keys_nodup, ?_, ?_⟩
  · rw [← hsettings]
    exact h.size_le
  · exact fun e he => (find?_eq_some_iff h.keys_nodup).2 ⟨he, rfl⟩
  · intro e he
    have hentry := h.entries e he
    have hwindow := hentry.delivered_le
    rw [window, hsettings] at hwindow
    exact ⟨hentry.faces_nodup, hentry.onward_nodup, hentry.expiry_le, hentry.delivered_nodup,
      hwindow⟩

theorem update_update {f g : PendingEntry → PendingEntry}
    (hf : ∀ e, e.key = key → (f e).key = key) :
    (t.update key f).update key g = t.update key (g ∘ f) := by
  simp only [update, List.map_map]
  congr 1
  apply List.map_congr_left
  intro e _
  by_cases he : e.key = key <;> simp [he, hf]

theorem update_congr (h : t.Sound) {f g : PendingEntry → PendingEntry}
    (he : t.find? key = some e) (hfg : f e = g e) : t.update key f = t.update key g := by
  simp only [update]
  congr 1
  apply List.map_congr_left
  intro d hd
  split
  · rename_i hkey
    rwa [h.eq_of_find? he hd hkey]
  · rfl

theorem find?_of_obtain? {isNew : Bool} (h : t.obtain? key kind now = some (u, e, isNew)) :
    u.find? key = some e := by
  rcases obtain?_cases h with ⟨-, rfl, he, -⟩ | ⟨-, rfl, rfl, -⟩
  · exact he
  · simp [find?_put, PendingEntry.create]

namespace Entrant

/-- What a request does to the entry that it has obtained. -/
def changes (r : Entrant) (s : Suppression) (key : PendingKey) (isNew : Bool) : List Operation :=
  (if isNew then [.restrict key r.request.restrictions] else []) ++
    [.join key r.face r.request.lifetime r.request.fingerprint r.now s] ++
    (r.deferred.map (.deferReturn key r.face)).toList

def operations (r : Entrant) (s : Suppression) (key : PendingKey × PendingKind) (isNew : Bool) :
    List Operation :=
  .obtain key.1 key.2 r.now :: r.changes s key.1 isNew

theorem operate_changes (r : Entrant) (s : Suppression) (key : PendingKey) (isNew : Bool) :
    t.operate (r.changes s key isNew) = t.update key fun e =>
      r.joins s (if isNew then e.restrict r.request.restrictions else e) := by
  have hrestrict : ∀ e : PendingEntry, e.key = key →
      (e.restrict r.request.restrictions).key = key := fun _ hkey => hkey
  have hjoin : ∀ e : PendingEntry, e.key = key →
      (e.join r.face r.request.lifetime r.request.fingerprint r.now s).1.key = key :=
    fun e hkey => (e.join_fields ..).1.trans hkey
  cases isNew with
  | false =>
    cases hd : r.deferred with
    | none => simp [operate, changes, joins, hd, apply]
    | some payload =>
      simp only [operate, changes, joins, hd, Bool.false_eq_true, if_false, Option.map_some,
        Option.toList_some, List.nil_append, List.cons_append, List.foldl_cons, List.foldl_nil,
        apply]
      exact update_update hjoin
  | true =>
    cases hd : r.deferred with
    | none =>
      simp only [operate, changes, joins, hd, if_true, Option.map_none, Option.toList_none,
        List.append_nil, List.cons_append, List.nil_append, List.foldl_cons, List.foldl_nil, apply]
      exact update_update hrestrict
    | some payload =>
      simp only [operate, changes, joins, hd, if_true, Option.map_some, Option.toList_some,
        List.cons_append, List.nil_append, List.foldl_cons, List.foldl_nil, apply]
      rw [update_update hrestrict]
      exact update_update fun e hkey => hjoin _ (hrestrict e hkey)

end Entrant

/-- A request that joins obtains its entry, restricts it if it is new, adds its record and
attaches its return to that. -/
theorem table_eq_operate (h : t.Sound) {s : Suppression} {r : Entrant}
    {key : PendingKey × PendingKind} {j : Joined} (hj : t.join? s r key = some j) :
    j.table = t.operate (r.operations s key j.isNew) := by
  obtain ⟨⟨u, e, isNew⟩, ho, rfl⟩ := Option.map_eq_some_iff.1 hj
  have hobtain : t.apply (.obtain key.1 key.2 r.now) = u := by simp [apply, ho]
  have hsound : u.Sound := hobtain ▸ h.obtain key.1 key.2 r.now
  calc
    _ = u.update key.1 fun _ =>
        r.joins s (if isNew then e.restrict r.request.restrictions else e) := rfl
    _ = u.update key.1 fun e =>
        r.joins s (if isNew then e.restrict r.request.restrictions else e) :=
      update_congr hsound (find?_of_obtain? ho) rfl
    _ = u.operate (r.changes s key.1 isNew) := (r.operate_changes s key.1 isNew).symm
    _ = t.operate (r.operations s key isNew) := by
      rw [← hobtain]
      rfl

theorem releaseAll_eq_operate (t : PendingTable) (face : FaceId) (keys : List PendingKey) :
    t.releaseAll face keys = t.operate (keys.map (.release face)) := by
  rw [operate, List.foldl_map]
  rfl

theorem addAllOnward_eq_operate (t : PendingTable) (key : PendingKey) (faces : List FaceId) :
    t.update key (·.addAllOnward faces) = t.operate (faces.map (.addOnward key)) := by
  induction faces generalizing t with
  | nil =>
    have hsame : t.entries.map (fun e => if e.key = key then e else e) = t.entries := by simp
    exact congrArg (fun entries => { t with entries }) hsame
  | cons face faces ih =>
    have hkey : ∀ e : PendingEntry, e.key = key → (e.addOnward face).key = key :=
      fun _ hkey => (PendingEntry.key_addAllOnward [face]).trans hkey
    calc
      _ = (t.update key (·.addOnward face)).update key (·.addAllOnward faces) :=
        (update_update hkey).symm
      _ = _ := ih _

theorem foldl_addAllOnward_eq_operate (t : PendingTable) (keys : List PendingKey)
    (faces : List FaceId) :
    keys.foldl (fun t key => t.update key (·.addAllOnward faces)) t =
      t.operate (keys.flatMap fun key => faces.map (.addOnward key)) := by
  induction keys generalizing t with
  | nil => rfl
  | cons key keys ih =>
    rw [List.foldl_cons, ih, addAllOnward_eq_operate, List.flatMap_cons, operate_append]

end PendingTable
end NamedData
