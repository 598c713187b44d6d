import NamedData.Proofs.Pending.Lookup

/-!
# What a reply does to the table

A reply is handed to the entries under its keys that it matches, whose
restrictions it satisfies and that have not had its chunk before. It goes to the
live faces of these entries. Of an entry that it is handed to, a window remains.
-/

namespace NamedData.PendingTable

variable {t : PendingTable} {key k : PendingKey} {g : FaceId} {now : Instant}
variable {reply : Message}

def takes (reply : Message) (e : PendingEntry) : Bool :=
  matchesKind reply e &&
    (reply.kind ≠ .contentObject || e.restrictions.accept reply) &&
    (e.kind ≠ .symbolic || reply.chunk.getD 0 ∉ e.delivered)

/-- What a reply leaves of an entry under one of its keys. -/
def remainder (reply : Message) (window : Nat) (e : PendingEntry) : Option PendingEntry :=
  if !takes reply e then some e
  else if e.kind = .symbolic then some (e.remember (reply.chunk.getD 0) window)
  else none

def reached (t : PendingTable) (reply : Message) (now : Instant) (key : PendingKey) :
    List FaceId :=
  match t.find? key with
  | none => []
  | some e => if takes reply e then e.liveFaces now else []

/-- Whether a reply has what an entry asks for besides the name. -/
def meets (reply : Message) (e : PendingEntry) : Bool :=
  reply.kind ≠ .contentObject || e.restrictions.accept reply

/-- What a delivery comes to with the entry that is found under one more key. -/
def handed (reply : Message) (now : Instant) (d : Delivery) : Option PendingEntry → Delivery
  | none => d
  | some e =>
    { faces := if takes reply e then pushNew d.faces (e.liveFaces now) else d.faces
      matched := if matchesKind reply e then d.matched + 1 else d.matched
      rejected := if matchesKind reply e && !meets reply e then d.rejected + 1 else d.rejected }

def spend (t : PendingTable) (reply : Message) (key : PendingKey) : PendingTable :=
  match t.find? key with
  | none => t
  | some e =>
    if !takes reply e then t
    else if e.kind = .symbolic then t.update key (·.remember (reply.chunk.getD 0) t.window)
    else t.erase key

theorem remainder_eq_none_iff {window : Nat} {e : PendingEntry} :
    remainder reply window e = none ↔ takes reply e ∧ e.kind ≠ .symbolic := by
  unfold remainder
  cases takes reply e <;> by_cases hkind : e.kind = .symbolic <;> simp [hkind]

theorem eq_of_remainder {window : Nat} {e d : PendingEntry}
    (h : remainder reply window e = some d) : d = { e with delivered := d.delivered } := by
  unfold remainder at h
  split at h
  · rw [← Option.some.inj h]
  · split at h
    · rw [← Option.some.inj h]
      rfl
    · exact absurd h (by simp)

theorem waiting_of_remainder {window : Nat} {e d : PendingEntry}
    (h : remainder reply window e = some d) : d.waiting = e.waiting := by
  rw [eq_of_remainder h]

theorem onward_of_remainder {window : Nat} {e d : PendingEntry}
    (h : remainder reply window e = some d) : d.onward = e.onward := by
  rw [eq_of_remainder h]

theorem deliverTo_eq (d : Delivery) :
    deliverTo reply now (t, d) key = (t.spend reply key, handed reply now d (t.find? key)) := by
  cases he : t.find? key with
  | none => simp only [deliverTo, spend, he, handed]
  | some e =>
    by_cases hkind : matchesKind reply e
    · by_cases hrejected : reply.kind = .contentObject ∧ e.restrictions.accept reply = false
      · simp [deliverTo, spend, he, handed, takes, meets, hkind, hrejected]
      · have hmeets : reply.kind ≠ .contentObject ∨ e.restrictions.accept reply := by
          by_cases hobject : reply.kind = .contentObject
          · exact .inr (by simpa [hobject] using hrejected)
          · exact .inl hobject
        by_cases hwindow : e.kind = .symbolic
        · by_cases hhad : reply.chunk.getD 0 ∈ e.delivered <;>
            simp [deliverTo, spend, he, handed, takes, meets, hkind, hrejected, hmeets, hwindow,
              hhad]
        · simp [deliverTo, spend, he, handed, takes, meets, hkind, hrejected, hmeets, hwindow]
    · simp [deliverTo, spend, he, handed, takes, hkind]

theorem deliverTo_of_find?_eq_none (h : t.find? key = none) (d : Delivery) :
    deliverTo reply now (t, d) key = (t, d) := by
  simp only [deliverTo, h]

theorem delivery_deliverTo (d : Delivery) :
    (deliverTo reply now (t, d) key).2 = handed reply now d (t.find? key) :=
  congrArg Prod.snd (deliverTo_eq d)

/-- An entry that takes the reply is consumed or, if it is a window, remembers the chunk. -/
theorem deliverTo_cases (reply : Message) (now : Instant) (d : Delivery) {e : PendingEntry}
    (he : t.find? key = some e) :
    (takes reply e = false ∧ (deliverTo reply now (t, d) key).1 = t) ∨
      (takes reply e ∧ (deliverTo reply now (t, d) key).1 =
        if e.kind = .symbolic then t.update key (·.remember (reply.chunk.getD 0) t.window)
        else t.erase key) := by
  rw [deliverTo_eq]
  cases htakes : takes reply e with
  | false => exact .inl ⟨rfl, by simp [spend, he, htakes]⟩
  | true => exact .inr ⟨rfl, by simp [spend, he, htakes]⟩

theorem find?_deliverTo (d : Delivery) :
    (deliverTo reply now (t, d) key).1.find? k =
      if k = key then (t.find? key).bind (remainder reply t.window) else t.find? k := by
  cases he : t.find? key with
  | none =>
    rw [deliverTo_of_find?_eq_none he]
    split
    · rename_i hk
      rw [hk, he, Option.bind_none]
    · rfl
  | some e =>
    rcases deliverTo_cases reply now d he with ⟨htake, ht⟩ | ⟨htake, ht⟩
    · rw [ht]
      split
      · rename_i hk
        simp [hk, he, remainder, htake]
      · rfl
    · rw [ht]
      by_cases hw : e.kind = .symbolic
      · rw [if_pos hw, find?_update (by exact fun _ h => h)]
        simp [he, remainder, htake, hw]
      · rw [if_neg hw, find?_erase]
        simp [remainder, htake, hw]

theorem faces_handed (d : Delivery) :
    (handed reply now d (t.find? key)).faces = pushNew d.faces (t.reached reply now key) := by
  cases he : t.find? key with
  | none => simp [handed, reached, he, pushNew]
  | some e => by_cases htakes : takes reply e <;> simp [handed, reached, he, htakes, pushNew]

@[simp] theorem settings_deliverTo (u : PendingTable × Delivery) :
    (deliverTo reply now u key).1.settings = u.1.settings := by
  unfold deliverTo
  dsimp only
  repeat' split
  all_goals rfl

theorem pushNew_append (a b c : List FaceId) : pushNew (pushNew a b) c = pushNew a (b ++ c) :=
  (List.foldl_append ..).symm

theorem mem_pushNew (faces more : List FaceId) : g ∈ pushNew faces more ↔ g ∈ faces ∨ g ∈ more := by
  induction more generalizing faces with
  | nil => simp [pushNew]
  | cons f fs ih =>
    have hstep : pushNew faces (f :: fs) = pushNew (if f ∈ faces then faces else faces ++ [f]) fs :=
      rfl
    rw [hstep, ih]
    split
    · rename_i hf
      grind
    · simp [or_assoc]

theorem pushNew_eq {more : List FaceId} (faces : List FaceId) (h : more.Nodup) :
    pushNew faces more = faces ++ more.filter (· ∉ faces) := by
  induction more generalizing faces with
  | nil => simp [pushNew]
  | cons f fs ih =>
    obtain ⟨hf, hfs⟩ := List.nodup_cons.1 h
    have hstep : pushNew faces (f :: fs) = pushNew (if f ∈ faces then faces else faces ++ [f]) fs :=
      rfl
    rw [hstep, ih _ hfs]
    by_cases hmem : f ∈ faces
    · simp [hmem]
    · have hrest : fs.filter (· ∉ faces ++ [f]) = fs.filter (· ∉ faces) := by
        refine List.filter_congr fun g hg => ?_
        have hne : g ≠ f := fun h => hf (h ▸ hg)
        simp [hne]
      rw [if_neg hmem, hrest, List.filter_cons_of_pos (by simpa using hmem), List.append_assoc,
        List.singleton_append]

theorem addAllOnward_eq (e : PendingEntry) (faces : List FaceId) :
    e.addAllOnward faces = { e with onward := pushNew e.onward faces } := by
  induction faces generalizing e with
  | nil => rfl
  | cons f fs ih =>
    have hstep : e.addAllOnward (f :: fs) = (e.addOnward f).addAllOnward fs := rfl
    rw [hstep, ih, PendingEntry.addOnward]
    by_cases hf : f ∈ e.onward <;> simp [hf, pushNew]

theorem nodup_pushNew (faces more : List FaceId) (h : faces.Nodup) :
    (pushNew faces more).Nodup := by
  induction more generalizing faces with
  | nil => exact h
  | cons f fs ih =>
    refine ih (if f ∈ faces then faces else faces ++ [f]) ?_
    split
    · exact h
    · rename_i hf
      exact List.Nodup.append h (by simp) (by simpa using hf)

theorem nodup_candidates : (candidates reply).Nodup := by
  unfold candidates
  split <;> simp

theorem mem_candidates_iff :
    k ∈ candidates reply ↔ k = .exact reply.name reply.chunk ∨
      (reply.kind = .contentObject ∧ reply.chunk.isSome) ∧ k = .window reply.name := by
  unfold candidates
  split <;> simp_all

theorem exact_mem_candidates {n : Name} {c : Option UInt32} :
    .exact n c ∈ candidates reply ↔ reply.name = n ∧ reply.chunk = c := by
  unfold candidates
  split <;> simp [eq_comm]

theorem candidates_of_ne_object (h : reply.kind ≠ .contentObject) :
    candidates reply = [.exact reply.name reply.chunk] := by
  simp [candidates, h]

theorem name_of_mem_candidates (h : k ∈ candidates reply) : k.name = reply.name := by
  rcases mem_candidates_iff.1 h with rfl | ⟨-, rfl⟩ <;> rfl

section Keys

variable {keys : List PendingKey} (hkeys : keys.Nodup)
include hkeys

theorem find?_foldl_deliverTo (d : Delivery) :
    (keys.foldl (deliverTo reply now) (t, d)).1.find? k =
      if k ∈ keys then (t.find? k).bind (remainder reply t.window) else t.find? k := by
  induction keys generalizing t d with
  | nil => simp
  | cons key keys ih =>
    obtain ⟨hkey, hkeys⟩ := List.nodup_cons.1 hkeys
    rcases hu : deliverTo reply now (t, d) key with ⟨u, c⟩
    have hfind : u.find? k =
        if k = key then (t.find? key).bind (remainder reply t.window) else t.find? k := by
      rw [← find?_deliverTo d, hu]
    have hwindow : u.window = t.window := by
      have hset : (deliverTo reply now (t, d) key).1.settings = t.settings := settings_deliverTo _
      rw [hu] at hset
      rw [window, hset, window]
    rw [List.foldl_cons, hu, ih hkeys, hfind, hwindow]
    by_cases hk : k = key
    · subst hk
      simp [hkey]
    · simp [hk]

/-- A delivery under some keys finds under each what was there before. -/
theorem delivery_foldl_deliverTo (d : Delivery) :
    (keys.foldl (deliverTo reply now) (t, d)).2 =
      (keys.map t.find?).foldl (handed reply now) d := by
  induction keys generalizing t d with
  | nil => rfl
  | cons key keys ih =>
    obtain ⟨hkey, hkeys⟩ := List.nodup_cons.1 hkeys
    rcases hu : deliverTo reply now (t, d) key with ⟨u, c⟩
    have hhanded : c = handed reply now d (t.find? key) := by
      rw [← delivery_deliverTo, hu]
    have hother : keys.map u.find? = keys.map t.find? := by
      apply List.map_congr_left
      intro j hj
      have hne : j ≠ key := fun h => hkey (h ▸ hj)
      rw [← congrArg (fun p => p.1.find? j) hu, find?_deliverTo, if_neg hne]
    rw [List.foldl_cons, hu, ih hkeys, hother, hhanded, List.map_cons, List.foldl_cons]

/-- A delivery under some keys goes to the faces reached under each in turn, each face once. -/
theorem faces_foldl_deliverTo (d : Delivery) :
    (keys.foldl (deliverTo reply now) (t, d)).2.faces =
      pushNew d.faces (keys.flatMap (t.reached reply now)) := by
  rw [delivery_foldl_deliverTo hkeys]
  clear hkeys
  induction keys generalizing d with
  | nil => rfl
  | cons key keys ih =>
    rw [List.map_cons, List.foldl_cons, ih, faces_handed, pushNew_append, List.flatMap_cons]

end Keys

theorem find?_deliver :
    (t.deliver reply now).1.find? k =
      if k ∈ candidates reply then (t.find? k).bind (remainder reply t.window) else t.find? k :=
  find?_foldl_deliverTo nodup_candidates {}

theorem settings_deliver : (t.deliver reply now).1.settings = t.settings :=
  (candidates reply).foldlRecOn _ (motive := fun u => u.1.settings = t.settings) rfl
    fun u hu _ _ => (settings_deliverTo u).trans hu

theorem delivery_deliver :
    (t.deliver reply now).2 = ((candidates reply).map t.find?).foldl (handed reply now) {} :=
  delivery_foldl_deliverTo nodup_candidates {}

theorem faces_deliver :
    (t.deliver reply now).2.faces =
      pushNew [] ((candidates reply).flatMap (t.reached reply now)) :=
  faces_foldl_deliverTo nodup_candidates {}

theorem nodup_faces_deliver : (t.deliver reply now).2.faces.Nodup := by
  rw [faces_deliver]
  exact nodup_pushNew [] _ List.nodup_nil

theorem mem_reached : g ∈ t.reached reply now key ↔
    ∃ e, t.find? key = some e ∧ takes reply e ∧ g ∈ e.liveFaces now := by
  unfold reached
  cases t.find? key with
  | none => simp
  | some e => by_cases h : takes reply e <;> simp [h]

theorem mem_faces_deliver : g ∈ (t.deliver reply now).2.faces ↔
    ∃ key ∈ candidates reply, ∃ e, t.find? key = some e ∧ takes reply e ∧ g ∈ e.liveFaces now := by
  simp only [faces_deliver, mem_pushNew, List.not_mem_nil, false_or, List.mem_flatMap, mem_reached]

theorem record?_deliver_of_not_mem (h : k ∉ candidates reply) :
    (t.deliver reply now).1.record? k g = t.record? k g :=
  record?_congr (by rw [find?_deliver, if_neg h])

theorem record?_deliver_of_find? (h : (t.deliver reply now).1.find? k ≠ none) :
    (t.deliver reply now).1.record? k g = t.record? k g := by
  by_cases hk : k ∈ candidates reply
  · obtain ⟨d, hd⟩ := Option.ne_none_iff_exists'.1 h
    rw [record?_of_find? hd]
    rw [find?_deliver, if_pos hk] at hd
    obtain ⟨e, he, hrem⟩ := Option.bind_eq_some_iff.1 hd
    rw [record?_of_find? he]
    exact PendingEntry.record?_congr (waiting_of_remainder hrem)
  · exact record?_deliver_of_not_mem hk

theorem record?_of_deliver {r : WaitRecord} (h : (t.deliver reply now).1.record? k g = some r) :
    t.record? k g = some r := by
  obtain ⟨d, hd, -⟩ := record?_eq_some_iff.1 h
  rw [← h, record?_deliver_of_find? (by simp [hd])]

end NamedData.PendingTable
