import NamedData.Proofs.Pending.Keys

/-!
# The entries under one name

No operation on the pending table mixes names. What it does to the entries under a name is what it
does to a table that has no others, and an operation on the keys of another name leaves them alone.
Entering a request differs only in a table that is full, which counts all entries.
-/

namespace NamedData.PendingTable

variable {t : PendingTable} {n : Name} {k : PendingKey} {face : FaceId} {now : Instant}

/-- The table without what is under other names. -/
def under (t : PendingTable) (n : Name) : PendingTable :=
  { t with entries := t.entries.filter (·.key.name = n) }

theorem size_under_le : (t.under n).size ≤ t.size := List.length_filter_le ..

theorem find?_under (h : k.name = n) : (t.under n).find? k = t.find? k := by
  rw [find?, under, List.find?_filter, find?]
  congr 1
  funext e
  by_cases hk : e.key = k <;> simp [hk, h]

theorem find?_under_of_ne (h : k.name ≠ n) : (t.under n).find? k = none := by
  rw [find?_eq_none_iff]
  intro e he hk
  have hname : e.key.name = n := by simpa using (List.mem_filter.1 he).2
  exact h (hk ▸ hname)

theorem update_of_find?_eq_none (h : t.find? k = none) (f : PendingEntry → PendingEntry) :
    t.update k f = t := by
  have hsame : t.entries.map (fun e => if e.key = k then f e else e) = t.entries := by
    conv_rhs => rw [← List.map_id t.entries]
    exact List.map_congr_left fun e he => if_neg (find?_eq_none_iff.1 h e he)
  rw [update, hsame]

theorem erase_of_find?_eq_none (h : t.find? k = none) : t.erase k = t := by
  have hsame : t.entries.filter (·.key ≠ k) = t.entries :=
    List.filter_eq_self.2 fun e he => decide_eq_true (find?_eq_none_iff.1 h e he)
  rw [erase, hsame]

theorem release_of_find?_eq_none (h : t.find? k = none) : t.release face k = t := by
  simp only [release, h]

theorem foldl_under_of_ne {op : PendingTable → PendingKey → PendingTable}
    (hop : ∀ t k, t.find? k = none → op t k = t) {keys : List PendingKey}
    (h : ∀ k ∈ keys, k.name ≠ n) : keys.foldl op (t.under n) = t.under n := by
  refine keys.foldlRecOn op (motive := fun u => u = t.under n) rfl ?_
  intro u hu k hk
  rw [hu]
  exact hop _ k (find?_under_of_ne (h k hk))

theorem under_update {f : PendingEntry → PendingEntry} (hf : ∀ e, e.key = k → (f e).key = k) :
    (t.update k f).under n = (t.under n).update k f := by
  simp only [under, update, List.filter_map]
  congr 2
  apply List.filter_congr
  intro e _
  by_cases hk : e.key = k <;> simp [hk, hf]

theorem under_erase : (t.erase k).under n = (t.under n).erase k := by
  simp only [under, erase]
  rw [List.filter_filter, List.filter_filter]
  congr 2
  funext e
  exact Bool.and_comm ..

theorem under_put {e : PendingEntry} (h : e.key.name = n) :
    (t.put e).under n = (t.under n).put e := by
  unfold put
  rw [find?_under h]
  split
  · exact under_update fun _ _ => rfl
  · simp [under, h]

theorem under_put_of_ne {e : PendingEntry} (h : e.key.name ≠ n) :
    (t.put e).under n = t.under n := by
  unfold put
  split
  · rw [under_update fun _ _ => rfl, update_of_find?_eq_none (find?_under_of_ne h)]
  · simp [under, h]

theorem under_release : (t.release face k).under n = (t.under n).release face k := by
  have hupdate : (t.update k (·.release face)).under n = (t.under n).update k (·.release face) :=
    under_update (by exact fun _ hk => hk)
  by_cases h : k.name = n
  · unfold release
    rw [find?_under h]
    split
    · rfl
    · split
      · exact under_erase
      · exact hupdate
  · have hnone : (t.under n).find? k = none := find?_under_of_ne h
    rw [release_of_find?_eq_none hnone]
    unfold release
    split
    · rfl
    · split
      · rw [under_erase, erase_of_find?_eq_none hnone]
      · rw [hupdate, update_of_find?_eq_none hnone]

theorem under_deliverTo (h : k.name = n) (reply : Message) (d : Delivery) :
    deliverTo reply now (t.under n, d) k =
      ((deliverTo reply now (t, d) k).1.under n, (deliverTo reply now (t, d) k).2) := by
  have hremember : ∀ chunk, (t.update k (·.remember chunk t.window)).under n =
      (t.under n).update k (·.remember chunk t.window) := fun chunk =>
    under_update (by exact fun _ hk => hk)
  have hwindow : (t.under n).window = t.window := rfl
  simp only [deliverTo, find?_under h, hwindow]
  cases t.find? k with
  | none => rfl
  | some e =>
    dsimp only
    split
    · rfl
    · split
      · rfl
      · split
        · split
          · rfl
          · rw [hremember]
        · rw [under_erase]

theorem under_deliverTo_of_ne (h : k.name ≠ n) (reply : Message) (u : PendingTable × Delivery) :
    (deliverTo reply now u k).1.under n = u.1.under n := by
  obtain ⟨t, d⟩ := u
  have hnone : (t.under n).find? k = none := find?_under_of_ne h
  cases he : t.find? k with
  | none => rw [deliverTo_of_find?_eq_none he]
  | some e =>
    rcases deliverTo_cases reply now d he with ⟨-, hsame⟩ | ⟨-, htaken⟩
    · rw [hsame]
    · rw [htaken]
      split
      · rw [under_update (by exact fun _ hk => hk), update_of_find?_eq_none hnone]
      · rw [under_erase, erase_of_find?_eq_none hnone]

theorem under_releaseAll (keys : List PendingKey) :
    (t.releaseAll face keys).under n = (t.under n).releaseAll face keys :=
  (List.foldl_hom (under · n) fun _ _ => under_release.symm).symm

theorem under_releaseAll_of_ne {keys : List PendingKey} (h : ∀ k ∈ keys, k.name ≠ n) :
    (t.releaseAll face keys).under n = t.under n := by
  rw [under_releaseAll]
  exact foldl_under_of_ne (fun _ _ => release_of_find?_eq_none) h

theorem under_foldl_addAllOnward (keys : List PendingKey) (faces : List FaceId) :
    (keys.foldl (fun t key => t.update key (·.addAllOnward faces)) t).under n =
      keys.foldl (fun t key => t.update key (·.addAllOnward faces)) (t.under n) := by
  refine (List.foldl_hom (under · n) ?_).symm
  intro u k
  exact (under_update fun e hk => (PendingEntry.key_addAllOnward faces).trans hk).symm

theorem under_foldl_addAllOnward_of_ne {keys : List PendingKey} (h : ∀ k ∈ keys, k.name ≠ n)
    (faces : List FaceId) :
    (keys.foldl (fun t key => t.update key (·.addAllOnward faces)) t).under n = t.under n := by
  rw [under_foldl_addAllOnward]
  exact foldl_under_of_ne (fun _ _ hnone => update_of_find?_eq_none hnone _) h

theorem under_deliver {reply : Message} (h : reply.name = n) :
    (t.under n).deliver reply now =
      ((t.deliver reply now).1.under n, (t.deliver reply now).2) := by
  have hkeys : ∀ k ∈ candidates reply, k.name = n := fun k hk => (name_of_mem_candidates hk).trans h
  unfold deliver
  generalize candidates reply = keys at hkeys
  generalize ({} : Delivery) = d
  induction keys generalizing t d with
  | nil => rfl
  | cons k keys ih =>
    rw [List.foldl_cons, List.foldl_cons, under_deliverTo (hkeys k List.mem_cons_self)]
    exact ih (fun j hj => hkeys j (List.mem_cons_of_mem _ hj)) _

theorem under_deliver_of_ne {reply : Message} (h : reply.name ≠ n) :
    (t.deliver reply now).1.under n = t.under n := by
  rw [deliver]
  refine (candidates reply).foldlRecOn _
    (motive := fun u : PendingTable × Delivery => u.1.under n = t.under n) rfl ?_
  intro u hu k hk
  rw [under_deliverTo_of_ne _ reply u, hu]
  rwa [name_of_mem_candidates hk]

theorem under_forget : (t.forget face).under n = (t.under n).forget face := by
  simp only [under, forget, List.filter_map]
  rfl

theorem under_sweep : (t.sweep now).1.under n = ((t.under n).sweep now).1 := by
  unfold sweep
  have hnext : (t.under n).nextSweep = t.nextSweep := rfl
  rw [hnext]
  split
  · rfl
  · simp only [under]
    rw [List.filter_filter, List.filter_map, List.filter_map, List.filter_filter]
    congr 2
    apply List.filter_congr
    intro e _
    simp [Bool.and_comm]

theorem returnsOf_append (records more : List WaitRecord) :
    returnsOf (records ++ more) = returnsOf records ++ returnsOf more :=
  List.filterMap_append ..

/-- Where a test tells by a return which name it waits under, the returns that pass are those that a
sweep finds under the name. -/
theorem returns_sweep_under {p : Octets → Bool}
    (hp : ∀ e ∈ t.entries, ∀ r ∈ e.waiting, ∀ payload, r.pendingReturn = some payload →
      p payload = decide (e.key.name = n)) :
    (t.sweep now).2.returns.filter (fun due => p due.2) = ((t.under n).sweep now).2.returns := by
  cases hrun : t.sweeps now with
  | false =>
    have hunder : (t.under n).sweeps now = false := hrun
    rw [sweep_of_not_sweeps hrun, sweep_of_not_sweeps hunder]
    rfl
  | true =>
    have hunder : (t.under n).sweeps now = true := hrun
    rw [returns_sweep hrun, returns_sweep hunder, under]
    clear hrun hunder
    generalize t.entries = entries at hp ⊢
    induction entries with
    | nil => rfl
    | cons e es ih =>
      have hrest := ih fun d hd => hp d (List.mem_cons_of_mem _ hd)
      have hpasses : ∀ due ∈ returnsOf (dropped e now), p due.2 = decide (e.key.name = n) := by
        rintro ⟨g, payload⟩ hdue
        obtain ⟨r, hr, -, hpayload⟩ := mem_returnsOf.1 hdue
        rw [dropped_eq] at hr
        exact hp e List.mem_cons_self r (List.mem_filter.1 hr).1 payload hpayload
      rw [List.flatMap_cons, returnsOf_append, List.filter_append, hrest]
      by_cases hname : e.key.name = n
      · rw [List.filter_cons_of_pos (by simpa using hname), List.flatMap_cons, returnsOf_append,
          List.filter_eq_self.2 fun due hdue => (hpasses due hdue).trans (decide_eq_true hname)]
      · rw [List.filter_cons_of_neg (by simpa using hname), List.filter_eq_nil_iff.2,
          List.nil_append]
        intro due hdue
        rw [hpasses due hdue, decide_eq_false hname]
        exact Bool.false_ne_true

end NamedData.PendingTable
