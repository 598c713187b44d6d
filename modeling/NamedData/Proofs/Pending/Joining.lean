import NamedData.Proofs.Pending.Lookup

/-!
# How a request joins the table

A request joins the entry under its key or, when there is none or a dead one, a
new entry. In either case the table is changed at that key alone, and the entry
there differs from what it was in the record of the face that asked.
-/

namespace NamedData

theorem PendingEntry.join_fields (e : PendingEntry) (face : FaceId) (lifetime : Nat)
    (fingerprint : UInt64) (now : Instant) (s : Suppression) :
    let e' := (e.join face lifetime fingerprint now s).1
    e'.key = e.key ∧ e'.kind = e.kind ∧ e'.restrictions = e.restrictions ∧
      e'.onward = e.onward ∧ e'.delivered = e.delivered ∧
      e'.deadline = max e.deadline (now + lifetime) := by
  unfold join
  dsimp only
  split <;> exact ⟨rfl, rfl, rfl, rfl, rfl, rfl⟩

namespace PendingTable

variable {t : PendingTable} {key : PendingKey × PendingKind} {k : PendingKey} {g : FaceId}
variable {s : Suppression} {r : Entrant}

/-- Puts an entry under its key: in the place of the one that is there, or else last. -/
def put (t : PendingTable) (e : PendingEntry) : PendingTable :=
  match t.find? e.key with
  | some _ => t.update e.key fun _ => e
  | none => { t with entries := t.entries ++ [e] }

@[simp] theorem settings_put (e : PendingEntry) : (t.put e).settings = t.settings := by
  unfold put
  split <;> rfl

theorem find?_put (e : PendingEntry) :
    (t.put e).find? k = if k = e.key then some e else t.find? k := by
  unfold put
  cases he : t.find? e.key with
  | some d =>
    simp only
    rw [find?_update fun _ _ => rfl, he]
    rfl
  | none =>
    simp only [find?, List.find?_append]
    by_cases hk : k = e.key
    · subst hk
      have hnone : t.entries.find? (fun d => decide (d.key = e.key)) = none := he
      simp [hnone]
    · simp [hk, Ne.symm hk]

theorem keys_put (e : PendingEntry) :
    (t.put e).entries.map (·.key) =
      t.entries.map (·.key) ++ if t.find? e.key = none then [e.key] else [] := by
  unfold put
  cases he : t.find? e.key with
  | none => simp
  | some d =>
    simp only [update, List.map_map, reduceCtorEq, if_false, List.append_nil]
    apply List.map_congr_left
    intro c _
    by_cases hc : c.key = e.key <;> simp [hc]

theorem size_put (e : PendingEntry) :
    (t.put e).size = t.size + if t.find? e.key = none then 1 else 0 := by
  have hlength := congrArg List.length (t.keys_put e)
  rw [List.length_append, List.length_map, List.length_map] at hlength
  rw [size, hlength, size]
  split <;> rfl

theorem mem_put {e d : PendingEntry} (h : d ∈ (t.put e).entries) : d = e ∨ d ∈ t.entries := by
  unfold put at h
  split at h
  · obtain ⟨c, hc, rfl⟩ := List.mem_map.1 h
    split
    · exact .inl rfl
    · exact .inr hc
  · rcases List.mem_append.1 h with h | h
    · exact .inr h
    · exact .inl (List.mem_singleton.1 h)

namespace Entrant

def record (r : Entrant) : WaitRecord :=
  { face := r.face
    expiry := r.now + r.request.lifetime
    fingerprint := r.request.fingerprint
    pendingReturn := r.deferred }

def joins (r : Entrant) (s : Suppression) (e : PendingEntry) : PendingEntry :=
  let joined := (e.join r.face r.request.lifetime r.request.fingerprint r.now s).1
  match r.deferred with
  | some payload => joined.deferReturn r.face payload
  | none => joined

/-- The entry that a request brings about where it finds none. -/
def fresh (r : Entrant) (t : PendingTable) (key : PendingKey × PendingKind) : PendingEntry :=
  { PendingEntry.create key.1 key.2 r.now t.settings.cleanInterval with
    restrictions := r.request.restrictions }

def found? (r : Entrant) (t : PendingTable) (k : PendingKey) : Option PendingEntry :=
  (t.find? k).filter fun e => !e.dead r.now

/-- The entry that a request joins, as it is before. -/
def host (r : Entrant) (t : PendingTable) (key : PendingKey × PendingKind) : PendingEntry :=
  (r.found? t key.1).getD (r.fresh t key)

def outcome (r : Entrant) (s : Suppression) (t : PendingTable) (key : PendingKey × PendingKind) :
    JoinOutcome :=
  ((r.host t key).join r.face r.request.lifetime r.request.fingerprint r.now s).2

theorem joins_fields (e : PendingEntry) :
    (r.joins s e).key = e.key ∧ (r.joins s e).kind = e.kind ∧
      (r.joins s e).restrictions = e.restrictions ∧ (r.joins s e).onward = e.onward ∧
      (r.joins s e).delivered = e.delivered ∧
      (r.joins s e).deadline = max e.deadline r.record.expiry := by
  have h := e.join_fields r.face r.request.lifetime r.request.fingerprint r.now s
  unfold joins
  dsimp only
  split <;> exact h

@[simp] theorem key_joins (e : PendingEntry) : (r.joins s e).key = e.key := (joins_fields e).1

@[simp] theorem record?_joins (e : PendingEntry) :
    (r.joins s e).record? g = if g = r.face then some r.record else e.record? g := by
  have hjoin : (e.join r.face r.request.lifetime r.request.fingerprint r.now s).1.record? g =
      if g = r.face then
        some { face := r.face
               expiry := r.now + r.request.lifetime
               fingerprint := r.request.fingerprint }
      else e.record? g :=
    e.record?_join _ _ s
  cases hd : r.deferred with
  | none =>
    simp only [joins, hd, hjoin]
    simp only [record, hd]
  | some payload =>
    simp only [joins, hd, PendingEntry.record?_deferReturn, hjoin]
    by_cases hg : g = r.face
    · simp [hg, record, hd]
    · simp [hg]

theorem found?_eq_some {e : PendingEntry} (h : r.found? t k = some e) :
    t.find? k = some e ∧ e.dead r.now = false := by
  simpa [found?, Option.filter_eq_some_iff] using h

theorem found?_eq_none_iff : r.found? t k = none ↔ (t.find? k).all (·.dead r.now) := by
  cases h : t.find? k <;> simp [found?, h]

@[simp] theorem key_host : (r.host t key).key = key.1 := by
  unfold host
  cases h : r.found? t key.1 with
  | none => rfl
  | some e => exact key_of_find? (found?_eq_some h).1

/-- A dead entry has no records, so the request finds those that the table has. -/
@[simp] theorem record?_host : (r.host t key).record? g = t.record? key.1 g := by
  unfold host
  cases h : r.found? t key.1 with
  | some e => exact (record?_of_find? (found?_eq_some h).1).symm
  | none =>
    rw [record?_of_dead (found?_eq_none_iff.1 h)]
    rfl

theorem host_of_find? {e : PendingEntry} (he : t.find? key.1 = some e)
    (halive : e.dead r.now = false) : r.host t key = e := by
  simp [host, found?, he, halive, Option.filter]

theorem find?_of_host {q : WaitRecord} (h : (r.host t key).record? g = some q) :
    t.find? key.1 = some (r.host t key) := by
  unfold host at h ⊢
  cases hfound : r.found? t key.1 with
  | none => simp [hfound, PendingEntry.record?, fresh, PendingEntry.create] at h
  | some e => exact (found?_eq_some hfound).1

end Entrant

theorem obtain?_eq_none_iff {kind : PendingKind} {now : Instant} :
    t.obtain? k kind now = none ↔ t.find? k = none ∧ t.settings.capacity ≤ t.size := by
  unfold obtain?
  cases t.find? k with
  | none => by_cases hfull : t.settings.capacity ≤ t.size <;> simp [hfull]
  | some e => by_cases hdead : e.dead now <;> simp [hdead]

theorem obtain?_cases {u : PendingTable} {e : PendingEntry} {isNew : Bool} {kind : PendingKind}
    {now : Instant} (h : t.obtain? k kind now = some (u, e, isNew)) :
    (isNew = false ∧ u = t ∧ t.find? k = some e ∧ e.dead now = false) ∨
      isNew = true ∧ u = t.put e ∧ e = .create k kind now t.settings.cleanInterval ∧
        (t.find? k).all (·.dead now) := by
  unfold obtain? at h
  cases hd : t.find? k with
  | some d =>
    simp only [hd] at h
    split at h
    · rename_i hdead
      simp only [Option.some.injEq, Prod.mk.injEq] at h
      obtain ⟨rfl, rfl, rfl⟩ := h
      exact .inr ⟨rfl, by simp [put, PendingEntry.create, hd], rfl, by simpa using hdead⟩
    · rename_i halive
      simp only [Option.some.injEq, Prod.mk.injEq] at h
      obtain ⟨rfl, rfl, rfl⟩ := h
      exact .inl ⟨rfl, rfl, rfl, by simpa using halive⟩
  | none =>
    simp only [hd] at h
    split at h
    · cases h
    · simp only [Option.some.injEq, Prod.mk.injEq] at h
      obtain ⟨rfl, rfl, rfl⟩ := h
      exact .inr ⟨rfl, by simp [put, PendingEntry.create, hd], rfl, rfl⟩

theorem update_put {e d : PendingEntry} (h : e.key = d.key) :
    (t.put e).update d.key (fun _ => d) = t.put d := by
  unfold put
  rw [h]
  cases hfind : t.find? d.key with
  | some c =>
    simp only [update, List.map_map]
    congr 1
    apply List.map_congr_left
    intro b _
    by_cases hb : b.key = d.key <;> simp [hb, h]
  | none =>
    -- the new entry stands last, and no other is under its key
    have hkeep : t.entries.map (fun b => if b.key = d.key then d else b) = t.entries := by
      conv_rhs => rw [← List.map_id t.entries]
      exact List.map_congr_left fun b hb => if_neg (find?_eq_none_iff.1 hfind b hb)
    simp [update, hkeep, h]

theorem update_of_obtain? {u : PendingTable} {e d : PendingEntry} {isNew : Bool}
    {kind : PendingKind} {now : Instant} (h : t.obtain? k kind now = some (u, e, isNew))
    (hd : d.key = k) : u.update k (fun _ => d) = t.put d := by
  subst hd
  rcases obtain?_cases h with ⟨-, rfl, he, -⟩ | ⟨-, rfl, hnew, -⟩
  · simp [put, he]
  · exact update_put (by rw [hnew, PendingEntry.create])

/-- The entry that was obtained, with the restrictions of the request if it is new,
is the one that the request joins. -/
theorem host_of_obtain? {u : PendingTable} {e : PendingEntry} {isNew : Bool}
    (h : t.obtain? key.1 key.2 r.now = some (u, e, isNew)) :
    (if isNew then { e with restrictions := r.request.restrictions } else e) = r.host t key ∧
      isNew = (r.found? t key.1).isNone := by
  rcases obtain?_cases h with ⟨rfl, -, he, halive⟩ | ⟨rfl, -, rfl, hdead⟩
  · simp [Entrant.host_of_find? he halive, Entrant.found?, he, halive, Option.filter]
  · have hnone := Entrant.found?_eq_none_iff.2 hdead
    simp [Entrant.host, hnone, Entrant.fresh]

/-- A request is refused where the table is full and has no entry for it; otherwise
the entry under its key, or a new one, takes it in. -/
theorem join?_eq :
    t.join? s r key =
      if t.find? key.1 = none ∧ t.settings.capacity ≤ t.size then none
      else
        some
          { table := t.put (r.joins s (r.host t key))
            entry := r.joins s (r.host t key)
            isNew := (r.found? t key.1).isNone
            outcome := r.outcome s t key } := by
  have hkey : (r.joins s (r.host t key)).key = key.1 := by simp
  cases ho : t.obtain? key.1 key.2 r.now with
  | none =>
    have hfull := obtain?_eq_none_iff.1 ho
    simp [join?, ho, hfull]
  | some o =>
    obtain ⟨u, e, isNew⟩ := o
    have hput := update_of_obtain? ho hkey
    have hsome : t.obtain? key.1 key.2 r.now ≠ none := by simp [ho]
    have hroom := mt obtain?_eq_none_iff.2 hsome
    have hhost := host_of_obtain? ho
    rw [if_neg hroom]
    simp only [join?, ho, Option.map_some, hhost.1]
    simp only [Option.some.injEq, Joined.mk.injEq]
    exact ⟨hput, rfl, hhost.2, rfl⟩

theorem Entrant.outcome_of_unfound (h : r.found? t key.1 = none) :
    r.outcome s t key = .created := by
  have hhost : r.host t key = r.fresh t key := by rw [host, h, Option.getD_none]
  simp [outcome, hhost, PendingEntry.join, PendingEntry.record?, PendingEntry.othersLive, fresh,
    PendingEntry.create]

theorem join?_eq_none_iff :
    t.join? s r key = none ↔ t.find? key.1 = none ∧ t.settings.capacity ≤ t.size := by
  rw [join?_eq]
  split <;> simp_all

theorem table_of_join? {j : Joined} (h : t.join? s r key = some j) :
    j.table = t.put (r.joins s (r.host t key)) := by
  rw [join?_eq] at h
  split at h
  · exact absurd h (by simp)
  · exact congrArg Joined.table (Option.some.inj h).symm

theorem entry_outcome_of_join? {j : Joined} (h : t.join? s r key = some j) :
    j.entry = r.joins s (r.host t key) ∧ j.outcome = r.outcome s t key := by
  rw [join?_eq] at h
  split at h
  · exact absurd h (by simp)
  · rw [← Option.some.inj h]
    exact ⟨rfl, rfl⟩

theorem find?_of_join? {j : Joined} (h : t.join? s r key = some j) :
    j.table.find? k = if k = key.1 then some (r.joins s (r.host t key)) else t.find? k := by
  rw [table_of_join? h, find?_put]
  simp

/-- A request leaves its own record under its key and touches no other record. -/
theorem record?_of_join? {j : Joined} (h : t.join? s r key = some j) :
    j.table.record? k g =
      if k = key.1 ∧ g = r.face then some r.record else t.record? k g := by
  rw [record?, find?_of_join? h]
  by_cases hk : k = key.1
  · subst hk
    simp
  · simp [hk, record?]

end PendingTable
end NamedData
