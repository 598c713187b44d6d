import NamedData.Proofs.Forwarding.Invariant

/-!
# Requests for which there is no room

A request under several keys is entered under one after another. Where the table
has no room for the next key, the request is withdrawn from the keys so far. The
records that its face had there before are not brought back.
-/

namespace NamedData

namespace PendingTable

/-- The keys under which a request is entered until the table is full, when there is room for
so many new entries. A key with an entry takes no room. -/
def admitted (t : PendingTable) : Nat → List PendingKey → List PendingKey
  | _, [] => []
  | 0, k :: ks => if (t.find? k).isSome then k :: t.admitted 0 ks else []
  | room + 1, k :: ks =>
    if (t.find? k).isSome then k :: t.admitted (room + 1) ks else k :: t.admitted room ks

def room (t : PendingTable) : Nat := t.settings.capacity - t.size

variable {t : PendingTable} {k : PendingKey} {ks : List PendingKey} {room : Nat}

theorem admitted_of_found (h : (t.find? k).isSome) :
    t.admitted room (k :: ks) = k :: t.admitted room ks := by
  cases room <;> simp [admitted, h]

theorem admitted_of_full (h : t.find? k = none) : t.admitted 0 (k :: ks) = [] := by
  simp [admitted, h]

theorem admitted_of_room (h : t.find? k = none) :
    t.admitted (room + 1) (k :: ks) = k :: t.admitted room ks := by
  simp [admitted, h]

end PendingTable

theorem Counter.increment_ne (c : Counter) : c.increment ≠ c := by
  intro h
  have hvalue : c.value + 1 = c.value := congrArg Counter.value h
  grind

namespace Forwarder

open PendingTable

variable {s : Suppression} {r : Entrant} {t : PendingTable}

/-- A request that meets a full table has been entered under the keys that were admitted. -/
theorem keys_of_foldlM_error {keys : List (PendingKey × PendingKind)} {st stuck : Entered}
    (hnodup : (keys.map (·.1)).Nodup)
    (hfind : ∀ key ∈ keys, st.table.find? key.1 = t.find? key.1)
    (hsettings : st.table.settings = t.settings)
    (h : keys.foldlM (enterKey s r) st = .error stuck) :
    stuck.keys = st.keys ++ t.admitted st.table.room (keys.map (·.1)) := by
  induction keys generalizing st with
  | nil => cases h
  | cons key keys ih =>
    rw [List.foldlM_cons, enterKey_eq] at h
    have hkey := hfind key List.mem_cons_self
    rw [List.map_cons] at hnodup ⊢
    obtain ⟨hnew, hnodup⟩ := List.nodup_cons.1 hnodup
    cases hj : st.table.join? s r key with
    | none =>
      obtain ⟨hnone, hfull⟩ := join?_eq_none_iff.1 hj
      have hroom : st.table.room = 0 := Nat.sub_eq_zero_of_le hfull
      rw [hj] at h
      obtain rfl : st = stuck := by simpa [bind, Except.bind] using h
      rw [hroom, admitted_of_full (hkey.symm.trans hnone), List.append_nil]
    | some j =>
      rw [hj] at h
      have hothers : ∀ key' ∈ keys, j.table.find? key'.1 = t.find? key'.1 := by
        intro key' hkey'
        have hne : key'.1 ≠ key.1 := fun heq => hnew (heq ▸ List.mem_map_of_mem hkey')
        rw [find?_of_join? hj, if_neg hne, hfind key' (List.mem_cons_of_mem _ hkey')]
      have hset : j.table.settings = t.settings := by
        rw [table_of_join? hj, settings_put, hsettings]
      have hrest : stuck.keys = (st.next key j).keys ++ t.admitted j.table.room _ :=
        ih hnodup hothers hset h
      have hsize : j.table.size =
          st.table.size + if st.table.find? key.1 = none then 1 else 0 := by
        rw [table_of_join? hj, size_put, Entrant.key_joins, Entrant.key_host]
      have hkeys : t.admitted st.table.room (key.1 :: keys.map (·.1)) =
          key.1 :: t.admitted j.table.room (keys.map (·.1)) := by
        cases hfound : t.find? key.1 with
        | some e =>
          have hroom : j.table.room = st.table.room := by
            rw [PendingTable.room, hset, hsize, hkey, hfound, PendingTable.room, hsettings]
            rfl
          rw [admitted_of_found (by rw [hfound]; rfl), hroom]
        | none =>
          have hfree : ¬st.table.settings.capacity ≤ st.table.size := by
            intro hfull
            have hnone := (join?_eq_none_iff (s := s) (r := r)).2 ⟨hkey.trans hfound, hfull⟩
            rw [hj] at hnone
            cases hnone
          have hroom : st.table.room = j.table.room + 1 := by
            rw [PendingTable.room, PendingTable.room, hset, hsize, hkey, hfound, if_pos rfl,
              hsettings]
            rw [hsettings] at hfree
            omega
          rw [hroom, admitted_of_room hfound]
      rw [hrest, hkeys, Entered.next, List.append_assoc]
      rfl

theorem keys_of_enter_error {stuck : Entered} (h : enter s r t = .error stuck) :
    stuck.keys = t.admitted t.room (r.request.keys.map (·.1)) :=
  (keys_of_foldlM_error (PendingRequest.nodup_keys _) (fun _ _ => rfl) rfl h).trans
    (List.nil_append _)

variable {f f' : Forwarder} {faces : FaceView} {face g : FaceId} {bytes : Octets} {clock : Clock}
variable {actions : List Action} {m : Message} {k : PendingKey}

theorem Handled.full_of_counted (h : Handled f faces face bytes clock f' actions)
    (hcounted : f'.metrics.pendingFull ≠ f.metrics.pendingFull) :
    ∃ m hop st, f.Requests bytes m ∧ f.entering face m hop clock.now = .error st ∧
      f'.pending = st.table.releaseAll face st.keys := by
  cases h with
  | full _ hreq _ _ henter => exact ⟨_, _, _, hreq, henter, rfl⟩
  | malformed | refused | command | exceeded | joined | cached | held | routed | unrouted
  | dropped | delivered | returned =>
    rename_i hsame
    exact absurd hsame hcounted

theorem Handled.counted_of_full {hop : HopLimit} {st : Entered}
    (h : Handled f faces face bytes clock f' actions) (hreq : f.Requests bytes m)
    (hhop : HopLimit.ofMessage (faces.isLocal face) m = hop) (hpasses : hop ≠ .exceeded)
    (henter : f.entering face m hop clock.now = .error st) :
    f'.metrics.pendingFull ≠ f.metrics.pendingFull := by
  have hrequest := hreq.request
  cases h with
  | full _ _ _ _ _ hcounted =>
    rw [hcounted]
    exact Counter.increment_ne _
  | malformed _ herror =>
    rw [hreq.parse] at herror
    cases herror
  | refused _ hd hrefused =>
    rw [Message.eq_of_parse hreq.parse hd, hreq.accepted] at hrefused
    cases hrefused
  | command _ hd _ hinterest hname =>
    obtain rfl := Message.eq_of_parse hreq.parse hd
    have hcommand := hreq.noCommand
    rw [command?, if_pos hinterest, hname] at hcommand
    cases hcommand
  | exceeded _ hd hexceeded =>
    obtain rfl := Message.eq_of_parse hreq.parse hd.parse
    exact absurd (hhop.symm.trans hexceeded) hpasses
  | joined _ hd hhop' _ hentered | cached _ hd hhop' _ hentered | held _ hd hhop' hentered
  | routed _ hd hhop' hentered | unrouted _ hd hhop' hentered =>
    obtain rfl := Message.eq_of_parse hreq.parse hd.parse
    rw [← hhop, hhop', hentered] at henter
    cases henter
  | dropped _ hd _ hkind | delivered _ hd _ hkind =>
    rw [← Message.eq_of_parse hreq.parse hd, PacketKind.isRequest_of_reply hkind] at hrequest
    cases hrequest
  | returned _ hd _ hkind =>
    rw [← Message.eq_of_parse hreq.parse hd, hkind] at hrequest
    cases hrequest

theorem record?_refused (hparse : Message.parse bytes = .ok m)
    (h : (f.handleFrame faces face bytes clock).1.metrics.pendingFull ≠ f.metrics.pendingFull) :
    (f.handleFrame faces face bytes clock).1.pending.record? k g =
      if k ∈ f.pending.admitted f.pending.room m.requestKeys ∧ g = face then none
      else f.pending.record? k g := by
  obtain ⟨d, hop, st, hreq, henter, hpending⟩ := (handled_handleFrame ..).full_of_counted h
  obtain rfl := Except.ok.inj (hparse.symm.trans hreq.parse)
  obtain ⟨front, key, rest, -, hfront, -⟩ := enters_of_enter_error henter
  have hkeys := keys_of_enter_error henter
  rw [hfront.keys_eq, map_fst_keys_entrant] at hkeys
  rw [hpending, record?_withdrawn hfront, hkeys]

/-- A request that is refused for want of room leaves no new records, and takes with it the
records that its face had under the keys admitted before the table was full. All records are
left as they were just when the face had none there. -/
theorem records_refused {f : Forwarder} (hf : f.Reachable) {faces : FaceView} {g : FaceId}
    {bytes : Octets} {clock : Clock} {m : Message} (hparse : Message.parse bytes = .ok m)
    (hrefused :
      (f.handleFrame faces g bytes clock).1.metrics.pendingFull ≠ f.metrics.pendingFull) :
    (∀ key r, (key, r) ∈ (f.handleFrame faces g bytes clock).1.pending.records ↔
        (key, r) ∈ f.pending.records ∧
          ¬(key ∈ f.pending.admitted f.pending.room m.requestKeys ∧ r.face = g)) ∧
      ((∀ key r, (key, r) ∈ (f.handleFrame faces g bytes clock).1.pending.records ↔
          (key, r) ∈ f.pending.records) ↔
        ∀ key ∈ f.pending.admitted f.pending.room m.requestKeys, ∀ r,
          (key, r) ∈ f.pending.records → r.face ≠ g) := by
  have hsound := hf.sound
  have hafter : (f.handleFrame faces g bytes clock).1.pending.Sound :=
    (hsound.step (.frame faces g bytes clock)).pending
  have hrecords : ∀ key r, (key, r) ∈ (f.handleFrame faces g bytes clock).1.pending.records ↔
      (key, r) ∈ f.pending.records ∧
        ¬(key ∈ f.pending.admitted f.pending.room m.requestKeys ∧ r.face = g) := by
    intro key r
    exact hsound.pending.mem_records_withdrawn hafter fun _ _ => record?_refused hparse hrefused
  refine ⟨hrecords, ?_⟩
  constructor
  · intro hsame key hkey r hr hface
    exact ((hrecords key r).1 ((hsame key r).2 hr)).2 ⟨hkey, hface⟩
  · intro hnone key r
    rw [hrecords]
    exact and_iff_left_of_imp fun hr hgone => hnone key hgone.1 r hr hgone.2

/-- A table with room for one entry, in which face 1 waits for chunk 0. Face 4 asks for two
chunks and is refused, and the record of face 1 stays. -/
theorem records_refused_small :
    let f := (Small.forwarder { pending := { capacity := 1 } }).run
      [Small.frame 1 { Draft.interest Small.name with chunk := some 0 } 0]
    let run := Small.octets { Draft.interest Small.name with span := .run ⟨0, 2⟩ }
    let f' := (f.handleFrame Small.faces ⟨4⟩ run ⟨100, 0⟩).1
    f'.metrics.pendingFull ≠ f.metrics.pendingFull ∧ f.pending.records.length = 1 ∧
      ∀ key r, (key, r) ∈ f'.pending.records ↔ (key, r) ∈ f.pending.records := by
  intro f run f'
  have hrefused : f'.metrics.pendingFull ≠ f.metrics.pendingFull := by decide +kernel
  have hparse : ∃ m, Message.parse run = .ok m := ⟨_, by cbv⟩
  obtain ⟨m, hm⟩ := hparse
  have hreachable : f.Reachable := (Small.reachable rfl).run _
  have hfaces : ∀ p ∈ f.pending.records, p.2.face ≠ ⟨4⟩ := by decide +kernel
  exact ⟨hrefused, by decide +kernel,
    (records_refused hreachable hm hrefused).2.2 fun key _ r hr => hfaces (key, r) hr⟩

/-- In the same table, face 1 asks for both chunks itself. It is refused, and the record that it
had under chunk 0 is gone. -/
theorem record_lost_in_refusal :
    let f := (Small.forwarder { pending := { capacity := 1 } }).run
      [Small.frame 1 { Draft.interest Small.name with chunk := some 0 } 0]
    let run := Small.octets { Draft.interest Small.name with span := .run ⟨0, 2⟩ }
    let f' := (f.handleFrame Small.faces ⟨1⟩ run ⟨100, 0⟩).1
    f'.metrics.pendingFull = f.metrics.pendingFull.increment ∧
      f.pending.records.map (·.1) = [.exact Small.name (some 0)] ∧ f'.pending.records = [] := by
  intro f run f'
  exact ⟨by decide +kernel, by decide +kernel, by decide +kernel⟩

end Forwarder
end NamedData
