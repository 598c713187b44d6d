import NamedData.Forwarding.Forwarder
import NamedData.Proofs.Pending.Keys

/-!
# How a request is entered under all its keys

A request is entered under one key after another, until it has been entered
under all or the table has no room for the next. Facts about the outcome are
proved along the keys that have been entered so far.
-/

namespace NamedData.Forwarder

open PendingTable

variable {s : Suppression} {r : Entrant} {t : PendingTable} {k : PendingKey} {g : FaceId}

/-- What has been entered, with one more key. -/
def Entered.next (st : Entered) (key : PendingKey × PendingKind) (j : Joined) : Entered :=
  { table := j.table
    keys := st.keys ++ [key.1]
    forward := st.forward || goesOn j.entry j.outcome
    aggregated := st.aggregated + if j.outcome = .added ∧ !goesOn j.entry j.outcome then 1 else 0
    suppressed := st.suppressed + if j.outcome = .refreshed then 1 else 0 }

/-- How a request has been entered under some keys, one after another. -/
inductive Enters (s : Suppression) (r : Entrant) (t : PendingTable) :
    List (PendingKey × PendingKind) → Entered → Prop
  | nil : Enters s r t [] { table := t }
  | next {done st} (key : PendingKey × PendingKind) {j : Joined} :
      Enters s r t done st → st.table.join? s r key = some j →
        Enters s r t (done ++ [key]) (st.next key j)

theorem enterKey_eq (st : Entered) (key : PendingKey × PendingKind) :
    enterKey s r st key = (st.table.join? s r key).elim (.error st) (.ok ∘ st.next key) := by
  unfold enterKey
  cases st.table.join? s r key <;> rfl

/-- Entering goes through all keys, or stops where the table has no room for the next one. -/
theorem enters_of_foldlM (keys : List (PendingKey × PendingKind))
    {done : List (PendingKey × PendingKind)} {st : Entered} (h : Enters s r t done st) :
    match keys.foldlM (enterKey s r) st with
    | .ok st' => Enters s r t (done ++ keys) st'
    | .error st' => ∃ front key rest, keys = front ++ key :: rest ∧
        Enters s r t (done ++ front) st' ∧ st'.table.join? s r key = none := by
  induction keys generalizing done st with
  | nil =>
    change Enters s r t (done ++ []) st
    rwa [List.append_nil]
  | cons key keys ih =>
    rw [List.foldlM_cons, enterKey_eq]
    cases hj : st.table.join? s r key with
    | none => exact ⟨[], key, keys, rfl, by simpa using h, hj⟩
    | some j =>
      have hnext := ih (h.next key hj)
      simp only [Option.elim_some, Function.comp_apply, bind, Except.bind]
      cases hf : keys.foldlM (enterKey s r) (st.next key j) with
      | ok st' =>
        rw [hf] at hnext
        simpa using hnext
      | error st' =>
        rw [hf] at hnext
        obtain ⟨front, stuck, rest, rfl, hfront, hnone⟩ := hnext
        exact ⟨key :: front, stuck, rest, rfl, by simpa using hfront, hnone⟩

theorem enters_of_enter {st : Entered} (h : enter s r t = .ok st) :
    Enters s r t r.request.keys st := by
  have hfold := enters_of_foldlM r.request.keys (Enters.nil (s := s) (r := r) (t := t))
  rw [show r.request.keys.foldlM (enterKey s r) { table := t } = .ok st from h] at hfold
  exact hfold

theorem enters_of_enter_error {st : Entered} (h : enter s r t = .error st) :
    ∃ front key rest, r.request.keys = front ++ key :: rest ∧ Enters s r t front st ∧
      st.table.join? s r key = none := by
  have hfold := enters_of_foldlM r.request.keys (Enters.nil (s := s) (r := r) (t := t))
  rw [show r.request.keys.foldlM (enterKey s r) { table := t } = .error st from h] at hfold
  exact hfold

namespace Enters

variable {done : List (PendingKey × PendingKind)} {st : Entered}

theorem keys_eq (h : Enters s r t done st) : st.keys = done.map (·.1) := by
  induction h with
  | nil => rfl
  | next key _ _ ih => simp [Entered.next, ih]

theorem settings_eq (h : Enters s r t done st) : st.table.settings = t.settings := by
  induction h with
  | nil => rfl
  | next key _ hj ih => rw [← ih, Entered.next, table_of_join? hj, settings_put]

theorem record?_eq (h : Enters s r t done st) :
    st.table.record? k g =
      if k ∈ done.map (·.1) ∧ g = r.face then some r.record else t.record? k g := by
  induction h with
  | nil => simp
  | @next done st key j _ hj ih =>
    rw [Entered.next, record?_of_join? hj, ih]
    by_cases hk : k = key.1
    · subst hk
      by_cases hg : g = r.face <;> simp [hg]
    · have hmem : k ∈ (done ++ [key]).map (·.1) ↔ k ∈ done.map (·.1) := by simp [hk]
      simp only [hk, false_and, if_false, hmem]

theorem sound (h : Enters s r t done st) (ht : t.Sound) : st.table.Sound := by
  induction h with
  | nil => exact ht
  | next key _ hj ih => exact ih.join? hj

/-- A property of the entries that the request joins, and of all others before, holds of all
entries after. -/
theorem every {P : PendingEntry → Prop} (h : Enters s r t done st) (ht : t.Every P)
    (hjoins : ∀ (u : PendingTable) (key : PendingKey × PendingKind), key ∈ done → u.Every P →
      P (r.joins s (r.host u key))) : st.table.Every P := by
  induction h with
  | nil => exact ht
  | next key _ hj ih =>
    have hbefore := ih fun u key hkey => hjoins u key (List.mem_append_left _ hkey)
    exact hbefore.join? hj (hjoins _ key (by simp) hbefore)

theorem fits (h : Enters s r t done st) (ht : t.Every PendingEntry.Fits)
    (hdone : ∀ key ∈ done, key.1.Allows key.2) : st.table.Every PendingEntry.Fits :=
  h.every ht fun _ key hkey hu => Entrant.fits_joins hu (hdone key hkey)

theorem host_congr {u : PendingTable} {key : PendingKey × PendingKind}
    (hfind : u.find? key.1 = t.find? key.1) (hset : u.settings = t.settings) :
    r.host u key = r.host t key := by
  simp only [Entrant.host, Entrant.found?, Entrant.fresh, hfind, hset]

theorem find?_of_not_mem (h : Enters s r t done st) (hk : k ∉ done.map (·.1)) :
    st.table.find? k = t.find? k := by
  induction h with
  | nil => rfl
  | next key _ hj ih =>
    rw [List.map_append, List.mem_append, not_or] at hk
    rw [Entered.next, find?_of_join? hj, if_neg (by simpa using hk.2), ih hk.1]

theorem find?_of_mem (h : Enters s r t done st) (hnodup : (done.map (·.1)).Nodup)
    {key : PendingKey × PendingKind} (hkey : key ∈ done) :
    st.table.find? key.1 = some (r.joins s (r.host t key)) := by
  induction h with
  | nil => exact absurd hkey (by simp)
  | @next done st last j hst hj ih =>
    rw [List.map_append, List.nodup_append] at hnodup
    obtain ⟨hdone, -, hlast⟩ := hnodup
    rw [Entered.next, find?_of_join? hj]
    rcases List.mem_append.1 hkey with hmem | hmem
    · have hne : key.1 ≠ last.1 := hlast key.1 (List.mem_map_of_mem hmem) last.1 (by simp)
      rw [if_neg hne, ih hdone hmem]
    · obtain rfl := List.mem_singleton.1 hmem
      have hnew : key.1 ∉ done.map (·.1) := fun hmem' => hlast key.1 hmem' key.1 (by simp) rfl
      rw [if_pos rfl, host_congr (hst.find?_of_not_mem hnew) hst.settings_eq]

theorem outcome_congr {u : PendingTable} {key : PendingKey × PendingKind}
    (hfind : u.find? key.1 = t.find? key.1) (hset : u.settings = t.settings) :
    r.outcome s u key = r.outcome s t key := by
  rw [Entrant.outcome, Entrant.outcome, host_congr hfind hset]

theorem forward_iff (h : Enters s r t done st) (hnodup : (done.map (·.1)).Nodup) :
    st.forward ↔ ∃ key ∈ done, goesOn (r.joins s (r.host t key)) (r.outcome s t key) := by
  induction h with
  | nil => simp
  | @next done st last j hst hj ih =>
    rw [List.map_append, List.nodup_append] at hnodup
    obtain ⟨hdone, -, hlast⟩ := hnodup
    have hnew : last.1 ∉ done.map (·.1) := fun hmem => hlast last.1 hmem last.1 (by simp) rfl
    have hfind := hst.find?_of_not_mem hnew
    obtain ⟨hentry, houtcome⟩ := entry_outcome_of_join? hj
    rw [host_congr hfind hst.settings_eq] at hentry
    rw [outcome_congr hfind hst.settings_eq] at houtcome
    rw [Entered.next, Bool.or_eq_true, ih hdone, hentry, houtcome]
    simp [or_and_right, exists_or]

theorem not_goesOn_of_forward (h : Enters s r t done st) (hnodup : (done.map (·.1)).Nodup)
    (hforward : st.forward = false) {key : PendingKey × PendingKind} (hkey : key ∈ done) :
    goesOn (r.joins s (r.host t key)) (r.outcome s t key) = false := by
  have hnone := mt (h.forward_iff hnodup).2 (by simp [hforward])
  simpa using fun hgoes => hnone ⟨key, hkey, hgoes⟩

end Enters
end NamedData.Forwarder
