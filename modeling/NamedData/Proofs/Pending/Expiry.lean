import NamedData.Proofs.Pending.Operations

/-!
# What a sweep drops

A sweep drops all records of an entry at the deadline of the entry, without a look at when they
expire. That no record outlives the deadline is what keeps live records from being dropped. So a
sweep tells the live records from the dead ones, but leaves some of the dead ones to a later sweep.
-/

namespace NamedData.PendingTable

variable {t u : PendingTable} {now : Instant} {e : PendingEntry} {r : WaitRecord}

def gone (before after : PendingTable) : List (PendingKey × WaitRecord) :=
  before.records.filter (· ∉ after.records)

/-- What becomes of a table in a sweep that runs, and what the sweep reports. -/
structure DropsDead (t : PendingTable) (now : Instant) (after : PendingTable)
    (report : SweepReport) : Prop where
  /-- Live records stay as they are, where they are. -/
  live : after.records.filter (now < ·.2.expiry) = t.records.filter (now < ·.2.expiry)
  /-- No record is new, and none overtakes another. -/
  sublist : after.records.Sublist t.records
  returns : report.returns = returnsOf ((t.gone after).map (·.2))
  expired : report.expired = (t.gone after).length
  before_deadline : ∀ e ∈ after.entries, now < e.deadline
  /-- A dead record is left in an entry only until the entry is next looked through. -/
  before_clean : ∀ e ∈ after.entries, ∀ r ∈ e.waiting, r.expiry ≤ now → now < e.cleanDue
  removed : report.removed = (t.entries.filter fun e => after.find? e.key = none).length
  /-- An entry goes at its deadline and no earlier. -/
  stays : ∀ key e, t.find? key = some e → now < e.deadline → after.find? key ≠ none
  /-- Of an entry that stays, all is as before but the records and the time of the next look. -/
  kept : ∀ key d, after.find? key = some d → ∃ e, t.find? key = some e ∧
    d = { e with waiting := d.waiting, cleanDue := d.cleanDue }

theorem records_sweep (h : t.sweeps now) :
    (t.sweep now).1.records =
      t.entries.flatMap fun e => (e.waiting.filter (!drops now e ·)).map (e.key, ·) := by
  rw [records, entries_sweep h]
  induction t.entries with
  | nil => rfl
  | cons e es ih =>
    have hwaiting : (swept e now t.settings.cleanInterval).waiting =
        e.waiting.filter (!drops now e ·) := waiting_swept e
    rw [List.filterMap_cons, List.flatMap_cons, ← ih, ← hwaiting]
    by_cases hdead : (swept e now t.settings.cleanInterval).dead now
    · have hempty : (swept e now t.settings.cleanInterval).waiting = [] :=
        List.isEmpty_iff.1 (Bool.and_eq_true_iff.1 hdead).1
      simp [PendingTable.kept, hdead, hempty]
    · simp [PendingTable.kept, hdead]

theorem not_drops_of_live (h : e.Sound t.window) (hr : r ∈ e.waiting) (hlive : now < r.expiry) :
    drops now e r = false := by
  have hopen : now < e.deadline := Nat.lt_of_lt_of_le hlive (h.expiry_le r hr)
  simp [drops, WaitRecord.live, hopen, hlive]

namespace Sound

theorem mem_records_sweep (h : t.Sound) (hrun : t.sweeps now) (he : e ∈ t.entries)
    (hr : r ∈ e.waiting) : (e.key, r) ∈ (t.sweep now).1.records ↔ drops now e r = false := by
  rw [records_sweep hrun]
  simp only [List.mem_flatMap, List.mem_map, List.mem_filter, Prod.mk.injEq]
  constructor
  · rintro ⟨d, hd, q, ⟨-, hstays⟩, hkey, rfl⟩
    obtain rfl := h.eq_of_find? ((find?_eq_some_iff h.keys_nodup).2 ⟨he, rfl⟩) hd hkey
    simpa using hstays
  · intro hstays
    exact ⟨e, he, r, ⟨hr, by simp [hstays]⟩, rfl, rfl⟩

theorem gone_sweep (h : t.Sound) (hrun : t.sweeps now) :
    (t.gone (t.sweep now).1).map (·.2) = t.entries.flatMap (dropped · now) := by
  have hentry : ∀ e ∈ t.entries,
      (e.waiting.map (e.key, ·)).filter (· ∉ (t.sweep now).1.records) =
        (dropped e now).map (e.key, ·) := by
    intro e he
    rw [List.filter_map, dropped_eq]
    congr 1
    refine List.filter_congr fun r hr => ?_
    simp [h.mem_records_sweep hrun he hr]
  have hsplit : t.gone (t.sweep now).1 = t.entries.flatMap fun e =>
      (e.waiting.map (e.key, ·)).filter (· ∉ (t.sweep now).1.records) := List.filter_flatMap
  rw [hsplit, List.flatMap_congr hentry, List.map_flatMap]
  simp [Function.comp_def]

theorem live_sweep (h : t.Sound) (hrun : t.sweeps now) :
    (t.sweep now).1.records.filter (now < ·.2.expiry) = t.records.filter (now < ·.2.expiry) := by
  rw [records_sweep hrun, records, List.filter_flatMap, List.filter_flatMap]
  refine List.flatMap_congr fun e he => ?_
  rw [List.filter_map, List.filter_map, List.filter_filter]
  congr 1
  refine List.filter_congr fun r hr => ?_
  by_cases hlive : now < r.expiry
  · simp [hlive, not_drops_of_live (h.entries e he) hr hlive]
  · simp [hlive]

theorem sublist_sweep (hrun : t.sweeps now) : (t.sweep now).1.records.Sublist t.records := by
  rw [records_sweep hrun, records]
  induction t.entries with
  | nil => exact List.Sublist.refl _
  | cons e es ih => exact (List.filter_sublist.map _).append ih

end Sound

theorem kept_of_before_deadline {cleanInterval : Nat} (h : now < e.deadline) :
    PendingTable.kept now cleanInterval e = some (swept e now cleanInterval) := by
  refine if_neg ?_
  have hopen : ¬e.deadline ≤ now := Nat.not_le.2 h
  have hdeadline : (swept e now cleanInterval).deadline = e.deadline := by
    simp only [swept, if_neg hopen]
    split <;> rfl
  simp [PendingEntry.dead, hdeadline, hopen]

theorem kept_of_deadline {cleanInterval : Nat} (h : e.deadline ≤ now) :
    PendingTable.kept now cleanInterval e = none := by
  refine if_pos ?_
  simp [swept, PendingEntry.dead, h]

theorem kept_eq_some_iff {cleanInterval : Nat} {d : PendingEntry} :
    PendingTable.kept now cleanInterval e = some d ↔
      now < e.deadline ∧ swept e now cleanInterval = d := by
  by_cases hopen : now < e.deadline
  · rw [kept_of_before_deadline hopen]
    simp [hopen]
  · rw [kept_of_deadline (Nat.not_lt.1 hopen)]
    simp [hopen]

theorem swept_eq (e : PendingEntry) (now cleanInterval : Nat) :
    swept e now cleanInterval =
      { e with
        waiting := (swept e now cleanInterval).waiting
        cleanDue := (swept e now cleanInterval).cleanDue } := by
  unfold swept
  repeat' split
  all_goals rfl

theorem lt_cleanDue_of_swept {cleanInterval : Nat} (hopen : now < e.deadline)
    (hr : r ∈ (swept e now cleanInterval).waiting) (hdead : r.expiry ≤ now) :
    now < (swept e now cleanInterval).cleanDue := by
  simp only [swept, if_neg (Nat.not_le.2 hopen)] at hr ⊢
  split at hr
  · have hlive : now < r.expiry := by simpa [WaitRecord.live] using (List.mem_filter.1 hr).2
    exact absurd hlive (Nat.not_lt.2 hdead)
  · rename_i hdue
    rw [if_neg hdue]
    exact Nat.not_le.1 hdue

theorem removed_sweep (hkeys : (t.entries.map (·.key)).Nodup) (hrun : t.sweeps now) :
    (t.sweep now).2.removed =
      (t.entries.filter fun e => (t.sweep now).1.find? e.key = none).length := by
  let stays (e : PendingEntry) : Bool := (PendingTable.kept now t.settings.cleanInterval e).isSome
  have hleft : (t.sweep now).1.entries.length = t.entries.countP stays := by
    rw [entries_sweep hrun, List.length_filterMap_eq_countP]
  have hgone : ∀ e ∈ t.entries,
      decide ((t.sweep now).1.find? e.key = none) = decide (¬stays e) := by
    intro e he
    rw [find?_sweep hkeys hrun, (find?_eq_some_iff hkeys).2 ⟨he, rfl⟩, Option.bind_some]
    simp [stays]
  calc
    (t.sweep now).2.removed = t.entries.length - (t.sweep now).1.entries.length := by
      simp only [sweep, if_neg (due_of_sweeps hrun)]
    _ = t.entries.countP fun e => ¬stays e := by
      rw [hleft, List.length_eq_countP_add_countP stays, Nat.add_sub_cancel_left]
    _ = _ := by rw [List.filter_congr hgone, List.countP_eq_length_filter]

theorem ran_sweep_iff : (t.sweep now).2.ran ↔ t.sweeps now := by
  cases hrun : t.sweeps now with
  | false => simp [sweep_of_not_sweeps hrun]
  | true => simp [ran_sweep hrun]

theorem nextSweep_sweep (hrun : t.sweeps now) :
    (t.sweep now).1.nextSweep = some (now + t.settings.sweepPeriod) := by
  rw [sweep, if_neg (due_of_sweeps hrun)]

@[simp] theorem nextSweep_put (e : PendingEntry) : (t.put e).nextSweep = t.nextSweep := by
  unfold put
  split <;> rfl

theorem nextSweep_deliverTo {reply : Message} {key : PendingKey} (u : PendingTable × Delivery) :
    (deliverTo reply now u key).1.nextSweep = u.1.nextSweep := by
  unfold deliverTo
  dsimp only
  repeat' split
  all_goals rfl

theorem nextSweep_apply {op : Operation} (h : ∀ now, op = .sweep now → t.sweeps now = false) :
    (t.apply op).nextSweep = t.nextSweep := by
  cases op with
  | obtain key kind now =>
    simp only [apply]
    cases hfound : t.obtain? key kind now with
    | none => rfl
    | some found =>
      rcases obtain?_cases hfound with ⟨-, hsame, -⟩ | ⟨-, hput, -⟩
      · simp [hsame]
      · simp [hput]
  | join | restrict | deferReturn | addOnward | forget => rfl
  | release face key =>
    simp only [apply, PendingTable.release]
    repeat' split
    all_goals rfl
  | deliver reply now =>
    refine (candidates reply).foldlRecOn _
      (motive := fun u : PendingTable × Delivery => u.1.nextSweep = t.nextSweep) rfl ?_
    exact fun u hu key _ => (nextSweep_deliverTo u).trans hu
  | sweep now => rw [apply, sweep_of_not_sweeps (h now rfl)]

theorem nextSweep_operate {next : Instant} (h : t.nextSweep = some next) {ops : List Operation}
    (hops : ∀ early, .sweep early ∈ ops → early < next) :
    (t.operate ops).nextSweep = some next := by
  refine ops.foldlRecOn _ (motive := fun u : PendingTable => u.nextSweep = some next) h ?_
  intro u hu op hop
  have hearly : ∀ early, op = .sweep early → u.sweeps early = false := by
    rintro early rfl
    simp [sweeps, hu, hops early hop]
  rw [nextSweep_apply hearly, hu]

theorem Sound.dropsDead_sweep (h : t.Sound) (hrun : t.sweeps now) :
    t.DropsDead now (t.sweep now).1 (t.sweep now).2 where
  live := h.live_sweep hrun
  sublist := sublist_sweep hrun
  returns := by rw [returns_sweep hrun, h.gone_sweep hrun]
  expired := by rw [expired_sweep hrun, ← h.gone_sweep hrun, List.length_map]
  before_deadline := by
    intro d hd
    rw [entries_sweep hrun] at hd
    obtain ⟨e, -, hkept⟩ := List.mem_filterMap.1 hd
    obtain ⟨hopen, rfl⟩ := kept_eq_some_iff.1 hkept
    rw [swept_eq]
    exact hopen
  before_clean := by
    intro d hd r hr hdead
    rw [entries_sweep hrun] at hd
    obtain ⟨e, -, hkept⟩ := List.mem_filterMap.1 hd
    obtain ⟨hopen, rfl⟩ := kept_eq_some_iff.1 hkept
    exact lt_cleanDue_of_swept hopen hr hdead
  removed := removed_sweep h.keys_nodup hrun
  stays := by
    intro key e he hopen
    rw [find?_sweep h.keys_nodup hrun, he, Option.bind_some, kept_of_before_deadline hopen]
    exact Option.some_ne_none _
  kept := by
    intro key d hd
    rw [find?_sweep h.keys_nodup hrun] at hd
    obtain ⟨e, he, hkept⟩ := Option.bind_eq_some_iff.1 hd
    refine ⟨e, he, ?_⟩
    rw [← swept_of_kept hkept]
    exact swept_eq e now _

/-- A sweep runs when a period has passed since the last one that ran. It keeps the live records of
a reachable table and reports what it drops, and a sweep that does not run changes nothing. -/
theorem sweep_dropsDead (ht : t.Reachable) (now : Instant) :
    ((t.sweep now).2.ran ↔ ∀ next, t.nextSweep = some next → next ≤ now) ∧
      ((t.sweep now).2.ran = false → t.sweep now = (t, {})) ∧
      ((t.sweep now).2.ran →
        t.DropsDead now (t.sweep now).1 (t.sweep now).2 ∧
          ∀ ops : List Operation,
            (∀ early, .sweep early ∈ ops → early < now + t.settings.sweepPeriod) →
            ∀ later, (((t.sweep now).1.operate ops).sweep later).2.ran ↔
              now + t.settings.sweepPeriod ≤ later) := by
  have hruns : ∀ {u : PendingTable} {time : Instant}, (u.sweep time).2.ran ↔
      ∀ next, u.nextSweep = some next → next ≤ time := by
    intro u time
    rw [ran_sweep_iff, sweeps]
    cases u.nextSweep <;> simp
  refine ⟨hruns, fun hidle => ?_, fun hran => ?_⟩
  · refine sweep_of_not_sweeps (Bool.eq_false_iff.2 (mt ran_sweep_iff.2 ?_))
    rw [hidle]
    exact Bool.false_ne_true
  · have hrun := ran_sweep_iff.1 hran
    refine ⟨ht.sound.dropsDead_sweep hrun, fun ops hops later => ?_⟩
    rw [hruns, nextSweep_operate (nextSweep_sweep hrun) hops]
    simp

/-- Face 1 and face 2 wait for a name, face 3 for its chunk 1, face 4 and face 5 for its chunk 2.
At 2000 the entry of chunk 1 is past its deadline, that of the name is looked through, and that of
chunk 2 is not, though the record of face 4 is dead. -/
theorem sweep_dropsDead_small :
    let name : Name := ⟨[[97]]⟩
    let whole := PendingKey.exact name none
    let first := PendingKey.exact name (some 1)
    let second := PendingKey.exact name (some 2)
    let waits (key : PendingKey) (face : UInt16) (lifetime now : Nat) : Operation :=
      .join key ⟨face⟩ lifetime 7 now (.ofMode .suppress)
    let t := (empty {}).operate
      [.obtain whole .regular 0, waits whole 1 1500 0, .deferReturn whole ⟨1⟩ [1],
        waits whole 2 5000 0, .obtain first .regular 0, waits first 3 1000 0,
        .deferReturn first ⟨3⟩ [3], .obtain second .selective 1500, waits second 4 100 1500,
        waits second 5 5000 1500]
    let after := (t.sweep 2000).1
    let report := (t.sweep 2000).2
    t.Reachable ∧ t.DropsDead 2000 after report ∧ report =
        { ran := true, returns := [(⟨1⟩, [1]), (⟨3⟩, [3])], expired := 2, removed := 1 } ∧
      after.records.map (·.2.face) = [⟨2⟩, ⟨4⟩, ⟨5⟩] ∧
      ((after.operate [.forget ⟨2⟩]).sweep 2099).2.ran = false := by
  intro name whole first second waits t after report
  have hreachable : t.Reachable := ⟨_, _, rfl⟩
  obtain ⟨-, -, hran⟩ := sweep_dropsDead hreachable 2000
  obtain ⟨hdrops, hperiod⟩ := hran (by decide)
  refine ⟨hreachable, hdrops, by decide, by decide, ?_⟩
  have hearly : ¬2000 + t.settings.sweepPeriod ≤ 2099 := by decide
  have hidle := mt (hperiod [.forget ⟨2⟩] (by simp) 2099).1 hearly
  rw [Bool.not_eq_true] at hidle
  simp only [after]
  exact hidle

end NamedData.PendingTable
