import Mathlib.Data.List.Induction
import NamedData.Packet.Draft
import NamedData.Proofs.Pending.Keys
import NamedData.Proofs.Pending.Operations

/-!
# How long an entry stands

An entry is created where a request finds none under its key, or a dead one, and stands until it is
consumed, released, swept or replaced. It keeps the kind that it was created with, whoever joins it
later. An Interest Return is matched by that kind, so it is of no use to those who wait on an entry
that a selective request has created.
-/

namespace NamedData.PendingTable

def creates (t : PendingTable) (k : PendingKey) : Operation → Bool
  | .obtain key _ now => key = k && (t.find? k).all (·.dead now)
  | _ => false

/-- The entry under a key is there all along, and none of the operations creates it anew. -/
def Stands (t : PendingTable) (k : PendingKey) : List Operation → Prop
  | [] => (t.find? k).isSome
  | op :: ops => (t.find? k).isSome ∧ t.creates k op = false ∧ (t.apply op).Stands k ops

/-- How the entry under a key has come about: it was created after some of the operations and has
stood through the rest. -/
structure Life (settings : PendingSettings) (k : PendingKey) (ops : List Operation) where
  past : List Operation
  kind : PendingKind
  time : Instant
  since : List Operation
  split : ops = past ++ .obtain k kind time :: since
  unfound : (((empty settings).operate past).find? k).all (·.dead time)
  stands : (((empty settings).operate past).apply (.obtain k kind time)).Stands k since

variable {t : PendingTable} {k : PendingKey} {now : Instant} {op : Operation}
variable {ops : List Operation} {d e : PendingEntry} {settings : PendingSettings}

/-! ## One operation -/

/-- What an operation that does not remember a chunk leaves of an entry. -/
def SameWindow (e d : PendingEntry) : Prop := d.kind = e.kind ∧ d.delivered = e.delivered

theorem sameWindow_of_find?_update {key : PendingKey} {f : PendingEntry → PendingEntry}
    (hkey : ∀ e, e.key = key → (f e).key = key) (hf : ∀ e, SameWindow e (f e))
    (hd : (t.update key f).find? k = some d) : ∃ e, t.find? k = some e ∧ SameWindow e d := by
  rw [find?_update hkey] at hd
  split at hd
  · rename_i hk
    obtain ⟨e, he, rfl⟩ := Option.map_eq_some_iff.1 hd
    exact ⟨e, hk ▸ he, hf e⟩
  · exact ⟨d, hd, rfl, rfl⟩

theorem sameWindow_of_find?_obtain {key : PendingKey} {kind : PendingKind}
    (hold : t.creates k (.obtain key kind now) = false)
    (hd : (t.apply (.obtain key kind now)).find? k = some d) : t.find? k = some d := by
  simp only [apply] at hd
  cases hfound : t.obtain? key kind now with
  | none => rwa [hfound] at hd
  | some found =>
    rw [hfound, Option.map_some, Option.getD_some] at hd
    rcases obtain?_cases hfound with ⟨-, hsame, -⟩ | ⟨-, hput, hnew, hdead⟩
    · rwa [hsame] at hd
    · rw [hput, find?_put] at hd
      have hkey : found.2.1.key = key := by rw [hnew, PendingEntry.create]
      rw [hkey] at hd
      split at hd
      · rename_i hk
        rw [← hk] at hdead
        simp [creates, hk.symm, hdead] at hold
      · exact hd

/-- The entry under a key after an operation that does not create it was there before. Only a reply
may have made it remember a chunk. -/
theorem sameWindow_of_find?_apply (ht : t.Sound) (hold : t.creates k op = false)
    (hreply : ∀ reply now, op ≠ .deliver reply now) (hd : (t.apply op).find? k = some d) :
    ∃ e, t.find? k = some e ∧ SameWindow e d := by
  cases op with
  | obtain key kind now => exact ⟨d, sameWindow_of_find?_obtain hold hd, rfl, rfl⟩
  | join key face lifetime fingerprint now s =>
    have hfields := fun e : PendingEntry => e.join_fields face lifetime fingerprint now s
    refine sameWindow_of_find?_update (fun e hkey => (hfields e).1.trans hkey) ?_ hd
    exact fun e => ⟨(hfields e).2.1, (hfields e).2.2.2.2.1⟩
  | restrict key restrictions =>
    exact sameWindow_of_find?_update (f := (·.restrict restrictions)) (fun _ hkey => hkey)
      (fun _ => ⟨rfl, rfl⟩) hd
  | deferReturn key face payload =>
    exact sameWindow_of_find?_update (f := (·.deferReturn face payload)) (fun _ hkey => hkey)
      (fun _ => ⟨rfl, rfl⟩) hd
  | addOnward key face =>
    refine sameWindow_of_find?_update ?_ ?_ hd
    · exact fun e hkey => (PendingEntry.key_addAllOnward [face]).trans hkey
    · intro e
      have hadd : e.addOnward face = e.addAllOnward [face] := rfl
      rw [hadd, addAllOnward_eq]
      exact ⟨rfl, rfl⟩
  | release face key =>
    rw [apply, find?_release] at hd
    split at hd
    · rename_i hk
      obtain ⟨e, he, rfl⟩ := Option.map_eq_some_iff.1 (Option.filter_eq_some_iff.1 hd).1
      exact ⟨e, hk ▸ he, rfl, rfl⟩
    · exact ⟨d, hd, rfl, rfl⟩
  | deliver reply now => exact absurd rfl (hreply reply now)
  | sweep now =>
    cases hrun : t.sweeps now with
    | false =>
      rw [apply, sweep_of_not_sweeps hrun] at hd
      exact ⟨d, hd, rfl, rfl⟩
    | true =>
      rw [apply, find?_sweep ht.keys_nodup hrun] at hd
      obtain ⟨e, he, hkept⟩ := Option.bind_eq_some_iff.1 hd
      rw [← swept_of_kept hkept]
      refine ⟨e, he, ?_⟩
      unfold swept
      repeat' split
      all_goals exact ⟨rfl, rfl⟩
  | forget face =>
    rw [apply, find?_forget] at hd
    obtain ⟨e, he, rfl⟩ := Option.map_eq_some_iff.1 hd
    exact ⟨e, he, rfl, rfl⟩

theorem kind_of_find?_apply (ht : t.Sound) (hold : t.creates k op = false)
    (hd : (t.apply op).find? k = some d) : ∃ e, t.find? k = some e ∧ d.kind = e.kind := by
  by_cases hreply : ∃ reply now, op = .deliver reply now
  · obtain ⟨reply, now, rfl⟩ := hreply
    rw [apply, find?_deliver] at hd
    split at hd
    · obtain ⟨e, he, hrem⟩ := Option.bind_eq_some_iff.1 hd
      exact ⟨e, he, by rw [eq_of_remainder hrem]⟩
    · exact ⟨d, hd, rfl⟩
  · have hnone : ∀ reply now, op ≠ .deliver reply now := fun reply now h => hreply ⟨reply, now, h⟩
    obtain ⟨e, he, hsame⟩ := sameWindow_of_find?_apply ht hold hnone hd
    exact ⟨e, he, hsame.1⟩

theorem find?_apply_of_creates {kind : PendingKind}
    (hdead : (t.find? k).all (·.dead now))
    (hd : (t.apply (.obtain k kind now)).find? k = some d) :
    d = .create k kind now t.settings.cleanInterval := by
  simp only [apply] at hd
  cases hfound : t.obtain? k kind now with
  | none =>
    rw [hfound, Option.map_none, Option.getD_none, (obtain?_eq_none_iff.1 hfound).1] at hd
    cases hd
  | some found =>
    rw [hfound, Option.map_some, Option.getD_some, find?_of_obtain? hfound] at hd
    rcases obtain?_cases hfound with ⟨-, -, he, halive⟩ | ⟨-, -, hnew, -⟩
    · rw [he] at hdead
      simp [halive] at hdead
    · rw [← Option.some.inj hd, hnew]

/-! ## Operations one after another -/

theorem Stands.isSome (h : t.Stands k ops) : (t.find? k).isSome := by
  cases ops with
  | nil => exact h
  | cons op ops => exact h.1

/-- The entry stands through one more operation if it is there after that and was not created by
it. -/
theorem Stands.concat (h : t.Stands k ops) (hold : (t.operate ops).creates k op = false)
    (hsome : (((t.operate ops).apply op).find? k).isSome) : t.Stands k (ops ++ [op]) := by
  induction ops generalizing t with
  | nil => exact ⟨h, hold, hsome⟩
  | cons first ops ih => exact ⟨h.1, h.2.1, ih h.2.2 hold hsome⟩

theorem Stands.exists_kind (h : t.Stands k ops) (ht : t.Sound)
    (hd : (t.operate ops).find? k = some d) : ∃ e, t.find? k = some e ∧ d.kind = e.kind := by
  induction ops generalizing t with
  | nil => exact ⟨d, hd, rfl⟩
  | cons op ops ih =>
    obtain ⟨hsome, hold, hrest⟩ := h
    obtain ⟨c, hc, hkind⟩ := ih hrest (ht.apply op) hd
    obtain ⟨e, he, hsame⟩ := kind_of_find?_apply ht hold hc
    exact ⟨e, he, hkind.trans hsame⟩

theorem Stands.creates_eq_false {rest : List Operation} (h : t.Stands k (ops ++ op :: rest)) :
    (t.operate ops).creates k op = false := by
  induction ops generalizing t with
  | nil => exact h.2.1
  | cons first ops ih => exact ih h.2.2

namespace Life

variable (life : Life settings k ops)

def birth : PendingTable :=
  ((empty settings).operate life.past).apply (.obtain k life.kind life.time)

theorem operate_birth : life.birth.operate life.since = (empty settings).operate ops := by
  have h := congrArg (empty settings).operate life.split
  rw [operate_append] at h
  exact h.symm

theorem sound_birth : life.birth.Sound := ((Sound.empty settings).operate life.past).apply _

theorem find?_birth : life.birth.find? k =
    some (.create k life.kind life.time settings.cleanInterval) := by
  obtain ⟨d, hd⟩ := Option.isSome_iff_exists.1 life.stands.isSome
  have hnew := find?_apply_of_creates life.unfound hd
  rw [settings_operate] at hnew
  rw [birth, hd, hnew]
  rfl

theorem kind_eq (hd : ((empty settings).operate ops).find? k = some d) : d.kind = life.kind := by
  rw [← life.operate_birth] at hd
  obtain ⟨e, he, hkind⟩ := Stands.exists_kind (t := life.birth) life.stands life.sound_birth hd
  rw [life.find?_birth] at he
  rw [hkind, ← Option.some.inj he]
  rfl

theorem length_past_le (other : Life settings k ops) : other.past.length ≤ life.past.length := by
  by_contra hlater
  have hsplit := life.split.symm.trans other.split
  obtain ⟨between, hpast, hsince⟩ : ∃ between,
      other.past = life.past ++ .obtain k life.kind life.time :: between ∧
        life.since = between ++ .obtain k other.kind other.time :: other.since := by
    rcases List.append_eq_append_iff.1 hsplit with ⟨mid, hpast, hrest⟩ | ⟨mid, hpast, -⟩
    · cases mid with
      | nil => simp [hpast] at hlater
      | cons first between =>
        obtain ⟨rfl, hsince⟩ := List.cons.inj hrest
        exact ⟨between, hpast, hsince⟩
    · simp [hpast] at hlater
  have hstands := life.stands
  rw [hsince] at hstands
  have hfound := hstands.creates_eq_false
  have htable : life.birth.operate between = (empty settings).operate other.past := by
    rw [hpast, operate_append]
    rfl
  have hunfound := other.unfound
  rw [← htable] at hunfound
  simp only [creates, decide_true, Bool.true_and] at hfound
  exact absurd hunfound (by simp [hfound, birth])

instance : Subsingleton (Life settings k ops) where
  allEq life other := by
    have hlength := Nat.le_antisymm (other.length_past_le life) (life.length_past_le other)
    obtain ⟨hpast, hrest⟩ := List.append_inj (life.split.symm.trans other.split) hlength
    obtain ⟨hcreated, hsince⟩ := List.cons.inj hrest
    obtain ⟨-, hkind, htime⟩ := Operation.obtain.inj hcreated
    cases life
    cases other
    simp_all

end Life

/-- Every entry of a table that operations make has been created by one of them, and has stood
since. -/
theorem exists_life (h : (((empty settings).operate ops).find? k).isSome) :
    Nonempty (Life settings k ops) := by
  induction ops using List.reverseRecOn with
  | nil => cases h
  | append_singleton ops op ih =>
    have hlast : (empty settings).operate (ops ++ [op]) =
        ((empty settings).operate ops).apply op := operate_append _ ops [op]
    rw [hlast] at h
    cases hcreates : ((empty settings).operate ops).creates k op with
    | true =>
      cases op with
      | obtain key kind now =>
        simp only [creates, Bool.and_eq_true, decide_eq_true_eq] at hcreates
        obtain ⟨rfl, hdead⟩ := hcreates
        exact ⟨ops, kind, now, [], rfl, hdead, h⟩
      | join | restrict | deferReturn | addOnward | release | deliver | sweep | forget =>
        cases hcreates
    | false =>
      obtain ⟨d, hd⟩ := Option.isSome_iff_exists.1 h
      obtain ⟨e, he, -⟩ :=
        kind_of_find?_apply ((Sound.empty settings).operate ops) hcreates hd
      obtain ⟨life⟩ := ih (by rw [he]; rfl)
      refine ⟨life.past, life.kind, life.time, life.since ++ [op], ?_, life.unfound, ?_⟩
      · simpa using congrArg (· ++ [op]) life.split
      · refine life.stands.concat ?_ ?_
        · exact life.operate_birth ▸ hcreates
        · exact life.operate_birth ▸ h

/-! ## Interest Returns -/

theorem deliver_return_of_not_regular {reply : Message} (hkind : reply.kind = .interestReturn)
    (he : t.find? (.exact reply.name reply.chunk) = some e) (hother : e.kind ≠ .regular) :
    t.deliver reply now = (t, {}) := by
  have hmatches : matchesKind reply e = false := by simp [matchesKind, hkind, hother]
  rw [deliver, candidates_of_ne_object (by simp [hkind]), List.foldl_cons, List.foldl_nil]
  simp [deliverTo, he, hmatches]

/-- A face with a live record is sent an Interest Return for the name and chunk just when the entry
that it waits on was created as regular. On any other entry nothing comes of the return. -/
theorem returned_iff_created_regular (settings : PendingSettings) (ops : List Operation)
    {reply : Message} {g : FaceId} {r : WaitRecord} {now : Instant}
    (hkind : reply.kind = .interestReturn)
    (hr : ((empty settings).operate ops).record? (.exact reply.name reply.chunk) g = some r)
    (hlive : now < r.expiry) :
    let t := (empty settings).operate ops
    ∃ life : Life settings (.exact reply.name reply.chunk) ops,
      (g ∈ (t.deliver reply now).2.faces ↔ life.kind = .regular) ∧
        (life.kind ≠ .regular → t.deliver reply now = (t, {})) := by
  intro t
  obtain ⟨e, he, hrec⟩ := record?_eq_some_iff.1 hr
  obtain ⟨life⟩ := exists_life (by rw [he]; rfl)
  have hcreated : e.kind = life.kind := life.kind_eq he
  have hnothing : life.kind ≠ .regular → t.deliver reply now = (t, {}) := fun hother =>
    deliver_return_of_not_regular hkind he (hcreated ▸ hother)
  refine ⟨life, ⟨?_, ?_⟩, hnothing⟩
  · intro hg
    by_contra hother
    rw [hnothing hother] at hg
    exact absurd hg List.not_mem_nil
  · intro hregular
    have htakes : takes reply e := (takes_of_return hkind).2 (hcreated.trans hregular)
    have hsound : t.Sound := (Sound.empty settings).operate ops
    have hg : g ∈ e.liveFaces now :=
      (PendingEntry.mem_liveFaces_iff (hsound.entry he).faces_nodup).2 ⟨r, hrec, hlive⟩
    exact mem_faces_deliver.2 ⟨_, exact_mem_candidates.2 ⟨rfl, rfl⟩, e, he, htakes, hg⟩

/-- Face 1 asks for chunk 1 of a name, face 2 for a run of chunks with that chunk, and the Interest
of face 1 comes back. -/
theorem returned_iff_created_regular_small :
    let name : Name := ⟨[[97]]⟩
    let key := PendingKey.exact name (some 1)
    let waits (face : UInt16) (now : Instant) : Operation :=
      .join key ⟨face⟩ 4000 7 now (.ofMode .suppress)
    let ops := [.obtain key .regular 0, waits 1 0, .obtain key .selective 10, waits 2 10]
    let back : Draft :=
      { kind := .interestReturn, name, chunk := some 1, returnCode := some .noRoute }
    ∃ reply, back.build = .ok reply ∧
      (((empty {}).operate ops).deliver reply 100).2.faces = [⟨1⟩, ⟨2⟩] ∧
      ∃ life : Life {} (.exact reply.name reply.chunk) ops, life.kind = .regular := by
  intro name key waits ops back
  have hreply : ∃ reply, back.build = .ok reply ∧ reply.kind = .interestReturn ∧
      PendingKey.exact reply.name reply.chunk = key ∧
      (((empty {}).operate ops).deliver reply 100).2.faces = [⟨1⟩, ⟨2⟩] :=
    ⟨_, by cbv, by cbv, by cbv, by decide +kernel⟩
  obtain ⟨reply, hbuild, hkind, hkey, hfaces⟩ := hreply
  have hr : ((empty {}).operate ops).record? key ⟨1⟩ = some ⟨⟨1⟩, 4000, 7, none⟩ := by decide
  have hlive : 100 < (⟨⟨1⟩, 4000, 7, none⟩ : WaitRecord).expiry := by decide
  obtain ⟨life, htold, -⟩ := returned_iff_created_regular {} ops hkind (hkey ▸ hr) hlive
  exact ⟨reply, hbuild, hfaces, life, htold.1 (by simp [hfaces])⟩

/-- Face 2 asks for a run of chunks with chunk 1, and then face 1 for that chunk alone. The Interest
of face 1 comes back, and face 1 is not told. It is told where it has asked first. -/
theorem regular_requester_not_told :
    let name : Name := ⟨[[97]]⟩
    let key := PendingKey.exact name (some 1)
    let asks (face : UInt16) (m : Message) (now : Instant) : Entrant :=
      { face := ⟨face⟩, request := .ofMessage m 4000, now }
    let enters (r : Entrant) (kind : PendingKind) (isNew : Bool) :=
      r.operations (.ofMode .suppress) (key, kind) isNew
    ∃ selective regular reply,
      { Draft.interest name with span := .run ⟨1, 1⟩ }.build = .ok selective ∧
      { Draft.interest name with chunk := some 1 }.build = .ok regular ∧
      Message.parse (regular.toInterestReturn .noRoute) = .ok reply ∧
      let run := asks 2 selective 0
      let single := asks 1 regular 10
      let t := (empty {}).operate (enters run .selective true ++ enters single .regular false)
      let u := (empty {}).operate (enters single .regular true ++ enters run .selective false)
      run.request.keys = [(key, .selective)] ∧ single.request.keys = [(key, .regular)] ∧
        reply.kind = .interestReturn ∧ reply.interestType = .regular ∧
        PendingKey.exact reply.name reply.chunk = key ∧
        t.Reachable ∧ t.record? key ⟨1⟩ = some single.record ∧ 100 < single.record.expiry ∧
        (t.deliver reply 100).2.faces = [] ∧ (u.deliver reply 100).2.faces = [⟨1⟩, ⟨2⟩] := by
  intro name key asks enters
  exact ⟨_, _, _, by cbv, by cbv, by cbv, by cbv, by cbv, by cbv, by cbv, by cbv, ⟨_, _, rfl⟩,
    by decide +kernel, by decide +kernel, by decide +kernel, by decide +kernel⟩

end NamedData.PendingTable
