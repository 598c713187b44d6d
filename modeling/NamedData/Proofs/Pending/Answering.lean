import NamedData.Packet.Draft
import NamedData.Proofs.Pending.Keys
import NamedData.Proofs.Pending.Operations

/-!
# What a reply answers

A reply answers two entries at most: the one under its name and chunk, which it consumes, and, if it
is an object with a chunk, the window for its name, which remembers the chunk and stays. That the
first is never a window and the second always is one rests on the keys that requests wait under.
-/

namespace NamedData.PendingTable

variable {t : PendingTable} {key : PendingKey} {reply : Message} {now : Instant}

/-- The entry under the name and chunk of a reply. An Interest Return finds regular ones alone. -/
def exactFor? (t : PendingTable) (reply : Message) : Option PendingEntry :=
  (t.find? (.exact reply.name reply.chunk)).filter fun e =>
    reply.kind ≠ .interestReturn ∨ e.kind = .regular

/-- The window for the name of a reply, which objects with a chunk alone find. -/
def windowFor? (t : PendingTable) (reply : Message) : Option PendingEntry :=
  if reply.kind = .contentObject ∧ reply.chunk.isSome then t.find? (.window reply.name) else none

def consumed? (t : PendingTable) (reply : Message) : Option PendingEntry :=
  (t.exactFor? reply).filter (meets reply)

def passed? (t : PendingTable) (reply : Message) : Option PendingEntry :=
  (t.windowFor? reply).filter fun s => meets reply s && reply.chunk.all (· ∉ s.delivered)

def liveOf (e : Option PendingEntry) (now : Instant) : List FaceId := e.elim [] (·.liveFaces now)

/-- What becomes of a table when a reply is delivered, and what the delivery comes to. -/
structure Answers (t : PendingTable) (reply : Message) (now : Instant) (after : PendingTable)
    (d : Delivery) : Prop where
  faces : d.faces = liveOf (t.consumed? reply) now ++
    (liveOf (t.passed? reply) now).filter (· ∉ liveOf (t.consumed? reply) now)
  matched : d.matched = [t.exactFor? reply, t.windowFor? reply].countP (·.isSome)
  rejected : d.rejected =
    [t.exactFor? reply, t.windowFor? reply].countP (·.any (!meets reply ·))
  consumed : ∀ e, t.consumed? reply = some e → after.find? e.key = none
  passed : ∀ s chunk, t.passed? reply = some s → reply.chunk = some chunk →
    after.find? s.key = some { s with delivered := (s.remember chunk t.window).delivered }
  others : ∀ key, (∀ e, t.consumed? reply = some e → key ≠ e.key) →
    (∀ s, t.passed? reply = some s → key ≠ s.key) → after.find? key = t.find? key

/-- Entries are obtained under the keys of requests alone, and for the kinds that go with them. -/
def Operation.Asked : Operation → Prop
  | .obtain key kind _ => ∃ r : PendingRequest, (key, kind) ∈ r.keys
  | _ => True

theorem Every.fits_apply (h : t.Every PendingEntry.Fits) {op : Operation} (hop : op.Asked) :
    (t.apply op).Every PendingEntry.Fits := by
  have hstable := PendingEntry.stable_fits
  cases op with
  | obtain key kind now =>
    simp only [apply]
    cases hfound : t.obtain? key kind now with
    | none => exact h
    | some found =>
      rcases obtain?_cases hfound with ⟨-, hsame, -⟩ | ⟨-, hput, hnew, -⟩
      · rwa [Option.map_some, Option.getD_some, hsame]
      · rw [Option.map_some, Option.getD_some, hput, hnew]
        intro d hd
        rcases mem_put hd with rfl | hd
        · obtain ⟨r, hr⟩ := hop
          exact PendingRequest.allows_of_mem_keys hr
        · exact h d hd
  | join key face lifetime fingerprint now s =>
    refine h.update fun e he => ?_
    obtain ⟨hkey, hkind, -⟩ := e.join_fields face lifetime fingerprint now s
    rw [PendingEntry.Fits, hkey, hkind]
    exact he
  | restrict | deferReturn => exact h.update fun _ he => he
  | addOnward key face => exact h.update fun _ he => hstable.addAllOnward [face] he
  | release face key => exact h.release hstable
  | deliver reply now => exact h.deliver hstable reply now
  | sweep now => exact h.sweep hstable now
  | forget face => exact h.forget hstable

theorem Every.fits_operate (h : t.Every PendingEntry.Fits) {ops : List Operation}
    (hops : ∀ op ∈ ops, op.Asked) : (t.operate ops).Every PendingEntry.Fits :=
  ops.foldlRecOn _ h fun _ hu op hop => hu.fits_apply (hops op hop)

theorem exactFor?_eq (h : t.Every PendingEntry.Fits) :
    t.exactFor? reply = (t.find? (.exact reply.name reply.chunk)).filter (matchesKind reply) := by
  unfold exactFor?
  cases he : t.find? (.exact reply.name reply.chunk) with
  | none => rfl
  | some e =>
    by_cases hreturn : reply.kind = .interestReturn
    · simp [Option.filter_some, matchesKind, hreturn]
    · have hmatches := matchesKind_of_fits (h.find? he) (key_of_find? he) hreturn
      simp [Option.filter_some, hreturn, hmatches]

theorem windowFor?_eq (hobject : reply.kind = .contentObject ∧ reply.chunk.isSome) :
    t.windowFor? reply = (t.find? (.window reply.name)).filter (matchesKind reply) := by
  rw [windowFor?, if_pos hobject]
  cases t.find? (.window reply.name) with
  | none => rfl
  | some s => simp [Option.filter_some, matchesKind, hobject]

theorem consumed?_eq (h : t.Every PendingEntry.Fits) :
    t.consumed? reply = (t.find? (.exact reply.name reply.chunk)).filter (takes reply) := by
  rw [consumed?, exactFor?_eq h]
  cases he : t.find? (.exact reply.name reply.chunk) with
  | none => rfl
  | some e =>
    have hkind : e.kind ≠ .symbolic := ne_symbolic_of_fits (h.find? he) (key_of_find? he)
    cases hmatches : matchesKind reply e <;>
      simp [Option.filter_some, takes, meets, hmatches, hkind]

theorem passed?_eq (h : t.Every PendingEntry.Fits)
    (hobject : reply.kind = .contentObject ∧ reply.chunk.isSome) :
    t.passed? reply = (t.find? (.window reply.name)).filter (takes reply) := by
  rw [passed?, windowFor?_eq hobject]
  cases hs : t.find? (.window reply.name) with
  | none => rfl
  | some s =>
    have hkind : s.kind = .symbolic := symbolic_of_fits (h.find? hs) (key_of_find? hs)
    obtain ⟨chunk, hchunk⟩ := Option.isSome_iff_exists.1 hobject.2
    cases hmatches : matchesKind reply s <;>
      simp [Option.filter_some, takes, meets, hmatches, hkind, hchunk]

theorem liveOf_filter_takes :
    liveOf ((t.find? key).filter (takes reply)) now = t.reached reply now key := by
  unfold reached liveOf
  cases t.find? key with
  | none => rfl
  | some e => by_cases htakes : takes reply e <;> simp [Option.filter_some, htakes]

theorem matched_handed (d : Delivery) (found : Option PendingEntry) :
    (handed reply now d found).matched =
      d.matched + [found.filter (matchesKind reply)].countP (·.isSome) := by
  cases found with
  | none => rfl
  | some e =>
    by_cases hmatches : matchesKind reply e <;> simp [handed, Option.filter_some, hmatches]

theorem rejected_handed (d : Delivery) (found : Option PendingEntry) :
    (handed reply now d found).rejected =
      d.rejected + [found.filter (matchesKind reply)].countP (·.any (!meets reply ·)) := by
  cases found with
  | none => rfl
  | some e =>
    by_cases hmatches : matchesKind reply e <;> by_cases hmeets : meets reply e <;>
      simp [handed, Option.filter_some, hmatches, hmeets]

theorem Sound.nodup_reached (h : t.Sound) : (t.reached reply now key).Nodup := by
  unfold reached
  cases he : t.find? key with
  | none => exact List.nodup_nil
  | some e =>
    dsimp only
    split
    · exact (h.entry he).faces_nodup.sublist (List.filter_sublist.map _)
    · exact List.nodup_nil

theorem faces_deliver_of_fits (h : t.Sound) (hfits : t.Every PendingEntry.Fits) :
    (t.deliver reply now).2.faces = liveOf (t.consumed? reply) now ++
      (liveOf (t.passed? reply) now).filter (· ∉ liveOf (t.consumed? reply) now) := by
  rw [faces_deliver, consumed?_eq hfits, liveOf_filter_takes]
  by_cases hobject : reply.kind = .contentObject ∧ reply.chunk.isSome
  · rw [passed?_eq hfits hobject, liveOf_filter_takes, candidates, if_pos hobject,
      List.flatMap_cons, List.flatMap_singleton, ← pushNew_append,
      pushNew_eq _ h.nodup_reached, pushNew_eq _ h.nodup_reached]
    simp
  · rw [passed?, windowFor?, if_neg hobject, candidates, if_neg hobject, List.flatMap_singleton,
      pushNew_eq _ h.nodup_reached]
    simp [liveOf]

theorem counts_deliver (hfits : t.Every PendingEntry.Fits) :
    (t.deliver reply now).2.matched =
        [t.exactFor? reply, t.windowFor? reply].countP (·.isSome) ∧
      (t.deliver reply now).2.rejected =
        [t.exactFor? reply, t.windowFor? reply].countP (·.any (!meets reply ·)) := by
  rw [delivery_deliver, exactFor?_eq hfits, candidates]
  by_cases hobject : reply.kind = .contentObject ∧ reply.chunk.isSome
  · simp only [if_pos hobject, windowFor?_eq hobject, List.map_cons, List.map_nil,
      List.foldl_cons, List.foldl_nil, matched_handed, rejected_handed]
    simp [List.countP_cons]
    omega
  · simp only [if_neg hobject, windowFor?, List.map_cons, List.map_nil, List.foldl_cons,
      List.foldl_nil, matched_handed, rejected_handed]
    simp [List.countP_cons]

theorem find?_deliver_of_consumed (hfits : t.Every PendingEntry.Fits) {e : PendingEntry}
    (h : t.consumed? reply = some e) : (t.deliver reply now).1.find? e.key = none := by
  rw [consumed?_eq hfits] at h
  obtain ⟨he, htakes⟩ := Option.filter_eq_some_iff.1 h
  have hkey : e.key = .exact reply.name reply.chunk := key_of_find? he
  have hmem : e.key ∈ candidates reply := mem_candidates_iff.2 (.inl hkey)
  rw [find?_deliver, if_pos hmem, hkey, he, Option.bind_some, remainder_eq_none_iff]
  exact ⟨htakes, ne_symbolic_of_fits (hfits.find? he) hkey⟩

theorem find?_deliver_of_passed (hfits : t.Every PendingEntry.Fits) {s : PendingEntry}
    {chunk : UInt32} (h : t.passed? reply = some s) (hchunk : reply.chunk = some chunk) :
    (t.deliver reply now).1.find? s.key = some (s.remember chunk t.window) := by
  have hobject : reply.kind = .contentObject ∧ reply.chunk.isSome := by
    by_contra hnot
    simp [passed?, windowFor?, hnot] at h
  rw [passed?_eq hfits hobject] at h
  obtain ⟨hs, htakes⟩ := Option.filter_eq_some_iff.1 h
  have hkey : s.key = .window reply.name := key_of_find? hs
  have hkind : s.kind = .symbolic := symbolic_of_fits (hfits.find? hs) hkey
  have hmem : s.key ∈ candidates reply := mem_candidates_iff.2 (.inr ⟨hobject, hkey⟩)
  have hfound : t.find? s.key = some s := by rw [hkey, hs]
  rw [find?_deliver, if_pos hmem, hfound, Option.bind_some]
  simp [remainder, htakes, hkind, hchunk]

theorem find?_deliver_of_others (hfits : t.Every PendingEntry.Fits)
    (hconsumed : ∀ e, t.consumed? reply = some e → key ≠ e.key)
    (hpassed : ∀ s, t.passed? reply = some s → key ≠ s.key) :
    (t.deliver reply now).1.find? key = t.find? key := by
  rw [find?_deliver]
  split
  · rename_i hmem
    cases he : t.find? key with
    | none => rfl
    | some e =>
      have hkey : e.key = key := key_of_find? he
      -- the reply finds the entry, and had it taken it, the entry would be one of the two
      have hleft : takes reply e = false := by
        rw [Bool.eq_false_iff]
        intro htakes
        rcases mem_candidates_iff.1 hmem with hexact | ⟨hobject, hwindow⟩
        · refine hconsumed e ?_ hkey.symm
          rw [consumed?_eq hfits, ← hexact, he, Option.filter_some, if_pos htakes]
        · refine hpassed e ?_ hkey.symm
          rw [passed?_eq hfits hobject, ← hwindow, he, Option.filter_some, if_pos htakes]
      simp [remainder, hleft]
  · rfl

/-- Where entries stand under the keys of requests, a reply finds an entry of the right kind under
each of its keys. -/
theorem Sound.answers_deliver (h : t.Sound) (hfits : t.Every PendingEntry.Fits) :
    t.Answers reply now (t.deliver reply now).1 (t.deliver reply now).2 where
  faces := faces_deliver_of_fits h hfits
  matched := (counts_deliver hfits).1
  rejected := (counts_deliver hfits).2
  consumed _ := find?_deliver_of_consumed hfits
  passed _ _ := find?_deliver_of_passed hfits
  others _ := find?_deliver_of_others hfits

/-- Of a table whose entries stand under the keys of requests, a reply takes the entry under its
name and chunk and passes through the window for its name, and the faces with live records there are
sent it, those of the entry first. Everything else stays as it is. -/
theorem deliver_answers (settings : PendingSettings) (ops : List Operation)
    (hops : ∀ op ∈ ops, op.Asked) (reply : Message) (now : Instant) :
    let t := (empty settings).operate ops
    t.Answers reply now (t.deliver reply now).1 (t.deliver reply now).2 := by
  intro t
  have hsound : t.Sound := (Sound.empty settings).operate ops
  have hfits : t.Every PendingEntry.Fits := (Every.empty settings).fits_operate hops
  exact hsound.answers_deliver hfits

/-- Face 1 and face 2 wait for chunk 1 of a name, face 2 and face 3 for all its chunks, and chunk 1
comes. -/
theorem deliver_answers_small :
    let name : Name := ⟨[[97]]⟩
    let chunk := PendingKey.exact name (some 1)
    let window := PendingKey.window name
    let waits (key : PendingKey) (face : UInt16) : Operation :=
      .join key ⟨face⟩ 4000 7 0 (.ofMode .suppress)
    let ops := [.obtain chunk .selective 0, waits chunk 1, waits chunk 2,
      .obtain window .symbolic 0, waits window 2, waits window 3]
    let t := (empty {}).operate ops
    ∃ reply, { Draft.object name [120] with chunk := some 1 }.build = .ok reply ∧
      t.Answers reply 100 (t.deliver reply 100).1 (t.deliver reply 100).2 ∧
      (t.deliver reply 100).2 = { faces := [⟨1⟩, ⟨2⟩, ⟨3⟩], matched := 2, rejected := 0 } ∧
      (t.deliver reply 100).1.entries.map (fun e => (e.key, e.delivered)) = [(window, [1])] := by
  intro name chunk window waits ops t
  have hchunk : ∃ r : PendingRequest, (chunk, .selective) ∈ r.keys :=
    ⟨⟨name, none, .selective, some ⟨0, 2⟩, 4000, 7, {}⟩, by decide⟩
  have hwindow : ∃ r : PendingRequest, (window, .symbolic) ∈ r.keys :=
    ⟨⟨name, none, .symbolic, none, 4000, 7, {}⟩, by decide⟩
  have hops : ∀ op ∈ ops, op.Asked := by
    simp [ops, waits, Operation.Asked, hchunk, hwindow]
  exact ⟨_, by cbv, deliver_answers {} ops hops _ 100, by decide +kernel, by decide +kernel⟩

end NamedData.PendingTable
