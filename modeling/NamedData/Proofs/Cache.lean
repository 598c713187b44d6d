import Mathlib.Data.List.Nodup
import NamedData.Cache

/-!
# What the cache holds

The cache holds nothing but objects that were put in, no two of them under one name and
chunk, and it answers with one that it holds under the name and chunk that were asked
for. A purge takes away nothing that the cache would have answered with.
-/

namespace NamedData

/-- A name and a chunk, under which an object is stored. -/
abbrev Place := Name × Option UInt32

def CachedObject.place (c : CachedObject) : Place := (c.object.name, c.object.chunk)

theorem CachedObject.isAt_iff {c : CachedObject} {n : Name} {k : Option UInt32} :
    c.isAt n k ↔ c.place = (n, k) := by
  simp [isAt, place]

namespace Cache

variable {c : Cache} {cached new : CachedObject} {object : Message} {now : Instant}
variable {place : Place}

theorem mem_objects_lookup {n : Name} {k : Option UInt32}
    (h : cached ∈ (c.lookup n k now).1.objects) : cached ∈ c.objects := by
  unfold lookup at h
  split at h
  · exact h
  · split at h
    · exact h
    · exact (List.mem_filter.1 h).1

theorem lookup_eq_some_iff {n : Name} {k : Option UInt32} :
    (c.lookup n k now).2 = some object ↔
      ∃ cached, c.find? n k = some cached ∧ cached.fresh now ∧ cached.object = object := by
  unfold lookup
  cases hfind : c.find? n k with
  | none => simp
  | some cached => by_cases hfresh : cached.fresh now <;> simp [hfresh]

/-- The cache answers with a fresh object that it holds under the name and chunk. -/
theorem lookup_eq_some {n : Name} {k : Option UInt32} (h : (c.lookup n k now).2 = some object) :
    ∃ cached ∈ c.objects, cached.object = object ∧ cached.fresh now ∧
      object.name = n ∧ object.chunk = k := by
  obtain ⟨cached, hfind, hfresh, rfl⟩ := lookup_eq_some_iff.1 h
  have hplace : cached.place = (n, k) :=
    CachedObject.isAt_iff.1 (by simpa using List.find?_some hfind)
  exact ⟨cached, List.mem_of_find?_eq_some hfind, rfl, hfresh, Prod.mk.inj hplace⟩

/-- What an object is stored as, if the cache takes any objects and this one is not outdated. -/
def storedAs? (c : Cache) (object : Message) (now : Instant) (wall : Nat) : Option CachedObject :=
  if c.capacity = 0 ∨ outdated object wall then none
  else some ⟨object, now + (object.cacheTime.map UInt64.toNat).getD c.defaultCacheTime⟩

theorem storedAs?_eq_some_iff {wall : Nat} :
    c.storedAs? object now wall = some cached ↔
      c.capacity ≠ 0 ∧ outdated object wall = false ∧
        cached = ⟨object, now + (object.cacheTime.map UInt64.toNat).getD c.defaultCacheTime⟩ := by
  unfold storedAs?
  split
  · rename_i hnone
    rcases hnone with hnone | hnone <;> simp [hnone]
  · rename_i hsome
    simp only [not_or, Bool.not_eq_true] at hsome
    simp [hsome, eq_comm]

/-- The places at which objects are stored, the next one to give way first. -/
def queue (c : Cache) : List Place := c.objects.map (·.place)

theorem find?_eq_none_iff {n : Name} {k : Option UInt32} :
    c.find? n k = none ↔ (n, k) ∉ c.queue := by
  simp only [find?, List.find?_eq_none, CachedObject.isAt_iff, queue, List.mem_map, not_exists,
    not_and]

theorem isSome_find?_iff {n : Name} {k : Option UInt32} :
    (c.find? n k).isSome ↔ (n, k) ∈ c.queue := by
  rw [← not_iff_not, ← find?_eq_none_iff, Option.not_isSome_iff_eq_none]

/-- Stores an object in the stead of the one at its place. -/
def replace (c : Cache) (new : CachedObject) : Cache :=
  { c with objects := c.objects.map fun o => if o.place = new.place then new else o }

/-- Stores an object at a place that is free; the oldest one gives way if the cache is full. -/
def append (c : Cache) (new : CachedObject) : Cache :=
  { c with
    objects := if c.size < c.capacity then c.objects ++ [new] else (c.objects ++ [new]).tail }

theorem put_eq (c : Cache) (object : Message) (now : Instant) (wall : Nat) :
    c.put object now wall = (c.storedAs? object now wall).elim c fun new =>
      if new.place ∈ c.queue then c.replace new else c.append new := by
  unfold put storedAs?
  split
  · rfl
  · simp only [Option.elim_some]
    generalize hnew : CachedObject.mk object _ = new
    have hplace : new.place = (object.name, object.chunk) := by rw [← hnew, CachedObject.place]
    cases hfind : c.find? object.name object.chunk with
    | some old =>
      have hmem : (object.name, object.chunk) ∈ c.queue :=
        isSome_find?_iff.1 (Option.isSome_of_mem hfind)
      rw [hplace, if_pos hmem, replace]
      simp only [CachedObject.isAt_iff, hplace]
    | none =>
      have hroom : c.capacity < (c.objects ++ [new]).length ↔ ¬c.size < c.capacity := by
        rw [List.length_append, List.length_singleton, size]
        omega
      rw [hplace, if_neg (find?_eq_none_iff.1 hfind), append]
      simp only [hroom, ite_not]

theorem put_of_storedAs? {wall : Nat} (h : c.storedAs? object now wall = some cached) :
    c.put object now wall =
      if cached.place ∈ c.queue then c.replace cached else c.append cached := by
  rw [put_eq, h, Option.elim_some]

theorem put_of_storedAs?_eq_none {wall : Nat} (h : c.storedAs? object now wall = none) :
    c.put object now wall = c := by
  rw [put_eq, h, Option.elim_none]

theorem mem_objects_replace (h : cached ∈ (c.replace new).objects) :
    cached = new ∨ cached ∈ c.objects ∧ cached.place ≠ new.place := by
  obtain ⟨old, hold, rfl⟩ := List.mem_map.1 h
  split
  · exact .inl rfl
  · rename_i hother
    exact .inr ⟨hold, hother⟩

theorem queue_replace (c : Cache) (new : CachedObject) : (c.replace new).queue = c.queue := by
  rw [queue, replace, List.map_map]
  refine List.map_congr_left fun o _ => ?_
  by_cases hat : o.place = new.place
  · simp [hat]
  · simp [hat]

theorem objects_append_sublist (c : Cache) (new : CachedObject) :
    (c.append new).objects.Sublist (c.objects ++ [new]) := by
  unfold append
  dsimp only
  split
  · exact .refl _
  · exact List.tail_sublist _

/-- After an object was offered, the cache holds it, if it is taken, and what was there before but
for what was stored under the same name and chunk. -/
theorem mem_put {wall : Nat} (h : cached ∈ (c.put object now wall).objects) :
    c.storedAs? object now wall = some cached ∨
      cached ∈ c.objects ∧
        ∀ new, c.storedAs? object now wall = some new → cached.place ≠ new.place := by
  cases hstored : c.storedAs? object now wall with
  | none =>
    rw [put_of_storedAs?_eq_none hstored] at h
    refine .inr ⟨h, ?_⟩
    intro new hnew
    cases hnew
  | some new =>
    rw [put_of_storedAs? hstored] at h
    have hnew : cached = new ∨ cached ∈ c.objects ∧ cached.place ≠ new.place := by
      split at h
      · exact mem_objects_replace h
      · rename_i hfree
        rcases List.mem_append.1 ((c.objects_append_sublist new).subset h) with hold | hlast
        · refine .inr ⟨hold, fun hplace => hfree ?_⟩
          exact List.mem_map.2 ⟨cached, hold, hplace⟩
        · exact .inl (List.mem_singleton.1 hlast)
    rcases hnew with rfl | ⟨hold, hother⟩
    · exact .inl rfl
    · refine .inr ⟨hold, ?_⟩
      intro other hsame
      rw [← Option.some.inj hsame]
      exact hother

theorem mem_objects_put {wall : Nat} (h : cached ∈ (c.put object now wall).objects) :
    cached.object = object ∨ cached ∈ c.objects := by
  rcases mem_put h with hnew | ⟨hold, -⟩
  · obtain ⟨-, -, rfl⟩ := storedAs?_eq_some_iff.1 hnew
    exact .inl rfl
  · exact .inr hold

theorem mem_objects_purge (h : cached ∈ (c.purge now).1.objects) : cached ∈ c.objects :=
  (List.mem_filter.1 h).1

/-- No two objects are stored under one name and chunk. -/
def Distinct (c : Cache) : Prop := (c.objects.map (·.place)).Nodup

namespace Distinct

variable (h : c.Distinct)
include h

theorem lookup (n : Name) (k : Option UInt32) (now : Instant) :
    (c.lookup n k now).1.Distinct := by
  unfold Cache.lookup
  split
  · exact h
  · split
    · exact h
    · exact h.sublist (List.filter_sublist.map _)

theorem purge (now : Instant) : (c.purge now).1.Distinct :=
  h.sublist (List.filter_sublist.map _)

theorem put (object : Message) (now : Instant) (wall : Nat) :
    (c.put object now wall).Distinct := by
  cases hstored : c.storedAs? object now wall with
  | none => rwa [put_of_storedAs?_eq_none hstored]
  | some new =>
    rw [put_of_storedAs? hstored]
    unfold Distinct
    split
    · rw [← queue, queue_replace]
      exact h
    · rename_i hfree
      have hall : ((c.objects ++ [new]).map (·.place)).Nodup := by
        rw [List.map_append, List.map_singleton, ← List.concat_eq_append]
        exact List.Nodup.concat hfree h
      exact hall.sublist ((c.objects_append_sublist new).map _)

theorem find?_eq_some_iff {n : Name} {k : Option UInt32} :
    c.find? n k = some cached ↔ cached ∈ c.objects ∧ cached.place = (n, k) := by
  have hfound : ∀ {o}, c.find? n k = some o → o ∈ c.objects ∧ o.place = (n, k) := fun ho =>
    ⟨List.mem_of_find?_eq_some ho, CachedObject.isAt_iff.1 (by simpa using List.find?_some ho)⟩
  refine ⟨hfound, ?_⟩
  rintro ⟨hmem, hplace⟩
  cases hfind : c.find? n k with
  | none =>
    exact absurd (CachedObject.isAt_iff.2 hplace) (List.find?_eq_none.1 hfind cached hmem)
  | some other =>
    obtain ⟨hother, hat⟩ := hfound hfind
    rw [List.inj_on_of_nodup_map h hother hmem (hat.trans hplace.symm)]

theorem find?_purge (n : Name) (k : Option UInt32) (now : Instant) :
    (c.purge now).1.find? n k = (c.find? n k).filter (·.fresh now) := by
  ext cached
  rw [(h.purge now).find?_eq_some_iff, Option.filter_eq_some_iff, h.find?_eq_some_iff,
    Cache.purge, List.mem_filter]
  exact and_right_comm

theorem lookup_purge (n : Name) (k : Option UInt32) (now : Instant) :
    ((c.purge now).1.lookup n k now).2 = (c.lookup n k now).2 := by
  unfold Cache.lookup
  rw [h.find?_purge]
  cases c.find? n k with
  | none => rfl
  | some cached =>
    by_cases hfresh : cached.fresh now <;> simp [Option.filter, hfresh]

end Distinct

theorem Distinct.find?_place (h : c.Distinct) (hmem : cached ∈ c.objects) :
    c.find? cached.place.1 cached.place.2 = some cached :=
  h.find?_eq_some_iff.2 ⟨hmem, rfl⟩

theorem find?_eq (c : Cache) (place : Place) :
    c.find? place.1 place.2 = c.objects.find? fun o => o.place = place := by
  unfold find?
  congr 1
  funext o
  exact Bool.eq_iff_iff.2 (CachedObject.isAt_iff.trans (decide_eq_true_iff).symm)

theorem queue_erase (c : Cache) (place : Place) :
    (c.erase place.1 place.2).queue = c.queue.filter (· ≠ place) := by
  rw [queue, queue, erase, List.filter_map]
  congr 1
  refine List.filter_congr fun o _ => ?_
  by_cases hat : o.isAt place.1 place.2
  · simp [hat, CachedObject.isAt_iff.1 hat]
  · have hplace : o.place ≠ place := fun hsame => hat (CachedObject.isAt_iff.2 hsame)
    simp [hat, hplace]

theorem find?_erase (c : Cache) (place other : Place) :
    (c.erase place.1 place.2).find? other.1 other.2 =
      if other = place then none else c.find? other.1 other.2 := by
  split
  · rename_i hsame
    rw [hsame, find?_eq_none_iff, queue_erase]
    simp
  · rename_i hother
    rw [find?_eq, find?_eq, erase, List.find?_filter]
    congr 1
    funext o
    by_cases hat : o.place = other
    · have hgone : ¬o.isAt place.1 place.2 := fun hsame =>
        hother (hat.symm.trans (CachedObject.isAt_iff.1 hsame))
      simp [hat, hgone]
    · simp [hat]

theorem find?_tail (h : c.Distinct) {first : CachedObject} {rest : List CachedObject}
    (hobjects : c.objects = first :: rest) :
    ({ c with objects := rest } : Cache).find? place.1 place.2 =
      if place = first.place then none else c.find? place.1 place.2 := by
  unfold Distinct at h
  rw [hobjects, List.map_cons, List.nodup_cons] at h
  split
  · rename_i hsame
    rw [hsame, find?_eq_none_iff]
    exact h.1
  · rename_i hother
    rw [find?_eq, find?_eq, hobjects, List.find?_cons_of_neg]
    simpa using Ne.symm hother

theorem find?_replace (hmem : new.place ∈ c.queue) :
    (c.replace new).find? place.1 place.2 =
      if place = new.place then some new else c.find? place.1 place.2 := by
  have hplace : ∀ o : CachedObject, (if o.place = new.place then new else o).place = o.place := by
    intro o
    split
    · rename_i hsame
      exact hsame.symm
    · rfl
  rw [find?_eq, find?_eq, replace, List.find?_map]
  simp only [Function.comp_def, hplace]
  split
  · rename_i hsame
    obtain ⟨old, hfind⟩ := Option.isSome_iff_exists.1 (isSome_find?_iff.2 (hsame ▸ hmem))
    rw [find?_eq] at hfind
    have hold : old.place = place := by simpa using List.find?_some hfind
    rw [hfind, Option.map_some, if_pos (hold.trans hsame)]
  · rename_i hother
    cases hfind : c.objects.find? fun o => decide (o.place = place) with
    | none => rfl
    | some old =>
      have hold : old.place = place := by simpa using List.find?_some hfind
      rw [Option.map_some, if_neg (hold ▸ hother)]

theorem find?_concat (hfree : new.place ∉ c.queue) :
    ({ c with objects := c.objects ++ [new] } : Cache).find? place.1 place.2 =
      if place = new.place then some new else c.find? place.1 place.2 := by
  rw [find?_eq, List.find?_append, ← find?_eq, List.find?_singleton]
  by_cases hsame : place = new.place
  · rw [if_pos hsame, find?_eq_none_iff.2 (hsame ▸ hfree), Option.none_or,
      if_pos (decide_eq_true hsame.symm)]
  · rw [if_neg hsame, if_neg (by simpa using Ne.symm hsame), Option.or_none]

end Cache
end NamedData
