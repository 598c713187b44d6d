import Mathlib.Data.List.AList
import NamedData.Proofs.Cache.History

/-!
# The cache as an index and a queue

The objects of a cache can also be kept in an index from places to objects, with the places once
more in a queue beside it. Each use changes the two on their own: an object that is new to the index
goes to the back of the queue, one that gives way is taken from the front of it, and what is found
to be stale is removed from both. In every history the two agree with each other and with the one
list of objects, so that what gives way is the object whose place has been taken for the longest
time.
-/

namespace NamedData

/-- A cache kept as an index of its objects and a queue of their places. -/
structure IndexedCache where
  index : AList fun _ : Place => CachedObject := ∅
  queue : List Place := []
  capacity : Nat
  defaultCacheTime : Nat

namespace IndexedCache

def empty (capacity defaultCacheTime : Nat) : IndexedCache := { capacity, defaultCacheTime }

def size (s : IndexedCache) : Nat := s.index.entries.length

/-- Removes what is stored at the place in front of the queue. -/
def evict (s : IndexedCache) : IndexedCache :=
  match s.queue with
  | [] => s
  | place :: queue => { s with index := s.index.erase place, queue }

def remove (s : IndexedCache) (place : Place) : IndexedCache :=
  if place ∈ s.index then
    { s with index := s.index.erase place, queue := s.queue.filter (· ≠ place) }
  else s

def lookup (s : IndexedCache) (place : Place) (now : Instant) : IndexedCache × Option Message :=
  match s.index.lookup place with
  | some cached => if cached.fresh now then (s, some cached.object) else (s.remove place, none)
  | none => (s, none)

def store (s : IndexedCache) (cached : CachedObject) : IndexedCache :=
  { s with index := s.index.insert cached.place cached }

def enqueue (s : IndexedCache) (place : Place) : IndexedCache :=
  { s with queue := s.queue ++ [place] }

def put (s : IndexedCache) (object : Message) (now : Instant) (wall : Nat) : IndexedCache :=
  if s.capacity = 0 ∨ Cache.outdated object wall then s
  else
    let cacheTime := (object.cacheTime.map UInt64.toNat).getD s.defaultCacheTime
    let cached : CachedObject := { object, expires := now + cacheTime }
    if cached.place ∈ s.index then s.store cached
    else
      let t := (s.store cached).enqueue cached.place
      if t.capacity < t.size then t.evict else t

def retain (index : AList fun _ : Place => CachedObject) (keep : CachedObject → Bool) :
    AList fun _ : Place => CachedObject :=
  ⟨index.entries.filter fun e => keep e.2, index.nodupKeys.sublist List.filter_sublist⟩

def purge (s : IndexedCache) (now : Instant) : IndexedCache × Nat :=
  let index := retain s.index (·.fresh now)
  ({ s with index, queue := s.queue.filter (· ∈ index) }, s.size - index.entries.length)

def apply (s : IndexedCache) : Cache.Operation → IndexedCache
  | .put object clock => s.put object clock.now clock.wall
  | .lookup name chunk clock => (s.lookup (name, chunk) clock.now).1
  | .purge clock => (s.purge clock.now).1

def operate (s : IndexedCache) (ops : List Cache.Operation) : IndexedCache := ops.foldl apply s

/-- Index and queue hold what is in the one list of a cache. -/
structure Agrees (s : IndexedCache) (c : Cache) : Prop where
  queue : s.queue = c.queue
  lookup : ∀ place : Place, s.index.lookup place = c.find? place.1 place.2
  capacity : s.capacity = c.capacity
  defaultCacheTime : s.defaultCacheTime = c.defaultCacheTime

variable {s : IndexedCache} {c : Cache} {place other : Place} {cached : CachedObject}
variable {object : Message} {now : Instant} {wall : Nat}

theorem lookup_retain (index : AList fun _ : Place => CachedObject) (keep : CachedObject → Bool)
    (place : Place) : (retain index keep).lookup place = (index.lookup place).filter keep := by
  ext cached
  rw [Option.filter_eq_some_iff, ← Option.mem_def, ← Option.mem_def, AList.mem_lookup_iff,
    AList.mem_lookup_iff, retain, List.mem_filter]

namespace Agrees

variable (h : s.Agrees c)
include h

theorem mem_index_iff : place ∈ s.index ↔ place ∈ c.queue := by
  rw [← AList.lookup_isSome, h.lookup, Cache.isSome_find?_iff]

theorem size_eq (hdistinct : c.Distinct) : s.size = c.size := by
  have hperm : s.index.keys.Perm c.queue := by
    refine (List.perm_ext_iff_of_nodup s.index.keys_nodup hdistinct).2 ?_
    intro place
    rw [← AList.mem_keys, h.mem_index_iff, Cache.queue]
  have hlength := hperm.length_eq
  rwa [AList.keys, List.keys, List.length_map, Cache.queue, List.length_map] at hlength

theorem remove (hmem : place ∈ c.queue) :
    (s.remove place).Agrees (c.erase place.1 place.2) := by
  unfold IndexedCache.remove
  rw [if_pos (h.mem_index_iff.2 hmem)]
  refine ⟨?_, ?_, h.capacity, h.defaultCacheTime⟩
  · dsimp only
    rw [h.queue, Cache.queue_erase]
  · intro other
    rw [Cache.find?_erase]
    dsimp only
    split
    · rename_i hsame
      rw [hsame, AList.lookup_erase]
    · rename_i hother
      rw [AList.lookup_erase_ne hother, h.lookup]

theorem evict (hdistinct : c.Distinct) :
    s.evict.Agrees { c with objects := c.objects.tail } := by
  have hqueue := h.queue
  unfold IndexedCache.evict
  rw [hqueue]
  cases hobjects : c.objects with
  | nil =>
    have hsame : { c with objects := [] } = c := by rw [← hobjects]
    simp only [Cache.queue, hobjects, List.map_nil, List.tail_nil, hsame]
    exact h
  | cons first rest =>
    simp only [Cache.queue, hobjects, List.map_cons, List.tail_cons]
    refine ⟨rfl, ?_, h.capacity, h.defaultCacheTime⟩
    intro place
    rw [Cache.find?_tail hdistinct hobjects]
    dsimp only
    split
    · rename_i hsame
      rw [hsame, AList.lookup_erase]
    · rename_i hother
      rw [AList.lookup_erase_ne hother, h.lookup]

theorem store (hmem : cached.place ∈ c.queue) : (s.store cached).Agrees (c.replace cached) where
  queue := h.queue.trans (c.queue_replace cached).symm
  lookup place := by
    rw [Cache.find?_replace hmem, IndexedCache.store]
    dsimp only
    split
    · rename_i hsame
      rw [hsame, AList.lookup_insert]
    · rename_i hother
      rw [AList.lookup_insert_ne hother, h.lookup]
  capacity := h.capacity
  defaultCacheTime := h.defaultCacheTime

theorem enqueue (hfree : cached.place ∉ c.queue) :
    ((s.store cached).enqueue cached.place).Agrees { c with objects := c.objects ++ [cached] } where
  queue := by
    rw [Cache.queue, List.map_append, List.map_singleton, ← Cache.queue, ← h.queue]
    rfl
  lookup place := by
    rw [Cache.find?_concat hfree, IndexedCache.enqueue, IndexedCache.store]
    dsimp only
    split
    · rename_i hsame
      rw [hsame, AList.lookup_insert]
    · rename_i hother
      rw [AList.lookup_insert_ne hother, h.lookup]
  capacity := h.capacity
  defaultCacheTime := h.defaultCacheTime

theorem put_eq (object : Message) (now : Instant) (wall : Nat) :
    s.put object now wall = (c.storedAs? object now wall).elim s fun new =>
      if new.place ∈ s.index then s.store new
      else
        let t := (s.store new).enqueue new.place
        if t.capacity < t.size then t.evict else t := by
  unfold IndexedCache.put Cache.storedAs?
  rw [h.capacity, h.defaultCacheTime]
  split <;> rfl

theorem put (hdistinct : c.Distinct) (object : Message) (now : Instant) (wall : Nat) :
    (s.put object now wall).Agrees (c.put object now wall) := by
  rw [h.put_eq]
  cases hstored : c.storedAs? object now wall with
  | none => rwa [Cache.put_of_storedAs?_eq_none hstored]
  | some new =>
    rw [Cache.put_of_storedAs? hstored, Option.elim_some]
    by_cases htaken : new.place ∈ c.queue
    · rw [if_pos htaken, if_pos (h.mem_index_iff.2 htaken)]
      exact h.store htaken
    · rw [if_neg htaken, if_neg (mt h.mem_index_iff.1 htaken)]
      have hqueued := h.enqueue htaken
      have hdistinct' : ({ c with objects := c.objects ++ [new] } : Cache).Distinct := by
        unfold Cache.Distinct
        rw [List.map_append, List.map_singleton, ← List.concat_eq_append]
        exact List.Nodup.concat htaken hdistinct
      have hfull : ((s.store new).enqueue new.place).capacity <
          ((s.store new).enqueue new.place).size ↔ ¬c.size < c.capacity := by
        rw [hqueued.size_eq hdistinct', hqueued.capacity]
        simp only [Cache.size, List.length_append, List.length_singleton]
        omega
      unfold Cache.append
      simp only [hfull, ite_not]
      split
      · exact hqueued
      · exact hqueued.evict hdistinct'

theorem lookup_snd (place : Place) (now : Instant) :
    (s.lookup place now).2 = (c.lookup place.1 place.2 now).2 := by
  unfold IndexedCache.lookup Cache.lookup
  rw [h.lookup]
  cases c.find? place.1 place.2 with
  | none => rfl
  | some cached => by_cases hfresh : cached.fresh now <;> simp [hfresh]

theorem lookup_fst (place : Place) (now : Instant) :
    (s.lookup place now).1.Agrees (c.lookup place.1 place.2 now).1 := by
  unfold IndexedCache.lookup Cache.lookup
  rw [h.lookup]
  cases hfind : c.find? place.1 place.2 with
  | none => exact h
  | some cached =>
    dsimp only
    split
    · exact h
    · exact h.remove (Cache.isSome_find?_iff.1 (Option.isSome_of_mem hfind))

theorem purge_fst (hdistinct : c.Distinct) (now : Instant) :
    (s.purge now).1.Agrees (c.purge now).1 where
  queue := by
    have hfresh : ∀ o ∈ c.objects, o.place ∈ retain s.index (·.fresh now) ↔ o.fresh now := by
      intro o ho
      rw [← AList.lookup_isSome, lookup_retain, h.lookup, hdistinct.find?_place ho]
      by_cases hfresh : o.fresh now <;> simp [Option.filter, hfresh]
    rw [IndexedCache.purge, Cache.queue, Cache.purge]
    dsimp only
    rw [h.queue, Cache.queue, List.filter_map]
    congr 1
    refine List.filter_congr fun o ho => ?_
    simp [hfresh o ho]
  lookup place := by
    rw [hdistinct.find?_purge, IndexedCache.purge, lookup_retain, h.lookup]
  capacity := h.capacity
  defaultCacheTime := h.defaultCacheTime

theorem purge_snd (hdistinct : c.Distinct) (now : Instant) :
    (s.purge now).2 = (c.purge now).2 := by
  have hafter := (h.purge_fst hdistinct now).size_eq (hdistinct.purge now)
  exact congrArg₂ (· - ·) (h.size_eq hdistinct) hafter

theorem apply (hdistinct : c.Distinct) (op : Cache.Operation) :
    (s.apply op).Agrees (c.apply op) := by
  cases op with
  | put object clock => exact h.put hdistinct object clock.now clock.wall
  | lookup name chunk clock => exact h.lookup_fst (name, chunk) clock.now
  | purge clock => exact h.purge_fst hdistinct clock.now

end Agrees

theorem Agrees.operate (h : s.Agrees c) (hdistinct : c.Distinct) (ops : List Cache.Operation) :
    (s.operate ops).Agrees (c.operate ops) := by
  induction ops generalizing s c with
  | nil => exact h
  | cons op ops ih => exact ih (h.apply hdistinct op) (hdistinct.apply op)

theorem agrees_empty (capacity defaultCacheTime : Nat) :
    (empty capacity defaultCacheTime).Agrees (.empty capacity defaultCacheTime) :=
  ⟨rfl, fun _ => rfl, rfl, rfl⟩

/-- Index and queue of a cache fit each other. -/
structure Coherent (s : IndexedCache) : Prop where
  queue_nodup : s.queue.Nodup
  mem_queue_iff : ∀ place, place ∈ s.queue ↔ place ∈ s.index
  size_le : s.size ≤ s.capacity
  place_eq : ∀ place cached, s.index.lookup place = some cached → cached.place = place

theorem Agrees.coherent (h : s.Agrees c) (hdistinct : c.Distinct) (hroom : c.size ≤ c.capacity) :
    s.Coherent where
  queue_nodup := by
    rw [h.queue]
    exact hdistinct
  mem_queue_iff place := by rw [h.queue, h.mem_index_iff]
  size_le := by rwa [h.size_eq hdistinct, h.capacity]
  place_eq place cached hlookup := by
    rw [h.lookup, hdistinct.find?_eq_some_iff] at hlookup
    exact hlookup.2

/-- Whatever is put, looked up and purged, the queue of a cache holds the places of its index, each
of them once, there are no more objects than there may be, and each is found at its own place. It
answers as the one list of objects does. In both the places stand in the order in which they were
taken, and what gives way to a new object is the place that was taken first. -/
theorem first_in_first_out (capacity defaultCacheTime : Nat) (ops : List Cache.Operation) :
    let c := Cache.empty capacity defaultCacheTime
    let s := (empty capacity defaultCacheTime).operate ops
    (s.Coherent ∧ s.capacity = capacity) ∧
      (s.Agrees (c.operate ops) ∧
        (∀ place now, (s.lookup place now).2 =
          ((c.operate ops).lookup place.1 place.2 now).2) ∧
        ∀ now, (s.purge now).2 = ((c.operate ops).purge now).2) ∧
      c.Aged ops ∧ ∀ object clock, c.PutInOrder ops object clock := by
  intro c s
  have hdistinct : c.Distinct := List.nodup_nil
  have hroom : (c.operate ops).size ≤ (c.operate ops).capacity := by
    rw [(c.settings_operate ops).1]
    exact Cache.size_operate_le (Nat.zero_le _) ops
  have hagrees : s.Agrees (c.operate ops) :=
    (agrees_empty capacity defaultCacheTime).operate hdistinct ops
  refine ⟨⟨hagrees.coherent (hdistinct.operate ops) hroom, ?_⟩, ⟨hagrees, ?_, ?_⟩, ?_, ?_⟩
  · exact hagrees.capacity.trans (c.settings_operate ops).1
  · exact hagrees.lookup_snd
  · exact hagrees.purge_snd (hdistinct.operate ops)
  · exact Cache.aged_operate rfl ops
  · exact Cache.putInOrder rfl ops

end IndexedCache
end NamedData
