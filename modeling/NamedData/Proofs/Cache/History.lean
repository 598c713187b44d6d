import Mathlib.Data.List.Induction
import Mathlib.Order.Nat
import NamedData.Forwarding.Forwarder
import NamedData.Proofs.Cache

/-!
# The cache over time

Objects are put, looked up and purged in any order and at any times. A place is taken as long as
some object is stored there, be it the first one or one that was put in its stead. The places in the
queue of a cache have been taken for a shorter time the further back they stand, and so what gives
way to a new object is what has been there for the longest time.
-/

namespace NamedData

namespace Cache

inductive Operation
  | put (object : Message) (clock : Clock)
  | lookup (name : Name) (chunk : Option UInt32) (clock : Clock)
  | purge (clock : Clock)

def apply (c : Cache) : Operation → Cache
  | .put object clock => c.put object clock.now clock.wall
  | .lookup name chunk clock => (c.lookup name chunk clock.now).1
  | .purge clock => (c.purge clock.now).1

def operate (c : Cache) (ops : List Operation) : Cache := ops.foldl apply c

/-- A place was free before one of some operations and has been taken ever since. -/
structure TakenSince (c : Cache) (ops : List Operation) (place : Place) (i : Nat) : Prop where
  lt : i < ops.length
  free : place ∉ (c.operate (ops.take i)).queue
  taken : ∀ j, i < j → j ≤ ops.length → place ∈ (c.operate (ops.take j)).queue

/-- One place has been taken for longer than another. -/
def TakenLonger (c : Cache) (ops : List Operation) (place other : Place) : Prop :=
  ∃ i j, c.TakenSince ops place i ∧ c.TakenSince ops other j ∧ i < j

variable {c : Cache} {ops : List Operation} {op : Operation} {place other : Place}
variable {object : Message} {new cached : CachedObject} {now : Instant} {wall : Nat}

theorem operate_concat (c : Cache) (ops : List Operation) (op : Operation) :
    c.operate (ops ++ [op]) = (c.operate ops).apply op :=
  List.foldl_concat ..

theorem settings_put (c : Cache) (object : Message) (now : Instant) (wall : Nat) :
    (c.put object now wall).capacity = c.capacity ∧
      (c.put object now wall).defaultCacheTime = c.defaultCacheTime := by
  cases hstored : c.storedAs? object now wall with
  | none => simp [put_of_storedAs?_eq_none hstored]
  | some new =>
    rw [put_of_storedAs? hstored]
    split <;> exact ⟨rfl, rfl⟩

theorem settings_apply (c : Cache) (op : Operation) :
    (c.apply op).capacity = c.capacity ∧ (c.apply op).defaultCacheTime = c.defaultCacheTime := by
  cases op with
  | put object clock => exact c.settings_put object clock.now clock.wall
  | lookup name chunk clock =>
    simp only [apply, lookup]
    repeat' split
    all_goals exact ⟨rfl, rfl⟩
  | purge clock => exact ⟨rfl, rfl⟩

theorem settings_operate (c : Cache) (ops : List Operation) :
    (c.operate ops).capacity = c.capacity ∧
      (c.operate ops).defaultCacheTime = c.defaultCacheTime := by
  induction ops using List.reverseRecOn with
  | nil => exact ⟨rfl, rfl⟩
  | append_singleton ops op ih =>
    rw [operate_concat]
    have hop := (c.operate ops).settings_apply op
    exact ⟨hop.1.trans ih.1, hop.2.trans ih.2⟩

theorem Distinct.apply (h : c.Distinct) (op : Operation) : (c.apply op).Distinct := by
  cases op with
  | put object clock => exact h.put object clock.now clock.wall
  | lookup name chunk clock => exact h.lookup name chunk clock.now
  | purge clock => exact h.purge clock.now

theorem Distinct.operate (h : c.Distinct) (ops : List Operation) : (c.operate ops).Distinct :=
  ops.foldlRecOn _ h fun _ hu op _ => hu.apply op

theorem queue_lookup_sublist (c : Cache) (n : Name) (k : Option UInt32) (now : Instant) :
    (c.lookup n k now).1.queue.Sublist c.queue := by
  unfold lookup
  repeat' split
  · exact .refl _
  · exact .refl _
  · exact List.filter_sublist.map _

theorem queue_append (c : Cache) (new : CachedObject) :
    (c.append new).queue =
      if c.size < c.capacity then c.queue ++ [new.place] else (c.queue ++ [new.place]).tail := by
  unfold append queue
  dsimp only
  split
  · rw [List.map_append, List.map_singleton]
  · rw [List.map_tail, List.map_append, List.map_singleton]

/-- At most one place is taken by an operation, and it stands behind all others. -/
theorem queue_apply_sublist (c : Cache) (op : Operation) :
    ∃ new : Option Place, (∀ place ∈ new, place ∉ c.queue) ∧
      (c.apply op).queue.Sublist (c.queue ++ new.toList) := by
  have hnone : (c.apply op).queue.Sublist c.queue → ∃ new : Option Place,
      (∀ place ∈ new, place ∉ c.queue) ∧ (c.apply op).queue.Sublist (c.queue ++ new.toList) := by
    intro hsublist
    refine ⟨none, fun place hplace => (Option.not_mem_none place hplace).elim, ?_⟩
    rwa [Option.toList_none, List.append_nil]
  cases op with
  | lookup name chunk clock => exact hnone (c.queue_lookup_sublist name chunk clock.now)
  | purge clock => exact hnone (List.filter_sublist.map _)
  | put object clock =>
    cases hstored : c.storedAs? object clock.now clock.wall with
    | none =>
      apply hnone
      rw [apply, put_of_storedAs?_eq_none hstored]
    | some new =>
      by_cases htaken : new.place ∈ c.queue
      · apply hnone
        rw [apply, put_of_storedAs? hstored, if_pos htaken, queue_replace]
      · refine ⟨some new.place, ?_, ?_⟩
        · rintro _ ⟨⟩
          exact htaken
        · rw [apply, put_of_storedAs? hstored, if_neg htaken]
          simpa [queue] using (c.objects_append_sublist new).map CachedObject.place

theorem size_put_le (h : c.size ≤ c.capacity) (object : Message) (now : Instant) (wall : Nat) :
    (c.put object now wall).size ≤ c.capacity := by
  cases hstored : c.storedAs? object now wall with
  | none => rwa [put_of_storedAs?_eq_none hstored]
  | some new =>
    rw [put_of_storedAs? hstored]
    split
    · rwa [size, replace, List.length_map]
    · unfold append size
      dsimp only
      split
      · rw [List.length_append, List.length_singleton]
        assumption
      · rwa [List.length_tail, List.length_append, List.length_singleton, Nat.add_sub_cancel]

theorem size_apply_le (h : c.size ≤ c.capacity) (op : Operation) :
    (c.apply op).size ≤ c.capacity := by
  cases op with
  | put object clock => exact size_put_le h object clock.now clock.wall
  | lookup name chunk clock =>
    have hsublist := (c.queue_lookup_sublist name chunk clock.now).length_le
    rw [queue, queue, List.length_map, List.length_map] at hsublist
    exact hsublist.trans h
  | purge clock => exact (List.length_filter_le _ _).trans h

theorem size_operate_le (h : c.size ≤ c.capacity) (ops : List Operation) :
    (c.operate ops).size ≤ c.capacity := by
  induction ops using List.reverseRecOn with
  | nil => exact h
  | append_singleton ops op ih =>
    have hcapacity := (c.settings_operate ops).1
    rw [operate_concat, ← hcapacity]
    exact size_apply_le (ih.trans_eq hcapacity.symm) op

theorem TakenSince.unique {i j : Nat} (hi : c.TakenSince ops place i)
    (hj : c.TakenSince ops place j) : i = j := by
  rcases Nat.lt_trichotomy i j with hlt | heq | hlt
  · exact absurd (hi.taken j hlt hj.lt.le) hj.free
  · exact heq
  · exact absurd (hj.taken i hlt hi.lt.le) hi.free

theorem TakenSince.concat {i : Nat} (h : c.TakenSince ops place i)
    (hstill : place ∈ (c.operate (ops ++ [op])).queue) : c.TakenSince (ops ++ [op]) place i where
  lt := by
    rw [List.length_append]
    exact Nat.lt_add_right _ h.lt
  free := by
    rw [List.take_append_of_le_length h.lt.le]
    exact h.free
  taken j hij hj := by
    rw [List.length_append, List.length_singleton] at hj
    rcases Nat.lt_or_eq_of_le hj with hlt | rfl
    · rw [List.take_append_of_le_length (Nat.le_of_lt_succ hlt)]
      exact h.taken j hij (Nat.le_of_lt_succ hlt)
    · rwa [List.take_of_length_le (by simp)]

theorem takenSince_of_new (hfree : place ∉ (c.operate ops).queue)
    (htaken : place ∈ (c.operate (ops ++ [op])).queue) :
    c.TakenSince (ops ++ [op]) place ops.length where
  lt := by simp
  free := by rwa [List.take_left]
  taken j hij hj := by
    rw [List.take_of_length_le]
    · exact htaken
    · rw [List.length_append, List.length_singleton]
      exact hij

/-- The places of a queue are taken since one operation each, an earlier one than for those behind
it. -/
structure Aged (c : Cache) (ops : List Operation) : Prop where
  taken : ∀ place ∈ (c.operate ops).queue, ∃! i, c.TakenSince ops place i
  sorted : (c.operate ops).queue.Pairwise (c.TakenLonger ops)

theorem Aged.concat (h : c.Aged ops) (op : Operation) : c.Aged (ops ++ [op]) := by
  obtain ⟨new, hfree, hsublist⟩ := (c.operate ops).queue_apply_sublist op
  rw [← operate_concat] at hsublist
  have hnew : ∀ place ∈ new, place ∈ (c.operate (ops ++ [op])).queue →
      c.TakenSince (ops ++ [op]) place ops.length :=
    fun place hplace => takenSince_of_new (hfree place hplace)
  have hcases : ∀ place ∈ (c.operate (ops ++ [op])).queue,
      place ∈ (c.operate ops).queue ∨ place ∈ new := by
    intro place hplace
    simpa using hsublist.subset hplace
  constructor
  · intro place hplace
    have htaken : ∃ i, c.TakenSince (ops ++ [op]) place i := by
      rcases hcases place hplace with hold | hlast
      · obtain ⟨i, hi, -⟩ := h.taken place hold
        exact ⟨i, hi.concat hplace⟩
      · exact ⟨ops.length, hnew place hlast hplace⟩
    obtain ⟨i, hi⟩ := htaken
    exact ⟨i, hi, fun j hj => hj.unique hi⟩
  · -- The order is that of the old queue with the new place behind it, cut down to what is left.
    have hall : ((c.operate ops).queue ++ new.toList).Pairwise fun place other =>
        place ∈ (c.operate (ops ++ [op])).queue → other ∈ (c.operate (ops ++ [op])).queue →
          c.TakenLonger (ops ++ [op]) place other := by
      refine List.pairwise_append.2 ⟨?_, ?_, ?_⟩
      · refine h.sorted.imp ?_
        rintro place other ⟨i, j, hi, hj, hlt⟩ hplace hother
        exact ⟨i, j, hi.concat hplace, hj.concat hother, hlt⟩
      · cases new <;> simp
      · intro place hold other hlast hplace hother
        obtain ⟨i, hi, -⟩ := h.taken place hold
        exact ⟨i, _, hi.concat hplace, hnew other (by simpa using hlast) hother, hi.lt⟩
    refine (hall.sublist hsublist).imp_of_mem ?_
    intro place other hplace hother hlonger
    exact hlonger hplace hother

/-- A cache that is empty at first serves in the order of arrival. -/
theorem aged_operate (h : c.queue = []) (ops : List Operation) : c.Aged ops := by
  induction ops using List.reverseRecOn with
  | nil => exact ⟨by simp [operate, h], by simp [operate, h]⟩
  | append_singleton ops op ih => exact ih.concat op

/-- What a put does that takes away a place. -/
structure GivesWay (c : Cache) (ops : List Operation) (object : Message) (clock : Clock)
    (place : Place) : Prop where
  /-- The cache was full, and the object has not been stored there yet. -/
  full : (c.operate ops).size = c.capacity
  free : (object.name, object.chunk) ∉ (c.operate ops).queue
  /-- All others have been there for a shorter time. -/
  oldest : ∀ other ∈ (c.operate ops).queue, other ≠ place → c.TakenLonger ops place other
  /-- They stay where they are, and the object stands behind them. -/
  rest : (c.operate ops).queue = place :: (c.operate ops).queue.tail
  queue : (c.operate (ops ++ [.put object clock])).queue =
    (c.operate ops).queue.tail ++ [(object.name, object.chunk)]

theorem find?_put (h : c.Distinct)
    (hstored : c.storedAs? object now wall = some new) :
    (c.put object now wall).find? object.name object.chunk = some new := by
  obtain ⟨hcapacity, -, hnew⟩ := storedAs?_eq_some_iff.1 hstored
  have hplace : new.place = (object.name, object.chunk) := by rw [hnew, CachedObject.place]
  rw [(h.put object now wall).find?_eq_some_iff]
  refine ⟨?_, hplace⟩
  rw [put_of_storedAs? hstored]
  split
  · rename_i htaken
    obtain ⟨old, hold, hat⟩ := List.mem_map.1 htaken
    exact List.mem_map.2 ⟨old, hold, if_pos hat⟩
  · unfold append
    dsimp only
    split
    · simp
    · rename_i hfull
      obtain ⟨first, rest, hobjects⟩ : ∃ first rest, c.objects = first :: rest := by
        apply List.exists_cons_of_ne_nil
        intro hnil
        rw [size, hnil, List.length_nil] at hfull
        omega
      simp [hobjects]

theorem givesWay_of_evicted (haged : c.Aged ops) (hroom : (c.operate ops).size ≤ c.capacity)
    {clock : Clock}
    (hold : place ∈ (c.operate ops).queue)
    (hgone : place ∉ (c.operate (ops ++ [.put object clock])).queue) :
    c.GivesWay ops object clock place := by
  have hcapacity := (c.settings_operate ops).1
  rw [operate_concat, apply] at hgone
  cases hstored : (c.operate ops).storedAs? object clock.now clock.wall with
  | none =>
    rw [put_of_storedAs?_eq_none hstored] at hgone
    exact absurd hold hgone
  | some new =>
    have hplace : new.place = (object.name, object.chunk) := by
      rw [(storedAs?_eq_some_iff.1 hstored).2.2, CachedObject.place]
    have hqueue := congrArg queue (put_of_storedAs? hstored)
    by_cases htaken : new.place ∈ (c.operate ops).queue
    · rw [hqueue, if_pos htaken, queue_replace] at hgone
      exact absurd hold hgone
    rw [if_neg htaken, queue_append] at hqueue
    split at hqueue
    · rw [hqueue] at hgone
      exact absurd (List.mem_append_left _ hold) hgone
    rename_i hfull
    -- The queue is not empty, so its first place is what the tail lacks.
    obtain ⟨first, rest, hfirst⟩ := List.exists_cons_of_ne_nil (List.ne_nil_of_mem hold)
    rw [hfirst, List.cons_append, List.tail_cons] at hqueue
    have hsame : place = first := by
      rw [hfirst] at hold
      rw [hqueue] at hgone
      exact (List.mem_cons.1 hold).resolve_right fun hrest => hgone (List.mem_append_left _ hrest)
    have hsorted := haged.sorted
    rw [hfirst, List.pairwise_cons, ← hsame] at hsorted
    refine ⟨by omega, hplace ▸ htaken, ?_, ?_, ?_⟩
    · intro other hother hne
      rw [hfirst, ← hsame] at hother
      exact hsorted.1 other ((List.mem_cons.1 hother).resolve_left hne)
    · rw [hfirst, hsame, List.tail_cons]
    · rw [operate_concat, apply, hqueue, hfirst, List.tail_cons, hplace]

/-- What a put does to the order in which the objects of a cache are to give way. -/
structure PutInOrder (c : Cache) (ops : List Operation) (object : Message) (clock : Clock) :
    Prop where
  /-- An object that is there already keeps its place. -/
  refreshed : (object.name, object.chunk) ∈ (c.operate ops).queue →
    (c.operate (ops ++ [.put object clock])).queue = (c.operate ops).queue
  /-- One that is new, or was removed before, has been there since then. -/
  renewed : (object.name, object.chunk) ∉ (c.operate ops).queue →
    (object.name, object.chunk) ∈ (c.operate (ops ++ [.put object clock])).queue →
      c.TakenSince (ops ++ [.put object clock]) (object.name, object.chunk) ops.length
  /-- Whatever is evicted is what has been there for the longest time. -/
  evicted : ∀ place ∈ (c.operate ops).queue,
    place ∉ (c.operate (ops ++ [.put object clock])).queue → c.GivesWay ops object clock place
  /-- It is never the object itself: that is stored, unless it is refused. -/
  stored : ∀ new, (c.operate ops).storedAs? object clock.now clock.wall = some new →
    (c.operate (ops ++ [.put object clock])).find? object.name object.chunk = some new

theorem putInOrder (hempty : c.objects = []) (ops : List Operation) (object : Message)
    (clock : Clock) : c.PutInOrder ops object clock where
  refreshed htaken := by
    rw [operate_concat, apply]
    cases hstored : (c.operate ops).storedAs? object clock.now clock.wall with
    | none => rw [put_of_storedAs?_eq_none hstored]
    | some new =>
      have hplace : new.place = (object.name, object.chunk) := by
        rw [(storedAs?_eq_some_iff.1 hstored).2.2, CachedObject.place]
      rw [put_of_storedAs? hstored, if_pos (hplace ▸ htaken), queue_replace]
  renewed := takenSince_of_new
  evicted place hold hgone := by
    have hroom : c.size ≤ c.capacity := by simp [size, hempty]
    have hqueue : c.queue = [] := by simp [queue, hempty]
    exact givesWay_of_evicted (aged_operate hqueue ops) (size_operate_le hroom ops) hold hgone
  stored new hstored := by
    have hdistinct : c.Distinct := by simp [Distinct, hempty]
    rw [operate_concat, apply]
    exact find?_put (hdistinct.operate ops) hstored

end Cache
end NamedData
