import NamedData.Proofs.Cache.History
import NamedData.Proofs.Forwarding.Run

/-!
# How long an object is served

An object that has expired is not stored. Once an object is stored, only its cache time counts: it
is served for just that long after it was put, unless it is removed or replaced, even if it expires
in the meantime. So no object is served for longer after its expiry than its cache time, and one
whose cache time is up before it expires is not served past its expiry.
-/

namespace NamedData

def Clock.after (clock : Clock) (elapsed : Nat) : Clock :=
  ⟨clock.now + elapsed, clock.wall + elapsed⟩

namespace Cache

def Operation.clock : Operation → Clock
  | put _ clock | lookup _ _ clock | purge clock => clock

/-- No operation comes before one that is made earlier, and both clocks tell the same. -/
def InTime (ops : List Operation) : Prop :=
  ops.Pairwise fun op later => ∃ elapsed, later.clock = op.clock.after elapsed

/-- How long an object may be served. -/
def servingTime (c : Cache) (object : Message) : Nat :=
  (object.cacheTime.map UInt64.toNat).getD c.defaultCacheTime

/-- An object was put after some operations and has been stored ever since. -/
structure StoredSince (c : Cache) (before : List Operation) (clock : Clock)
    (after : List Operation) (cached : CachedObject) : Prop where
  storedAs : (c.operate before).storedAs? cached.object clock.now clock.wall = some cached
  stays : ∀ later, later <+: after →
    cached ∈ (c.operate (before ++ .put cached.object clock :: later)).objects

variable {c : Cache} {cached : CachedObject} {object : Message} {clock : Clock}
variable {ops before after : List Operation} {name : Name} {chunk : Option UInt32}

theorem StoredSince.concat {op : Operation} (h : c.StoredSince before clock after cached)
    (hmem : cached ∈ (c.operate (before ++ .put cached.object clock :: (after ++ [op]))).objects) :
    c.StoredSince before clock (after ++ [op]) cached where
  storedAs := h.storedAs
  stays later hlater := by
    rcases List.prefix_concat_iff.1 hlater with rfl | hlater
    · exact hmem
    · exact h.stays later hlater

theorem mem_objects_apply {op : Operation} (h : cached ∈ (c.apply op).objects) :
    cached ∈ c.objects ∨ ∃ clock, op = .put cached.object clock ∧
      c.storedAs? cached.object clock.now clock.wall = some cached := by
  cases op with
  | lookup name chunk clock => exact .inl (mem_objects_lookup h)
  | purge clock => exact .inl (mem_objects_purge h)
  | put object clock =>
    rcases mem_put h with hnew | ⟨hold, -⟩
    · have hobject : cached.object = object := by rw [(storedAs?_eq_some_iff.1 hnew).2.2]
      rw [← hobject] at hnew ⊢
      exact .inr ⟨clock, rfl, hnew⟩
    · exact .inl hold

theorem exists_storedSince (hempty : c.objects = []) (h : cached ∈ (c.operate ops).objects) :
    ∃ before clock after, ops = before ++ .put cached.object clock :: after ∧
      c.StoredSince before clock after cached := by
  induction ops using List.reverseRecOn with
  | nil => simp [operate, hempty] at h
  | append_singleton ops op ih =>
    have hnow := h
    rw [operate_concat] at h
    rcases mem_objects_apply h with hold | ⟨clock, rfl, hstored⟩
    · obtain ⟨before, clock, after, rfl, hsince⟩ := ih hold
      refine ⟨before, clock, after ++ [op], by simp, hsince.concat ?_⟩
      simpa using hnow
    · refine ⟨ops, clock, [], rfl, hstored, ?_⟩
      intro later hlater
      rwa [List.prefix_nil.1 hlater]

theorem StoredSince.expires_eq (h : c.StoredSince before clock after cached) :
    cached.expires = clock.now + c.servingTime cached.object := by
  have hexpires := congrArg CachedObject.expires (storedAs?_eq_some_iff.1 h.storedAs).2.2
  rwa [(c.settings_operate before).2] at hexpires

theorem StoredSince.lookup_eq_some_iff (hdistinct : c.Distinct)
    (h : c.StoredSince before clock after cached) {later : List Operation}
    (hlater : later <+: after) (elapsed : Nat) :
    ((c.operate (before ++ .put cached.object clock :: later)).lookup cached.object.name
        cached.object.chunk (clock.after elapsed).now).2 = some cached.object ↔
      elapsed < c.servingTime cached.object := by
  have hfind := (hdistinct.operate _).find?_place (h.stays later hlater)
  rw [CachedObject.place] at hfind
  rw [Cache.lookup_eq_some_iff, hfind]
  simp [CachedObject.fresh, Clock.after, h.expires_eq]

theorem lt_wall_of_outdated_eq_false {wall : Nat} (h : outdated object wall = false) :
    ∀ expiry ∈ object.expiry, wall < expiry.toNat := by
  rintro expiry hexpiry
  rw [outdated, Option.mem_def.1 hexpiry, Option.any_some] at h
  exact Nat.lt_of_not_le (of_decide_eq_false h)

/-- Whatever a lookup answers with was put under that name and chunk before it expired, and it is
served for its cache time from then on and no longer, before and after it expires. -/
theorem expiry_outlived {capacity defaultCacheTime : Nat}
    (htimes : InTime (ops ++ [.lookup name chunk clock]))
    (hserved : (((empty capacity defaultCacheTime).operate ops).lookup name chunk clock.now).2 =
      some object) :
    (object.name = name ∧ object.chunk = chunk) ∧
      ∃ before putClock after, ops = before ++ .put object putClock :: after ∧
        let time := (empty capacity defaultCacheTime).servingTime object
        (∀ later, later <+: after → ∀ elapsed,
          (((empty capacity defaultCacheTime).operate
            (before ++ .put object putClock :: later)).lookup name chunk
              (putClock.after elapsed).now).2 = some object ↔ elapsed < time) ∧
        clock.wall < putClock.wall + time ∧
        ∀ expiry ∈ object.expiry, putClock.wall < expiry.toNat ∧
          clock.wall < expiry.toNat + time ∧
          (putClock.wall + time ≤ expiry.toNat → clock.wall < expiry.toNat) := by
  have hdistinct : (empty capacity defaultCacheTime).Distinct := List.nodup_nil
  obtain ⟨cached, hfind, hfresh, rfl⟩ := lookup_eq_some_iff.1 hserved
  obtain ⟨hmem, hplace⟩ := (hdistinct.operate ops).find?_eq_some_iff.1 hfind
  obtain ⟨rfl, rfl⟩ := Prod.mk.inj hplace
  obtain ⟨before, putClock, after, rfl, hsince⟩ := exists_storedSince rfl hmem
  obtain ⟨elapsed, rfl⟩ : ∃ elapsed, clock = putClock.after elapsed := by
    have hpair := (List.pairwise_append.1 htimes).2.2
    exact hpair (.put cached.object putClock) (by simp) _ (List.mem_singleton_self _)
  have hwithin : elapsed < (empty capacity defaultCacheTime).servingTime cached.object :=
    (hsince.lookup_eq_some_iff hdistinct (List.prefix_refl after) elapsed).1 hserved
  have hput := lt_wall_of_outdated_eq_false (storedAs?_eq_some_iff.1 hsince.storedAs).2.1
  refine ⟨⟨rfl, rfl⟩, before, putClock, after, rfl, ?_, ?_, ?_⟩
  · intro later hlater elapsed
    exact hsince.lookup_eq_some_iff hdistinct hlater elapsed
  · exact Nat.add_lt_add_left hwithin _
  · intro expiry hexpiry
    have hlt := hput expiry hexpiry
    dsimp only [Clock.after]
    omega

namespace Small

/-- An object that expires on the first day of 2100 and may be cached for some time. -/
def dated (cacheTime : UInt64) : Draft :=
  { Draft.object Forwarder.Small.name [1] with
    expiry := some 4102444800000
    cacheTime := some cacheTime }

theorem inTime (object : Message) (put : Clock) (elapsed : Nat) :
    InTime ([.put object put] ++ [.lookup object.name object.chunk (put.after elapsed)]) := by
  simp [InTime, Operation.clock]

theorem served {cacheTime : UInt64} (hexpiry : object.expiry = some 4102444800000)
    (hcacheTime : object.cacheTime = some cacheTime) {elapsed : Nat}
    (hlt : elapsed < cacheTime.toNat) :
    (((empty 16 4000).operate [.put object ⟨0, 1780000000000⟩]).lookup object.name object.chunk
      (Clock.after ⟨0, 1780000000000⟩ elapsed).now).2 = some object := by
  have hstored : (empty 16 4000).storedAs? object 0 1780000000000 =
      some ⟨object, 0 + cacheTime.toNat⟩ := by
    simp [storedAs?_eq_some_iff, empty, outdated, hexpiry, hcacheTime]
  have hfind := find?_put (c := empty 16 4000) List.nodup_nil hstored
  refine lookup_eq_some_iff.2 ⟨_, hfind, ?_, rfl⟩
  simpa [CachedObject.fresh, Clock.after] using hlt

end Small

/-- An object that may be cached for about 285 years is still served in 2105. -/
theorem served_after_expiry : ∃ object : Message,
    Message.parse (Forwarder.Small.octets (Small.dated 9000000000000)) = .ok object ∧
      object.expiry = some 4102444800000 ∧
      let put : Clock := ⟨0, 1780000000000⟩
      let clock := put.after 2500000000000
      InTime [.put object put, .lookup object.name object.chunk clock] ∧
        (((empty 16 4000).operate [.put object put]).lookup object.name object.chunk clock.now).2 =
          some object ∧
        4102444800000 ≤ clock.wall := by
  obtain ⟨object, hparse, htimes⟩ := Forwarder.Small.exists_parse
    (Forwarder.Small.octets (Small.dated 9000000000000))
    (fun o => o.expiry = some 4102444800000 && o.cacheTime = some 9000000000000)
    (by decide +kernel)
  simp only [Bool.and_eq_true, decide_eq_true_eq] at htimes
  exact ⟨object, hparse, htimes.1, Small.inTime object _ _,
    Small.served htimes.1 htimes.2 (by decide), by decide⟩

/-- One that may be cached for ten seconds is served in time. -/
theorem expiry_outlived_small : ∃ object : Message,
    Message.parse (Forwarder.Small.octets (Small.dated 10000)) = .ok object ∧
      (((empty 16 4000).operate [.put object ⟨0, 1780000000000⟩]).lookup object.name object.chunk
        9999).2 = some object ∧
      1780000009999 < 4102444800000 + (empty 16 4000).servingTime object := by
  obtain ⟨object, hparse, htimes⟩ := Forwarder.Small.exists_parse
    (Forwarder.Small.octets (Small.dated 10000))
    (fun o => o.expiry = some 4102444800000 && o.cacheTime = some 10000) (by decide +kernel)
  simp only [Bool.and_eq_true, decide_eq_true_eq] at htimes
  have hlt : 9999 < (10000 : UInt64).toNat := by decide
  have hserved := Small.served htimes.1 htimes.2 hlt
  obtain ⟨-, before, put, after, -, -, -, hexpiry⟩ :=
    expiry_outlived (Small.inTime object _ 9999) hserved
  exact ⟨object, hparse, hserved, (hexpiry 4102444800000 htimes.1).2.1⟩

end Cache
end NamedData
