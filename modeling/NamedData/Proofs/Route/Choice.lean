import NamedData.Proofs.Route.Selection

/-!
# Which next hops are chosen

What each strategy is to choose is said of the next hops of an entry and of the faces alone: the
first next hop that satisfies a condition, or the faces of all that can be used, in the order in
which they appear. Every strategy chooses exactly that, and it chooses nothing only when no next hop
can be used.
-/

namespace NamedData
namespace Strategy

variable {faces : FaceView} {incoming f g : FaceId} {e : RouteEntry} {s : Strategy}
  {hops : List NextHop} {h : NextHop} {out : List FaceId}

/-! ## What is to be chosen -/

/-- The face of a next hop is active and is not the one that the packet came from. -/
structure Usable (faces : FaceView) (incoming : FaceId) (h : NextHop) : Prop where
  active : faces.active h.face
  other : h.face ≠ incoming

/-- A next hop that can be used over the transport that the packet came over. -/
structure Matches (faces : FaceView) (incoming : FaceId) (h : NextHop) : Prop extends
    Usable faces incoming h where
  transport : ∃ t, faces.transport incoming = some t ∧ faces.transport h.face = some t

/-- A next hop that can be used and costs no more than any other that can. -/
structure Cheapest (faces : FaceView) (incoming : FaceId) (hops : List NextHop)
    (h : NextHop) : Prop extends Usable faces incoming h where
  le : ∀ d ∈ hops, Usable faces incoming d → h.cost ≤ d.cost

/-- The first of the next hops that satisfy a condition. -/
structure First (P : NextHop → Prop) (hops : List NextHop) (h : NextHop) : Prop where
  holds : P h
  split : ∃ front back, hops = front ++ h :: back ∧ ∀ d ∈ front, ¬ P d

/-- Up to some place there is a next hop through one face that can be used and none through the
other. -/
def Precedes (faces : FaceView) (incoming : FaceId) (hops : List NextHop) (f g : FaceId) : Prop :=
  ∃ front back, hops = front ++ back ∧ (∃ h ∈ front, Usable faces incoming h ∧ h.face = f) ∧
    ∀ h ∈ front, Usable faces incoming h → h.face ≠ g

/-- The faces of all next hops that can be used, each once, in the order in which they appear. -/
structure Floods (faces : FaceView) (incoming : FaceId) (hops : List NextHop)
    (out : List FaceId) : Prop where
  nodup : out.Nodup
  mem_iff : ∀ g, g ∈ out ↔ ∃ h ∈ hops, Usable faces incoming h ∧ h.face = g
  order : out.Pairwise (Precedes faces incoming hops)

inductive Selects (faces : FaceView) (incoming : FaceId) (hops : List NextHop) :
    Strategy → List FaceId → Prop
  | matching {h : NextHop} : First (Matches faces incoming) hops h →
      Selects faces incoming hops .bestRoute [h.face]
  | first {h : NextHop} : (∀ d ∈ hops, ¬ Matches faces incoming d) →
      First (Usable faces incoming) hops h → Selects faces incoming hops .bestRoute [h.face]
  | cheapest {h : NextHop} : First (Cheapest faces incoming hops) hops h →
      Selects faces incoming hops .lowestCost [h.face]
  | all {out : List FaceId} : Floods faces incoming hops out →
      Selects faces incoming hops .flooding out
  | nothing {s : Strategy} : (∀ d ∈ hops, ¬ Usable faces incoming d) →
      Selects faces incoming hops s []

/-! ## The first next hop -/

section First

variable {P : NextHop → Prop}

theorem First.mem (hfirst : First P hops h) : h ∈ hops := by
  obtain ⟨front, back, rfl, -⟩ := hfirst.split
  simp

theorem first_iff_find? {p : NextHop → Bool} (hp : ∀ d, p d ↔ P d) :
    First P hops h ↔ hops.find? p = some h := by
  have hfails : ∀ d, !p d ↔ ¬ P d := by
    intro d
    rw [Bool.not_eq_true', ← Bool.not_eq_true, hp]
  simp only [List.find?_eq_some_iff_append, hp, hfails]
  constructor
  · intro hfirst
    exact ⟨hfirst.holds, hfirst.split⟩
  · rintro ⟨hholds, hsplit⟩
    exact ⟨hholds, hsplit⟩

theorem exists_first (hsome : ∃ d ∈ hops, P d) : ∃ h, First P hops h := by
  classical
  have hfound : (hops.find? (P ·)).isSome := by simpa using hsome
  obtain ⟨h, hfind⟩ := Option.isSome_iff_exists.1 hfound
  exact ⟨h, (first_iff_find? fun _ => decide_eq_true_iff).2 hfind⟩

theorem First.unique {d : NextHop} (hfirst : First P hops h) (hother : First P hops d) :
    h = d := by
  classical
  have hfind := (first_iff_find? fun _ => decide_eq_true_iff).1 hfirst
  exact Option.some.inj (hfind.symm.trans ((first_iff_find? fun _ => decide_eq_true_iff).1 hother))

end First

theorem usableFace_iff : usableFace faces incoming h.face ↔ Usable faces incoming h := by
  rw [usableFace, Bool.and_eq_true, decide_eq_true_eq]
  constructor
  · rintro ⟨hother, hactive⟩
    exact ⟨hactive, hother⟩
  · rintro ⟨hactive, hother⟩
    exact ⟨hother, hactive⟩

theorem usable_eq_nil_iff :
    usable faces incoming e = [] ↔ ∀ d ∈ e.hops, ¬ Usable faces incoming d := by
  simp only [usable, List.filter_eq_nil_iff, usableFace_iff]

/-! ## The best route -/

theorem matches_iff {t : Transport} (ht : faces.transport incoming = some t) :
    usableFace faces incoming h.face ∧ faces.transport h.face = some t ↔
      Matches faces incoming h := by
  rw [usableFace_iff]
  constructor
  · rintro ⟨husable, hface⟩
    exact ⟨husable, t, ht, hface⟩
  · rintro ⟨husable, t', ht', hface⟩
    obtain rfl : t = t' := Option.some.inj (ht.symm.trans ht')
    exact ⟨husable, hface⟩

theorem find?_matching :
    ((faces.transport incoming).bind fun t =>
      (usable faces incoming e).find? fun h => faces.transport h.face = some t) = some h ↔
        First (Matches faces incoming) e.hops h := by
  cases ht : faces.transport incoming with
  | none =>
    refine ⟨nofun, ?_⟩
    intro hfirst
    obtain ⟨t, hknown, -⟩ := hfirst.holds.transport
    cases ht.symm.trans hknown
  | some t =>
    rw [Option.bind_some, usable, List.find?_filter]
    exact (first_iff_find? fun d => by simpa using matches_iff ht).symm

theorem head?_usable :
    (usable faces incoming e).head? = some h ↔ First (Usable faces incoming) e.hops h := by
  rw [usable, List.head?_filter]
  exact (first_iff_find? fun _ => usableFace_iff).symm

theorem chooseBest_of_matching (hfirst : First (Matches faces incoming) e.hops h) :
    chooseBest faces incoming e = [h.face] := by
  simp [chooseBest, find?_matching.2 hfirst]

theorem chooseBest_of_first (hnone : ∀ d ∈ e.hops, ¬ Matches faces incoming d)
    (hfirst : First (Usable faces incoming) e.hops h) :
    chooseBest faces incoming e = [h.face] := by
  have hnothing : ((faces.transport incoming).bind fun t =>
      (usable faces incoming e).find? fun h => faces.transport h.face = some t) = none := by
    rw [Option.eq_none_iff_forall_ne_some]
    intro d hfind
    have hmatching := find?_matching.1 hfind
    exact hnone d hmatching.mem hmatching.holds
  simp [chooseBest, hnothing, head?_usable.2 hfirst]

/-! ## The lowest cost -/

theorem cheaper_ne_none (best : Option NextHop) (h : NextHop) : cheaper best h ≠ none := by
  unfold cheaper
  split
  · split <;> exact Option.some_ne_none _
  · exact Option.some_ne_none _

theorem foldl_cheaper_eq_none (hnone : hops.foldl cheaper none = none) : hops = [] := by
  rcases List.eq_nil_or_concat' hops with rfl | ⟨front, last, rfl⟩
  · rfl
  · rw [List.foldl_concat] at hnone
    exact absurd hnone (cheaper_ne_none _ _)

/-- Among all that have been looked at, the first of the cheapest is kept. -/
theorem first_of_foldl_cheaper (hkept : hops.foldl cheaper none = some h) :
    First (fun d => ∀ g ∈ hops, d.cost ≤ g.cost) hops h := by
  induction hops using List.reverseRecOn generalizing h with
  | nil => cases hkept
  | append_singleton hops last ih =>
    rw [List.foldl_concat] at hkept
    cases hbest : hops.foldl cheaper none with
    | none =>
      obtain rfl := foldl_cheaper_eq_none hbest
      obtain rfl : last = h := Option.some.inj hkept
      exact ⟨by simp, [], [], rfl, by simp⟩
    | some best =>
      obtain ⟨hleast, front, back, hsplit, hfront⟩ := ih hbest
      rw [hbest, cheaper] at hkept
      by_cases hcost : best.cost ≤ last.cost
      · rw [if_pos hcost] at hkept
        obtain rfl : best = h := Option.some.inj hkept
        refine ⟨?_, front, back ++ [last], by simp [hsplit], ?_⟩
        · simpa [or_imp, forall_and] using And.intro hleast hcost
        · intro d hd hall
          exact hfront d hd fun g hg => hall g (List.mem_append_left _ hg)
      · rw [if_neg hcost] at hkept
        obtain rfl : last = h := Option.some.inj hkept
        have hless : last.cost < best.cost := UInt16.not_le.1 hcost
        refine ⟨?_, hops, [], rfl, ?_⟩
        · intro g hg
          rcases List.mem_append.1 hg with hold | hlast
          · exact UInt16.le_of_lt (UInt16.lt_of_lt_of_le hless (hleast g hold))
          · rw [List.mem_singleton.1 hlast]
            exact UInt16.le_refl _
        · -- all that came before cost as much as the best of them, and the last one costs less
          intro d hd hall
          have hlast : d.cost ≤ last.cost := hall last (by simp)
          exact hcost (UInt16.le_trans (hleast d hd) hlast)

theorem cheapest_iff : Cheapest faces incoming hops h ↔ usableFace faces incoming h.face ∧
    ∀ d ∈ hops, usableFace faces incoming d.face → h.cost ≤ d.cost := by
  simp only [usableFace_iff]
  constructor
  · rintro ⟨husable, hle⟩
    exact ⟨husable, hle⟩
  · rintro ⟨husable, hle⟩
    exact ⟨husable, hle⟩

theorem first_cheapest_of_kept (hkept : (usable faces incoming e).foldl cheaper none = some h) :
    First (Cheapest faces incoming e.hops) e.hops h := by
  classical
  have hfind := (first_iff_find? fun _ => decide_eq_true_iff).1 (first_of_foldl_cheaper hkept)
  rw [usable, List.find?_filter] at hfind
  exact (first_iff_find? fun d => by simpa using cheapest_iff.symm).2 hfind

theorem chooseCheapest_of_first (hfirst : First (Cheapest faces incoming e.hops) e.hops h) :
    chooseCheapest faces incoming e = [h.face] := by
  cases hkept : (usable faces incoming e).foldl cheaper none with
  | none =>
    have hnone := usable_eq_nil_iff.1 (foldl_cheaper_eq_none hkept)
    exact absurd hfirst.holds.toUsable (hnone h hfirst.mem)
  | some d =>
    obtain rfl := (first_cheapest_of_kept hkept).unique hfirst
    simp [chooseCheapest, hkept]

/-! ## All next hops -/

theorem Precedes.append (h : Precedes faces incoming hops f g) (more : List NextHop) :
    Precedes faces incoming (hops ++ more) f g := by
  obtain ⟨front, back, rfl, hthere, hother⟩ := h
  exact ⟨front, back ++ more, by simp, hthere, hother⟩

theorem Precedes.asymm (h : Precedes faces incoming hops f g) :
    ¬ Precedes faces incoming hops g f := by
  rintro ⟨front', back', hsplit', ⟨d', hd', husable', rfl⟩, hother'⟩
  obtain ⟨front, back, hsplit, ⟨d, hd, husable, rfl⟩, hother⟩ := h
  have hfront : front <+: hops := ⟨back, hsplit.symm⟩
  have hfront' : front' <+: hops := ⟨back', hsplit'.symm⟩
  rcases List.prefix_or_prefix_of_prefix hfront hfront' with hshort | hshort
  · exact hother' d (hshort.subset hd) husable rfl
  · exact hother d' (hshort.subset hd') husable' rfl

theorem Floods.unique {out' : List FaceId} (h : Floods faces incoming hops out)
    (h' : Floods faces incoming hops out') : out = out' := by
  have hperm : out.Perm out' := by
    rw [List.perm_ext_iff_of_nodup h.nodup h'.nodup]
    intro g
    rw [h.mem_iff, h'.mem_iff]
  refine hperm.eq_of_pairwise ?_ h.order h'.order
  intro f g _ _ hfirst hsecond
  exact absurd hsecond hfirst.asymm

theorem mem_chooseAll : g ∈ chooseAll faces incoming e ↔
    ∃ h ∈ e.hops, Usable faces incoming h ∧ h.face = g := by
  rw [chooseAll, mem_foldl_pushFace]
  simp [usable, usableFace_iff, and_assoc]

theorem chooseAll_concat (name : Name) (hops : List NextHop) (last : NextHop) :
    let out := chooseAll faces incoming ⟨name, hops⟩
    chooseAll faces incoming ⟨name, hops ++ [last]⟩ = out ∨
      last.face ∉ out ∧ chooseAll faces incoming ⟨name, hops ++ [last]⟩ = out ++ [last.face] := by
  simp only [chooseAll, usable, List.filter_append, List.foldl_append]
  by_cases husable : usableFace faces incoming last.face
  · by_cases hold : last.face ∈ (hops.filter fun h => usableFace faces incoming h.face).foldl
      (fun out h => if h.face ∈ out then out else out ++ [h.face]) []
    · exact .inl (by simp [husable, hold])
    · exact .inr ⟨hold, by simp [husable, hold]⟩
  · exact .inl (by simp [husable])

theorem pairwise_chooseAll (name : Name) (hops : List NextHop) :
    (chooseAll faces incoming ⟨name, hops⟩).Pairwise (Precedes faces incoming hops) := by
  induction hops using List.reverseRecOn with
  | nil => exact List.Pairwise.nil
  | append_singleton hops last ih =>
    have hold : (chooseAll faces incoming ⟨name, hops⟩).Pairwise
        (Precedes faces incoming (hops ++ [last])) :=
      ih.imp fun hprecedes => hprecedes.append [last]
    rcases chooseAll_concat name hops last with hsame | ⟨hnew, hadded⟩
    · rw [hsame]
      exact hold
    · rw [hadded]
      refine List.pairwise_append.2 ⟨hold, List.pairwise_singleton .., ?_⟩
      -- all faces up to here come before the one that is new
      intro f hf g hg
      rw [List.mem_singleton.1 hg]
      refine ⟨hops, [last], rfl, mem_chooseAll.1 hf, ?_⟩
      intro d hd husable hsame
      exact hnew (mem_chooseAll.2 ⟨d, hd, husable, hsame⟩)

theorem floods_chooseAll : Floods faces incoming e.hops (chooseAll faces incoming e) where
  nodup := nodup_foldl_pushFace List.nodup_nil
  mem_iff _ := mem_chooseAll
  order := pairwise_chooseAll e.name e.hops

/-! ## Every strategy -/

theorem forInterest_of_nothing (hnone : ∀ d ∈ e.hops, ¬ Usable faces incoming d) :
    s.forInterest faces incoming e = [] := by
  rw [← usable_eq_nil_iff] at hnone
  cases s <;> simp [forInterest, chooseBest, chooseAll, chooseCheapest, hnone]

theorem Selects.eq (h : Selects faces incoming e.hops s out) :
    s.forInterest faces incoming e = out := by
  cases h with
  | matching hfirst => exact chooseBest_of_matching hfirst
  | first hnone hfirst => exact chooseBest_of_first hnone hfirst
  | cheapest hfirst => exact chooseCheapest_of_first hfirst
  | all hfloods => exact floods_chooseAll.unique hfloods
  | nothing hnone => exact forInterest_of_nothing hnone

theorem exists_selects (s : Strategy) (faces : FaceView) (incoming : FaceId) (e : RouteEntry) :
    ∃ out, Selects faces incoming e.hops s out := by
  by_cases hsome : ∃ d ∈ e.hops, Usable faces incoming d
  · cases s with
    | bestRoute =>
      by_cases hmatches : ∃ d ∈ e.hops, Matches faces incoming d
      · obtain ⟨h, hfirst⟩ := exists_first hmatches
        exact ⟨_, .matching hfirst⟩
      · obtain ⟨h, hfirst⟩ := exists_first hsome
        exact ⟨_, .first (by simpa using hmatches) hfirst⟩
    | flooding => exact ⟨_, .all floods_chooseAll⟩
    | lowestCost =>
      cases hkept : (usable faces incoming e).foldl cheaper none with
      | none =>
        exact ⟨_, .nothing (usable_eq_nil_iff.1 (foldl_cheaper_eq_none hkept))⟩
      | some h => exact ⟨_, .cheapest (first_cheapest_of_kept hkept)⟩
  · exact ⟨[], .nothing (by simpa using hsome)⟩

/-- A strategy chooses what it is to choose and nothing else, and it chooses no face just when no
next hop can be used. -/
theorem forInterest_selects (faces : FaceView) (incoming : FaceId) (e : RouteEntry)
    (s : Strategy) : (∀ out, s.forInterest faces incoming e = out ↔
      Selects faces incoming e.hops s out) ∧
        (s.forInterest faces incoming e = [] ↔ ∀ d ∈ e.hops, ¬ Usable faces incoming d) := by
  have hselects : ∀ out, s.forInterest faces incoming e = out ↔
      Selects faces incoming e.hops s out := by
    intro out
    refine ⟨?_, Selects.eq⟩
    rintro rfl
    obtain ⟨out, hout⟩ := exists_selects s faces incoming e
    rwa [hout.eq]
  refine ⟨hselects, ?_, forInterest_of_nothing⟩
  intro hnil d hd husable
  cases (hselects []).1 hnil with
  | all hfloods => exact List.not_mem_nil ((hfloods.mem_iff d.face).2 ⟨d, hd, husable, rfl⟩)
  | nothing hnone => exact hnone d hd husable

end Strategy
end NamedData
