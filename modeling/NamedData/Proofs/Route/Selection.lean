import NamedData.Proofs.Route.Invariant
import NamedData.Route.Selection

/-!
# What a name is routed by

A name is routed by the longest of the registered names that begin it. Every strategy then picks
next hops of that entry whose faces are in use, none of them the face that the packet came from,
and no face twice.
-/

namespace NamedData

theorem Name.isPrefixOf_iff {n m : Name} : n.isPrefixOf m ↔ m.take n.size = n := by
  rw [isPrefixOf, List.isPrefixOf_iff_prefix, List.prefix_iff_eq_take]
  constructor
  · intro h
    rw [take, size, ← h]
  · intro h
    exact (congrArg components h).symm

theorem Name.size_take {n : Name} {length : Nat} (h : length ≤ n.size) :
    (n.take length).size = length :=
  List.length_take_of_le h

theorem Name.size_le_of_isPrefixOf {n m : Name} (h : n.isPrefixOf m) : n.size ≤ m.size :=
  (List.isPrefixOf_iff_prefix.1 h).length_le

namespace RouteTable

variable {t : RouteTable} {name : Name} {e : RouteEntry}

theorem probe_eq_some {length : Nat} (h : t.probe name length = some e) :
    ∃ found ≤ length, t.find? (name.take found) = some e ∧
      ∀ longer, found < longer → longer ≤ length → t.find? (name.take longer) = none := by
  induction length with
  | zero =>
    refine ⟨0, Nat.le_refl 0, h, ?_⟩
    intro longer hlonger hle
    omega
  | succ length ih =>
    unfold probe at h
    split at h
    · rename_i d hd
      refine ⟨length + 1, Nat.le_refl _, hd.trans h, ?_⟩
      intro longer hlonger hle
      omega
    · rename_i hnone
      obtain ⟨found, hle, hfound, hlonger⟩ := ih h
      refine ⟨found, Nat.le_succ_of_le hle, hfound, ?_⟩
      intro longer hlt hle
      rcases Nat.lt_or_eq_of_le hle with hshort | rfl
      · exact hlonger longer hlt (Nat.le_of_lt_succ hshort)
      · exact hnone

theorem longestMatch_eq_some (ht : t.Sound) (h : t.longestMatch name = some e) :
    e ∈ t.entries ∧ e.name.isPrefixOf name ∧
      ∀ d ∈ t.entries, d.name.isPrefixOf name → d.name.size ≤ e.name.size := by
  obtain ⟨found, hle, hfound, hlonger⟩ := probe_eq_some h
  have hname : e.name = name.take found := name_of_find? hfound
  have hsize : e.name.size = found := by
    rw [hname]
    exact Name.size_take (Nat.le_trans hle (Nat.min_le_left ..))
  refine ⟨mem_of_find? hfound, ?_, ?_⟩
  · rw [Name.isPrefixOf_iff, hsize, hname]
  · intro d hd hprefix
    by_contra hlong
    have hbegins := Name.isPrefixOf_iff.1 hprefix
    have hreached : d.name.size ≤ min name.size t.longest :=
      Nat.le_min.2 ⟨Name.size_le_of_isPrefixOf hprefix, ht.size_le_longest hd⟩
    have hnone := hlonger d.name.size (by omega) hreached
    rw [hbegins] at hnone
    exact find?_eq_none_iff.1 hnone d hd rfl

end RouteTable

namespace Strategy

variable {faces : FaceView} {incoming g : FaceId} {e : RouteEntry} {s : Strategy}

/-- A face that is picked is that of a next hop, is in use and is not where the packet came from. -/
structure Picks (faces : FaceView) (incoming : FaceId) (e : RouteEntry) (g : FaceId) : Prop where
  hop : ∃ h ∈ e.hops, h.face = g
  active : faces.active g
  other : g ≠ incoming

theorem picks_of_usable {h : NextHop} (hh : h ∈ usable faces incoming e) :
    Picks faces incoming e h.face := by
  obtain ⟨hmem, husable⟩ := List.mem_filter.1 hh
  have hface : h.face ≠ incoming ∧ faces.active h.face := by simpa [usableFace] using husable
  exact ⟨⟨h, hmem, rfl⟩, hface.2, hface.1⟩

theorem mem_of_cheaper {hops : List NextHop} {best : Option NextHop} {h : NextHop}
    (hh : hops.foldl cheaper best = some h) : best = some h ∨ h ∈ hops := by
  induction hops generalizing best with
  | nil => exact .inl hh
  | cons hop hops ih =>
    rcases ih hh with hbest | hmem
    · have hnew : cheaper best hop = best ∨ cheaper best hop = some hop := by
        unfold cheaper
        split
        · split <;> simp
        · exact .inr rfl
      rcases hnew with hold | hhop
      · exact .inl (hold.symm.trans hbest)
      · exact .inr (List.mem_cons.2 (.inl (Option.some.inj (hbest.symm.trans hhop))))
    · exact .inr (List.mem_cons_of_mem _ hmem)

theorem mem_chooseBest (hg : g ∈ chooseBest faces incoming e) :
    ∃ h ∈ usable faces incoming e, h.face = g := by
  simp only [chooseBest, Option.mem_toList, Option.map_eq_some_iff, Option.or_eq_some_iff,
    Option.bind_eq_some_iff] at hg
  obtain ⟨h, ⟨t, -, hfound⟩ | ⟨-, hhead⟩, hface⟩ := hg
  · exact ⟨h, List.mem_of_find?_eq_some hfound, hface⟩
  · exact ⟨h, List.mem_of_head? hhead, hface⟩

theorem mem_foldl_pushFace {hops : List NextHop} {out : List FaceId} :
    g ∈ hops.foldl (fun out h => if h.face ∈ out then out else out ++ [h.face]) out ↔
      g ∈ out ∨ ∃ h ∈ hops, h.face = g := by
  induction hops generalizing out with
  | nil => simp
  | cons hop hops ih =>
    rw [List.foldl_cons, ih]
    split
    · rename_i hold
      grind
    · simp [or_assoc, eq_comm]

theorem nodup_foldl_pushFace {hops : List NextHop} {out : List FaceId} (h : out.Nodup) :
    (hops.foldl (fun out h => if h.face ∈ out then out else out ++ [h.face]) out).Nodup := by
  induction hops generalizing out with
  | nil => exact h
  | cons hop hops ih =>
    refine @ih (if hop.face ∈ out then out else out ++ [hop.face]) ?_
    split
    · exact h
    · rename_i hnew
      exact List.Nodup.append h (by simp) (by simpa using hnew)

theorem nodup_toList (o : Option FaceId) : o.toList.Nodup := by
  cases o <;> simp

theorem picks_of_mem (hg : g ∈ s.forInterest faces incoming e) : Picks faces incoming e g := by
  have husable : ∃ h ∈ usable faces incoming e, h.face = g := by
    cases s with
    | bestRoute => exact mem_chooseBest hg
    | flooding =>
      rcases mem_foldl_pushFace.1 hg with hnone | hsome
      · exact absurd hnone List.not_mem_nil
      · exact hsome
    | lowestCost =>
      simp only [forInterest, chooseCheapest, Option.mem_toList, Option.map_eq_some_iff] at hg
      obtain ⟨h, hcheapest, hface⟩ := hg
      rcases mem_of_cheaper hcheapest with hnone | hmem
      · cases hnone
      · exact ⟨h, hmem, hface⟩
  obtain ⟨h, hh, rfl⟩ := husable
  exact picks_of_usable hh

theorem nodup_forInterest : (s.forInterest faces incoming e).Nodup := by
  cases s with
  | bestRoute => exact nodup_toList _
  | flooding => exact nodup_foldl_pushFace List.nodup_nil
  | lowestCost => exact nodup_toList _

end Strategy
end NamedData
