import Mathlib.Data.List.Induction
import Mathlib.Data.List.Nodup
import NamedData.Route.Table

/-!
# The shape of the table of routes

In every table that the operations make there are no more names than the capacity, and none is
registered twice. Every name has a next hop, and no two of its next hops have the same face and
key. The length that is kept beside the entries is that of the longest name, which is why a search
may start there.
-/

namespace NamedData

/-- The face and the key of a next hop, by which it is found. -/
def NextHop.place (h : NextHop) : FaceId × Option Digest := (h.face, h.keyId)

theorem NextHop.isVia_iff {h : NextHop} {face : FaceId} {keyId : Option Digest} :
    h.isVia face keyId ↔ h.place = (face, keyId) := by
  simp [isVia, place]

structure RouteEntry.Sound (e : RouteEntry) : Prop where
  hops_ne_nil : e.hops ≠ []
  places_nodup : (e.hops.map (·.place)).Nodup

structure RouteTable.Sound (t : RouteTable) : Prop where
  size_le : t.size ≤ t.capacity
  names_nodup : (t.entries.map (·.name)).Nodup
  longest_eq : t.longest = longestOf t.entries
  entries : ∀ e ∈ t.entries, e.Sound

namespace RouteEntry

variable {p : NextHop → Bool} {f : NextHop → NextHop}

theorem map_updateFirst {α : Type} {g : NextHop → α} (hf : ∀ h, g (f h) = g h)
    (hops : List NextHop) : (updateFirst p f hops).map g = hops.map g := by
  induction hops with
  | nil => rfl
  | cons h hs ih =>
    unfold updateFirst
    split
    · simp [hf]
    · simp [ih]

theorem Sound.updateFirst {e : RouteEntry} (h : e.Sound) (hf : ∀ h, (f h).place = h.place) :
    Sound { e with hops := RouteEntry.updateFirst p f e.hops } := by
  have hplaces := map_updateFirst (p := p) hf e.hops
  constructor
  · intro hnil
    have hnil : RouteEntry.updateFirst p f e.hops = [] := hnil
    rw [hnil] at hplaces
    exact h.hops_ne_nil (List.map_eq_nil_iff.1 hplaces.symm)
  · rw [hplaces]
    exact h.places_nodup

theorem Sound.of_sublist {e : RouteEntry} (h : e.Sound) {hops : List NextHop}
    (hs : hops.Sublist e.hops) (hne : hops ≠ []) : Sound { e with hops } :=
  ⟨hne, h.places_nodup.sublist (hs.map _)⟩

theorem Sound.addHop {e : RouteEntry} (h : e.Sound) (hop : NextHop) :
    (RouteTable.addHop e hop).1.Sound := by
  unfold RouteTable.addHop
  split
  · exact h.updateFirst fun _ => rfl
  · rename_i hnew
    constructor
    · simp
    · rw [List.map_append]
      refine List.Nodup.append h.places_nodup (by simp) ?_
      have hother : ∀ d ∈ e.hops, d.place ≠ hop.place := by
        intro d hd hplace
        exact hnew (List.any_eq_true.2 ⟨d, hd, NextHop.isVia_iff.2 hplace⟩)
      simpa using hother

theorem name_addHop (e : RouteEntry) (hop : NextHop) :
    (RouteTable.addHop e hop).1.name = e.name := by
  unfold RouteTable.addHop
  split <;> rfl

end RouteEntry

namespace RouteTable

variable {t u : RouteTable} {name : Name} {face : FaceId} {keyId : Option Digest}

theorem longestOf_eq (entries : List RouteEntry) :
    longestOf entries = (entries.map (·.name.size)).foldl max 0 := by
  rw [longestOf, List.foldl_map]

theorem longestOf_congr {entries others : List RouteEntry}
    (h : entries.map (·.name) = others.map (·.name)) : longestOf entries = longestOf others := by
  have hsizes := congrArg (List.map Name.size) h
  simp only [List.map_map, Function.comp_def] at hsizes
  rw [longestOf_eq, longestOf_eq, hsizes]

theorem longestOf_concat (entries : List RouteEntry) (e : RouteEntry) :
    longestOf (entries ++ [e]) = max (longestOf entries) e.name.size := by
  rw [longestOf, List.foldl_append]
  rfl

theorem le_longestOf {entries : List RouteEntry} {e : RouteEntry} (h : e ∈ entries) :
    e.name.size ≤ longestOf entries := by
  induction entries using List.reverseRecOn with
  | nil => exact absurd h List.not_mem_nil
  | append_singleton entries last ih =>
    rw [longestOf_concat]
    rcases List.mem_append.1 h with hmem | hlast
    · exact Nat.le_trans (ih hmem) (Nat.le_max_left ..)
    · rw [List.mem_singleton.1 hlast]
      exact Nat.le_max_right ..

theorem mem_of_find? {e : RouteEntry} (h : t.find? name = some e) : e ∈ t.entries :=
  List.mem_of_find?_eq_some h

theorem name_of_find? {e : RouteEntry} (h : t.find? name = some e) : e.name = name := by
  simpa using List.find?_some h

theorem find?_eq_none_iff : t.find? name = none ↔ ∀ e ∈ t.entries, e.name ≠ name := by
  simp [find?]

theorem uses_iff : t.uses face ↔ ∃ e ∈ t.entries, ∃ h ∈ e.hops, h.face = face := by
  simp [uses, RouteEntry.uses]

theorem names_update {f : RouteEntry → RouteEntry} (hf : ∀ e, (f e).name = e.name) :
    (t.update name f).entries.map (·.name) = t.entries.map (·.name) := by
  simp only [update, List.map_map]
  apply List.map_congr_left
  intro e _
  by_cases h : e.name = name <;> simp [h, hf]

theorem find?_update {f : RouteEntry → RouteEntry} (hf : ∀ e, (f e).name = e.name) :
    (t.update name f).find? name = (t.find? name).map f := by
  have hp : (fun e : RouteEntry => decide ((if e.name = name then f e else e).name = name)) =
      fun e => decide (e.name = name) := by
    funext e
    by_cases h : e.name = name <;> simp [h, hf]
  simp only [find?, update, List.find?_map, Function.comp_def, hp]
  apply Option.map_congr
  intro e he
  rw [if_pos (name_of_find? he)]

/-- A route that is added begins a new name, or goes to the entry of its name. -/
theorem add_cases {flags : RouteFlags} {cost : UInt16} {change : RouteChange}
    (h : t.add name face flags cost keyId = .ok (u, change)) :
    (t.find? name = none ∧ t.size < t.capacity ∧ change = .added ∧
      u = { t with
        entries := t.entries ++ [⟨name, [{ face, flags, cost, keyId }]⟩]
        longest := max t.longest name.size }) ∨
    ∃ e, t.find? name = some e ∧ change = (addHop e { face, flags, cost, keyId }).2 ∧
      u = { t.update name fun d => (addHop d { face, flags, cost, keyId }).1 with
        longest := max t.longest name.size } := by
  unfold add at h
  cases hfind : t.find? name with
  | none =>
    simp only [hfind] at h
    split at h
    · cases h
    · rename_i hroom
      obtain ⟨rfl, rfl⟩ := Prod.mk.inj (Except.ok.inj h)
      exact .inl ⟨rfl, Nat.lt_of_not_le hroom, rfl, rfl⟩
  | some e =>
    simp only [hfind] at h
    obtain ⟨rfl, rfl⟩ := Prod.mk.inj (Except.ok.inj h)
    exact .inr ⟨e, rfl, rfl, rfl⟩

/-- A route is refused when its name is a new one and there are as many as there may be. -/
theorem add_eq_error_iff {flags : RouteFlags} {cost : UInt16} {full : RouteTableFull} :
    t.add name face flags cost keyId = .error full ↔
      full = ⟨t.capacity⟩ ∧ t.find? name = none ∧ t.capacity ≤ t.size := by
  unfold add
  cases t.find? name with
  | none => by_cases hfull : t.capacity ≤ t.size <;> simp [hfull, eq_comm]
  | some e => simp

/-- A removal finds nothing, takes the name with its last next hop, or leaves other next hops. -/
theorem remove_cases (t : RouteTable) (name : Name) (face : FaceId) (keyId : Option Digest) :
    (t.remove name face keyId = (t, .notFound) ∧
      ∀ e, t.find? name = some e → e.hops.filter (!·.isVia face keyId) = e.hops) ∨
    ∃ e, t.find? name = some e ∧
      (e.hops.filter (!·.isVia face keyId) = [] ∧
        t.remove name face keyId =
          ({ t with
            entries := t.entries.filter (·.name ≠ name)
            longest := longestOf (t.entries.filter (·.name ≠ name)) }, .entryRemoved) ∨
      e.hops.filter (!·.isVia face keyId) ≠ [] ∧
        t.remove name face keyId =
          (t.update name fun d => { d with hops := e.hops.filter (!·.isVia face keyId) },
            .removed)) := by
  unfold remove
  cases hfind : t.find? name with
  | none => exact .inl ⟨rfl, nofun⟩
  | some e =>
    dsimp only
    split
    · rename_i hlength
      refine .inl ⟨rfl, ?_⟩
      rintro d ⟨⟩
      exact List.filter_sublist.eq_of_length hlength
    · refine .inr ⟨e, rfl, ?_⟩
      split
      · rename_i hempty
        exact .inl ⟨List.isEmpty_iff.1 hempty, rfl⟩
      · rename_i hsome
        exact .inr ⟨mt List.isEmpty_iff.2 hsome, rfl⟩

namespace Sound

theorem empty (capacity : Nat) : (RouteTable.empty capacity).Sound :=
  ⟨Nat.zero_le _, List.nodup_nil, rfl, fun _ h => absurd h List.not_mem_nil⟩

variable (h : t.Sound)
include h

theorem size_le_longest {e : RouteEntry} (he : e ∈ t.entries) : e.name.size ≤ t.longest := by
  rw [h.longest_eq]
  exact le_longestOf he

theorem update {f : RouteEntry → RouteEntry} (hname : ∀ e, (f e).name = e.name)
    (hf : ∀ e ∈ t.entries, e.name = name → (f e).Sound) : (t.update name f).Sound where
  size_le := by
    have hsize : (t.update name f).size = t.size := List.length_map ..
    rw [hsize]
    exact h.size_le
  names_nodup := by
    rw [names_update hname]
    exact h.names_nodup
  longest_eq := h.longest_eq.trans (longestOf_congr (names_update hname).symm)
  entries := by
    intro d hd
    obtain ⟨e, he, rfl⟩ := List.mem_map.1 hd
    split
    · rename_i hat
      exact hf e he hat
    · exact h.entries e he

theorem count (name : Name) (face : FaceId) (frameClass : FrameClass) :
    (t.count name face frameClass).Sound := by
  refine h.update (by exact fun _ => rfl) fun e he _ => (h.entries e he).updateFirst ?_
  intro hop
  cases frameClass <;> rfl

theorem countAll (name : Name) (faces : List FaceId) (frameClass : FrameClass) :
    (t.countAll name faces frameClass).Sound :=
  faces.foldlRecOn _ h fun _ hu face _ => hu.count name face frameClass

theorem max_longest {e : RouteEntry} (hfind : t.find? name = some e) :
    max t.longest name.size = t.longest := by
  rw [← name_of_find? hfind]
  exact Nat.max_eq_left (h.size_le_longest (mem_of_find? hfind))

theorem add {flags : RouteFlags} {cost : UInt16} {change : RouteChange}
    (hadd : t.add name face flags cost keyId = .ok (u, change)) : u.Sound := by
  rcases add_cases hadd with ⟨hnew, hroom, -, rfl⟩ | ⟨e, hfind, -, rfl⟩
  · refine ⟨?_, ?_, ?_, ?_⟩
    · simp only [size, List.length_append, List.length_singleton] at hroom ⊢
      omega
    · rw [List.map_append]
      refine List.Nodup.append h.names_nodup (by simp) ?_
      simpa using find?_eq_none_iff.1 hnew
    · rw [longestOf_concat, h.longest_eq]
    · intro e he
      rcases List.mem_append.1 he with hmem | hlast
      · exact h.entries e hmem
      · rw [List.mem_singleton.1 hlast]
        exact ⟨by simp, by simp⟩
  · rw [h.max_longest hfind]
    exact h.update (fun d => d.name_addHop _) fun d hd _ => (h.entries d hd).addHop _

theorem remove (name : Name) (face : FaceId) (keyId : Option Digest) :
    (t.remove name face keyId).1.Sound := by
  rcases t.remove_cases name face keyId with ⟨hsame, -⟩ | ⟨e, hfind, ⟨-, hlast⟩ | ⟨hsome, hrest⟩⟩
  · rw [hsame]
    exact h
  · rw [hlast]
    refine ⟨?_, ?_, rfl, ?_⟩
    · exact Nat.le_trans (List.length_filter_le ..) h.size_le
    · exact h.names_nodup.sublist (List.filter_sublist.map _)
    · exact fun d hd => h.entries d (List.mem_of_mem_filter hd)
  · rw [hrest]
    refine h.update (by exact fun _ => rfl) fun d hd hname => ?_
    -- no name is registered twice, so the entry that is changed is the one that was found
    obtain rfl : d = e :=
      List.inj_on_of_nodup_map h.names_nodup hd (mem_of_find? hfind)
        (hname.trans (name_of_find? hfind).symm)
    exact (h.entries d hd).of_sublist List.filter_sublist hsome

theorem forget (face : FaceId) : (t.forget face).1.Sound := by
  let without := t.entries.map fun e => { e with hops := e.hops.filter (·.face ≠ face) }
  have hnames : without.map (·.name) = t.entries.map (·.name) := by
    simp [without, Function.comp_def]
  have hlength : without.length = t.size := List.length_map ..
  refine ⟨?_, ?_, rfl, ?_⟩
  · have hle : (without.filter (!·.hops.isEmpty)).length ≤ without.length :=
      List.length_filter_le ..
    exact Nat.le_trans hle (hlength ▸ h.size_le)
  · have hsublist : (without.filter (!·.hops.isEmpty)).Sublist without := List.filter_sublist
    have hnodup := h.names_nodup
    rw [← hnames] at hnodup
    exact hnodup.sublist (hsublist.map _)
  · intro d hd
    obtain ⟨hmem, hsome⟩ := List.mem_filter.1 hd
    obtain ⟨e, he, rfl⟩ := List.mem_map.1 hmem
    exact (h.entries e he).of_sublist List.filter_sublist (by simpa using hsome)

end Sound
end RouteTable
end NamedData
