import Mathlib.Data.Finset.Card
import NamedData.Proofs.Route.Selection

/-!
# Routes by their history

The routes of a table are those that have been added and not removed since. What an operation does
to them is said of a set of names, faces and keys alone, and nothing of the entries or of the length
that is kept beside them. The longest match of a name is then the longest of the names in that set
that begin it.
-/

namespace NamedData

/-- A name with the face and the key of one of its next hops. -/
abbrev Route := Name × (FaceId × Option Digest)

def RouteEntry.places (e : RouteEntry) : List (FaceId × Option Digest) := e.hops.map (·.place)

namespace RouteTable

variable {t u : RouteTable} {name : Name} {face : FaceId} {keyId : Option Digest} {e : RouteEntry}
  {route : Route}

/-! ## Operations -/

inductive Operation
  | add (name : Name) (face : FaceId) (flags : RouteFlags) (cost : UInt16) (keyId : Option Digest)
  | remove (name : Name) (face : FaceId) (keyId : Option Digest)
  | forget (face : FaceId)
  | count (name : Name) (face : FaceId) (frameClass : FrameClass)

/-- The table after an operation; a route that finds no room changes nothing. -/
def apply (t : RouteTable) : Operation → RouteTable
  | .add name face flags cost keyId =>
    match t.add name face flags cost keyId with
    | .ok (u, _) => u
    | .error _ => t
  | .remove name face keyId => (t.remove name face keyId).1
  | .forget face => (t.forget face).1
  | .count name face frameClass => t.count name face frameClass

def operate (t : RouteTable) (ops : List Operation) : RouteTable := ops.foldl apply t

theorem Sound.apply (h : t.Sound) (op : Operation) : (t.apply op).Sound := by
  cases op with
  | add name face flags cost keyId =>
    simp only [RouteTable.apply]
    cases hadd : t.add name face flags cost keyId with
    | error full => exact h
    | ok added => exact h.add hadd
  | remove name face keyId => exact h.remove name face keyId
  | forget face => exact h.forget face
  | count name face frameClass => exact h.count name face frameClass

theorem Sound.operate (h : t.Sound) (ops : List Operation) : (t.operate ops).Sound :=
  ops.foldlRecOn _ h fun _ hu op _ => hu.apply op

/-! ## The routes of a table -/

def routes (t : RouteTable) : Finset Route :=
  (t.entries.flatMap fun e => e.places.map (e.name, ·)).toFinset

def names (routes : Finset Route) : Finset Name := routes.image (·.1)

theorem mem_routes : route ∈ t.routes ↔ ∃ e ∈ t.entries, e.name = route.1 ∧ route.2 ∈ e.places := by
  simp only [routes, List.mem_toFinset, List.mem_flatMap, List.mem_map]
  constructor
  · rintro ⟨e, he, place, hplace, rfl⟩
    exact ⟨e, he, rfl, hplace⟩
  · rintro ⟨e, he, hname, hplace⟩
    exact ⟨e, he, route.2, hplace, Prod.ext hname rfl⟩

namespace Sound

variable (h : t.Sound)
include h

theorem find?_eq_some_iff : t.find? name = some e ↔ e ∈ t.entries ∧ e.name = name := by
  constructor
  · intro hfind
    exact ⟨mem_of_find? hfind, name_of_find? hfind⟩
  · rintro ⟨he, hname⟩
    cases hfind : t.find? name with
    | none => exact absurd hname (find?_eq_none_iff.1 hfind e he)
    | some d =>
      have hsame : d.name = e.name := (name_of_find? hfind).trans hname.symm
      rw [List.inj_on_of_nodup_map h.names_nodup (mem_of_find? hfind) he hsame]

theorem mem_routes_of_find? (hfind : t.find? name = some e) (hname : route.1 = name) :
    route ∈ t.routes ↔ route.2 ∈ e.places := by
  rw [mem_routes]
  constructor
  · rintro ⟨d, hd, hdname, hplace⟩
    rw [h.find?_eq_some_iff.2 ⟨hd, hdname.trans hname⟩] at hfind
    obtain rfl := Option.some.inj hfind
    exact hplace
  · intro hplace
    exact ⟨e, mem_of_find? hfind, (name_of_find? hfind).trans hname.symm, hplace⟩

theorem mem_names : name ∈ names t.routes ↔ ∃ e ∈ t.entries, e.name = name := by
  simp only [names, Finset.mem_image, mem_routes]
  constructor
  · rintro ⟨route, ⟨e, he, hname, -⟩, rfl⟩
    exact ⟨e, he, hname⟩
  · rintro ⟨e, he, rfl⟩
    obtain ⟨hop, hhop⟩ := List.exists_mem_of_ne_nil e.hops (h.entries e he).hops_ne_nil
    exact ⟨(e.name, hop.place), ⟨e, he, rfl, List.mem_map_of_mem hhop⟩, rfl⟩

theorem find?_eq_none_iff_names : t.find? name = none ↔ name ∉ names t.routes := by
  rw [find?_eq_none_iff, h.mem_names]
  push Not
  rfl

theorem card_names : (names t.routes).card = t.size := by
  have hnames : names t.routes = (t.entries.map (·.name)).toFinset := by
    ext name
    rw [h.mem_names, List.mem_toFinset, List.mem_map]
  rw [hnames, List.toFinset_card_of_nodup h.names_nodup, List.length_map]
  rfl

theorem mem_routes_update {f : RouteEntry → RouteEntry} (hf : ∀ d, (f d).name = d.name)
    (hfind : t.find? name = some e) :
    route ∈ (t.update name f).routes ↔
      if route.1 = name then route.2 ∈ (f e).places else route ∈ t.routes := by
  simp only [mem_routes, RouteTable.update, List.mem_map, exists_exists_and_eq_and]
  have hname := name_of_find? hfind
  split
  · rename_i hat
    constructor
    · rintro ⟨d, hd, hdname, hplace⟩
      have hd' : d.name = name := by
        by_contra hother
        rw [if_neg hother] at hdname
        exact hother (hdname.trans hat)
      rw [if_pos hd'] at hplace
      rw [h.find?_eq_some_iff.2 ⟨hd, hd'⟩] at hfind
      obtain rfl := Option.some.inj hfind
      exact hplace
    · intro hplace
      refine ⟨e, mem_of_find? hfind, ?_, ?_⟩
      · rw [if_pos hname, hf, hname, hat]
      · rwa [if_pos hname]
  · rename_i hother
    apply exists_congr
    intro d
    by_cases hd : d.name = name
    · have hne : name ≠ route.1 := fun hsame => hother hsame.symm
      simp [hd, hf, hne]
    · simp [hd]

end Sound

/-! ## What operations do to the routes -/

theorem route_eq_iff {place : FaceId × Option Digest} (hname : route.1 = name) :
    route = (name, place) ↔ route.2 = place :=
  Prod.ext_iff.trans (and_iff_right hname)

theorem route_ne {place : FaceId × Option Digest} (hname : route.1 ≠ name) :
    route ≠ (name, place) :=
  fun hsame => hname (congrArg Prod.fst hsame)

theorem places_updateFirst {p : NextHop → Bool} {f : NextHop → NextHop}
    (hf : ∀ d, (f d).place = d.place) :
    RouteEntry.places { e with hops := RouteEntry.updateFirst p f e.hops } = e.places :=
  RouteEntry.map_updateFirst hf e.hops

theorem mem_places_addHop {hop : NextHop} {place : FaceId × Option Digest} :
    place ∈ (addHop e hop).1.places ↔ place = hop.place ∨ place ∈ e.places := by
  by_cases hold : e.hops.any (·.isVia hop.face hop.keyId)
  · have hplaces : (addHop e hop).1.places = e.places := by
      unfold addHop
      rw [if_pos hold]
      exact places_updateFirst fun _ => rfl
    have hmem : hop.place ∈ e.places := by
      obtain ⟨d, hd, hvia⟩ := List.any_eq_true.1 hold
      exact List.mem_map.2 ⟨d, hd, NextHop.isVia_iff.1 hvia⟩
    rw [hplaces]
    constructor
    · exact .inr
    · rintro (rfl | hplace)
      · exact hmem
      · exact hplace
  · unfold addHop
    rw [if_neg hold]
    simp only [RouteEntry.places, List.map_append, List.mem_append, List.map_singleton,
      List.mem_singleton]
    exact or_comm

theorem mem_places_filter {p : NextHop → Bool} {q : FaceId × Option Digest → Prop}
    (hp : ∀ hop, p hop ↔ q hop.place) {place : FaceId × Option Digest} :
    place ∈ RouteEntry.places { e with hops := e.hops.filter p } ↔ place ∈ e.places ∧ q place := by
  simp only [RouteEntry.places, List.mem_map, List.mem_filter]
  constructor
  · rintro ⟨hop, ⟨hmem, hkept⟩, rfl⟩
    exact ⟨⟨hop, hmem, rfl⟩, (hp hop).1 hkept⟩
  · rintro ⟨⟨hop, hmem, rfl⟩, hq⟩
    exact ⟨hop, ⟨hmem, (hp hop).2 hq⟩, rfl⟩

namespace Sound

variable (h : t.Sound)
include h

theorem routes_add {flags : RouteFlags} {cost : UInt16} {change : RouteChange}
    (hadd : t.add name face flags cost keyId = .ok (u, change)) :
    u.routes = insert (name, face, keyId) t.routes := by
  ext route
  rw [Finset.mem_insert]
  rcases add_cases hadd with ⟨-, -, -, rfl⟩ | ⟨e, hfind, -, rfl⟩
  · simp only [mem_routes, List.mem_append, List.mem_singleton, or_and_right, exists_or,
      exists_eq_left, RouteEntry.places, List.map_singleton, NextHop.place, Prod.ext_iff]
    rw [or_comm, eq_comm (a := name)]
  · let hop : NextHop := { face, flags, cost, keyId }
    have hupdate : route ∈ (t.update name fun d => (addHop d hop).1).routes ↔
        if route.1 = name then route.2 ∈ (addHop e hop).1.places else route ∈ t.routes :=
      h.mem_routes_update (fun d => d.name_addHop _) hfind
    refine hupdate.trans ?_
    rw [mem_places_addHop]
    split
    · rename_i hname
      rw [route_eq_iff hname, h.mem_routes_of_find? hfind hname]
      rfl
    · rename_i hother
      exact (or_iff_right (route_ne hother)).symm

theorem exists_add_eq_error_iff {flags : RouteFlags} {cost : UInt16} :
    (∃ full, t.add name face flags cost keyId = .error full) ↔
      name ∉ names t.routes ∧ t.capacity ≤ (names t.routes).card := by
  rw [h.card_names, ← h.find?_eq_none_iff_names]
  simp only [add_eq_error_iff, exists_eq_left]

/-- However the table is rewritten, the name keeps the rest and other names are left alone. -/
theorem mem_routes_remove (hfind : t.find? name = some e) :
    route ∈ (t.remove name face keyId).1.routes ↔
      if route.1 = name then
        route.2 ∈ RouteEntry.places { e with hops := e.hops.filter (!·.isVia face keyId) }
      else route ∈ t.routes := by
  rcases t.remove_cases name face keyId with
    ⟨hsame, hall⟩ | ⟨d, hfound, ⟨hnone, hlast⟩ | ⟨-, hrest⟩⟩
  · rw [hsame, hall e hfind]
    split
    · rename_i hname
      exact h.mem_routes_of_find? hfind hname
    · rfl
  · rw [hfound] at hfind
    obtain rfl := Option.some.inj hfind
    rw [hlast, hnone]
    simp only [mem_routes, List.mem_filter, decide_eq_true_eq]
    constructor
    · rintro ⟨d, ⟨hd, hother⟩, hname, hplace⟩
      rw [if_neg (hname ▸ hother)]
      exact ⟨d, hd, hname, hplace⟩
    · intro hroute
      split at hroute
      · exact absurd hroute List.not_mem_nil
      · rename_i hother
        obtain ⟨d, hd, hname, hplace⟩ := hroute
        exact ⟨d, ⟨hd, hname ▸ hother⟩, hname, hplace⟩
  · rw [hfound] at hfind
    obtain rfl := Option.some.inj hfind
    rw [hrest]
    exact h.mem_routes_update (fun _ => rfl) hfound

theorem routes_remove :
    (t.remove name face keyId).1.routes = t.routes.erase (name, face, keyId) := by
  ext route
  rw [Finset.mem_erase]
  cases hfind : t.find? name with
  | none =>
    have hnone : route.1 = name → route ∉ t.routes := by
      rintro hname hroute
      obtain ⟨e, he, hename, -⟩ := mem_routes.1 hroute
      exact find?_eq_none_iff.1 hfind e he (hename.trans hname)
    have hsame : (t.remove name face keyId).1 = t := by
      simp only [RouteTable.remove, hfind]
    rw [hsame]
    exact (and_iff_right_of_imp fun hroute => route_ne fun hname => hnone hname hroute).symm
  | some e =>
    rw [h.mem_routes_remove hfind]
    split
    · rename_i hname
      have hkept : route.2 ∈ RouteEntry.places
          { e with hops := e.hops.filter (!·.isVia face keyId) } ↔
            route.2 ∈ e.places ∧ route.2 ≠ (face, keyId) := by
        apply mem_places_filter (q := (· ≠ (face, keyId)))
        intro hop
        rw [Bool.not_eq_true', ← Bool.not_eq_true, NextHop.isVia_iff]
      rw [hkept, h.mem_routes_of_find? hfind hname, and_comm, Ne, Ne, route_eq_iff hname]
    · rename_i hother
      exact (and_iff_right (route_ne hother)).symm

end Sound

theorem routes_count {frameClass : FrameClass} :
    (t.count name face frameClass).routes = t.routes := by
  have hplaces : ∀ e : RouteEntry, (e.count face frameClass).places = e.places := by
    intro e
    apply places_updateFirst
    intro hop
    cases frameClass <;> rfl
  simp only [routes, count, update, List.flatMap_map]
  congr 1
  apply List.flatMap_congr
  intro e _
  split
  · rw [hplaces]
    rfl
  · rfl

theorem routes_forget : (t.forget face).1.routes = t.routes.filter (·.2.1 ≠ face) := by
  ext route
  have hkept : ∀ e : RouteEntry, route.2 ∈ RouteEntry.places
      { e with hops := e.hops.filter (·.face ≠ face) } ↔
        route.2 ∈ e.places ∧ route.2.1 ≠ face := by
    intro e
    apply mem_places_filter (q := (·.1 ≠ face))
    intro hop
    simp [NextHop.place]
  simp only [Finset.mem_filter, mem_routes, forget, List.mem_filter, List.mem_map]
  constructor
  · rintro ⟨d, ⟨⟨e, he, rfl⟩, -⟩, hname, hplace⟩
    obtain ⟨hold, hother⟩ := (hkept e).1 hplace
    exact ⟨⟨e, he, hname, hold⟩, hother⟩
  · rintro ⟨⟨e, he, hname, hold⟩, hother⟩
    have hplace := (hkept e).2 ⟨hold, hother⟩
    refine ⟨_, ⟨⟨e, he, rfl⟩, ?_⟩, hname, hplace⟩
    -- an entry that keeps a place keeps a next hop
    rw [Bool.not_eq_true', List.isEmpty_eq_false_iff]
    intro hnil
    obtain ⟨hop, hhop, -⟩ := List.mem_map.1 hplace
    exact List.ne_nil_of_mem hhop hnil

/-! ## The routes that a history leaves -/

/-- What an operation does to a set of routes. -/
def replay (capacity : Nat) (routes : Finset Route) : Operation → Finset Route
  | .add name face _ _ keyId =>
    if name ∈ names routes ∨ (names routes).card < capacity then
      insert (name, face, keyId) routes
    else routes
  | .remove name face keyId => routes.erase (name, face, keyId)
  | .forget face => routes.filter (·.2.1 ≠ face)
  | .count .. => routes

/-- The routes that have been added and not removed since. -/
def recorded (capacity : Nat) (ops : List Operation) : Finset Route :=
  ops.foldl (replay capacity) ∅

theorem Sound.routes_apply (h : t.Sound) (op : Operation) :
    (t.apply op).routes = replay t.capacity t.routes op := by
  cases op with
  | add name face flags cost keyId =>
    have herror : (∃ full, t.add name face flags cost keyId = .error full) ↔ _ :=
      h.exists_add_eq_error_iff
    rw [← Nat.not_lt, ← not_or] at herror
    simp only [RouteTable.apply, replay]
    cases hadd : t.add name face flags cost keyId with
    | error full => rw [if_neg (herror.1 ⟨full, hadd⟩)]
    | ok added =>
      have hroom : name ∈ names t.routes ∨ (names t.routes).card < t.capacity := by
        by_contra hfull
        obtain ⟨full, hrefused⟩ := herror.2 hfull
        cases hadd.symm.trans hrefused
      rw [if_pos hroom]
      exact h.routes_add hadd
  | remove name face keyId => exact h.routes_remove
  | forget face => exact routes_forget
  | count name face frameClass => exact routes_count

theorem capacity_apply (op : Operation) : (t.apply op).capacity = t.capacity := by
  cases op with
  | add name face flags cost keyId =>
    simp only [apply, add]
    cases t.find? name with
    | none => by_cases hfull : t.capacity ≤ t.size <;> simp [hfull]
    | some e => rfl
  | remove name face keyId =>
    rw [apply]
    rcases t.remove_cases name face keyId with ⟨hsame, -⟩ | ⟨e, -, ⟨-, hlast⟩ | ⟨-, hrest⟩⟩
    · rw [hsame]
    · rw [hlast]
    · rw [hrest]
      rfl
  | forget face => rfl
  | count name face frameClass => rfl

theorem Sound.routes_operate (h : t.Sound) (ops : List Operation) :
    (t.operate ops).routes = ops.foldl (replay t.capacity) t.routes := by
  induction ops generalizing t with
  | nil => rfl
  | cons op ops ih =>
    have hrest := ih (h.apply op)
    rw [capacity_apply, h.routes_apply] at hrest
    exact hrest

theorem routes_operate_empty (capacity : Nat) (ops : List Operation) :
    ((empty capacity).operate ops).routes = recorded capacity ops :=
  (Sound.empty capacity).routes_operate ops

/-! ## The longest match -/

theorem probe_eq_none {length : Nat} (h : t.probe name length = none) :
    ∀ shorter ≤ length, t.find? (name.take shorter) = none := by
  induction length with
  | zero =>
    intro shorter hle
    rw [Nat.le_zero.1 hle]
    exact h
  | succ length ih =>
    unfold probe at h
    split at h
    · cases h
    · rename_i hnone
      intro shorter hle
      rcases Nat.lt_or_eq_of_le hle with hlt | rfl
      · exact ih h shorter (Nat.le_of_lt_succ hlt)
      · exact hnone

namespace Sound

variable (h : t.Sound)
include h

theorem longestMatch_eq_none (hnone : t.longestMatch name = none) :
    ∀ d ∈ t.entries, ¬ d.name.isPrefixOf name := by
  intro d hd hprefix
  have hbegins := Name.isPrefixOf_iff.1 hprefix
  have hreached : d.name.size ≤ min name.size t.longest :=
    Nat.le_min.2 ⟨Name.size_le_of_isPrefixOf hprefix, h.size_le_longest hd⟩
  have hfind := probe_eq_none hnone d.name.size hreached
  rw [hbegins] at hfind
  exact find?_eq_none_iff.1 hfind d hd rfl

theorem eq_of_isPrefixOf {d : RouteEntry} (hd : d ∈ t.entries) (he : e ∈ t.entries)
    (hdname : d.name.isPrefixOf name) (hename : e.name.isPrefixOf name)
    (hsize : d.name.size = e.name.size) : d = e := by
  apply List.inj_on_of_nodup_map h.names_nodup hd he
  rw [← Name.isPrefixOf_iff.1 hdname, ← Name.isPrefixOf_iff.1 hename, hsize]

theorem longestMatch_eq_some_iff :
    t.longestMatch name = some e ↔ e ∈ t.entries ∧ e.name.isPrefixOf name ∧
      ∀ d ∈ t.entries, d.name.isPrefixOf name → d.name.size ≤ e.name.size := by
  refine ⟨longestMatch_eq_some h, ?_⟩
  rintro ⟨he, hprefix, hlongest⟩
  cases hmatch : t.longestMatch name with
  | none => exact absurd hprefix (h.longestMatch_eq_none hmatch e he)
  | some d =>
    obtain ⟨hd, hdprefix, hdlongest⟩ := longestMatch_eq_some h hmatch
    have hsize := Nat.le_antisymm (hlongest d hd hdprefix) (hdlongest e he hprefix)
    rw [h.eq_of_isPrefixOf hd he hdprefix hprefix hsize]

end Sound

/-- An entry by which a name is to be routed, when these are the routes. -/
structure Answers (routes : Finset Route) (name : Name) (e : RouteEntry) : Prop where
  begins : e.name.isPrefixOf name
  hops_ne_nil : e.hops ≠ []
  mem_places : ∀ place, place ∈ e.places ↔ (e.name, place) ∈ routes
  longest : ∀ n ∈ names routes, n.isPrefixOf name → n.size ≤ e.name.size

/-- After any history, a name is routed by the longest of the names that have a route and begin it,
through the routes that this name has, and not at all when there is no such name. -/
theorem longestMatch_after (capacity : Nat) (ops : List Operation) (name : Name) :
    let t := (empty capacity).operate ops
    let routes := recorded capacity ops
    (∀ e, t.longestMatch name = some e ↔ t.find? e.name = some e ∧ Answers routes name e) ∧
      (t.longestMatch name = none ↔ ∀ n ∈ names routes, ¬ n.isPrefixOf name) ∧
      ∀ n, n ∈ names routes ↔ ∃ e, t.find? n = some e := by
  intro t routes
  have hsound : t.Sound := (Sound.empty capacity).operate ops
  have hroutes : t.routes = routes := routes_operate_empty capacity ops
  have hnames : ∀ n, n ∈ names routes ↔ ∃ e, t.find? n = some e := by
    intro n
    rw [← hroutes, ← Option.ne_none_iff_exists', Ne, hsound.find?_eq_none_iff_names, not_not]
  refine ⟨?_, ?_, hnames⟩
  · intro e
    rw [hsound.longestMatch_eq_some_iff]
    constructor
    · rintro ⟨he, hprefix, hlongest⟩
      have hfind : t.find? e.name = some e := hsound.find?_eq_some_iff.2 ⟨he, rfl⟩
      refine ⟨hfind, hprefix, (hsound.entries e he).hops_ne_nil, ?_, ?_⟩
      · intro place
        have hmem : (e.name, place) ∈ t.routes ↔ place ∈ e.places :=
          hsound.mem_routes_of_find? hfind rfl
        rw [← hroutes]
        exact hmem.symm
      · intro n hn hnprefix
        obtain ⟨d, hd⟩ := (hnames n).1 hn
        obtain rfl := name_of_find? hd
        exact hlongest d (mem_of_find? hd) hnprefix
    · rintro ⟨hfind, hanswers⟩
      refine ⟨mem_of_find? hfind, hanswers.begins, ?_⟩
      intro d hd
      exact hanswers.longest d.name ((hnames d.name).2 ⟨d, hsound.find?_eq_some_iff.2 ⟨hd, rfl⟩⟩)
  · constructor
    · intro hnone n hn
      obtain ⟨d, hd⟩ := (hnames n).1 hn
      obtain rfl := name_of_find? hd
      exact hsound.longestMatch_eq_none hnone d (mem_of_find? hd)
    · intro hnone
      by_contra hsome
      obtain ⟨e, he⟩ := Option.ne_none_iff_exists'.1 hsome
      obtain ⟨hmem, hprefix, -⟩ := longestMatch_eq_some hsound he
      exact hnone e.name ((hnames e.name).2 ⟨e, hsound.find?_eq_some_iff.2 ⟨hmem, rfl⟩⟩) hprefix

end RouteTable
end NamedData
