import NamedData.Proofs.Route.History
import NamedData.Proofs.Route.Hopwise

/-!
# The next hop of one route

A route that a table has is that of one next hop. To change this next hop is to change the entry of
its name alone, and there only where the place is that of the route.
-/

namespace NamedData

theorem RouteEntry.updateFirst_eq_map {f : NextHop → NextHop} {face : FaceId}
    {keyId : Option Digest} {hops : List NextHop} (h : (hops.map (·.place)).Nodup) :
    updateFirst (·.isVia face keyId) f hops =
      hops.map fun h => if h.place = (face, keyId) then f h else h := by
  induction hops with
  | nil => rfl
  | cons first rest ih =>
    obtain ⟨hother, hrest⟩ := List.nodup_cons.1 h
    rw [updateFirst, List.map_cons]
    by_cases hfirst : first.place = (face, keyId)
    · have hsame : ∀ h ∈ rest, (if h.place = (face, keyId) then f h else h) = h := by
        intro h hh
        exact if_neg fun hplace => hother (List.mem_map.2 ⟨h, hh, hplace.trans hfirst.symm⟩)
      rw [if_pos (NextHop.isVia_iff.2 hfirst), if_pos hfirst, List.map_congr_left hsame,
        List.map_id']
    · rw [if_neg (mt NextHop.isVia_iff.1 hfirst), if_neg hfirst, ih hrest]

namespace RouteTable

variable {t : RouteTable} {name : Name} {face : FaceId} {keyId : Option Digest} {e : RouteEntry}
  {route : Route} {f g : NextHop → NextHop}

theorem find?_concat (hnew : t.find? name = none) {hops : List NextHop} {longest : Nat} :
    RouteTable.find? { t with entries := t.entries ++ [⟨name, hops⟩], longest } name =
      some ⟨name, hops⟩ := by
  have hnone : t.entries.find? (·.name = name) = none := hnew
  rw [find?, List.find?_append, hnone]
  simp

theorem find?_update_concat (hfind : t.find? name = some e) (hop : NextHop) :
    (t.update name fun d => { d with hops := d.hops ++ [hop] }).find? name =
      some { e with hops := e.hops ++ [hop] } := by
  rw [find?_update (by exact fun _ => rfl), hfind]
  rfl

theorem update_id : t.update name id = t := by
  simp [update]

theorem update_update {f g : RouteEntry → RouteEntry} (hf : ∀ e, (f e).name = e.name) :
    (t.update name f).update name g = t.update name fun e => g (f e) := by
  simp only [update, List.map_map]
  congr 1
  apply List.map_congr_left
  intro e _
  by_cases hname : e.name = name <;> simp [hname, hf]

/-- What a change does to the entry of a name is all that it does. -/
theorem Sound.update_congr (h : t.Sound) {f g : RouteEntry → RouteEntry}
    (hfg : ∀ e, t.find? name = some e → f e = g e) : t.update name f = t.update name g := by
  unfold RouteTable.update
  congr 1
  apply List.map_congr_left
  intro e he
  split
  · rename_i hname
    exact hfg e (h.find?_eq_some_iff.2 ⟨he, hname⟩)
  · rfl

theorem Sound.update_congr_of_find? (h : t.Sound) {f g : RouteEntry → RouteEntry}
    (hfind : t.find? name = some e) (hfg : f e = g e) : t.update name f = t.update name g := by
  apply h.update_congr
  intro d hd
  rw [hfind] at hd
  rw [← Option.some.inj hd, hfg]

theorem Sound.any_isVia_iff (h : t.Sound) (hfind : t.find? name = some e) :
    e.hops.any (·.isVia face keyId) ↔ (name, face, keyId) ∈ t.routes := by
  rw [h.mem_routes_of_find? hfind rfl, RouteEntry.places, List.mem_map, List.any_eq_true]
  simp only [NextHop.isVia_iff]

def hopsVia (t : RouteTable) (route : Route) : List NextHop :=
  match t.find? route.1 with
  | none => []
  | some e => e.hops.filter (·.place = route.2)

theorem hopsVia_of_find? (hfind : t.find? route.1 = some e) :
    t.hopsVia route = e.hops.filter (·.place = route.2) := by
  rw [hopsVia, hfind]

theorem Sound.hopsVia_eq_singleton (h : t.Sound) (hroute : route ∈ t.routes) :
    ∃ hop, t.hopsVia route = [hop] := by
  obtain ⟨e, he, hname, hplace⟩ := mem_routes.1 hroute
  have hcount : e.places.count route.2 = 1 :=
    List.count_eq_one_of_mem (h.entries e he).places_nodup hplace
  have hplaces : e.places.filter (· = route.2) = [route.2] := by
    rw [List.filter_eq, hcount, List.replicate_one]
  rw [RouteEntry.places, List.filter_map] at hplaces
  obtain ⟨hop, hhop, -⟩ := List.map_eq_singleton_iff.1 hplaces
  exact ⟨hop, (hopsVia_of_find? (h.find?_eq_some_iff.2 ⟨he, hname⟩)).trans hhop⟩

theorem Sound.hopsVia_eq_nil (h : t.Sound) (hroute : route ∉ t.routes) : t.hopsVia route = [] := by
  cases hfind : t.find? route.1 with
  | none => rw [hopsVia, hfind]
  | some e =>
    rw [hopsVia_of_find? hfind, List.filter_eq_nil_iff]
    intro hop hhop hplace
    rw [h.mem_routes_of_find? hfind rfl] at hroute
    exact hroute (List.mem_map.2 ⟨hop, hhop, of_decide_eq_true hplace⟩)

/-- The next hop that a table has for a route, or a blank one. -/
def hopFor (t : RouteTable) (route : Route) : NextHop :=
  (t.hopsVia route).head?.getD
    { face := route.2.1, flags := ⟨0⟩, cost := 0, keyId := route.2.2 }

/-- Changes a next hop of a name if it is that of one route. -/
def changeAt (route : Route) (f : NextHop → NextHop) (n : Name) (h : NextHop) : NextHop :=
  if (n, h.place) = route then f h else h

theorem changeAt_of_ne {n : Name} {h : NextHop} (hother : (n, h.place) ≠ route) :
    changeAt route f n h = h := if_neg hother

def mapRoute (t : RouteTable) (route : Route) (f : NextHop → NextHop) : RouteTable :=
  t.mapHops (changeAt route f)

theorem mapRoute_eq_update :
    t.mapRoute route f = t.update route.1 (·.mapHops (changeAt route f route.1)) := by
  simp only [mapRoute, mapHops, update]
  congr 1
  apply List.map_congr_left
  intro e _
  by_cases hname : e.name = route.1
  · rw [if_pos hname, hname]
  · have hsame : changeAt route f e.name = id := by
      funext h
      exact changeAt_of_ne fun hroute => hname (congrArg Prod.fst hroute)
    rw [if_neg hname, hsame, RouteEntry.mapHops, List.map_id]

theorem mapRoute_id : t.mapRoute route id = t := by
  have hsame : changeAt route id = fun _ h => h := by
    funext n h
    exact ite_self h
  simp [mapRoute, mapHops, RouteEntry.mapHops, hsame]

theorem Sound.mapRoute_congr (h : t.Sound) (hfg : ∀ hop ∈ t.hopsVia route, f hop = g hop) :
    t.mapRoute route f = t.mapRoute route g := by
  rw [mapRoute_eq_update, mapRoute_eq_update]
  apply h.update_congr
  intro e hfind
  rw [hopsVia_of_find? hfind] at hfg
  have hhops : e.hops.map (changeAt route f route.1) = e.hops.map (changeAt route g route.1) := by
    apply List.map_congr_left
    intro hop hhop
    unfold changeAt
    split
    · rename_i hroute
      exact hfg hop (List.mem_filter.2 ⟨hhop, decide_eq_true (congrArg Prod.snd hroute)⟩)
    · rfl
  rw [RouteEntry.mapHops, hhops, RouteEntry.mapHops]

section Change

variable (hplace : ∀ h, (f h).place = h.place)
include hplace

theorem place_changeAt (n : Name) (h : NextHop) : (changeAt route f n h).place = h.place := by
  unfold changeAt
  split
  · exact hplace h
  · rfl

theorem mapRoute_mapRoute :
    (t.mapRoute route f).mapRoute route g = t.mapRoute route fun h => g (f h) := by
  rw [mapRoute, mapRoute, mapHops_mapHops, mapRoute]
  congr 1
  funext n h
  by_cases hroute : (n, h.place) = route <;> simp [changeAt, hroute, hplace]

theorem hopsVia_mapRoute : (t.mapRoute route f).hopsVia route = (t.hopsVia route).map f := by
  rw [hopsVia, mapRoute, find?_mapHops, hopsVia]
  cases t.find? route.1 with
  | none => rfl
  | some e =>
    simp only [Option.map_some, RouteEntry.mapHops, List.filter_map, Function.comp_def,
      place_changeAt hplace]
    apply List.map_congr_left
    intro h hh
    have hroute : (route.1, h.place) = route :=
      Prod.ext rfl (of_decide_eq_true (List.mem_filter.1 hh).2)
    exact if_pos hroute

end Change

end RouteTable
end NamedData
