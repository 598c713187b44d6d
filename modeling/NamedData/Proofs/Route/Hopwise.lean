import NamedData.Proofs.Route.Invariant

/-!
# Next hops that are changed where they are

A change of next hops that keeps their faces and their keys goes through every operation on a table.
The operation finds the same next hops, answers the same and leaves the same table, changed in the
same way.
-/

namespace NamedData

namespace RouteEntry

def mapHops (f : NextHop → NextHop) (e : RouteEntry) : RouteEntry := { e with hops := e.hops.map f }

theorem map_updateFirst_comm {p : NextHop → Bool} {f g : NextHop → NextHop}
    (hp : ∀ h, p (f h) = p h) (hg : ∀ h, p h → f (g h) = g (f h)) (hops : List NextHop) :
    (updateFirst p g hops).map f = updateFirst p g (hops.map f) := by
  induction hops with
  | nil => rfl
  | cons h hs ih =>
    simp only [List.map_cons, updateFirst, hp]
    split
    · rename_i hfirst
      rw [List.map_cons, hg h hfirst]
    · rw [List.map_cons, ih]

end RouteEntry

namespace RouteTable

/-- Changes every next hop, by the name that it belongs to. -/
def mapHops (f : Name → NextHop → NextHop) (t : RouteTable) : RouteTable :=
  { t with entries := t.entries.map fun e => e.mapHops (f e.name) }

variable {f : Name → NextHop → NextHop} {t : RouteTable} {name : Name} {face : FaceId}
  {keyId : Option Digest}

@[simp] theorem size_mapHops : (t.mapHops f).size = t.size := List.length_map ..

@[simp] theorem capacity_mapHops : (t.mapHops f).capacity = t.capacity := rfl

theorem mapHops_mapHops (g : Name → NextHop → NextHop) :
    (t.mapHops f).mapHops g = t.mapHops fun n h => g n (f n h) := by
  simp only [mapHops, List.map_map]
  congr 1
  apply List.map_congr_left
  intro e _
  simp [RouteEntry.mapHops]

theorem find?_mapHops : (t.mapHops f).find? name = (t.find? name).map (·.mapHops (f name)) := by
  rw [find?, mapHops, List.find?_map]
  change (t.find? name).map _ = _
  apply Option.map_congr
  intro e he
  rw [name_of_find? he]

theorem longestOf_mapHops (entries : List RouteEntry) :
    longestOf (entries.map fun e => e.mapHops (f e.name)) = longestOf entries := by
  apply longestOf_congr
  rw [List.map_map]
  rfl

theorem update_mapHops {g g' : RouteEntry → RouteEntry} (hname : ∀ e, (g e).name = e.name)
    (hg : ∀ e, e.name = name → g' (e.mapHops (f name)) = (g e).mapHops (f name)) :
    (t.mapHops f).update name g' = (t.update name g).mapHops f := by
  simp only [mapHops, update, List.map_map]
  congr 1
  apply List.map_congr_left
  intro e _
  by_cases hat : e.name = name
  · have hmapped : (e.mapHops (f name)).name = name := hat
    simp [hat, hname, hmapped, hg]
  · have hmapped : (e.mapHops (f e.name)).name ≠ name := hat
    simp [hat, hmapped]

section Operations

variable (hplace : ∀ n h, (f n h).place = h.place)
include hplace

theorem isVia_of_place (n : Name) (h : NextHop) :
    (f n h).isVia face keyId = h.isVia face keyId := by
  rw [Bool.eq_iff_iff, NextHop.isVia_iff, NextHop.isVia_iff, hplace]

theorem addHop_mapHops (n : Name) (e : RouteEntry) {hop : NextHop} (hhop : f n hop = hop)
    (hmerge : ∀ h, h.isVia hop.face hop.keyId →
      f n { h with flags := h.flags.union hop.flags, cost := hop.cost } =
        { f n h with flags := (f n h).flags.union hop.flags, cost := hop.cost }) :
    addHop (e.mapHops (f n)) hop = ((addHop e hop).1.mapHops (f n), (addHop e hop).2) := by
  have hany : (e.mapHops (f n)).hops.any (·.isVia hop.face hop.keyId) =
      e.hops.any (·.isVia hop.face hop.keyId) := by
    simp [RouteEntry.mapHops, Function.comp_def, isVia_of_place hplace]
  unfold addHop
  rw [hany]
  split
  · simp only [RouteEntry.mapHops]
    rw [RouteEntry.map_updateFirst_comm (fun h => isVia_of_place hplace n h) hmerge]
  · simp [RouteEntry.mapHops, hhop]

theorem add_mapHops {flags : RouteFlags} {cost : UInt16}
    (hhop : f name { face, flags, cost, keyId } = { face, flags, cost, keyId })
    (hmerge : ∀ h, h.isVia face keyId → f name { h with flags := h.flags.union flags, cost } =
      { f name h with flags := (f name h).flags.union flags, cost }) :
    (t.mapHops f).add name face flags cost keyId =
      (t.add name face flags cost keyId).map fun added => (added.1.mapHops f, added.2) := by
  unfold add
  rw [find?_mapHops]
  cases hfind : t.find? name with
  | none =>
    simp only [Option.map_none, size_mapHops, capacity_mapHops]
    by_cases hfull : t.capacity ≤ t.size
    · simp [hfull, Except.map]
    · simp [hfull, Except.map, mapHops, RouteEntry.mapHops, hhop]
  | some e =>
    have hentry : ∀ d : RouteEntry, addHop (d.mapHops (f name)) { face, flags, cost, keyId } =
        ((addHop d { face, flags, cost, keyId }).1.mapHops (f name),
          (addHop d { face, flags, cost, keyId }).2) :=
      fun d => addHop_mapHops hplace name d hhop hmerge
    have hupdate : (t.mapHops f).update name (fun d => (addHop d { face, flags, cost, keyId }).1) =
        (t.update name fun d => (addHop d { face, flags, cost, keyId }).1).mapHops f :=
      update_mapHops (fun d => d.name_addHop _) fun d _ => congrArg Prod.fst (hentry d)
    simp only [Option.map_some, Except.map, hupdate, hentry]
    rfl

theorem remove_mapHops : (t.mapHops f).remove name face keyId =
    ((t.remove name face keyId).1.mapHops f, (t.remove name face keyId).2) := by
  unfold remove
  rw [find?_mapHops]
  cases t.find? name with
  | none => rfl
  | some e =>
    have hkept : (e.mapHops (f name)).hops.filter (!·.isVia face keyId) =
        (e.hops.filter (!·.isVia face keyId)).map (f name) := by
      simp [RouteEntry.mapHops, List.filter_map, Function.comp_def, isVia_of_place hplace]
    have hlength : (e.mapHops (f name)).hops.length = e.hops.length := List.length_map ..
    have hentries : (t.mapHops f).entries.filter (·.name ≠ name) =
        (t.entries.filter (·.name ≠ name)).map fun e => e.mapHops (f e.name) := by
      rw [mapHops, List.filter_map]
      rfl
    simp only [Option.map_some, hkept, List.length_map, hlength, List.isEmpty_map]
    split
    · rfl
    · split
      · rw [hentries, longestOf_mapHops]
        rfl
      · rw [update_mapHops]
        · exact fun _ => rfl
        · exact fun _ _ => rfl

theorem forget_mapHops :
    (t.mapHops f).forget face = ((t.forget face).1.mapHops f, (t.forget face).2) := by
  let without := t.entries.map fun e => { e with hops := e.hops.filter (·.face ≠ face) }
  have hface : ∀ n h, (f n h).face = h.face := fun n h => congrArg Prod.fst (hplace n h)
  have hwithout : ((t.mapHops f).entries.map fun e =>
      { e with hops := e.hops.filter (·.face ≠ face) }) =
        without.map fun e => e.mapHops (f e.name) := by
    simp only [mapHops, without, List.map_map]
    apply List.map_congr_left
    intro e _
    simp [RouteEntry.mapHops, List.filter_map, Function.comp_def, hface]
  have hkept : (without.map fun e => e.mapHops (f e.name)).filter (!·.hops.isEmpty) =
      (without.filter (!·.hops.isEmpty)).map fun e => e.mapHops (f e.name) := by
    simp [List.filter_map, Function.comp_def, RouteEntry.mapHops]
  have hlength : (t.mapHops f).entries.length = t.entries.length := List.length_map ..
  unfold forget
  rw [hwithout]
  simp only [hkept, longestOf_mapHops, hlength, List.length_map]
  rfl

theorem count_mapHops {frameClass : FrameClass}
    (hcount : ∀ h, f name (h.count frameClass) = (f name h).count frameClass) :
    (t.mapHops f).count name face frameClass = (t.count name face frameClass).mapHops f := by
  apply update_mapHops
  · exact fun _ => rfl
  · intro e _
    have hface : ∀ h, ((f name h).face = face) = (h.face = face) :=
      fun h => congrArg (·.1 = face) (hplace name h)
    have hhops := RouteEntry.map_updateFirst_comm (p := (·.face = face))
      (g := (·.count frameClass)) (fun h => by simp only [hface]) (fun h _ => hcount h) e.hops
    simp only [RouteEntry.count, RouteEntry.mapHops, hhops]

theorem uses_mapHops : (t.mapHops f).uses face = t.uses face := by
  have hface : ∀ n h, (f n h).face = h.face := fun n h => congrArg Prod.fst (hplace n h)
  simp [uses, mapHops, RouteEntry.uses, RouteEntry.mapHops, Function.comp_def, hface]

end Operations

end RouteTable
end NamedData
