import NamedData.Proofs.Route.Hopwise
import NamedData.Proofs.Route.Selection

/-!
# Counters of next hops

What has been sent through a next hop is counted, and the counts are shown to operators. They decide
nothing: a table gives and becomes the same, but for the counts, as it would without them. Setting
all counters to zero is a change of next hops where they are, and goes through the operations as
such.
-/

namespace NamedData

def NextHop.uncounted (h : NextHop) : NextHop := { h with sentInterests := 0, sentObjects := 0 }

def RouteEntry.uncounted (e : RouteEntry) : RouteEntry :=
  { e with hops := e.hops.map (·.uncounted) }

def RouteTable.uncounted (t : RouteTable) : RouteTable :=
  { t with entries := t.entries.map (·.uncounted) }

namespace Strategy

variable {faces : FaceView} {incoming : FaceId} {e : RouteEntry}

theorem usable_uncounted :
    usable faces incoming e.uncounted = (usable faces incoming e).map (·.uncounted) := by
  rw [usable, RouteEntry.uncounted, List.filter_map]
  rfl

theorem cheaper_uncounted (best : Option NextHop) (h : NextHop) :
    cheaper (best.map (·.uncounted)) h.uncounted = (cheaper best h).map (·.uncounted) := by
  cases best with
  | none => rfl
  | some b =>
    by_cases hcost : b.cost ≤ h.cost <;> simp [cheaper, NextHop.uncounted, hcost]

theorem chooseBest_uncounted :
    chooseBest faces incoming e.uncounted = chooseBest faces incoming e := by
  simp only [chooseBest, usable_uncounted, List.find?_map, List.head?_map]
  cases faces.transport incoming with
  | none => simp [Function.comp_def, NextHop.uncounted]
  | some transport =>
    simp only [Option.bind_some, ← Option.map_or, Option.map_map]
    rfl

theorem foldl_cheaper_uncounted (hops : List NextHop) (best : Option NextHop) :
    (hops.map (·.uncounted)).foldl cheaper (best.map (·.uncounted)) =
      (hops.foldl cheaper best).map (·.uncounted) := by
  induction hops generalizing best with
  | nil => rfl
  | cons h hs ih => rw [List.map_cons, List.foldl_cons, cheaper_uncounted, ih, List.foldl_cons]

theorem chooseCheapest_uncounted :
    chooseCheapest faces incoming e.uncounted = chooseCheapest faces incoming e := by
  have hfold := foldl_cheaper_uncounted (usable faces incoming e) none
  rw [Option.map_none] at hfold
  simp only [chooseCheapest, usable_uncounted, hfold, Option.map_map]
  rfl

theorem forInterest_uncounted (s : Strategy) :
    s.forInterest faces incoming e.uncounted = s.forInterest faces incoming e := by
  cases s with
  | bestRoute => exact chooseBest_uncounted
  | flooding =>
    simp only [forInterest, chooseAll, usable_uncounted, List.foldl_map]
    rfl
  | lowestCost => exact chooseCheapest_uncounted

end Strategy

namespace RouteTable

variable {t : RouteTable} {name : Name} {face : FaceId} {keyId : Option Digest}

theorem uncounted_count (frameClass : FrameClass) :
    (t.count name face frameClass).uncounted = t.uncounted := by
  have hcount : ∀ h : NextHop, (h.count frameClass).uncounted = h.uncounted := by
    intro h
    cases frameClass <;> rfl
  simp only [uncounted, count, update, List.map_map]
  congr 1
  apply List.map_congr_left
  intro e _
  by_cases hname : e.name = name
  · simp [hname, RouteEntry.uncounted, RouteEntry.count, RouteEntry.map_updateFirst hcount]
  · simp [hname]

theorem uncounted_countAll (faces : List FaceId) (frameClass : FrameClass) :
    (t.countAll name faces frameClass).uncounted = t.uncounted :=
  faces.foldlRecOn _ (motive := fun u : RouteTable => u.uncounted = t.uncounted) rfl
    fun _ hu _ _ => (uncounted_count frameClass).trans hu

theorem find?_uncounted : t.uncounted.find? name = (t.find? name).map (·.uncounted) :=
  find?_mapHops (f := fun _ => (·.uncounted))

theorem longestMatch_uncounted :
    t.uncounted.longestMatch name = (t.longestMatch name).map (·.uncounted) := by
  have hprobe : ∀ length,
      t.uncounted.probe name length = (t.probe name length).map (·.uncounted) := by
    intro length
    induction length with
    | zero => exact find?_uncounted
    | succ length ih =>
      rw [probe, probe, find?_uncounted]
      cases t.find? (name.take (length + 1)) with
      | none => exact ih
      | some e => rfl
  exact hprobe _

theorem uses_uncounted : t.uncounted.uses face = t.uses face :=
  uses_mapHops (f := fun _ => (·.uncounted)) fun _ _ => rfl

theorem add_uncounted (flags : RouteFlags) (cost : UInt16) :
    t.uncounted.add name face flags cost keyId =
      (t.add name face flags cost keyId).map fun added => (added.1.uncounted, added.2) :=
  add_mapHops (f := fun _ => (·.uncounted)) (fun _ _ => rfl) rfl fun _ _ => rfl

theorem remove_uncounted :
    t.uncounted.remove name face keyId =
      ((t.remove name face keyId).1.uncounted, (t.remove name face keyId).2) :=
  remove_mapHops (f := fun _ => (·.uncounted)) fun _ _ => rfl

theorem forget_uncounted (face : FaceId) :
    t.uncounted.forget face = ((t.forget face).1.uncounted, (t.forget face).2) :=
  forget_mapHops (f := fun _ => (·.uncounted)) fun _ _ => rfl

end RouteTable
end NamedData
