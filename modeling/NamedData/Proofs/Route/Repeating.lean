import NamedData.Proofs.Route.Single

/-!
# Adding a route once, and again

A route that is new to a table is taken out again by its removal, which leaves the table as it was,
whatever has been done to it before. A route that is there already gets the new flags as well and
the new cost, and nothing else changes. The change is one of a next hop where it is, so that it goes
through all that is done to the table meanwhile: to add a route many times is to add it once and to
put all the flags and the last cost on its next hop at the end.
-/

namespace NamedData

namespace NextHop

/-- Puts flags and a cost on a next hop, as it is added again. -/
def merge (h : NextHop) (asked : RouteFlags × UInt16) : NextHop :=
  { h with flags := h.flags.union asked.1, cost := asked.2 }

theorem foldl_merge (asked : List (RouteFlags × UInt16)) (h : NextHop) :
    asked.foldl merge h =
      { h with
        flags := (asked.map (·.1)).foldl .union h.flags
        cost := (asked.map (·.2)).getLast?.getD h.cost } := by
  induction asked generalizing h with
  | nil => rfl
  | cons first rest ih =>
    rw [List.foldl_cons, ih]
    simp [merge, List.getLast?_cons]

theorem foldl_merge_cons (first : RouteFlags × UInt16) (rest : List (RouteFlags × UInt16))
    (h : NextHop) :
    rest.foldl merge (h.merge first) =
      { h with
        flags := ((first :: rest).map (·.1)).foldl .union h.flags
        cost := ((first :: rest).getLast (List.cons_ne_nil _ _)).2 } := by
  have hlast : ((first :: rest).map (·.2)).getLast? =
      some ((first :: rest).getLast (List.cons_ne_nil _ _)).2 := by
    rw [List.getLast?_map, List.getLast?_eq_some_getLast (List.cons_ne_nil _ _)]
    rfl
  rw [← List.foldl_cons, foldl_merge, hlast]
  rfl

theorem place_foldl_merge (asked : List (RouteFlags × UInt16)) (h : NextHop) :
    (asked.foldl merge h).place = h.place := by
  rw [foldl_merge]
  rfl

theorem foldl_merge_count (asked : List (RouteFlags × UInt16)) (frameClass : FrameClass)
    (h : NextHop) :
    asked.foldl merge (h.count frameClass) = (asked.foldl merge h).count frameClass := by
  rw [foldl_merge, foldl_merge]
  cases frameClass <;> rfl

end NextHop

namespace RouteTable

variable {t u : RouteTable} {name : Name} {face : FaceId} {flags : RouteFlags} {cost : UInt16}
  {keyId : Option Digest} {e : RouteEntry} {route : Route} {f : NextHop → NextHop}

namespace Operation

/-- The flags and the cost that are asked of a route, when it is added. -/
def asked? (route : Route) : Operation → Option (RouteFlags × UInt16)
  | .add name face flags cost keyId =>
    if (name, face, keyId) = route then some (flags, cost) else none
  | _ => none

def Removes (route : Route) : Operation → Prop
  | .remove name face keyId => (name, face, keyId) = route
  | .forget face => route.2.1 = face
  | _ => False

end Operation

theorem apply_mapRoute (hplace : ∀ h, (f h).place = h.place)
    (hcount : ∀ frameClass h, f (h.count frameClass) = (f h).count frameClass) {op : Operation}
    (hop : op.asked? route = none) :
    (t.mapRoute route f).apply op = (t.apply op).mapRoute route f := by
  have hplaces : ∀ n h, (changeAt route f n h).place = h.place := place_changeAt hplace
  cases op with
  | add name face flags cost keyId =>
    have hother : (name, face, keyId) ≠ route := by
      intro hroute
      simp [Operation.asked?, hroute] at hop
    have hadd : (t.mapRoute route f).add name face flags cost keyId =
        (t.add name face flags cost keyId).map
          fun added => (added.1.mapRoute route f, added.2) := by
      apply add_mapHops hplaces
      · exact changeAt_of_ne hother
      · intro h hvia
        have hne : (name, h.place) ≠ route := by rwa [NextHop.isVia_iff.1 hvia]
        rw [changeAt_of_ne hne]
        exact changeAt_of_ne hne
    simp only [apply, hadd]
    cases t.add name face flags cost keyId <;> rfl
  | remove name face keyId => exact congrArg Prod.fst (remove_mapHops hplaces)
  | forget face => exact congrArg Prod.fst (forget_mapHops hplaces)
  | count name face frameClass =>
    apply count_mapHops hplaces
    intro h
    have hcounted : (h.count frameClass).place = h.place := by cases frameClass <;> rfl
    unfold changeAt
    rw [hcounted, hcount]
    split <;> rfl

theorem operate_mapRoute (hplace : ∀ h, (f h).place = h.place)
    (hcount : ∀ frameClass h, f (h.count frameClass) = (f h).count frameClass)
    {ops : List Operation} (hops : ∀ op ∈ ops, op.asked? route = none) :
    (t.mapRoute route f).operate ops = (t.operate ops).mapRoute route f := by
  induction ops generalizing t with
  | nil => rfl
  | cons op ops ih =>
    obtain ⟨hop, hrest⟩ := List.forall_mem_cons.1 hops
    have hnext := ih hrest (t := t.apply op)
    rw [← apply_mapRoute hplace hcount hop] at hnext
    exact hnext

namespace Sound

variable (h : t.Sound)
include h

theorem mem_routes_apply {op : Operation} (hroute : route ∈ t.routes) (hop : ¬ op.Removes route) :
    route ∈ (t.apply op).routes := by
  rw [h.routes_apply]
  cases op with
  | add name face flags cost keyId =>
    simp only [replay]
    split
    · exact Finset.mem_insert_of_mem hroute
    · exact hroute
  | remove name face keyId => exact Finset.mem_erase.2 ⟨Ne.symm hop, hroute⟩
  | forget face => exact Finset.mem_filter.2 ⟨hroute, hop⟩
  | count name face frameClass => exact hroute

theorem add_of_mem (hroute : (name, face, keyId) ∈ t.routes) :
    t.add name face flags cost keyId =
      .ok (t.mapRoute (name, face, keyId) (·.merge (flags, cost)), .updated) := by
  obtain ⟨e, he, rfl, -⟩ := mem_routes.1 hroute
  have hfind : t.find? e.name = some e := h.find?_eq_some_iff.2 ⟨he, rfl⟩
  have hentry : addHop e { face, flags, cost, keyId } =
      (e.mapHops (changeAt (e.name, face, keyId) (·.merge (flags, cost)) e.name), .updated) := by
    have hchange : changeAt (e.name, face, keyId) (·.merge (flags, cost)) e.name =
        fun h => if h.place = (face, keyId) then h.merge (flags, cost) else h := by
      funext hop
      simp [changeAt]
    rw [hchange, RouteEntry.mapHops,
      ← RouteEntry.updateFirst_eq_map (h.entries e he).places_nodup]
    exact if_pos ((h.any_isVia_iff hfind).2 hroute)
  have hupdate : t.update e.name (fun d => (addHop d { face, flags, cost, keyId }).1) =
      t.mapRoute (e.name, face, keyId) (·.merge (flags, cost)) := by
    rw [mapRoute_eq_update]
    exact h.update_congr_of_find? hfind (congrArg Prod.fst hentry)
  simp only [RouteTable.add, hfind, h.max_longest hfind, hentry, hupdate]
  rfl

/-- The three outcomes of an addition: the name is new, the route is, or neither. -/
theorem outcome_of_add {change : RouteChange}
    (hadd : t.add name face flags cost keyId = .ok (u, change)) :
    (t.find? name = none ∧ change = .added ∧
      u = { t with
        entries := t.entries ++ [⟨name, [{ face, flags, cost, keyId }]⟩]
        longest := max t.longest name.size }) ∨
    (∃ e, t.find? name = some e ∧ (name, face, keyId) ∉ t.routes ∧ change = .added ∧
      u = t.update name fun d => { d with hops := d.hops ++ [{ face, flags, cost, keyId }] }) ∨
    (name, face, keyId) ∈ t.routes ∧ change = .updated ∧
      u = t.mapRoute (name, face, keyId) (·.merge (flags, cost)) := by
  by_cases hroute : (name, face, keyId) ∈ t.routes
  · rw [h.add_of_mem hroute] at hadd
    obtain ⟨rfl, rfl⟩ := Prod.mk.inj (Except.ok.inj hadd)
    exact .inr (.inr ⟨hroute, rfl, rfl⟩)
  · rcases add_cases hadd with ⟨hnew, -, hchange, hu⟩ | ⟨e, hfind, rfl, rfl⟩
    · exact .inl ⟨hnew, hchange, hu⟩
    · have hentry : addHop e { face, flags, cost, keyId } =
          ({ e with hops := e.hops ++ [{ face, flags, cost, keyId }] }, .added) :=
        if_neg (mt (h.any_isVia_iff hfind).1 hroute)
      refine .inr (.inl ⟨e, hfind, hroute, congrArg Prod.snd hentry, ?_⟩)
      rw [h.max_longest hfind]
      exact h.update_congr_of_find? hfind (congrArg Prod.fst hentry)

theorem hopsVia_of_add {change : RouteChange}
    (hadd : t.add name face flags cost keyId = .ok (u, change)) :
    u.hopsVia (name, face, keyId) = [(t.hopFor (name, face, keyId)).merge (flags, cost)] := by
  let hop : NextHop := { face, flags, cost, keyId }
  have hblank : t.hopsVia (name, face, keyId) = [] →
      (t.hopFor (name, face, keyId)).merge (flags, cost) = hop := by
    intro hnone
    simp [hop, hopFor, hnone, NextHop.merge, RouteFlags.union]
  have hnew : [hop].filter (·.place = (face, keyId)) = [hop] := by
    simp [hop, NextHop.place]
  rcases h.outcome_of_add hadd with ⟨hname, -, rfl⟩ | ⟨e, hfind, hroute, -, rfl⟩ | ⟨hroute, -, rfl⟩
  · have hnone : t.hopsVia (name, face, keyId) = [] := by
      rw [hopsVia, hname]
    rw [hblank hnone, hopsVia_of_find? (find?_concat hname)]
    exact hnew
  · have hnone : t.hopsVia (name, face, keyId) = [] := h.hopsVia_eq_nil hroute
    have hfound := find?_update_concat hfind hop
    have hold : e.hops.filter (·.place = (face, keyId)) = [] := by
      rwa [hopsVia_of_find? hfind] at hnone
    rw [hblank hnone, hopsVia_of_find? hfound, List.filter_append, hold, hnew]
    rfl
  · obtain ⟨hop, hhop⟩ := h.hopsVia_eq_singleton hroute
    rw [hopsVia_mapRoute (by exact fun _ => rfl), hopFor, hhop]
    rfl

theorem remove_of_new (hnew : t.find? name = none) (hop : NextHop) (longest : Nat) :
    RouteTable.remove { t with entries := t.entries ++ [⟨name, [hop]⟩], longest }
      name hop.face hop.keyId = (t, .entryRemoved) := by
  let entry : RouteEntry := ⟨name, [hop]⟩
  have hfind : RouteTable.find? { t with entries := t.entries ++ [entry], longest } name =
      some entry := find?_concat hnew
  have hrest : (t.entries ++ [entry]).filter (·.name ≠ name) = t.entries := by
    have hothers : t.entries.filter (·.name ≠ name) = t.entries :=
      List.filter_eq_self.2 fun e he => decide_eq_true (find?_eq_none_iff.1 hnew e he)
    rw [List.filter_append, hothers]
    simp [entry]
  have hnone : entry.hops.filter (!·.isVia hop.face hop.keyId) = [] := by
    simp [entry, NextHop.isVia]
  change RouteTable.remove { t with entries := t.entries ++ [entry], longest } name _ _ = _
  unfold RouteTable.remove
  simp only [hfind, hnone, hrest]
  rw [← h.longest_eq]
  rfl

theorem remove_of_concat (hfind : t.find? name = some e) (hop : NextHop)
    (hnew : (name, hop.face, hop.keyId) ∉ t.routes) :
    (t.update name fun d => { d with hops := d.hops ++ [hop] }).remove name hop.face hop.keyId =
      (t, .removed) := by
  have hothers : (e.hops ++ [hop]).filter (!·.isVia hop.face hop.keyId) = e.hops := by
    have hkept : e.hops.filter (!·.isVia hop.face hop.keyId) = e.hops := by
      rw [← h.any_isVia_iff hfind] at hnew
      simpa using hnew
    rw [List.filter_append, hkept]
    simp [NextHop.isVia]
  have hlength : e.hops.length ≠ (e.hops ++ [hop]).length := by
    simp
  have hsome : ¬ e.hops.isEmpty := by
    simpa using (h.entries e (mem_of_find? hfind)).hops_ne_nil
  have hback : (t.update name fun d => { d with hops := d.hops ++ [hop] }).update name
      (fun d => { d with hops := e.hops }) = t := by
    rw [update_update (by exact fun _ => rfl)]
    refine (h.update_congr_of_find? hfind ?_).trans update_id
    rfl
  unfold RouteTable.remove
  simp only [find?_update_concat hfind, hothers, if_neg hlength, if_neg hsome, hback]

theorem remove_of_added (hadd : t.add name face flags cost keyId = .ok (u, .added)) :
    u.remove name face keyId =
      (t, if t.find? name = none then .entryRemoved else .removed) := by
  rcases h.outcome_of_add hadd with ⟨hnew, -, rfl⟩ | ⟨e, hfind, hroute, -, rfl⟩ | ⟨-, hchange, -⟩
  · rw [if_pos hnew]
    exact h.remove_of_new hnew { face, flags, cost, keyId } _
  · rw [if_neg (by simp [hfind])]
    exact h.remove_of_concat hfind { face, flags, cost, keyId } hroute
  · cases hchange

theorem mem_routes_operate {ops : List Operation} (hroute : route ∈ t.routes)
    (hops : ∀ op ∈ ops, ¬ op.Removes route) : route ∈ (t.operate ops).routes := by
  induction ops generalizing t with
  | nil => exact hroute
  | cons op ops ih =>
    obtain ⟨hop, hrest⟩ := List.forall_mem_cons.1 hops
    exact ih (h.apply op) (h.mem_routes_apply hroute hop) hrest

theorem apply_of_asked {op : Operation} {asked : RouteFlags × UInt16} (hroute : route ∈ t.routes)
    (hop : op.asked? route = some asked) : t.apply op = t.mapRoute route (·.merge asked) := by
  cases op with
  | add name face flags cost keyId =>
    simp only [Operation.asked?] at hop
    split at hop
    · rename_i hsame
      subst hsame
      obtain rfl := Option.some.inj hop
      rw [RouteTable.apply, h.add_of_mem hroute]
    · cases hop
  | remove name face keyId => cases hop
  | forget face => cases hop
  | count name face frameClass => cases hop

/-- Where a route stays, its additions may as well be put on its next hop at the end. -/
theorem operate_eq_mapRoute {ops : List Operation} (hroute : route ∈ t.routes)
    (hops : ∀ op ∈ ops, ¬ op.Removes route) :
    t.operate ops = (t.operate (ops.filter fun op => (op.asked? route).isNone)).mapRoute route
      ((ops.filterMap (·.asked? route)).foldl .merge) := by
  -- on the last operation: the change goes through it, or it is asked for once more
  induction ops using List.reverseRecOn with
  | nil => exact mapRoute_id.symm
  | append_singleton ops op ih =>
    obtain ⟨hrest, -⟩ := List.forall_mem_append.1 hops
    have hstep : t.operate (ops ++ [op]) = (t.operate ops).apply op := List.foldl_append ..
    cases hop : op.asked? route with
    | none =>
      have hlast : t.operate ((ops ++ [op]).filter fun op => (op.asked? route).isNone) =
          (t.operate (ops.filter fun op => (op.asked? route).isNone)).apply op := by
        simp [RouteTable.operate, hop]
      rw [hstep, ih hrest, hlast, apply_mapRoute _ _ hop]
      · simp [hop]
      · exact NextHop.place_foldl_merge _
      · exact NextHop.foldl_merge_count _
    | some asked =>
      have hthere : route ∈ (t.operate ops).routes := h.mem_routes_operate hroute hrest
      rw [hstep, (h.operate ops).apply_of_asked hthere hop, ih hrest, mapRoute_mapRoute]
      · simp [hop, List.filterMap_append, List.foldl_append]
      · exact NextHop.place_foldl_merge _

theorem flags_and_cost_kept {ops : List Operation} {hop : NextHop} (hroute : route ∈ t.routes)
    (hhop : t.hopsVia route = [hop]) (hkept : ∀ op ∈ ops, ¬ op.Removes route)
    (hother : ∀ op ∈ ops, op.asked? route = none) :
    ∃ sent, (t.operate ops).hopsVia route = [sent] ∧
      { sent with flags := hop.flags, cost := hop.cost } = sent := by
  -- to put the same flags and cost on the next hop, before or after, changes nothing
  let reset (h : NextHop) : NextHop := { h with flags := hop.flags, cost := hop.cost }
  have hbefore : t.mapRoute route reset = t := by
    refine (h.mapRoute_congr ?_).trans mapRoute_id
    rw [hhop]
    exact fun d hd => List.mem_singleton.1 hd ▸ rfl
  have hafter : (t.operate ops).mapRoute route reset = t.operate ops := by
    have hthrough := operate_mapRoute (t := t) (f := reset) (fun _ => rfl)
      (by rintro (_ | _) d <;> rfl) hother
    rw [← hthrough, hbefore]
  obtain ⟨sent, hsent⟩ := (h.operate ops).hopsVia_eq_singleton (h.mem_routes_operate hroute hkept)
  have hsame : [reset sent] = [sent] := by
    rw [← hsent, ← hafter, hopsVia_mapRoute (by exact fun _ => rfl), hsent]
    rfl
  exact ⟨sent, hsent, List.singleton_injective hsame⟩

end Sound

/-- After any history, a route that is new is taken out again by its removal, and the table is then
what it was. A route that is added, whether new or not, has one next hop until it is taken away.
However often it is added again meanwhile, this next hop has all the flags that were asked and the
last cost, and whatever else is in the table is as if it had been added once. -/
theorem restored_and_merged (capacity : Nat) (history : List Operation) (name : Name)
    (face : FaceId) (flags : RouteFlags) (cost : UInt16) (keyId : Option Digest) :
    let t := (empty capacity).operate history
    let route : Route := (name, face, keyId)
    (∀ u, t.add name face flags cost keyId = .ok (u, .added) →
      (u.remove name face keyId).1 = t ∧
        ((u.remove name face keyId).2 = .entryRemoved ↔ t.find? name = none)) ∧
    ∀ u change ops, t.add name face flags cost keyId = .ok (u, change) →
      (∀ op ∈ ops, ¬ op.Removes route) →
      let once := u.operate (ops.filter fun op => (op.asked? route).isNone)
      let asked := (flags, cost) :: ops.filterMap (·.asked? route)
      let allFlags := (asked.map (·.1)).foldl .union (t.hopFor route).flags
      let lastCost := (asked.getLast (List.cons_ne_nil _ _)).2
      u.hopsVia route = [(t.hopFor route).merge (flags, cost)] ∧
        (∃ hop, once.hopsVia route = [hop] ∧
          (u.operate ops).hopsVia route = [{ hop with flags := allFlags, cost := lastCost }]) ∧
        u.operate ops =
          once.mapRoute route fun h => { h with flags := allFlags, cost := lastCost } := by
  intro t route
  have hsound : t.Sound := (Sound.empty capacity).operate history
  constructor
  · intro u hadd
    rw [hsound.remove_of_added hadd]
    by_cases hnew : t.find? name = none <;> simp [hnew]
  · intro u change ops hadd hkept once asked allFlags lastCost
    have husound : u.Sound := hsound.add hadd
    have hroute : route ∈ u.routes := by
      rw [hsound.routes_add hadd]
      exact Finset.mem_insert_self ..
    have hfirst := hsound.hopsVia_of_add hadd
    have hothers : ∀ op ∈ ops.filter fun op => (op.asked? route).isNone,
        ¬ op.Removes route ∧ op.asked? route = none := by
      intro op hop
      obtain ⟨hmem, hnone⟩ := List.mem_filter.1 hop
      exact ⟨hkept op hmem, Option.isNone_iff_eq_none.1 hnone⟩
    obtain ⟨hop, hhop, hreset⟩ := husound.flags_and_cost_kept hroute hfirst
      (fun op hop => (hothers op hop).1) fun op hop => (hothers op hop).2
    have hasked : (ops.filterMap (·.asked? route)).foldl .merge hop =
        { hop with flags := allFlags, cost := lastCost } := by
      have hmerged : NextHop.merge { hop with flags := (t.hopFor route).flags } (flags, cost) =
          hop := hreset
      have hall := NextHop.foldl_merge_cons (flags, cost) (ops.filterMap (·.asked? route))
        { hop with flags := (t.hopFor route).flags }
      rw [hmerged] at hall
      exact hall
    have hafter : u.operate ops =
        once.mapRoute route fun h => { h with flags := allFlags, cost := lastCost } := by
      rw [husound.operate_eq_mapRoute hroute hkept]
      apply (husound.operate _).mapRoute_congr
      rw [hhop]
      intro d hd
      rw [List.mem_singleton.1 hd, hasked]
    refine ⟨hfirst, ⟨hop, hhop, ?_⟩, hafter⟩
    rw [hafter, hopsVia_mapRoute (by exact fun _ => rfl), hhop]
    rfl

/-- Beside a route of face 1, one of face 2 is added with flag 1 and again with flag 4, while a
request is counted before and an object after. -/
theorem restored_and_merged_small :
    let name : Name := ⟨[[97]]⟩
    let t := (empty 1).operate [.add name ⟨1⟩ .static 5 none]
    let ops : List Operation := [.count name ⟨2⟩ .interest, .add name ⟨2⟩ .control 20 none,
      .forget ⟨1⟩, .count name ⟨2⟩ .object]
    ∃ u, t.add name ⟨2⟩ .dynamic 10 none = .ok (u, .added) ∧
      (u.remove name ⟨2⟩ none).1 = t ∧
      (u.operate ops).hopsVia (name, ⟨2⟩, none) =
        [{ face := ⟨2⟩, flags := ⟨5⟩, cost := 20, sentInterests := 1, sentObjects := 1 }] := by
  intro name t ops
  obtain ⟨hrestored, hmerged⟩ :=
    restored_and_merged 1 [.add name ⟨1⟩ .static 5 none] name ⟨2⟩ .dynamic 10 none
  have hkept : ∀ op ∈ ops, ¬ op.Removes (name, ⟨2⟩, none) := by
    simp [ops, Operation.Removes]
  refine ⟨_, rfl, (hrestored _ rfl).1, ?_⟩
  obtain ⟨-, ⟨hop, honce, hops⟩, -⟩ := hmerged _ _ ops rfl hkept
  rw [hops, ← List.singleton_injective honce]
  decide

end RouteTable
end NamedData
