import NamedData.Proofs.Daemon.Requests
import NamedData.Proofs.Name.Printing
import NamedData.Proofs.Route.History

/-!
# Prefixes as operators see them

The listing of the routes shows each prefix in its printed form. A request to remove routes that
gives a prefix of visible characters as it is listed does the same as one that gives it as it was
added. A prefix with any other character is listed in a form that stands for another name, and a
request that gives it in that form leaves its routes alone.
-/

namespace NamedData

namespace RouteTable

variable {t : RouteTable} {name : Name} {face : FaceId} {keyId : Option Digest} {route : Route}

theorem mem_routes_remove_of_ne (h : route ∈ t.routes) (hother : route.1 ≠ name) :
    route ∈ (t.remove name face keyId).1.routes := by
  obtain ⟨e, he, hname, hplace⟩ := mem_routes.1 h
  refine mem_routes.2 ⟨e, ?_, hname, hplace⟩
  have hne : e.name ≠ name := hname ▸ hother
  rcases t.remove_cases name face keyId with ⟨hsame, -⟩ | ⟨d, -, ⟨-, hlast⟩ | ⟨-, hrest⟩⟩
  · rwa [hsame]
  · rw [hlast]
    exact List.mem_filter.2 ⟨he, decide_eq_true hne⟩
  · rw [hrest]
    exact List.mem_map.2 ⟨e, he, if_neg hne⟩

theorem face_ne_of_not_uses (hunused : t.uses face = false) (h : route ∈ t.routes) :
    route.2.1 ≠ face := by
  obtain ⟨e, he, -, hplace⟩ := mem_routes.1 h
  obtain ⟨hop, hhop, hsame⟩ := List.mem_map.1 hplace
  intro hface
  have huses : t.uses face := uses_iff.2 ⟨e, he, hop, hhop, (congrArg Prod.fst hsame).trans hface⟩
  rw [hunused] at huses
  cases huses

theorem exists_row (t : RouteTable) {e : RouteEntry} (h : t.find? name = some e) :
    ∃ row ∈ t.rows, row.name = name.toString := by
  refine ⟨.ofEntry e, ?_, congrArg Name.toString (name_of_find? h)⟩
  exact List.mem_mergeSort.2 (List.mem_map_of_mem (mem_of_find? h))

end RouteTable

namespace Daemon

variable {d : Daemon} {w : Surroundings} {transport : Transport} {s s' hop : String}

theorem mem_routes_removeHop {route : Route} (h : route ∈ d.forwarder.routes.routes)
    (hother : route.1 ≠ Name.ofString s) :
    route ∈ (d.removeHop w transport s hop).1.forwarder.routes.routes := by
  unfold removeHop
  split
  · exact h
  · split
    · exact h
    · split
      · exact h
      · rename_i peer _ _ face hfound
        have hkept : route ∈ (d.forwarder.routes.remove (Name.ofString s) face none).1.routes :=
          RouteTable.mem_routes_remove_of_ne h hother
        dsimp only [Forwarder.removeRoute]
        split
        · exact hkept
        · split
          · rename_i hunused
            have hroutes := RouteTable.face_ne_of_not_uses (by simpa using hunused.2.1) hkept
            refine (congrArg (route ∈ ·) RouteTable.routes_forget).mpr ?_
            exact Finset.mem_filter.2 ⟨hkept, hroutes⟩
          · exact hkept

theorem mem_routes_control {protocol : String} {hops : List String} {route : Route}
    (h : route ∈ d.forwarder.routes.routes) (hother : route.1 ≠ Name.ofString s) :
    route ∈ (d.control w (.routeDel s protocol hops)).1.forwarder.routes.routes := by
  rw [control]
  split
  · exact h
  · rename_i transport _
    exact eachHop_induction
      (R := fun d d' => route ∈ d.forwarder.routes.routes → route ∈ d'.forwarder.routes.routes)
      (fun _ => id) (fun hfirst hrest => hrest ∘ hfirst)
      (fun d hop h => mem_routes_removeHop h hother) d hops h

theorem removeHop_congr (h : Name.ofString s = Name.ofString s') (d : Daemon) (hop : String) :
    (d.removeHop w transport s hop).1 = (d.removeHop w transport s' hop).1 ∧
      ((d.removeHop w transport s hop).2.isSome ↔ (d.removeHop w transport s' hop).2.isSome) := by
  unfold removeHop
  rw [h]
  split
  · exact ⟨rfl, Iff.rfl⟩
  · split
    · exact ⟨rfl, Iff.rfl⟩
    · split
      · exact ⟨rfl, Iff.rfl⟩
      · -- only the error names the prefix as it was given
        dsimp only
        split <;> exact ⟨rfl, Iff.rfl⟩

theorem eachHop_congr {step step' : Daemon → String → Daemon × Option ControlError}
    (h : ∀ d hop, (step d hop).1 = (step' d hop).1 ∧
      ((step d hop).2.isSome ↔ (step' d hop).2.isSome)) (d : Daemon) (hops : List String) :
    (eachHop step d hops).1 = (eachHop step' d hops).1 ∧
      ((eachHop step d hops).2 = .ok ↔ (eachHop step' d hops).2 = .ok) := by
  induction hops generalizing d with
  | nil => exact ⟨rfl, Iff.rfl⟩
  | cons hop hops ih =>
    obtain ⟨hsame, hfails⟩ := h d hop
    rw [eachHop, eachHop]
    rcases hfirst : step d hop with ⟨u, _ | e⟩ <;> rcases hsecond : step' d hop with ⟨v, _ | e'⟩
    all_goals
      rw [hfirst, hsecond] at hsame hfails
      dsimp only at hsame hfails
      subst hsame
    · exact ih _
    · simp at hfails
    · simp at hfails
    · simp

theorem control_congr (h : Name.ofString s = Name.ofString s') (w : Surroundings) (d : Daemon)
    (protocol : String) (hops : List String) :
    (d.control w (.routeDel s protocol hops)).1 = (d.control w (.routeDel s' protocol hops)).1 ∧
      ((d.control w (.routeDel s protocol hops)).2 = .ok ↔
        (d.control w (.routeDel s' protocol hops)).2 = .ok) := by
  rw [control, control]
  split
  · exact ⟨rfl, Iff.rfl⟩
  · exact eachHop_congr (removeHop_congr h) d hops

/-- The listing shows each prefix in its printed form. Read again, that gives each component as it
is printed, and so the same name if and only if the text that the name was read from has no
characters but visible ones. Then a request to remove routes that gives the prefix as it is listed
does what the same request does with the text, and otherwise it leaves all routes of the name. -/
theorem listed_prefix_iff_visible (s : String) :
    let name := Name.ofString s
    let listed := name.toString
    (∀ (t : RouteTable) e, t.find? name = some e → ∃ row ∈ t.rows, row.name = listed) ∧
      Name.ofString listed = ⟨name.components.map Name.shown⟩ ∧
      (Name.ofString listed = name ↔ ∀ c ∈ s.toList, Text.Visible c) ∧
      ∀ (w : Surroundings) (d : Daemon) protocol hops,
        let after := d.control w (.routeDel listed protocol hops)
        ((∀ c ∈ s.toList, Text.Visible c) →
          after.1 = (d.control w (.routeDel s protocol hops)).1 ∧
            (after.2 = .ok ↔ (d.control w (.routeDel s protocol hops)).2 = .ok)) ∧
        (¬(∀ c ∈ s.toList, Text.Visible c) → ∀ route ∈ d.forwarder.routes.routes,
          route.1 = name → route ∈ after.1.forwarder.routes.routes) := by
  intro name listed
  have hsame := Name.ofString_toString_eq_iff s
  refine ⟨fun t e => t.exists_row, Name.ofString_toString s, hsame, ?_⟩
  intro w d protocol hops after
  constructor
  · intro hvisible
    exact control_congr (hsame.2 hvisible) w d protocol hops
  · intro hhidden route hroute hname
    refine mem_routes_control hroute ?_
    rw [hname]
    exact fun heq => hhidden (hsame.1 heq.symm)

/-- A prefix that is listed in another form than it was added in, and removed in that form. -/
theorem listed_prefix_iff_visible_small :
    let s := "ccnx:/a//b"
    let d := ((Small.daemon {}).control Small.surroundings (.routeAdd s "udp" ["127.0.0.1"] 0)).1
    let after := d.control Small.surroundings (.routeDel "/a/b" "udp" ["127.0.0.1"])
    (∃ row ∈ d.forwarder.routes.rows, row.name = "/a/b") ∧
      after.1 = (d.control Small.surroundings (.routeDel s "udp" ["127.0.0.1"])).1 ∧
      after.2 = .ok ∧ after.1.forwarder.routes.entries = [] := by
  intro s d after
  have hlisted : (Name.ofString s).toString = "/a/b" := by decide +kernel
  obtain ⟨hrow, -, hsame, hdel⟩ := listed_prefix_iff_visible s
  rw [hlisted] at hrow hsame hdel
  have hvisible : ∀ c ∈ s.toList, Text.Visible c := hsame.1 (by decide +kernel)
  obtain ⟨e, hfind⟩ : ∃ e, d.forwarder.routes.find? (Name.ofString s) = some e :=
    Option.isSome_iff_exists.1 (by decide +kernel)
  exact ⟨hrow _ e hfind, ((hdel Small.surroundings d "udp" ["127.0.0.1"]).1 hvisible).1,
    by decide +kernel, by decide +kernel⟩

/-- A prefix that is listed in hexadecimal, and what is asked for in that form is not found. -/
theorem listed_prefix_not_found :
    let s := "/é"
    let d := ((Small.daemon {}).control Small.surroundings (.routeAdd s "udp" ["127.0.0.1"] 0)).1
    let after := d.control Small.surroundings (.routeDel "/0xc3a9" "udp" ["127.0.0.1"])
    (Name.ofString s).toString = "/0xc3a9" ∧ Name.ofString "/0xc3a9" ≠ Name.ofString s ∧
      d.forwarder.routes.rows.map (·.name) = ["/0xc3a9"] ∧
      after.2 = .refused "no route /0xc3a9 via 127.0.0.1" ∧
      after.1.forwarder.routes.rows.map (·.name) = ["/0xc3a9"] := by
  decide +kernel

end Daemon
end NamedData
