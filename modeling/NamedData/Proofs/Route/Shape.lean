import NamedData.Proofs.Route.History

/-!
# The shape of a table after any history

Whatever is done to a table, it holds no more names than it may. Every name is registered once,
is found as itself and has next hops, all of them different. The length that is kept beside the
entries is that of the longest name, and a face is in use as long as some entry has a next hop
through it. A route is refused just when its name is a new one and there is no room, and that
changes nothing.
-/

namespace NamedData

theorem RouteEntry.Sound.distinct {e : RouteEntry} (h : e.Sound) :
    e.hops.Pairwise fun g h => ¬ (g.face = h.face ∧ g.keyId = h.keyId) := by
  refine (List.pairwise_map.1 h.places_nodup).imp ?_
  rintro g h hplaces ⟨hface, hkeyId⟩
  exact hplaces (Prod.ext hface hkeyId)

namespace RouteTable

variable {t : RouteTable} {name : Name} {face : FaceId} {flags : RouteFlags} {cost : UInt16}
  {keyId : Option Digest}

/-- The shape of a table for some number of names, said of its entries. -/
structure Shaped (capacity : Nat) (t : RouteTable) : Prop where
  size_le : t.size ≤ capacity
  names_nodup : (t.entries.map (·.name)).Nodup
  find?_iff : ∀ name e, t.find? name = some e ↔ e ∈ t.entries ∧ e.name = name
  hops_ne_nil : ∀ e ∈ t.entries, e.hops ≠ []
  distinct : ∀ e ∈ t.entries, e.hops.Pairwise fun g h => ¬ (g.face = h.face ∧ g.keyId = h.keyId)
  longest_eq : t.longest = (t.entries.map (·.name.size)).max?.getD 0
  uses_iff : ∀ face, t.uses face ↔ ∃ e ∈ t.entries, ∃ h ∈ e.hops, h.face = face

theorem longestOf_eq_max? (entries : List RouteEntry) :
    longestOf entries = (entries.map (·.name.size)).max?.getD 0 := by
  rw [longestOf_eq]
  cases entries with
  | nil => rfl
  | cons e es =>
    rw [List.map_cons, List.foldl_cons, Nat.zero_max, List.max?_cons', Option.getD_some]

theorem Sound.shaped (h : t.Sound) : t.Shaped t.capacity where
  size_le := h.size_le
  names_nodup := h.names_nodup
  find?_iff _ _ := h.find?_eq_some_iff
  hops_ne_nil e he := (h.entries e he).hops_ne_nil
  distinct e he := (h.entries e he).distinct
  longest_eq := h.longest_eq.trans (longestOf_eq_max? t.entries)
  uses_iff _ := uses_iff

theorem capacity_operate (t : RouteTable) (ops : List Operation) :
    (t.operate ops).capacity = t.capacity :=
  ops.foldlRecOn _ (motive := fun u : RouteTable => u.capacity = t.capacity) rfl
    fun _ hu _ _ => (capacity_apply _).trans hu

theorem Sound.add_eq_error (h : t.Sound) {full : RouteTableFull} :
    t.add name face flags cost keyId = .error full ↔
      full = ⟨t.capacity⟩ ∧ t.find? name = none ∧ t.size = t.capacity := by
  rw [add_eq_error_iff, h.size_le.ge_iff_eq]

theorem apply_of_refused {full : RouteTableFull}
    (h : t.add name face flags cost keyId = .error full) :
    t.apply (.add name face flags cost keyId) = t := by
  rw [apply, h]

/-- Every history leaves a table that is as it should be. A route is refused just when there is no
room for its name, and nothing changes then. -/
theorem shaped_after (capacity : Nat) (ops : List Operation) :
    let t := (empty capacity).operate ops
    t.Shaped capacity ∧ ∀ name face flags cost keyId full,
      (t.add name face flags cost keyId = .error full ↔
        full = ⟨capacity⟩ ∧ t.find? name = none ∧ t.size = capacity) ∧
      (t.add name face flags cost keyId = .error full →
        t.apply (.add name face flags cost keyId) = t) := by
  intro t
  have hsound : t.Sound := (Sound.empty capacity).operate ops
  have hcapacity : t.capacity = capacity := capacity_operate _ ops
  rw [← hcapacity]
  exact ⟨hsound.shaped, fun _ _ _ _ _ _ => ⟨hsound.add_eq_error, apply_of_refused⟩⟩

end RouteTable
end NamedData
