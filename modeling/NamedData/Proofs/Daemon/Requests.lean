import NamedData.Proofs.Daemon.Run

/-!
# What control requests do to a daemon

A request either adds routes or removes routes. Adding may open faces, and every new route goes
through an open face. Removing may close faces, each with its framer and all that the tables have
of it.
-/

namespace NamedData.Daemon

variable {d d' : Daemon} {face g : FaceId}

/-- What holds of a daemon between two inputs. -/
structure Sound (d : Daemon) : Prop where
  forwarder : d.forwarder.Sound
  peers : d.faces.PeersOpen

/-- What adding routes makes of a daemon: faces may be opened, and every new route goes through an
open face. -/
structure Adds (d d' : Daemon) : Prop where
  peers : d.faces.PeersOpen → d'.faces.PeersOpen
  framers : d'.framers = d.framers
  keeps : ∀ g, d.faces.isOpen g → d'.faces.isOpen g
  forwarder : d.faces.PeersOpen → ∃ events, d'.forwarder = d.forwarder.run events ∧
    ∀ e ∈ events, ∀ g, ¬e.isFrom g ∧ (e.routesVia g → d'.faces.isOpen g)

/-- What removing routes makes of a daemon: open faces may be closed, and their framers go with
them. -/
structure Removes (d d' : Daemon) : Prop where
  peers : d.faces.PeersOpen → d'.faces.PeersOpen
  opensNone : ∀ g, d'.faces.isOpen g → d.faces.isOpen g
  framer : d.faces.PeersOpen → ∀ g, d'.framers.find? g =
    if d.faces.isOpen g ∧ ¬d'.faces.isOpen g then none else d.framers.find? g
  forwarder : ∃ events, d'.forwarder = d.forwarder.run events ∧
    ∀ e ∈ events, ∀ g, ¬e.introduces g
  forgets : d.Sound → ∀ g, d.faces.isOpen g → ¬d'.faces.isOpen g → ¬d'.forwarder.RefersTo g

theorem Adds.refl (d : Daemon) : d.Adds d :=
  ⟨id, rfl, fun _ h => h, fun _ => ⟨[], rfl, nofun⟩⟩

theorem Adds.trans {d'' : Daemon} (h : d.Adds d') (h' : d'.Adds d'') : d.Adds d'' where
  peers := h'.peers ∘ h.peers
  framers := h'.framers.trans h.framers
  keeps g hg := h'.keeps g (h.keeps g hg)
  forwarder hpeers := by
    obtain ⟨events, hrun, hevents⟩ := h.forwarder hpeers
    obtain ⟨events', hrun', hevents'⟩ := h'.forwarder (h.peers hpeers)
    refine ⟨events ++ events', by rw [hrun', hrun, Forwarder.run_append], ?_⟩
    intro e he g
    rcases List.mem_append.1 he with hmem | hmem
    · exact (hevents e hmem g).imp_right fun hopen hroute => h'.keeps g (hopen hroute)
    · exact hevents' e hmem g

theorem Removes.refl (d : Daemon) : d.Removes d :=
  ⟨id, fun _ h => h, fun _ _ => by simp, ⟨[], rfl, nofun⟩, fun _ _ hopen hclosed =>
    absurd hopen hclosed⟩

theorem Removes.trans {d'' : Daemon} (h : d.Removes d') (h' : d'.Removes d'') :
    d.Removes d'' where
  peers := h'.peers ∘ h.peers
  opensNone g hg := h.opensNone g (h'.opensNone g hg)
  framer hpeers g := by
    rw [h'.framer (h.peers hpeers) g, h.framer hpeers g]
    have hfirst := h.opensNone g
    have hsecond := h'.opensNone g
    by_cases hopen : d.faces.isOpen g
    · by_cases hopen' : d'.faces.isOpen g
      · simp [hopen, hopen']
      · have hclosed : ¬d''.faces.isOpen g := mt hsecond hopen'
        simp [hopen, hopen', hclosed]
    · have hclosed : ¬d'.faces.isOpen g := mt hfirst hopen
      simp [hopen, hclosed]
  forwarder := by
    obtain ⟨events, hrun, hevents⟩ := h.forwarder
    obtain ⟨events', hrun', hevents'⟩ := h'.forwarder
    refine ⟨events ++ events', by rw [hrun', hrun, Forwarder.run_append], ?_⟩
    intro e he
    exact (List.mem_append.1 he).elim (hevents e) (hevents' e)
  forgets hd g hopen hclosed := by
    obtain ⟨events, hrun, -⟩ := h.forwarder
    obtain ⟨events', hrun', hevents'⟩ := h'.forwarder
    have hsound : d'.Sound := ⟨hrun ▸ hd.forwarder.run events, h.peers hd.peers⟩
    by_cases hopen' : d'.faces.isOpen g
    · exact h'.forgets hsound g hopen' hclosed
    · rw [hrun']
      intro hrefers
      exact h.forgets hd g hopen hopen' <|
        Forwarder.refersTo_run hsound.forwarder (fun e he => hevents' e he g) hrefers

theorem addHop_cases (w : Surroundings) (transport : Transport) (name : Name) (cost : UInt16)
    (d : Daemon) (hop : String) :
    (d.addHop w transport name cost hop).1 = d ∨
      ∃ address face faces, d.faces.connect w.network transport address = .ok (face, faces) ∧
        (d.addHop w transport name cost hop).1 =
          { d with
            faces
            forwarder := (d.forwarder.step (.addRoute name face .control cost)).1 } := by
  unfold addHop
  split
  · exact .inl rfl
  · rename_i address haddress
    split
    · exact .inl rfl
    · rename_i face faces hconnect
      refine .inr ⟨_, face, faces, hconnect, ?_⟩
      dsimp only [Forwarder.step]
      cases d.forwarder.addRoute name face .control cost <;> rfl

theorem adds_addHop (w : Surroundings) (transport : Transport) (name : Name) (cost : UInt16)
    (d : Daemon) (hop : String) : d.Adds (d.addHop w transport name cost hop).1 := by
  rcases addHop_cases w transport name cost d hop with hsame | ⟨_, face, faces, hconnect, heq⟩
  · rw [hsame]
    exact .refl d
  rw [heq]
  have hpeers : d.faces.PeersOpen → faces.PeersOpen := by
    intro hpeers
    rcases FaceRegistry.connect_eq_ok hconnect with ⟨peer, -, rfl⟩ | ⟨peer, hopen⟩
    · exact hpeers
    · exact hpeers.open? hopen
  refine ⟨hpeers, rfl, ?_, ?_⟩
  · intro g hg
    rcases FaceRegistry.connect_eq_ok hconnect with ⟨peer, -, rfl⟩ | ⟨peer, hopen⟩
    · exact hg
    · simp [FaceRegistry.isOpen_of_open? hopen, hg]
  · intro hbefore
    refine ⟨[.addRoute name face .control cost], rfl, ?_⟩
    intro e he g
    rw [List.mem_singleton.1 he]
    refine ⟨Bool.false_ne_true, ?_⟩
    intro hface
    obtain rfl := of_decide_eq_true hface
    rcases FaceRegistry.connect_eq_ok hconnect with ⟨peer, hfound, rfl⟩ | ⟨peer, hopen⟩
    · exact hbefore.isOpen_of_findPeer? hfound
    · simp [FaceRegistry.isOpen_of_open? hopen]

theorem removeHop_cases (w : Surroundings) (transport : Transport) (namePrefix : String)
    (d : Daemon) (hop : String) :
    (d.removeHop w transport namePrefix hop).1 = d ∨
      ∃ peer face name, d.faces.findPeer? transport peer = some face ∧
        let removed : Daemon :=
          { d with forwarder := (d.forwarder.step (.removeRoute d.faces.view name face)).1 }
        (d.removeHop w transport namePrefix hop).1 = removed ∨
          (d.removeHop w transport namePrefix hop).1 = removed.closeFace face := by
  unfold removeHop
  split
  · exact .inl rfl
  · split
    · exact .inl rfl
    · split
      · exact .inl rfl
      · rename_i peer _ _ face hfound
        refine .inr ⟨peer, face, Name.ofString namePrefix, hfound, ?_⟩
        dsimp only [Forwarder.step, Forwarder.removeRoute]
        split
        · exact .inl rfl
        · split
          · exact .inr rfl
          · exact .inl rfl

theorem removes_removeHop (w : Surroundings) (transport : Transport) (namePrefix : String)
    (d : Daemon) (hop : String) : d.Removes (d.removeHop w transport namePrefix hop).1 := by
  rcases removeHop_cases w transport namePrefix d hop with
    hsame | ⟨peer, face, name, hfound, hleft | hclosed⟩
  · rw [hsame]
    exact .refl d
  · rw [hleft]
    refine ⟨id, fun _ h => h, fun _ _ => by simp, ⟨[_], rfl, ?_⟩, fun _ _ hopen hclosed =>
      absurd hopen hclosed⟩
    intro e he g
    rw [List.mem_singleton.1 he]
    exact Bool.false_ne_true
  · rw [hclosed]
    refine ⟨fun h => h.close face, ?_, ?_,
      ⟨[.removeRoute d.faces.view name face, .faceClosed face], rfl, ?_⟩, ?_⟩
    · intro g hg
      rw [isOpen_closeFace, Bool.and_eq_true] at hg
      exact hg.1
    · intro hpeers g
      have hopen : d.faces.isOpen face := hpeers.isOpen_of_findPeer? hfound
      rw [framer_closeFace, isOpen_closeFace]
      by_cases hg : g = face <;> simp [hg, hopen]
    · intro e he g
      rcases List.mem_cons.1 he with rfl | hlast
      · exact Bool.false_ne_true
      · rw [List.mem_singleton.1 hlast]
        exact Bool.false_ne_true
    · intro hd g hopen hafter
      rw [isOpen_closeFace] at hafter
      obtain rfl : g = face := by simpa [hopen] using hafter
      exact Forwarder.not_refersTo_faceClosed (hd.forwarder.step _).pending

theorem eachHop_induction {R : Daemon → Daemon → Prop} (hrefl : ∀ d, R d d)
    (htrans : ∀ {d d' d''}, R d d' → R d' d'' → R d d'')
    {step : Daemon → String → Daemon × Option ControlError} (hstep : ∀ d hop, R d (step d hop).1)
    (d : Daemon) (hops : List String) : R d (eachHop step d hops).1 := by
  induction hops generalizing d with
  | nil => exact hrefl d
  | cons hop hops ih =>
    have hfirst := hstep d hop
    rw [eachHop]
    split
    · rename_i d' hresult
      rw [hresult] at hfirst
      exact htrans hfirst (ih d')
    · rename_i d' e hresult
      rw [hresult] at hfirst
      exact hfirst

theorem control_cases (w : Surroundings) (d : Daemon) (request : ControlRequest) :
    d.Adds (d.control w request).1 ∨ d.Removes (d.control w request).1 := by
  cases request with
  | stop => exact .inl ⟨id, rfl, fun _ h => h, fun _ => ⟨[], rfl, nofun⟩⟩
  | status | statusPending => exact .inl (.refl d)
  | routeAdd namePrefix protocol nextHops cost =>
    left
    rw [control]
    split
    · exact .refl d
    · exact eachHop_induction .refl .trans (adds_addHop w _ _ cost) d nextHops
  | routeDel namePrefix protocol nextHops =>
    right
    rw [control]
    split
    · exact .refl d
    · exact eachHop_induction .refl .trans (removes_removeHop w _ namePrefix) d nextHops

end NamedData.Daemon
