import NamedData.Proofs.Daemon.Requests

/-!
# Refused control requests

A request for several next hops that is refused at one of them has been carried out for those before
it, just as a request for these alone, and the later ones have not been looked at. The next hop that
fails leaves the routes as they are and closes no face; only when the table of routes is full may
the face towards it have been opened in vain.
-/

namespace NamedData

namespace ControlRequest

def hops : ControlRequest → List String
  | .routeAdd _ _ nextHops _ => nextHops
  | .routeDel _ _ nextHops => nextHops
  | .stop | .status | .statusPending => []

/-- The same request for other next hops. -/
def withHops (nextHops : List String) : ControlRequest → ControlRequest
  | .routeAdd namePrefix protocol _ cost => .routeAdd namePrefix protocol nextHops cost
  | .routeDel namePrefix protocol _ => .routeDel namePrefix protocol nextHops
  | .stop => .stop
  | .status => .status
  | .statusPending => .statusPending

def protocol? : ControlRequest → Option String
  | .routeAdd _ protocol _ _ | .routeDel _ protocol _ => some protocol
  | .stop | .status | .statusPending => none

/-- The name that a request adds routes for. -/
def addedName? : ControlRequest → Option Name
  | .routeAdd namePrefix _ _ _ => some (.ofString namePrefix)
  | .stop | .status | .statusPending | .routeDel .. => none

/-- A table of routes has room for what a request adds. -/
def HasRoom (request : ControlRequest) (t : RouteTable) : Prop :=
  ∀ name, request.addedName? = some name → t.find? name = none → t.size < t.capacity

end ControlRequest

namespace Daemon

variable {d d' : Daemon} {w : Surroundings} {request : ControlRequest} {message : String}
  {hop : String} {e : ControlError} {transport : Transport} {namePrefix : String}

/-- A next hop of a request stands for a peer. -/
structure LeadsTo (w : Surroundings) (request : ControlRequest) (hop : String)
    (transport : Transport) (peer : SocketAddress) : Prop where
  protocol : ∃ protocol, request.protocol? = some protocol ∧
    routeTransport protocol = .ok transport
  address : ∃ address, Address.parse hop.toList = .ok address ∧
    w.network.resolve address.toString.toList = .ok peer

/-- The face towards a next hop has been opened, and then there was no room for the route. -/
structure OpensInVain (w : Surroundings) (request : ControlRequest) (hop : String)
    (d d' : Daemon) : Prop where
  full : ¬request.HasRoom d.forwarder.routes
  opened : ∃ transport peer face, LeadsTo w request hop transport peer ∧
    d.faces.findPeer? transport peer = none ∧
    d.faces.open? transport (some peer) = some (face, d'.faces)

/-- What a next hop that fails may still do to a daemon. -/
structure Fails (w : Surroundings) (request : ControlRequest) (hop : String) (d d' : Daemon) :
    Prop where
  routes : d'.forwarder.routes = d.forwarder.routes
  faces : d'.faces = d.faces ∨ OpensInVain w request hop d d'

theorem Fails.refl (d : Daemon) : Fails w request hop d d := ⟨rfl, .inl rfl⟩

/-- No face is closed by a next hop that fails. -/
theorem Fails.isOpen (h : Fails w request hop d d') {g : FaceId} (hg : d.faces.isOpen g) :
    d'.faces.isOpen g := by
  rcases h.faces with hsame | ⟨-, transport, peer, face, -, -, hopen⟩
  · rw [hsame]
    exact hg
  · simp [FaceRegistry.isOpen_of_open? hopen, hg]

theorem Fails.isOpen_eq (h : Fails w request hop d d')
    (hroom : request.HasRoom d.forwarder.routes) (g : FaceId) :
    d'.faces.isOpen g = d.faces.isOpen g := by
  rcases h.faces with hsame | hvain
  · rw [hsame]
  · exact absurd hroom hvain.full

theorem full_of_addRoute {f : Forwarder} {name : Name} {face : FaceId} {flags : RouteFlags}
    {cost : UInt16} {full : RouteTableFull} (h : f.addRoute name face flags cost = .error full) :
    f.routes.find? name = none ∧ f.routes.capacity ≤ f.routes.size := by
  unfold Forwarder.addRoute at h
  cases hadd : f.routes.add name face flags cost none with
  | error refused => exact (RouteTable.add_eq_error_iff.1 hadd).2
  | ok added => simp [hadd] at h

theorem fails_addHop {cost : UInt16} (hname : request.addedName? = some (.ofString namePrefix))
    (hprotocol : ∃ protocol, request.protocol? = some protocol ∧
      routeTransport protocol = .ok transport)
    (h : d.addHop w transport (.ofString namePrefix) cost hop = (d', some e)) :
    Fails w request hop d d' := by
  unfold addHop at h
  split at h
  · obtain ⟨rfl, -⟩ := Prod.mk.inj h
    exact .refl d
  · rename_i address haddress
    split at h
    · obtain ⟨rfl, -⟩ := Prod.mk.inj h
      exact .refl d
    · rename_i face faces hconnect
      dsimp only at h
      split at h
      · rename_i full hfull
        obtain ⟨rfl, -⟩ := Prod.mk.inj h
        obtain ⟨hnew, hnone⟩ := full_of_addRoute hfull
        have hroom : ¬request.HasRoom d.forwarder.routes := fun hroom =>
          absurd (hroom _ hname hnew) (Nat.not_lt.2 hnone)
        refine ⟨rfl, ?_⟩
        obtain ⟨peer, hpeer, ⟨-, hsame⟩ | ⟨hunknown, hopen⟩⟩ :=
          FaceRegistry.connect_cases hconnect
        · exact .inl hsame
        · exact .inr ⟨hroom, transport, peer, face,
            ⟨hprotocol, address, haddress, hpeer⟩, hunknown, hopen⟩
      · cases h

theorem routes_of_notFound {t u : RouteTable} {name : Name} {face : FaceId} {keyId : Option Digest}
    (h : t.remove name face keyId = (u, .notFound)) : u = t := by
  rcases t.remove_cases name face keyId with ⟨hsame, -⟩ | ⟨e, -, ⟨-, hlast⟩ | ⟨-, hrest⟩⟩
  · exact congrArg Prod.fst (h.symm.trans hsame)
  · cases h.symm.trans hlast
  · cases h.symm.trans hrest

theorem fails_removeHop (h : d.removeHop w transport namePrefix hop = (d', some e)) :
    Fails w request hop d d' := by
  unfold removeHop at h
  split at h
  · obtain ⟨rfl, -⟩ := Prod.mk.inj h
    exact .refl d
  · split at h
    · obtain ⟨rfl, -⟩ := Prod.mk.inj h
      exact .refl d
    · split at h
      · obtain ⟨rfl, -⟩ := Prod.mk.inj h
        exact .refl d
      · dsimp only at h
        split at h
        · rename_i hnone
          obtain ⟨rfl, -⟩ := Prod.mk.inj h
          refine ⟨?_, .inl rfl⟩
          exact routes_of_notFound (Prod.ext rfl hnone)
        · cases h

variable {step : Daemon → String → Daemon × Option ControlError}

/-- A request is refused at the first next hop that fails. -/
theorem eachHop_refused {hops : List String} (h : (eachHop step d hops).2 = .refused message) :
    ∃ done hop rest e, hops = done ++ hop :: rest ∧ (eachHop step d done).2 = .ok ∧
      step (eachHop step d done).1 hop = ((eachHop step d hops).1, some e) ∧
      message = e.describe := by
  induction hops generalizing d with
  | nil => cases h
  | cons first hops ih =>
    rw [eachHop] at h ⊢
    split at h
    · rename_i d' hstep
      obtain ⟨done, hop, rest, e, rfl, hok, hfails, hmessage⟩ := ih h
      have hdone : eachHop step d (first :: done) = eachHop step d' done := by
        rw [eachHop, hstep]
      refine ⟨first :: done, hop, rest, e, rfl, ?_, ?_, hmessage⟩
      · rw [hdone]
        exact hok
      · rw [hdone]
        exact hfails
    · rename_i d' e hstep
      exact ⟨[], first, hops, e, rfl, rfl, hstep, (ControlResponse.refused.inj h).symm⟩

theorem eachHop_fails (h : step d hop = (d', some e)) :
    eachHop step d [hop] = (d', .refused e.describe) := by
  rw [eachHop, h]

/-- A request has been carried out for some next hops, and then one has failed. -/
structure StopsAt (w : Surroundings) (d : Daemon) (request : ControlRequest) (message : String)
    (done : List String) (hop : String) : Prop where
  /-- A request for those next hops alone is granted. -/
  granted : (d.control w (request.withHops done)).2 = .ok
  /-- After it, a request for the one that fails comes to the same as the whole request. -/
  refused : (d.control w (request.withHops done)).1.control w (request.withHops [hop]) =
    ((d.control w request).1, .refused message)
  fails : Fails w request hop (d.control w (request.withHops done)).1 (d.control w request).1
  isOpen : ∀ g, (d.control w (request.withHops done)).1.faces.isOpen g →
    (d.control w request).1.faces.isOpen g
  isOpen_eq : request.HasRoom (d.control w (request.withHops done)).1.forwarder.routes →
    ∀ g, (d.control w request).1.faces.isOpen g =
      (d.control w (request.withHops done)).1.faces.isOpen g

theorem stopsAt_of_eachHop (step : Daemon → String → Daemon × Option ControlError)
    (hcontrol : ∀ d hops, d.control w (request.withHops hops) = eachHop step d hops)
    (hself : request.withHops request.hops = request)
    (hstep : ∀ {d d' hop e}, step d hop = (d', some e) → Fails w request hop d d')
    (h : (d.control w request).2 = .refused message) :
    ∃ done hop rest, request.hops = done ++ hop :: rest ∧
      StopsAt w d request message done hop := by
  have hwhole : d.control w request = eachHop step d request.hops := by
    rw [← hcontrol, hself]
  rw [hwhole] at h
  obtain ⟨done, hop, rest, e, hhops, hok, hlast, rfl⟩ := eachHop_refused h
  have hfails : Fails w request hop (d.control w (request.withHops done)).1
      (d.control w request).1 := by
    rw [hcontrol, hwhole]
    exact hstep hlast
  refine ⟨done, hop, rest, hhops, ?_, ?_, hfails, fun g => hfails.isOpen, hfails.isOpen_eq⟩
  · rw [hcontrol]
    exact hok
  · rw [hcontrol, hcontrol, hwhole]
    exact eachHop_fails hlast

theorem routeTransport_eq_error {protocol : String} (h : routeTransport protocol = .error e) :
    e = .protocol protocol := by
  unfold routeTransport at h
  split at h
  · cases h
  · exact (Except.error.inj h).symm

theorem control_of_unsupported {protocol : String} (hprotocol : request.protocol? = some protocol)
    (hunsupported : routeTransport protocol = .error e) :
    d.control w request = (d, .refused e.describe) := by
  cases request with
  | stop | status | statusPending => cases hprotocol
  | routeAdd | routeDel =>
    obtain rfl := Option.some.inj hprotocol
    simp only [control, hunsupported]

/-- A refused request has changed nothing, when its protocol is not supported, or else it has been
carried out for the next hops before the one at which it was refused. -/
theorem control_refused (h : (d.control w request).2 = .refused message) :
    (∃ protocol, request.protocol? = some protocol ∧
      routeTransport protocol = .error (.protocol protocol) ∧
      message = (ControlError.protocol protocol).describe ∧ (d.control w request).1 = d) ∨
    ∃ done hop rest, request.hops = done ++ hop :: rest ∧ StopsAt w d request message done hop := by
  cases hprotocol : request.protocol? with
  | none =>
    cases request with
    | stop | status | statusPending => cases h
    | routeAdd | routeDel => cases hprotocol
  | some protocol =>
    cases htransport : routeTransport protocol with
    | error e =>
      left
      obtain rfl := routeTransport_eq_error htransport
      have hcontrol := control_of_unsupported (d := d) (w := w) hprotocol htransport
      rw [hcontrol] at h ⊢
      exact ⟨protocol, rfl, htransport, (ControlResponse.refused.inj h).symm, rfl⟩
    | ok transport =>
      right
      cases request with
      | stop | status | statusPending => cases h
      | routeAdd namePrefix own nextHops cost =>
        obtain rfl : own = protocol := Option.some.inj hprotocol
        refine stopsAt_of_eachHop (addHop w transport (Name.ofString namePrefix) cost)
          ?_ rfl (fails_addHop rfl ⟨own, rfl, htransport⟩) h
        intro d hops
        simp only [control, ControlRequest.withHops, htransport]
      | routeDel namePrefix own nextHops =>
        obtain rfl : own = protocol := Option.some.inj hprotocol
        refine stopsAt_of_eachHop (removeHop w transport namePrefix) ?_ rfl fails_removeHop h
        intro d hops
        simp only [control, ControlRequest.withHops, htransport]

/-- There is room for one name, and the face towards the next hop for another is opened in vain. -/
theorem control_refused_small :
    let d := ((Small.daemon { routes := { capacity := 1 } }).control Small.surroundings
      (.routeAdd "/r" "udp" ["10.0.0.1"] 0)).1
    let request : ControlRequest := .routeAdd "/s" "udp" ["10.0.0.2", "10.0.0.3"] 0
    let after := (d.control Small.surroundings request).1
    (d.control Small.surroundings request).2 = .refused "FIB is full (1 prefixes)" ∧
      ¬d.faces.isOpen ⟨2⟩ ∧ after.faces.isOpen ⟨2⟩ ∧
      ∃ done hop rest, request.hops = done ++ hop :: rest ∧
        StopsAt Small.surroundings d request "FIB is full (1 prefixes)" done hop := by
  intro d request after
  have hrefused : (d.control Small.surroundings request).2 =
      .refused "FIB is full (1 prefixes)" := by decide +kernel
  refine ⟨hrefused, by decide +kernel, by decide +kernel, ?_⟩
  rcases control_refused hrefused with ⟨protocol, hprotocol, hunsupported, -⟩ | hstops
  · obtain rfl := Option.some.inj hprotocol
    have hudp : routeTransport "udp" = .ok .udp := by decide +kernel
    cases hudp.symm.trans hunsupported
  · exact hstops

/-- The second next hop is empty, and the first keeps its route and its face. -/
theorem refused_request_adds :
    let d := Small.daemon {}
    let request : ControlRequest := .routeAdd "/r" "udp" ["127.0.0.1:19896", ""] 0
    let after := (d.control Small.surroundings request).1
    d.Reachable ∧
      (d.control Small.surroundings request).2 = .refused "empty next hop" ∧
      after.forwarder.routes.entries ≠ d.forwarder.routes.entries ∧
      after.faces.isOpen ⟨1⟩ ∧ ¬d.faces.isOpen ⟨1⟩ := by
  intro d request after
  exact ⟨Small.reachable, by decide +kernel, by decide +kernel, by decide +kernel,
    by decide +kernel⟩

end Daemon
end NamedData
