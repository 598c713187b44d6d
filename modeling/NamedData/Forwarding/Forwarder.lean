import NamedData.Cache
import NamedData.Forwarding.Action
import NamedData.Metrics.Forwarding
import NamedData.Pending.Table
import NamedData.Route.Selection

/-!
# Forwarding decisions

The forwarder owns the pending requests, the routes and the cache. A request
passes through a fixed series of checks: command, hop limit, pending table,
cache, routes. Each check may end its way; a request that passes all of them is
sent to the next hops that the strategy picks. Replies retrace the way of the
requests they answer.
-/

namespace NamedData

/-- The time of an event on both clocks. -/
structure Clock where
  /-- Milliseconds after some start; lifetimes and cache times are measured on it. -/
  now : Instant
  /-- Milliseconds since the epoch. -/
  wall : Nat
deriving DecidableEq, Repr

structure Forwarder where
  pending : PendingTable
  routes : RouteTable
  cache : Cache
  strategy : Strategy
  suppression : Suppression
  /-- Which packets are let in. -/
  accepts : Message → Bool
  interestReturn : Bool
  hopLimitReturnCode : ReturnCode
  metrics : Metrics := {}

namespace Forwarder

structure UnknownStrategy where
  name : String
deriving DecidableEq, Repr

def UnknownStrategy.describe (e : UnknownStrategy) : String := s!"Unknown strategy '{e.name}'"

/-- A forwarder with empty tables, which lets every packet in. -/
def ofSettings (s : Settings) : Except UnknownStrategy Forwarder :=
  match Strategy.ofSetting? s.strategy with
  | none => .error ⟨s.strategy⟩
  | some strategy =>
    .ok
      { pending := .empty s.pending
        routes := .empty s.routes.capacity
        cache := .empty (if s.cache.enabled then s.cache.capacity else 0) s.cache.defaultCacheTime
        strategy
        suppression := .ofMode s.pending.suppression
        accepts := fun _ => true
        interestReturn := s.interestReturn
        hopLimitReturnCode := s.hopLimitReturnCode }

def meter (f : Forwarder) (change : Metrics → Metrics) : Forwarder :=
  { f with metrics := change f.metrics }

/-- Shows the sizes of the tables on their gauges. -/
def meterSizes (f : Forwarder) : Forwarder :=
  f.meter fun m =>
    { m with pendingSize := .set f.pending.size, routesSize := .set f.routes.size }

/-! ## Interest Returns -/

def sendTo (face : FaceId) (payload : Octets) (priority : Priority) : Action :=
  .send ⟨payload, [face], .object⟩ priority

/-- Returns an Interest to its sender, when returns are enabled. -/
def giveBack (f : Forwarder) (face : FaceId) (m : Message) (code : ReturnCode) :
    Forwarder × List Action :=
  if f.interestReturn ∧ m.kind = .interest then
    (f.meter fun s => { s with returnsSent := s.returnsSent.increment },
      [sendTo face (m.toInterestReturn code) .low])
  else (f, [])

/-! ## Requests -/

/-- What is left of the hop limit of a request. -/
inductive HopLimit
  /-- The request came with a hop limit of zero. -/
  | exceeded
  /-- The request may be served here but goes no further. -/
  | exhausted
  | remaining (hopLimit : UInt8)
deriving DecidableEq, Repr

/-- Takes one hop off the limit, except for requests of applications on this host. -/
def HopLimit.ofMessage (isLocal : Bool) (m : Message) : HopLimit :=
  if isLocal then .remaining m.hopLimit
  else if m.hopLimit = 0 then .exceeded
  else if m.hopLimit = 1 then .exhausted
  else .remaining (m.hopLimit - 1)

/-- How far a request has been entered into the pending table. -/
structure Entered where
  table : PendingTable
  keys : List PendingKey := []
  forward : Bool := false
  aggregated : Nat := 0
  suppressed : Nat := 0

/-- Whether a request must go on: because of what it is, or because the
requesters before it were all held back. -/
def goesOn (e : PendingEntry) (outcome : JoinOutcome) : Bool :=
  outcome.mustForward || (outcome == .added && e.onward.isEmpty)

/-- Enters a request under one more key. An error is the state in which the
table turned out to be full. -/
def enterKey (s : Suppression) (r : PendingTable.Entrant) (st : Entered)
    (key : PendingKey × PendingKind) : Except Entered Entered :=
  match st.table.join? s r key with
  | none => .error st
  | some joined =>
    let passes := goesOn joined.entry joined.outcome
    .ok
      { table := joined.table
        keys := st.keys ++ [key.1]
        forward := st.forward || passes
        aggregated := st.aggregated + if joined.outcome = .added ∧ !passes then 1 else 0
        suppressed := st.suppressed + if joined.outcome = .refreshed then 1 else 0 }

def enter (s : Suppression) (r : PendingTable.Entrant) (table : PendingTable) :
    Except Entered Entered :=
  r.request.keys.foldlM (enterKey s r) { table }

/-- Takes over the table of a request that was entered, and counts what became of it. -/
def settle (f : Forwarder) (st : Entered) : Forwarder :=
  { f with
    pending := st.table
    metrics :=
      { f.metrics with
        interestsAggregated := f.metrics.interestsAggregated.add st.aggregated
        interestsSuppressed := f.metrics.interestsSuppressed.add st.suppressed } }

def withdraw (f : Forwarder) (face : FaceId) (keys : List PendingKey) : Forwarder :=
  { f with pending := f.pending.releaseAll face keys }

/-- A request on its way through the checks. -/
structure Transit where
  face : FaceId
  message : Message
  request : PendingRequest
  hop : HopLimit
  keys : List PendingKey

/-- Sends a request to the next hops of the longest match of its name, or gives
it back when there are none. -/
def route (f : Forwarder) (faces : FaceView) (r : Transit) : Forwarder × List Action :=
  match r.hop with
  | .remaining hopLimit =>
    let found := (f.routes.longestMatch r.message.name).map fun e =>
      (e.name, f.strategy.forInterest faces r.face e)
    match found with
    | some (name, target :: more) =>
      let targets := target :: more
      let pending := r.keys.foldl (fun t key => t.update key (·.addAllOnward targets)) f.pending
      let f :=
        { f with
          pending
          routes := f.routes.countAll name targets .interest
          metrics :=
            { f.metrics with interestsForwarded := f.metrics.interestsForwarded.increment } }
      let priority := if r.message.kind = .traceRequest then .low else .normal
      (f, [.send ⟨r.message.withHopLimit hopLimit, targets, .interest⟩ priority])
    | _ =>
      let f := f.meter fun s => { s with noRoute := s.noRoute.increment }
      (f.withdraw r.face r.keys).giveBack r.face r.message .noRoute
  | _ =>
    (f.meter fun s => { s with hopLimitDrops := s.hopLimitDrops.increment }, [])

def cacheable (m : Message) : Bool :=
  m.kind = .interest && m.interestType = .regular && !m.signed

/-- Answers a request from the cache, or passes it on to the routes. -/
def answer (f : Forwarder) (faces : FaceView) (r : Transit) (now : Instant) :
    Forwarder × List Action :=
  if cacheable r.message then
    let (cache, found) := f.cache.lookup r.message.name r.message.chunk now
    let f := { f with cache }
    match found.filter r.request.restrictions.accept with
    | some object =>
      let f := f.meter fun s => { s with cacheHits := s.cacheHits.increment }
      (f.withdraw r.face r.keys, [sendTo r.face object.raw .high])
    | none => (f.meter fun s => { s with cacheMisses := s.cacheMisses.increment }).route faces r
  else f.route faces r

/-- Enters a request into the pending table, and passes it on unless it only
joins requests that are on their way already. -/
def register (f : Forwarder) (faces : FaceView) (face : FaceId) (m : Message) (hop : HopLimit)
    (now : Instant) : Forwarder × List Action :=
  let request := PendingRequest.ofMessage m f.pending.settings.defaultLifetime
  let holds := hop = .exhausted ∧ f.interestReturn ∧ m.kind = .interest
  let deferred := if holds then some (m.toInterestReturn f.hopLimitReturnCode) else none
  match enter f.suppression { face, request, deferred, now } f.pending with
  | .error st =>
    let f := (f.settle st).meter fun s => { s with pendingFull := s.pendingFull.increment }
    (f.withdraw face st.keys).giveBack face m .noResources
  | .ok st =>
    let f := f.settle st
    if st.forward then f.answer faces { face, message := m, request, hop, keys := st.keys } now
    else (f, [])

def limitHops (f : Forwarder) (faces : FaceView) (face : FaceId) (m : Message) (now : Instant) :
    Forwarder × List Action :=
  match HopLimit.ofMessage (faces.isLocal face) m with
  | .exceeded =>
    let f := f.meter fun s => { s with hopLimitDrops := s.hopLimitDrops.increment }
    f.giveBack face m .hopLimitExceeded
  | hop => f.register faces face m hop now

/-- The command that a request stands for. -/
def command? (m : Message) : Option Command :=
  if m.kind = .interest then Command.ofName? m.name else none

def onRequest (f : Forwarder) (faces : FaceView) (face : FaceId) (m : Message) (now : Instant) :
    Forwarder × List Action :=
  let f := f.meter fun s => { s with interestsReceived := s.interestsReceived.increment }
  match command? m with
  | some c =>
    if faces.isLocal face then
      (f.meter fun s => { s with commands := s.commands.increment }, [.command c face m])
    else (f, [])
  | none => f.limitHops faces face m now

/-! ## Replies -/

/-- Sends a copy of a reply to each of some faces. -/
def fanOut (m : Message) (targets : List FaceId) (priority : Priority) : List Action :=
  targets.map fun target => sendTo target m.raw priority

def onReply (f : Forwarder) (faces : FaceView) (face : FaceId) (m : Message) (clock : Clock) :
    Forwarder × List Action :=
  let (pending, delivery) := f.pending.deliver m clock.now
  let f := { f with pending }
  let f := f.meter fun s =>
    { s with
      objectsReceived := s.objectsReceived.increment
      restrictionRejects := s.restrictionRejects.add delivery.rejected
      objectsUnsolicited := s.objectsUnsolicited.add (if delivery.matched = 0 then 1 else 0) }
  let targets := Strategy.forReply faces face delivery.faces
  if targets.isEmpty then (f, [])
  else
    let isObject := m.kind = .contentObject
    let cache := if isObject then f.cache.put m clock.now clock.wall else f.cache
    let routes :=
      match f.routes.longestMatch m.name with
      | some e => f.routes.countAll e.name targets .object
      | none => f.routes
    let f := { f with cache, routes }
    (f.meter fun s => { s with objectsForwarded := s.objectsForwarded.add targets.length },
      fanOut m targets (if isObject then .high else .low))

def onReturn (f : Forwarder) (faces : FaceView) (face : FaceId) (m : Message) (now : Instant) :
    Forwarder × List Action :=
  let (pending, delivery) := f.pending.deliver m now
  let targets := Strategy.forReply faces face delivery.faces
  let f := { f with pending }
  (f.meter fun s =>
    { s with
      returnsReceived := s.returnsReceived.increment
      returnsSent := s.returnsSent.add targets.length },
    fanOut m targets .low)

/-! ## Events -/

def dispatch (f : Forwarder) (faces : FaceView) (face : FaceId) (m : Message) (clock : Clock) :
    Forwarder × List Action :=
  match m.kind with
  | .interest | .traceRequest => f.onRequest faces face m clock.now
  | .contentObject | .traceReply => f.onReply faces face m clock
  | .interestReturn => f.onReturn faces face m clock.now

/-- Deals with one packet received from a face. -/
def handleFrame (f : Forwarder) (faces : FaceView) (face : FaceId) (bytes : Octets)
    (clock : Clock) : Forwarder × List Action :=
  let f := f.meter fun s => { s with bytesReceived := s.bytesReceived.add bytes.length }
  match Message.parse bytes with
  | .error _ => (f.meter fun s => { s with malformed := s.malformed.increment }, [])
  | .ok m =>
    if f.accepts m then
      let (f, actions) := f.dispatch faces face m clock
      (f.meter fun s =>
        { s with pendingSize := .set f.pending.size, processed := s.processed.increment },
        actions)
    else
      let f := f.meter fun s => { s with validationFailures := s.validationFailures.increment }
      f.giveBack face m .malformedInterest

/-- Drops what has expired and sends the returns that are due. -/
def sweep (f : Forwarder) (now : Instant) : Forwarder × List Action :=
  let (pending, report) := f.pending.sweep now
  if report.ran then
    let f := { f with pending, cache := (f.cache.purge now).1 }
    (f.meter fun s =>
      { s with
        pendingExpirations := s.pendingExpirations.add report.expired
        pendingSize := .set pending.size
        returnsSent := s.returnsSent.add report.returns.length },
      report.returns.map fun (face, payload) => sendTo face payload .low)
  else (f, [])

def faceClosed (f : Forwarder) (face : FaceId) : Forwarder :=
  let f := { f with pending := f.pending.forget face, routes := (f.routes.forget face).1 }
  f.meterSizes

def addRoute (f : Forwarder) (name : Name) (face : FaceId) (flags : RouteFlags) (cost : UInt16) :
    Except RouteTableFull (Forwarder × RouteChange) :=
  match f.routes.add name face flags cost none with
  | .error e => .error e
  | .ok (routes, change) =>
    let f := { f with routes }
    .ok (f.meter fun s => { s with routesSize := .set routes.size }, change)

/-- Removes a route. A face to a neighbour that is left without any route is to be closed. -/
def removeRoute (f : Forwarder) (faces : FaceView) (name : Name) (face : FaceId) :
    Forwarder × RouteChange × List Action :=
  let (routes, change) := f.routes.remove name face none
  let f := { f with routes }
  let f := f.meter fun s => { s with routesSize := .set routes.size }
  let unused := change ≠ .notFound ∧ !routes.uses face ∧ !faces.isLocal face
  (f, change, if unused then [.closeFace face] else [])

/-! ## Status -/

structure Status where
  strategy : String
  suppression : SuppressionMode
  interestReturn : Bool
  pendingEntries : Nat
  pendingCapacity : Nat
  routeEntries : Nat
  cacheEntries : Nat
deriving DecidableEq, Repr

def status (f : Forwarder) : Status :=
  { strategy := f.strategy.setting
    suppression := f.suppression.mode
    interestReturn := f.interestReturn
    pendingEntries := f.pending.size
    pendingCapacity := f.pending.settings.capacity
    routeEntries := f.routes.size
    cacheEntries := f.cache.size }

end Forwarder
end NamedData
