import NamedData.Proofs.Forwarding.Entering
import NamedData.Proofs.Packet.Kind

/-!
# What becomes of a packet

A packet leaves the forwarder by one of a dozen exits. `Handled` lists them, each
with all that holds there: what the packet is, which checks it has passed, what
the tables are afterwards and what is asked for. The meters are left open but for the
one that counts the requests for which the pending table had no room.
-/

namespace NamedData

def Action.reaches (g : FaceId) : Action → Bool
  | .send frame _ => g ∈ frame.faces
  | .command .. | .closeFace _ => false

def Message.restrictions (m : Message) : Restrictions :=
  ⟨m.keyIdRestriction, m.objectHashRestriction⟩

namespace Forwarder

open PendingTable

def entrant (f : Forwarder) (face : FaceId) (m : Message) (hop : HopLimit) (now : Instant) :
    Entrant :=
  { face
    request := .ofMessage m f.pending.settings.defaultLifetime
    deferred :=
      if hop = .exhausted ∧ f.interestReturn ∧ m.kind = .interest then
        some (m.toInterestReturn f.hopLimitReturnCode)
      else none
    now }

@[simp] theorem face_entrant (f : Forwarder) (face : FaceId) (m : Message) (hop : HopLimit)
    (now : Instant) : (f.entrant face m hop now).face = face := rfl

@[simp] theorem map_fst_keys_entrant (f : Forwarder) (face : FaceId) (m : Message) (hop : HopLimit)
    (now : Instant) : (f.entrant face m hop now).request.keys.map (·.1) = m.requestKeys := rfl

def entering (f : Forwarder) (face : FaceId) (m : Message) (hop : HopLimit) (now : Instant) :
    Except Entered Entered :=
  enter f.suppression (f.entrant face m hop now) f.pending

def probed (f : Forwarder) (m : Message) (now : Instant) : Cache :=
  if cacheable m then (f.cache.lookup m.name m.chunk now).1 else f.cache

def stored? (f : Forwarder) (m : Message) (now : Instant) : Option Message :=
  if cacheable m then (f.cache.lookup m.name m.chunk now).2.filter m.restrictions.accept else none

/-- The registered name that a request is routed by, with the faces that it is sent to. -/
def hops? (f : Forwarder) (faces : FaceView) (face : FaceId) (m : Message) :
    Option (Name × List FaceId) :=
  (f.routes.longestMatch m.name).map fun e => (e.name, f.strategy.forInterest faces face e)

def returnsOf (f : Forwarder) (face : FaceId) (m : Message) (code : ReturnCode) : List Action :=
  if f.interestReturn ∧ m.kind = .interest then [sendTo face (m.toInterestReturn code) .low] else []

def targets (f : Forwarder) (faces : FaceView) (face : FaceId) (m : Message) (now : Instant) :
    List FaceId :=
  Strategy.forReply faces face (f.pending.deliver m now).2.faces

/-- The routes after a reply has been counted on those of its name. -/
def credited (f : Forwarder) (m : Message) (targets : List FaceId) : RouteTable :=
  match f.routes.longestMatch m.name with
  | some e => f.routes.countAll e.name targets .object
  | none => f.routes

/-- The packet is a request that is let in and is no command. -/
structure Requests (f : Forwarder) (bytes : Octets) (m : Message) : Prop where
  parse : Message.parse bytes = .ok m
  accepted : f.accepts m
  request : m.kind.isRequest
  noCommand : command? m = none

/-- What becomes of a packet, one case for each exit. -/
inductive Handled (f : Forwarder) (faces : FaceView) (face : FaceId) (bytes : Octets)
    (clock : Clock) : Forwarder → List Action → Prop
  | malformed {e} (μ : Metrics) : Message.parse bytes = .error e →
      μ.pendingFull = f.metrics.pendingFull →
      Handled f faces face bytes clock { f with metrics := μ } []
  | refused {m} (μ : Metrics) : Message.parse bytes = .ok m → f.accepts m = false →
      μ.pendingFull = f.metrics.pendingFull →
      Handled f faces face bytes clock { f with metrics := μ }
        (f.returnsOf face m .malformedInterest)
  | command {m c} (μ : Metrics) : Message.parse bytes = .ok m → f.accepts m →
      m.kind = .interest → Command.ofName? m.name = some c →
      μ.pendingFull = f.metrics.pendingFull →
      Handled f faces face bytes clock { f with metrics := μ }
        (if faces.isLocal face then [.command c face m] else [])
  | exceeded {m} (μ : Metrics) : f.Requests bytes m →
      HopLimit.ofMessage (faces.isLocal face) m = .exceeded →
      μ.pendingFull = f.metrics.pendingFull →
      Handled f faces face bytes clock { f with metrics := μ }
        (f.returnsOf face m .hopLimitExceeded)
  | full {m hop st} (μ : Metrics) :
      f.Requests bytes m →
      HopLimit.ofMessage (faces.isLocal face) m = hop → hop ≠ .exceeded →
      f.entering face m hop clock.now = .error st →
      μ.pendingFull = f.metrics.pendingFull.increment →
      Handled f faces face bytes clock
        { f with pending := st.table.releaseAll face st.keys, metrics := μ }
        (f.returnsOf face m .noResources)
  | joined {m hop st} (μ : Metrics) : f.Requests bytes m →
      HopLimit.ofMessage (faces.isLocal face) m = hop → hop ≠ .exceeded →
      f.entering face m hop clock.now = .ok st → st.forward = false →
      μ.pendingFull = f.metrics.pendingFull →
      Handled f faces face bytes clock { f with pending := st.table, metrics := μ } []
  | cached {m hop st object} (μ : Metrics) : f.Requests bytes m →
      HopLimit.ofMessage (faces.isLocal face) m = hop → hop ≠ .exceeded →
      f.entering face m hop clock.now = .ok st → st.forward →
      f.stored? m clock.now = some object →
      μ.pendingFull = f.metrics.pendingFull →
      Handled f faces face bytes clock
        { f with
          pending := st.table.releaseAll face st.keys
          cache := f.probed m clock.now
          metrics := μ }
        [sendTo face object.raw .high]
  /-- The request has used up its hop limit. -/
  | held {m st} (μ : Metrics) : f.Requests bytes m →
      HopLimit.ofMessage (faces.isLocal face) m = .exhausted →
      f.entering face m .exhausted clock.now = .ok st → st.forward →
      f.stored? m clock.now = none →
      μ.pendingFull = f.metrics.pendingFull →
      Handled f faces face bytes clock
        { f with pending := st.table, cache := f.probed m clock.now, metrics := μ } []
  | routed {m hopLimit st name targets} (μ : Metrics) : f.Requests bytes m →
      HopLimit.ofMessage (faces.isLocal face) m = .remaining hopLimit →
      f.entering face m (.remaining hopLimit) clock.now = .ok st → st.forward →
      f.stored? m clock.now = none →
      f.hops? faces face m = some (name, targets) → targets ≠ [] →
      μ.pendingFull = f.metrics.pendingFull →
      Handled f faces face bytes clock
        { f with
          pending := st.keys.foldl (fun t key => t.update key (·.addAllOnward targets)) st.table
          cache := f.probed m clock.now
          routes := f.routes.countAll name targets .interest
          metrics := μ }
        [.send ⟨m.withHopLimit hopLimit, targets, .interest⟩
          (if m.kind = .traceRequest then .low else .normal)]
  | unrouted {m hopLimit st} (μ : Metrics) : f.Requests bytes m →
      HopLimit.ofMessage (faces.isLocal face) m = .remaining hopLimit →
      f.entering face m (.remaining hopLimit) clock.now = .ok st → st.forward →
      f.stored? m clock.now = none →
      (∀ name targets, f.hops? faces face m = some (name, targets) → targets = []) →
      μ.pendingFull = f.metrics.pendingFull →
      Handled f faces face bytes clock
        { f with
          pending := st.table.releaseAll face st.keys
          cache := f.probed m clock.now
          metrics := μ }
        (f.returnsOf face m .noRoute)
  | dropped {m} (μ : Metrics) : Message.parse bytes = .ok m → f.accepts m →
      m.kind = .contentObject ∨ m.kind = .traceReply →
      f.targets faces face m clock.now = [] →
      μ.pendingFull = f.metrics.pendingFull →
      Handled f faces face bytes clock
        { f with pending := (f.pending.deliver m clock.now).1, metrics := μ } []
  | delivered {m} (μ : Metrics) : Message.parse bytes = .ok m → f.accepts m →
      m.kind = .contentObject ∨ m.kind = .traceReply →
      f.targets faces face m clock.now ≠ [] →
      μ.pendingFull = f.metrics.pendingFull →
      Handled f faces face bytes clock
        { f with
          pending := (f.pending.deliver m clock.now).1
          cache := if m.kind = .contentObject then f.cache.put m clock.now clock.wall else f.cache
          routes := f.credited m (f.targets faces face m clock.now)
          metrics := μ }
        (fanOut m (f.targets faces face m clock.now)
          (if m.kind = .contentObject then .high else .low))
  | returned {m} (μ : Metrics) : Message.parse bytes = .ok m → f.accepts m →
      m.kind = .interestReturn →
      μ.pendingFull = f.metrics.pendingFull →
      Handled f faces face bytes clock
        { f with pending := (f.pending.deliver m clock.now).1, metrics := μ }
        (fanOut m (f.targets faces face m clock.now) .low)

variable {f : Forwarder} {faces : FaceView} {face : FaceId} {bytes : Octets} {clock : Clock}
variable {m : Message} {hop : HopLimit}

theorem nodup_targets {now : Instant} : (f.targets faces face m now).Nodup :=
  nodup_faces_deliver.filter _

/-- A reply or return that is let in is matched against the pending table, and a copy goes to
each of its targets. Nothing comes of one that is not let in. -/
theorem Handled.reply {f' : Forwarder} {actions : List Action}
    (h : Handled f faces face bytes clock f' actions) (hparse : Message.parse bytes = .ok m)
    (hkind : m.kind.isRequest = false) :
    (f.accepts m = false ∧ f'.pending = f.pending ∧ actions = []) ∨
      f.accepts m ∧ f'.pending = (f.pending.deliver m clock.now).1 ∧
        actions = fanOut m (f.targets faces face m clock.now)
          (if m.kind = .contentObject then .high else .low) := by
  have hnone : ∀ {d}, f.Requests bytes d → False := by
    intro d hreq
    have hrequest := hreq.request
    rw [Message.eq_of_parse hparse hreq.parse, hkind] at hrequest
    exact absurd hrequest (by simp)
  cases h with
  | malformed _ herror =>
    rw [hparse] at herror
    cases herror
  | refused _ hd hrefused =>
    obtain rfl := Message.eq_of_parse hparse hd
    refine .inl ⟨hrefused, rfl, if_neg ?_⟩
    rintro ⟨-, hinterest⟩
    rw [hinterest] at hkind
    cases hkind
  | command _ hd _ hinterest =>
    rw [Message.eq_of_parse hparse hd] at hinterest
    rw [hinterest] at hkind
    cases hkind
  | exceeded _ hreq | full _ hreq | joined _ hreq | cached _ hreq | held _ hreq | routed _ hreq
  | unrouted _ hreq => exact (hnone hreq).elim
  | dropped _ hd haccepts _ htargets =>
    obtain rfl := Message.eq_of_parse hparse hd
    rw [htargets]
    exact .inr ⟨haccepts, rfl, rfl⟩
  | delivered _ hd haccepts =>
    obtain rfl := Message.eq_of_parse hparse hd
    exact .inr ⟨haccepts, rfl, rfl⟩
  | returned _ hd haccepts hreturn =>
    obtain rfl := Message.eq_of_parse hparse hd
    rw [if_neg (by simp [hreturn])]
    exact .inr ⟨haccepts, rfl, rfl⟩

theorem Handled.target_of_reaches {f' : Forwarder} {actions : List Action} {a : Action}
    {g : FaceId} (h : Handled f faces face bytes clock f' actions)
    (hparse : Message.parse bytes = .ok m) (hkind : m.kind.isRequest = false) (ha : a ∈ actions)
    (hg : a.reaches g) :
    g ∈ f.targets faces face m clock.now ∧ ∃ priority, a = sendTo g m.raw priority := by
  rcases h.reply hparse hkind with ⟨-, -, hnone⟩ | ⟨-, -, hfan⟩
  · rw [hnone] at ha
    exact absurd ha List.not_mem_nil
  · rw [hfan] at ha
    obtain ⟨target, htarget, rfl⟩ := List.mem_map.1 ha
    obtain rfl : g = target := by simpa [Action.reaches, sendTo] using hg
    exact ⟨htarget, _, rfl⟩

theorem Handled.reaches_iff {f' : Forwarder} {actions : List Action} {g : FaceId}
    (h : Handled f faces face bytes clock f' actions) (hparse : Message.parse bytes = .ok m)
    (hkind : m.kind.isRequest = false) :
    (∃ a ∈ actions, a.reaches g) ↔ f.accepts m ∧ g ∈ f.targets faces face m clock.now := by
  rcases h.reply hparse hkind with ⟨hrefused, -, hnone⟩ | ⟨haccepts, -, hfan⟩
  · simp [hnone, hrefused]
  · simp [hfan, haccepts, fanOut, Action.reaches, sendTo]

theorem Handled.pending_eq {f' : Forwarder} {actions : List Action}
    (h : Handled f faces face bytes clock f' actions) (hparse : Message.parse bytes = .ok m)
    (hkind : m.kind.isRequest) (hnot : ¬f.Requests bytes m) : f'.pending = f.pending := by
  cases h with
  | malformed | refused | command | exceeded => rfl
  | full _ hreq | joined _ hreq | cached _ hreq | held _ hreq | routed _ hreq | unrouted _ hreq =>
    exact absurd (Message.eq_of_parse hparse hreq.parse ▸ hreq) hnot
  | dropped _ hd _ hreply | delivered _ hd _ hreply =>
    rw [← Message.eq_of_parse hparse hd, PacketKind.isRequest_of_reply hreply] at hkind
    cases hkind
  | returned _ hd _ hreturn =>
    rw [← Message.eq_of_parse hparse hd, hreturn] at hkind
    cases hkind

def nextHops (f : Forwarder) (faces : FaceView) (face : FaceId) (m : Message) :
    HopLimit → List FaceId
  | .remaining _ => ((f.hops? faces face m).map (·.2)).getD []
  | .exceeded | .exhausted => []

def onwardActions (f : Forwarder) (faces : FaceView) (face : FaceId) (m : Message) :
    HopLimit → List Action
  | .remaining hopLimit =>
    [.send ⟨m.withHopLimit hopLimit, f.nextHops faces face m (.remaining hopLimit), .interest⟩
      (if m.kind = .traceRequest then .low else .normal)]
  | .exceeded | .exhausted => []

/-- The pending table after a request that is let in and is no command, and what is sent for it. -/
def fate (f : Forwarder) (faces : FaceView) (face : FaceId) (m : Message) (now : Instant) :
    PendingTable × List Action :=
  let hop := HopLimit.ofMessage (faces.isLocal face) m
  let hops := f.nextHops faces face m hop
  if hop = .exceeded then (f.pending, f.returnsOf face m .hopLimitExceeded)
  else
    match f.entering face m hop now with
    | .error st => (st.table.releaseAll face st.keys, f.returnsOf face m .noResources)
    | .ok st =>
      if st.forward = false then (st.table, [])
      else
        match f.stored? m now with
        | some object => (st.table.releaseAll face st.keys, [sendTo face object.raw .high])
        | none =>
          if hop = .exhausted then (st.table, [])
          else if hops = [] then (st.table.releaseAll face st.keys, f.returnsOf face m .noRoute)
          else
            (st.keys.foldl (fun t key => t.update key (·.addAllOnward hops)) st.table,
              f.onwardActions faces face m hop)

theorem Handled.fate_eq {f' : Forwarder} {actions : List Action}
    (h : Handled f faces face bytes clock f' actions) (hreq : f.Requests bytes m) :
    f.fate faces face m clock.now = (f'.pending, actions) := by
  have hrequest := hreq.request
  cases h with
  | malformed _ herror =>
    rw [hreq.parse] at herror
    cases herror
  | refused _ hd hrefused =>
    rw [Message.eq_of_parse hreq.parse hd, hreq.accepted] at hrefused
    cases hrefused
  | command _ hd _ hinterest hname =>
    obtain rfl := Message.eq_of_parse hreq.parse hd
    have hcommand := hreq.noCommand
    rw [command?, if_pos hinterest, hname] at hcommand
    cases hcommand
  | exceeded _ hd hhop =>
    obtain rfl := Message.eq_of_parse hreq.parse hd.parse
    simp only [fate, hhop, if_true]
  | full _ hd hhop hpasses henter =>
    obtain rfl := Message.eq_of_parse hreq.parse hd.parse
    simp only [fate, hhop, if_neg hpasses, henter]
  | joined _ hd hhop hpasses henter hforward =>
    obtain rfl := Message.eq_of_parse hreq.parse hd.parse
    simp only [fate, hhop, if_neg hpasses, henter, hforward, if_true]
  | cached _ hd hhop hpasses henter hforward hobject =>
    obtain rfl := Message.eq_of_parse hreq.parse hd.parse
    simp [fate, hhop, hpasses, henter, hforward, hobject]
  | held _ hd hhop henter hforward hnone =>
    obtain rfl := Message.eq_of_parse hreq.parse hd.parse
    simp [fate, hhop, henter, hforward, hnone]
  | @routed d hopLimit st name targets _ hd hhop henter hforward hnone hhops htargets =>
    obtain rfl := Message.eq_of_parse hreq.parse hd.parse
    have hnext : f.nextHops faces face d (.remaining hopLimit) = targets := by
      simp [nextHops, hhops]
    simp [fate, onwardActions, hhop, henter, hforward, hnone, hnext, htargets]
  | @unrouted d hopLimit st _ hd hhop henter hforward hnone hhops =>
    obtain rfl := Message.eq_of_parse hreq.parse hd.parse
    have hnext : f.nextHops faces face d (.remaining hopLimit) = [] := by
      cases hfound : f.hops? faces face d with
      | none => simp [nextHops, hfound]
      | some found => simp [nextHops, hfound, hhops found.1 found.2 hfound]
    simp [fate, hhop, henter, hforward, hnone, hnext]
  | dropped _ hd _ hkind | delivered _ hd _ hkind =>
    rw [← Message.eq_of_parse hreq.parse hd, PacketKind.isRequest_of_reply hkind] at hrequest
    cases hrequest
  | returned _ hd _ hkind =>
    rw [← Message.eq_of_parse hreq.parse hd, hkind] at hrequest
    cases hrequest

def result (f : Forwarder) (faces : FaceView) (face : FaceId) (bytes : Octets) (clock : Clock) :
    PendingTable × List Action :=
  match Message.parse bytes with
  | .error _ => (f.pending, [])
  | .ok m =>
    if f.accepts m then
      if m.kind.isRequest then
        match command? m with
        | some c => (f.pending, if faces.isLocal face then [.command c face m] else [])
        | none => f.fate faces face m clock.now
      else
        ((f.pending.deliver m clock.now).1,
          fanOut m (f.targets faces face m clock.now)
            (if m.kind = .contentObject then .high else .low))
    else (f.pending, f.returnsOf face m .malformedInterest)

theorem Requests.result_eq (h : f.Requests bytes m) :
    f.result faces face bytes clock = f.fate faces face m clock.now := by
  simp only [result, h.parse, h.accepted, h.request, h.noCommand, if_true]

theorem Handled.result_eq {f' : Forwarder} {actions : List Action}
    (h : Handled f faces face bytes clock f' actions) :
    f.result faces face bytes clock = (f'.pending, actions) := by
  have hrequest : ∀ {d}, f.Requests bytes d →
      f.result faces face bytes clock = (f'.pending, actions) := fun hreq =>
    hreq.result_eq.trans (h.fate_eq hreq)
  have hreply : ∀ {d}, Message.parse bytes = .ok d → f.accepts d → d.kind.isRequest = false →
      f.result faces face bytes clock = (f'.pending, actions) := by
    intro d hparse haccepts hkind
    rcases h.reply hparse hkind with ⟨hrefused, -⟩ | ⟨-, hpending, hactions⟩
    · rw [haccepts] at hrefused
      cases hrefused
    · simp only [result, hparse, haccepts, hkind, if_true, hpending, hactions]
      rfl
  cases h with
  | malformed _ herror => simp only [result, herror]
  | refused _ hparse hrefused =>
    simp only [result, hparse, hrefused]
    rfl
  | command _ hparse haccepts hinterest hname =>
    have hcommand : command? _ = some _ := (if_pos hinterest).trans hname
    simp only [result, hparse, haccepts, hinterest, PacketKind.isRequest, hcommand, if_true]
  | exceeded _ hreq | full _ hreq | joined _ hreq | cached _ hreq | held _ hreq | routed _ hreq
  | unrouted _ hreq => exact hrequest hreq
  | dropped _ hparse haccepts hkind | delivered _ hparse haccepts hkind =>
    exact hreply hparse haccepts (PacketKind.isRequest_of_reply hkind)
  | returned _ hparse haccepts hkind =>
    exact hreply hparse haccepts (by simp [hkind, PacketKind.isRequest])

/-- An outcome is an exit, whatever else is counted afterwards. -/
abbrev Exits (f : Forwarder) (faces : FaceView) (face : FaceId) (bytes : Octets) (clock : Clock)
    (out : Forwarder × List Action) : Prop :=
  ∀ μ : Metrics, μ.pendingFull = out.1.metrics.pendingFull →
    Handled f faces face bytes clock { out.1 with metrics := μ } out.2

theorem giveBack_eq (g : Forwarder) (face : FaceId) (m : Message) (code : ReturnCode) :
    ∃ μ : Metrics, μ.pendingFull = g.metrics.pendingFull ∧
      g.giveBack face m code = ({ g with metrics := μ }, g.returnsOf face m code) := by
  unfold giveBack returnsOf
  split
  · exact ⟨{ g.metrics with returnsSent := g.metrics.returnsSent.increment }, rfl, rfl⟩
  · exact ⟨g.metrics, rfl, rfl⟩

theorem exits_giveBack {g : Forwarder} {code : ReturnCode}
    (h : ∀ μ : Metrics, μ.pendingFull = g.metrics.pendingFull →
      Handled f faces face bytes clock { g with metrics := μ } (g.returnsOf face m code)) :
    Exits f faces face bytes clock (g.giveBack face m code) := by
  obtain ⟨ν, hfull, hν⟩ := giveBack_eq g face m code
  rw [hν]
  exact fun μ hμ => h μ (hμ.trans hfull)

/-- A request is sent on, held or given back once it has been entered and the cache has nothing
for it. -/
theorem exits_route {st : Entered} (ν : Metrics) (hreq : f.Requests bytes m)
    (hhop : HopLimit.ofMessage (faces.isLocal face) m = hop) (hpasses : hop ≠ .exceeded)
    (henter : f.entering face m hop clock.now = .ok st) (hforward : st.forward)
    (hstored : f.stored? m clock.now = none) (hν : ν.pendingFull = f.metrics.pendingFull) :
    Exits f faces face bytes clock
      (route { f with pending := st.table, cache := f.probed m clock.now, metrics := ν } faces
        { face, message := m, request := .ofMessage m f.pending.settings.defaultLifetime, hop,
          keys := st.keys }) := by
  cases hop with
  | exceeded => exact absurd rfl hpasses
  | exhausted => exact fun μ hμ => .held μ hreq hhop henter hforward hstored (hμ.trans hν)
  | remaining hopLimit =>
    unfold route
    cases hhops : f.hops? faces face m with
    | none =>
      have hnone : ∀ name targets, f.hops? faces face m = some (name, targets) → targets = [] := by
        rw [hhops]
        exact nofun
      unfold hops? at hhops
      simp only [hhops]
      exact exits_giveBack fun μ hμ =>
        .unrouted μ hreq hhop henter hforward hstored hnone (hμ.trans hν)
    | some found =>
      obtain ⟨name, targets⟩ := found
      cases targets with
      | nil =>
        have hnone : ∀ name targets,
            f.hops? faces face m = some (name, targets) → targets = [] := by
          rw [hhops]
          rintro _ _ ⟨⟩
          rfl
        unfold hops? at hhops
        simp only [hhops]
        exact exits_giveBack fun μ hμ =>
          .unrouted μ hreq hhop henter hforward hstored hnone (hμ.trans hν)
      | cons target more =>
        have hrouted := fun μ => Handled.routed μ hreq hhop henter hforward hstored hhops (by simp)
        unfold hops? at hhops
        simp only [hhops]
        exact fun μ hμ => hrouted μ (hμ.trans hν)

/-- A request that has been entered and must go on is answered from the cache, or goes on to the
routes. -/
theorem exits_answer {st : Entered} (ν : Metrics) (hreq : f.Requests bytes m)
    (hhop : HopLimit.ofMessage (faces.isLocal face) m = hop) (hpasses : hop ≠ .exceeded)
    (henter : f.entering face m hop clock.now = .ok st) (hforward : st.forward)
    (hν : ν.pendingFull = f.metrics.pendingFull) :
    Exits f faces face bytes clock
      (answer { f with pending := st.table, metrics := ν } faces
        { face, message := m, request := .ofMessage m f.pending.settings.defaultLifetime, hop,
          keys := st.keys } clock.now) := by
  have hroute := fun ν => exits_route ν hreq hhop hpasses henter hforward
  unfold answer
  by_cases hcacheable : cacheable m
  · rw [if_pos hcacheable]
    have hprobed : f.probed m clock.now = (f.cache.lookup m.name m.chunk clock.now).1 :=
      if_pos hcacheable
    have hstored : f.stored? m clock.now =
        (f.cache.lookup m.name m.chunk clock.now).2.filter m.restrictions.accept :=
      if_pos hcacheable
    have hrestrictions :
        (PendingRequest.ofMessage m f.pending.settings.defaultLifetime).restrictions =
          m.restrictions := rfl
    simp only [hrestrictions]
    cases hfound : (f.cache.lookup m.name m.chunk clock.now).2.filter m.restrictions.accept with
    | some object =>
      have hcached := fun μ =>
        Handled.cached μ hreq hhop hpasses henter hforward (hstored.trans hfound)
      rw [hprobed] at hcached
      exact fun μ hμ => hcached μ (hμ.trans hν)
    | none =>
      rw [← hprobed]
      refine hroute _ (hstored.trans hfound) ?_
      exact hν
  · rw [if_neg hcacheable]
    have hprobed : f.probed m clock.now = f.cache := if_neg hcacheable
    have h := hroute ν (if_neg hcacheable) hν
    rw [hprobed] at h
    exact h

theorem exits_register (ν : Metrics) (hreq : f.Requests bytes m)
    (hhop : HopLimit.ofMessage (faces.isLocal face) m = hop) (hpasses : hop ≠ .exceeded)
    (hν : ν.pendingFull = f.metrics.pendingFull) :
    Exits f faces face bytes clock
      (register { f with metrics := ν } faces face m hop clock.now) := by
  have hentering : enter f.suppression (f.entrant face m hop clock.now) f.pending =
    f.entering face m hop clock.now := rfl
  unfold entrant at hentering
  unfold register
  simp only [hentering]
  cases henter : f.entering face m hop clock.now with
  | error st =>
    refine exits_giveBack fun μ hμ => .full μ hreq hhop hpasses henter ?_
    exact hμ.trans (congrArg Counter.increment hν)
  | ok st =>
    by_cases hforward : st.forward
    · simp only [hforward, if_true]
      refine exits_answer _ hreq hhop hpasses henter hforward ?_
      exact hν
    · simp only [hforward]
      exact fun μ hμ => .joined μ hreq hhop hpasses henter (by simpa using hforward) (hμ.trans hν)

theorem exits_limitHops (ν : Metrics) (hreq : f.Requests bytes m)
    (hν : ν.pendingFull = f.metrics.pendingFull) :
    Exits f faces face bytes clock
      (limitHops { f with metrics := ν } faces face m clock.now) := by
  unfold limitHops
  cases hhop : HopLimit.ofMessage (faces.isLocal face) m with
  | exceeded => exact exits_giveBack fun μ hμ => .exceeded μ hreq hhop (hμ.trans hν)
  | exhausted => exact exits_register ν hreq hhop (by simp) hν
  | remaining hopLimit => exact exits_register ν hreq hhop (by simp) hν

theorem exits_onRequest (ν : Metrics) (hparse : Message.parse bytes = .ok m)
    (haccepts : f.accepts m) (hkind : m.kind.isRequest)
    (hν : ν.pendingFull = f.metrics.pendingFull) :
    Exits f faces face bytes clock
      (onRequest { f with metrics := ν } faces face m clock.now) := by
  unfold onRequest
  cases hcommand : command? m with
  | none =>
    refine exits_limitHops _ ⟨hparse, haccepts, hkind, hcommand⟩ ?_
    exact hν
  | some c =>
    have hinterest : m.kind = .interest := by
      by_contra hne
      simp [command?, hne] at hcommand
    have hname : Command.ofName? m.name = some c := by
      rwa [command?, if_pos hinterest] at hcommand
    have hexit : ∀ μ : Metrics, μ.pendingFull = ν.pendingFull →
        Handled f faces face bytes clock { f with metrics := μ }
          (if faces.isLocal face then [.command c face m] else []) := fun μ hμ =>
      .command μ hparse haccepts hinterest hname (hμ.trans hν)
    by_cases hlocal : faces.isLocal face
    · simp only [hlocal, if_true] at hexit ⊢
      exact hexit
    · simp only [hlocal] at hexit ⊢
      exact hexit

theorem exits_onReply (ν : Metrics) (hparse : Message.parse bytes = .ok m)
    (haccepts : f.accepts m) (hkind : m.kind = .contentObject ∨ m.kind = .traceReply)
    (hν : ν.pendingFull = f.metrics.pendingFull) :
    Exits f faces face bytes clock (onReply { f with metrics := ν } faces face m clock) := by
  have htargets : Strategy.forReply faces face (f.pending.deliver m clock.now).2.faces =
    f.targets faces face m clock.now := rfl
  unfold onReply
  simp only [meter, htargets]
  by_cases hnone : f.targets faces face m clock.now = []
  · simp only [hnone, List.isEmpty_nil, if_true]
    exact fun μ hμ => .dropped μ hparse haccepts hkind hnone (hμ.trans hν)
  · have hsome : (f.targets faces face m clock.now).isEmpty = false := by simpa using hnone
    simp only [hsome]
    have hexit := fun μ => Handled.delivered μ hparse haccepts hkind hnone
    unfold credited at hexit
    cases hmatch : f.routes.longestMatch m.name with
    | none =>
      rw [hmatch] at hexit
      exact fun μ hμ => hexit μ (hμ.trans hν)
    | some e =>
      rw [hmatch] at hexit
      exact fun μ hμ => hexit μ (hμ.trans hν)

theorem exits_onReturn (ν : Metrics) (hparse : Message.parse bytes = .ok m)
    (haccepts : f.accepts m) (hkind : m.kind = .interestReturn)
    (hν : ν.pendingFull = f.metrics.pendingFull) :
    Exits f faces face bytes clock (onReturn { f with metrics := ν } faces face m clock.now) :=
  fun μ hμ => .returned μ hparse haccepts hkind (hμ.trans hν)

theorem exits_dispatch (ν : Metrics) (hparse : Message.parse bytes = .ok m)
    (haccepts : f.accepts m) (hν : ν.pendingFull = f.metrics.pendingFull) :
    Exits f faces face bytes clock (dispatch { f with metrics := ν } faces face m clock) := by
  unfold dispatch
  cases hkind : m.kind with
  | interest => exact exits_onRequest ν hparse haccepts (by rw [hkind]; rfl) hν
  | traceRequest => exact exits_onRequest ν hparse haccepts (by rw [hkind]; rfl) hν
  | contentObject => exact exits_onReply ν hparse haccepts (.inl hkind) hν
  | traceReply => exact exits_onReply ν hparse haccepts (.inr hkind) hν
  | interestReturn => exact exits_onReturn ν hparse haccepts hkind hν

/-- Every packet leaves by one of the exits. -/
theorem handled_handleFrame (f : Forwarder) (faces : FaceView) (face : FaceId) (bytes : Octets)
    (clock : Clock) :
    Handled f faces face bytes clock (f.handleFrame faces face bytes clock).1
      (f.handleFrame faces face bytes clock).2 := by
  unfold handleFrame
  cases hparse : Message.parse bytes with
  | error e => exact .malformed _ hparse rfl
  | ok m =>
    by_cases haccepts : f.accepts m
    · simp only [meter, haccepts, if_true]
      refine exits_dispatch _ hparse haccepts ?_ _ ?_
      · rfl
      · rfl
    · simp only [meter, haccepts]
      have hrefused : ∀ ν : Metrics, ν.pendingFull = f.metrics.pendingFull →
          Handled f faces face bytes clock
            ({ f with metrics := ν }.giveBack face m .malformedInterest).1
            ({ f with metrics := ν }.giveBack face m .malformedInterest).2 := by
        intro ν hν
        obtain ⟨μ, hfull, hμ⟩ := giveBack_eq { f with metrics := ν } face m .malformedInterest
        rw [hμ]
        exact .refused μ hparse (by simpa using haccepts) (hfull.trans hν)
      exact hrefused _ rfl

end Forwarder
end NamedData
