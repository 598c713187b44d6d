import NamedData.Packet.Draft
import NamedData.Proofs.Forwarding.Handling

/-!
# Runs of a forwarder

A run is a list of events, each of which changes the forwarder and asks for
actions. `Moves` lists what one event can do to the pending table; what every
run preserves is proved along its cases.
-/

namespace NamedData.Forwarder

open PendingTable

inductive Event
  | frame (faces : FaceView) (face : FaceId) (bytes : Octets) (clock : Clock)
  | sweep (now : Instant)
  | faceClosed (face : FaceId)
  | addRoute (name : Name) (face : FaceId) (flags : RouteFlags) (cost : UInt16)
  | removeRoute (faces : FaceView) (name : Name) (face : FaceId)

namespace Event

/-- The time of an event; changes of faces and routes do not depend on it. -/
def time? : Event → Option Instant
  | .frame _ _ _ clock => some clock.now
  | .sweep now => some now
  | .faceClosed _ | .addRoute .. | .removeRoute .. => none

def octets? : Event → Option Octets
  | .frame _ _ bytes _ => some bytes
  | .sweep _ | .faceClosed _ | .addRoute .. | .removeRoute .. => none

def packet? : Event → Option (FaceId × Message)
  | .frame _ face bytes _ => (Message.parse bytes).toOption.map (face, ·)
  | .sweep _ | .faceClosed _ | .addRoute .. | .removeRoute .. => none

/-- Whether an event brings a request of a face for a key. -/
def asks (e : Event) (g : FaceId) (key : PendingKey) : Bool :=
  e.packet?.any fun (face, m) => face = g && m.kind.isRequest && key ∈ m.requestKeys

/-- Whether an event brings a reply or a return with a name and a chunk. -/
def brings (e : Event) (n : Name) (c : Option UInt32) : Bool :=
  e.packet?.any fun (_, m) => !m.kind.isRequest && m.name = n && m.chunk = c

variable {faces : FaceView} {face g : FaceId} {bytes : Octets} {clock : Clock} {m : Message}

theorem packet?_frame (h : Message.parse bytes = .ok m) :
    (frame faces face bytes clock).packet? = some (face, m) := by
  simp [packet?, h, Except.toOption]

theorem asks_frame {key : PendingKey} (h : Message.parse bytes = .ok m) :
    (frame faces face bytes clock).asks g key ↔
      face = g ∧ m.kind.isRequest ∧ key ∈ m.requestKeys := by
  simp [asks, packet?_frame h, and_assoc]

end Event

/-- What an event makes of a forwarder, and what it asks for. -/
def step (f : Forwarder) : Event → Forwarder × List Action
  | .frame faces face bytes clock => f.handleFrame faces face bytes clock
  | .sweep now => f.sweep now
  | .faceClosed face => (f.faceClosed face, [])
  | .addRoute name face flags cost =>
    match f.addRoute name face flags cost with
    | .ok (f, _) => (f, [])
    | .error _ => (f, [])
  | .removeRoute faces name face =>
    let (f, _, actions) := f.removeRoute faces name face
    (f, actions)

def run (f : Forwarder) (events : List Event) : Forwarder :=
  events.foldl (fun f e => (f.step e).1) f

/-- A forwarder made from settings that has not seen any event. It may let packets
in, and tell repetitions apart, as it likes. -/
def Built (f : Forwarder) : Prop :=
  ∃ (s : Settings) (f₀ : Forwarder), ofSettings s = .ok f₀ ∧
    f = { f₀ with accepts := f.accepts, suppression := f.suppression }

def Reachable (f : Forwarder) : Prop :=
  ∃ (f₀ : Forwarder) (events : List Event), f₀.Built ∧ f = f₀.run events

/-- For how long a request waits. -/
def lifetimeOf (f : Forwarder) (m : Message) : Nat :=
  (PendingRequest.ofMessage m f.pending.settings.defaultLifetime).lifetime

variable {f : Forwarder} {e : Event} {events : List Event}

@[simp] theorem run_nil : f.run [] = f := rfl

@[simp] theorem run_cons : f.run (e :: events) = (f.step e).1.run events := rfl

theorem run_append (past events : List Event) : f.run (past ++ events) = (f.run past).run events :=
  List.foldl_append ..

theorem Reachable.run (h : f.Reachable) (events : List Event) : (f.run events).Reachable := by
  obtain ⟨f₀, past, hbuilt, rfl⟩ := h
  exact ⟨f₀, past ++ events, hbuilt, (run_append past events).symm⟩

/-- What an event can do to the pending table. -/
inductive Moves (f : Forwarder) : Event → PendingTable → Prop
  | same {e : Event} : Moves f e f.pending
  | entered {faces face bytes clock m hop st} : f.Requests bytes m →
      Enters f.suppression (f.entrant face m hop clock.now) f.pending
        (f.entrant face m hop clock.now).request.keys st →
      Moves f (.frame faces face bytes clock) st.table
  | noted {faces face bytes clock m hop st targets} : f.Requests bytes m →
      Enters f.suppression (f.entrant face m hop clock.now) f.pending
        (f.entrant face m hop clock.now).request.keys st →
      Moves f (.frame faces face bytes clock)
        (st.keys.foldl (fun t key => t.update key (·.addAllOnward targets)) st.table)
  | withdrawn {faces face bytes clock m hop front rest st} : f.Requests bytes m →
      (f.entrant face m hop clock.now).request.keys = front ++ rest →
      Enters f.suppression (f.entrant face m hop clock.now) f.pending front st →
      Moves f (.frame faces face bytes clock) (st.table.releaseAll face st.keys)
  | matched {faces face bytes clock m} : Message.parse bytes = .ok m →
      m.kind.isRequest = false →
      Moves f (.frame faces face bytes clock) (f.pending.deliver m clock.now).1
  | swept {now} : Moves f (.sweep now) (f.pending.sweep now).1
  | forgot {face} : Moves f (.faceClosed face) (f.pending.forget face)

theorem moves_of_handled {faces : FaceView} {face : FaceId} {bytes : Octets} {clock : Clock}
    {f' : Forwarder} {actions : List Action} (h : Handled f faces face bytes clock f' actions) :
    Moves f (.frame faces face bytes clock) f'.pending := by
  cases h with
  | malformed | refused | command | exceeded => exact .same
  | full _ hreq _ _ henter =>
    obtain ⟨front, key, rest, hkeys, hfront, -⟩ := enters_of_enter_error henter
    exact .withdrawn hreq hkeys hfront
  | joined _ hreq _ _ henter => exact .entered hreq (enters_of_enter henter)
  | cached _ hreq _ _ henter | unrouted _ hreq _ henter =>
    exact .withdrawn hreq (List.append_nil _).symm (enters_of_enter henter)
  | held _ hreq _ henter => exact .entered hreq (enters_of_enter henter)
  | routed _ hreq _ henter => exact .noted hreq (enters_of_enter henter)
  | dropped _ hparse _ hkind | delivered _ hparse _ hkind =>
    exact .matched hparse (PacketKind.isRequest_of_reply hkind)
  | returned _ hparse _ hkind =>
    exact .matched hparse (by simp [hkind, PacketKind.isRequest])

theorem sweep_cases (f : Forwarder) (now : Instant) :
    (f.pending.sweeps now = false ∧ f.sweep now = (f, [])) ∨
      f.pending.sweeps now ∧ ∃ μ, f.sweep now =
        ({ f with
            pending := (f.pending.sweep now).1
            cache := (f.cache.purge now).1
            metrics := μ },
          (f.pending.sweep now).2.returns.map fun (face, payload) => sendTo face payload .low) := by
  cases hrun : f.pending.sweeps now with
  | false =>
    have hsame := sweep_of_not_sweeps hrun
    exact .inl ⟨rfl, by simp [sweep, hsame]⟩
  | true =>
    refine .inr ⟨rfl, ?_⟩
    simp only [sweep, ran_sweep hrun, if_true, meter]
    exact ⟨_, rfl⟩

theorem pending_sweep (f : Forwarder) (now : Instant) :
    (f.sweep now).1.pending = (f.pending.sweep now).1 := by
  rcases f.sweep_cases now with ⟨hrun, hsame⟩ | ⟨-, μ, hswept⟩
  · rw [hsame, sweep_of_not_sweeps hrun]
  · rw [hswept]

theorem actions_sweep (f : Forwarder) (now : Instant) :
    (f.sweep now).2 =
      (f.pending.sweep now).2.returns.map fun (face, payload) => sendTo face payload .low := by
  rcases f.sweep_cases now with ⟨hrun, hsame⟩ | ⟨-, μ, hswept⟩
  · rw [hsame, sweep_of_not_sweeps hrun]
    rfl
  · rw [hswept]

/-- Routes are added and removed without any other change. All that is asked for is that a face
be closed. -/
theorem step_addRoute (f : Forwarder) (name : Name) (face : FaceId) (flags : RouteFlags)
    (cost : UInt16) : ∃ routes metrics,
      f.step (.addRoute name face flags cost) = ({ f with routes, metrics }, []) := by
  simp only [step, addRoute]
  cases f.routes.add name face flags cost none <;> exact ⟨_, _, rfl⟩

theorem step_removeRoute (f : Forwarder) (faces : FaceView) (name : Name) (face : FaceId) :
    ∃ routes metrics actions,
      f.step (.removeRoute faces name face) = ({ f with routes, metrics }, actions) ∧
        ∀ a ∈ actions, a = .closeFace face := by
  have hclose : ∀ (unused : Prop) [Decidable unused] (a : Action),
      a ∈ (if unused then [Action.closeFace face] else []) → a = .closeFace face := by
    intro unused _ a ha
    split at ha
    · exact List.mem_singleton.1 ha
    · exact absurd ha List.not_mem_nil
  exact ⟨_, _, _, rfl, hclose _⟩

/-- Every event moves the pending table in one of these ways. -/
theorem moves_step (f : Forwarder) (e : Event) : Moves f e (f.step e).1.pending := by
  cases e with
  | frame faces face bytes clock => exact moves_of_handled (handled_handleFrame ..)
  | sweep now =>
    change Moves f _ (f.sweep now).1.pending
    rw [pending_sweep]
    exact .swept
  | faceClosed face => exact .forgot
  | addRoute name face flags cost =>
    obtain ⟨routes, metrics, hstep⟩ := f.step_addRoute name face flags cost
    rw [hstep]
    exact .same
  | removeRoute faces name face => exact .same

theorem step_eq (f : Forwarder) (e : Event) :
    ∃ pending routes cache metrics,
      (f.step e).1 = { f with pending, routes, cache, metrics } := by
  have hframe : ∀ {faces face bytes clock f' actions}, Handled f faces face bytes clock f' actions →
      ∃ pending routes cache metrics, f' = { f with pending, routes, cache, metrics } := by
    intro faces face bytes clock f' actions h
    cases h <;> exact ⟨_, _, _, _, rfl⟩
  cases e with
  | frame faces face bytes clock => exact hframe (handled_handleFrame ..)
  | sweep now =>
    rcases f.sweep_cases now with ⟨-, hsame⟩ | ⟨-, μ, hswept⟩
    · rw [step, hsame]
      exact ⟨_, _, _, _, rfl⟩
    · rw [step, hswept]
      exact ⟨_, _, _, _, rfl⟩
  | faceClosed face => exact ⟨_, _, _, _, rfl⟩
  | addRoute name face flags cost =>
    obtain ⟨routes, metrics, hstep⟩ := f.step_addRoute name face flags cost
    exact ⟨_, _, _, _, congrArg Prod.fst hstep⟩
  | removeRoute faces name face => exact ⟨_, _, _, _, rfl⟩

theorem run_eq (f : Forwarder) (events : List Event) :
    ∃ pending routes cache metrics, f.run events = { f with pending, routes, cache, metrics } := by
  induction events generalizing f with
  | nil => exact ⟨_, _, _, _, rfl⟩
  | cons e events ih =>
    obtain ⟨pending, routes, cache, metrics, hstep⟩ := f.step_eq e
    obtain ⟨pending', routes', cache', metrics', hrun⟩ := ih (f.step e).1
    exact ⟨pending', routes', cache', metrics', by rw [run_cons, hrun, hstep]⟩

theorem accepts_run (f : Forwarder) (events : List Event) :
    (f.run events).accepts = f.accepts := by
  obtain ⟨pending, routes, cache, metrics, hrun⟩ := f.run_eq events
  rw [hrun]

theorem suppression_run (f : Forwarder) (events : List Event) :
    (f.run events).suppression = f.suppression := by
  obtain ⟨pending, routes, cache, metrics, hrun⟩ := f.run_eq events
  rw [hrun]

theorem interestReturn_run (f : Forwarder) (events : List Event) :
    (f.run events).interestReturn = f.interestReturn := by
  obtain ⟨pending, routes, cache, metrics, hrun⟩ := f.run_eq events
  rw [hrun]

/-- A forwarder with some strategy, before any event. -/
def fresh (s : Settings) (strategy : Strategy) : Forwarder :=
  { pending := .empty s.pending
    routes := .empty s.routes.capacity
    cache := .empty (if s.cache.enabled then s.cache.capacity else 0) s.cache.defaultCacheTime
    strategy
    suppression := .ofMode s.pending.suppression
    accepts := fun _ => true
    interestReturn := s.interestReturn
    hopLimitReturnCode := s.hopLimitReturnCode }

theorem built_fresh {s : Settings} {strategy : Strategy}
    (h : Strategy.ofSetting? s.strategy = some strategy) : (fresh s strategy).Built := by
  refine ⟨s, fresh s strategy, ?_, rfl⟩
  rw [ofSettings, h]
  rfl

namespace Small

def name : Name := ⟨[[97]]⟩

def key : Digest := ⟨List.replicate 32 170, rfl⟩

def faces : FaceView := ⟨fun _ => some .udp, fun _ => true⟩

def octets (d : Draft) : Octets := d.encode.toOption.getD []

def frame (face : UInt16) (d : Draft) (now : Instant) : Event :=
  .frame faces ⟨face⟩ (octets d) ⟨now, 0⟩

theorem exists_parse (bytes : Octets) (p : Message → Bool)
    (h : (Message.parse bytes).toOption.any p) : ∃ m, Message.parse bytes = .ok m ∧ p m := by
  cases hparse : Message.parse bytes with
  | error e => simp [hparse, Except.toOption] at h
  | ok m => exact ⟨m, rfl, by simpa [hparse, Except.toOption] using h⟩

def route : Event := .addRoute name ⟨2⟩ .static 10

theorem built {s : Settings} (h : s.strategy = "default") : (fresh s .bestRoute).Built :=
  built_fresh (by rw [h]; exact Strategy.ofSetting?_setting .bestRoute)

def forwarder (s : Settings) : Forwarder := (fresh s .bestRoute).run [route]

theorem reachable {s : Settings} (h : s.strategy = "default") : (forwarder s).Reachable :=
  ⟨_, _, built h, rfl⟩

end Small
end NamedData.Forwarder
