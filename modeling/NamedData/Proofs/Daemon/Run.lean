import NamedData.Daemon.Control
import NamedData.Daemon.Rounds
import NamedData.Daemon.Startup
import NamedData.Proofs.Face.Peers
import NamedData.Proofs.Forwarding.Forgetting

/-!
# Runs of a daemon

A daemon deals with events of faces, failures of the transmission, control requests and sweeps in
any order. In between its listeners open faces, the readers of the faces post further events and
the transmission proceeds. For each of these the faces that are open, the framers and the
forwarder afterwards are given in terms of those before. A face is closed by an event or a failure
of its own, or by the removal of the last route through it.
-/

namespace NamedData

namespace Forwarder

variable {f f' : Forwarder} {faces : FaceView} {face g : FaceId} {bytes : Octets} {clock : Clock}
variable {actions : List Action}

theorem Handled.ne_closeFace {a : Action} (h : Handled f faces face bytes clock f' actions)
    (ha : a ∈ actions) (g : FaceId) : a ≠ .closeFace g := by
  rintro rfl
  have hreturns : ∀ m code, .closeFace g ∉ f.returnsOf face m code := by
    intro m code hmem
    unfold returnsOf at hmem
    split at hmem
    · cases List.mem_singleton.1 hmem
    · cases hmem
  have hfan : ∀ m targets priority, .closeFace g ∉ fanOut m targets priority := by
    intro m targets priority hmem
    obtain ⟨target, -, heq⟩ := List.mem_map.1 hmem
    cases heq
  cases h with
  | malformed | joined | held | dropped => cases ha
  | refused | exceeded | full | unrouted => exact hreturns _ _ ha
  | command =>
    split at ha
    · cases List.mem_singleton.1 ha
    · cases ha
  | cached | routed => cases List.mem_singleton.1 ha
  | delivered | returned => exact hfan _ _ _ ha

theorem ne_closeFace_of_mem_sweep {a : Action} {now : Instant} (ha : a ∈ (f.sweep now).2)
    (g : FaceId) : a ≠ .closeFace g := by
  rintro rfl
  rw [actions_sweep] at ha
  obtain ⟨returned, -, heq⟩ := List.mem_map.1 ha
  cases heq

theorem Sound.meter (h : f.Sound) (change : Metrics → Metrics) : (f.meter change).Sound :=
  ⟨h.pending, h.fits, h.returns, h.received, h.distinct⟩

end Forwarder

namespace Daemon

/-- What a daemon deals with, one thing at a time, and what goes on in between. -/
inductive Input
  | event (w : Surroundings) (event : FaceEvent)
  /-- The transmission has found that a face cannot be used any more. -/
  | failure (face : FaceId)
  | control (w : Surroundings) (request : ControlRequest)
  | sweep (w : Surroundings)
  /-- A listener opens a face, unless every number is in use. -/
  | opening (transport : Transport) (peer : Option SocketAddress)
  /-- Readers post events, and the transmission proceeds. -/
  | meanwhile (events : EventQueue) (pipeline : Pipeline)

def take (d : Daemon) : Input → Daemon
  | .event w event => d.handleEvent w event
  | .failure face => d.closeFace face
  | .control w request => (d.control w request).1
  | .sweep w => d.sweep w
  | .opening transport peer =>
    { d with faces := (d.faces.open? transport peer).elim d.faces Prod.snd }
  | .meanwhile events pipeline => { d with faces := { d.faces with events }, pipeline }

def run (d : Daemon) (inputs : List Input) : Daemon := inputs.foldl take d

/-- A daemon that has started from its settings, with routes added before it runs. -/
inductive Reachable : Daemon → Prop
  | start {settings started d} : Daemon.ofSettings settings started = .ok d → Reachable d
  | route {d name face flags cost d' change} : Reachable d →
      d.addRoute name face flags cost = .ok (d', change) → Reachable d'
  | take {d} (input : Input) : Reachable d → Reachable (d.take input)

variable {d d' : Daemon} {input : Input} {inputs : List Input} {w : Surroundings}
variable {face g : FaceId} {actions : List Action}

@[simp] theorem run_nil : d.run [] = d := rfl

@[simp] theorem run_cons : d.run (input :: inputs) = (d.take input).run inputs := rfl

theorem Reachable.run (h : d.Reachable) (inputs : List Input) : (d.run inputs).Reachable := by
  induction inputs generalizing d with
  | nil => exact h
  | cons input inputs ih => exact ih (h.take input)

/-- What is sent and what an administrator asks for is done without any change to the faces, the
framers and the forwarder. -/
theorem perform_eq {a : Action} (ha : ∀ g, a ≠ .closeFace g) (w : Surroundings) (d : Daemon) :
    ∃ pipeline stopping, d.perform w a = { d with pipeline, stopping } := by
  cases a with
  | send frame priority => exact ⟨_, _, rfl⟩
  | command command face request =>
    simp only [perform, administer]
    split <;> exact ⟨_, _, rfl⟩
  | closeFace face => exact absurd rfl (ha face)

theorem execute_eq (h : ∀ a ∈ actions, ∀ g, a ≠ .closeFace g) (w : Surroundings) (d : Daemon) :
    ∃ pipeline stopping, d.execute w actions = { d with pipeline, stopping } := by
  induction actions generalizing d with
  | nil => exact ⟨_, _, rfl⟩
  | cons a actions ih =>
    obtain ⟨ha, hlater⟩ := List.forall_mem_cons.1 h
    obtain ⟨pipeline, stopping, hperform⟩ := perform_eq ha w d
    obtain ⟨pipeline', stopping', hrest⟩ := ih hlater (d.perform w a)
    refine ⟨pipeline', stopping', ?_⟩
    rw [execute, List.foldl_cons]
    rw [execute] at hrest
    rw [hrest, hperform]

theorem handleFrame_eq (w : Surroundings) (face : FaceId) (d : Daemon) (frame : Frame) :
    ∃ pipeline stopping, d.handleFrame w face frame =
      { d with
        forwarder := (d.forwarder.step (.frame d.faces.view face frame.bytes w.clock)).1
        pipeline
        stopping } :=
  execute_eq (fun _ ha => (Forwarder.handled_handleFrame ..).ne_closeFace ha) w _

def packets (w : Surroundings) (faces : FaceView) (face : FaceId) (frames : List Frame) :
    List Forwarder.Event :=
  frames.map fun frame => .frame faces face frame.bytes w.clock

theorem foldl_handleFrame (w : Surroundings) (face : FaceId) (frames : List Frame) (d : Daemon) :
    ∃ pipeline stopping, frames.foldl (handleFrame w face) d =
      { d with forwarder := d.forwarder.run (packets w d.faces.view face frames), pipeline, stopping } := by
  induction frames generalizing d with
  | nil => exact ⟨_, _, rfl⟩
  | cons frame frames ih =>
    obtain ⟨pipeline, stopping, hframe⟩ := handleFrame_eq w face d frame
    obtain ⟨pipeline', stopping', hrest⟩ := ih (d.handleFrame w face frame)
    refine ⟨pipeline', stopping', ?_⟩
    rw [List.foldl_cons, hrest, hframe]
    rfl

/-- Received data goes to the framer of its face, and the packets that it completes go to the
forwarder one after another. -/
theorem take_received (w : Surroundings) (d : Daemon) (face : FaceId) (data : Octets) :
    ∃ change pipeline stopping, d.take (.event w (.received face data)) =
      { d with
        framers := (d.framers.receive face data).2
        forwarder := (d.forwarder.meter change).run
          (packets w d.faces.view face (d.framers.receive face data).1.frames)
        pipeline
        stopping } := by
  let change : Metrics → Metrics := fun m =>
    { m with framingDiscards := m.framingDiscards.add (d.framers.receive face data).1.discarded }
  obtain ⟨pipeline, stopping, hrun⟩ := foldl_handleFrame w face
    (d.framers.receive face data).1.frames
    { d with
      framers := (d.framers.receive face data).2
      forwarder := d.forwarder.meter change }
  exact ⟨change, pipeline, stopping, hrun⟩

theorem take_sweep (w : Surroundings) (d : Daemon) : ∃ pipeline stopping, d.take (.sweep w) =
    { d with forwarder := (d.forwarder.step (.sweep w.clock.now)).1, pipeline, stopping } :=
  execute_eq (fun _ ha => Forwarder.ne_closeFace_of_mem_sweep ha) w _

theorem isOpen_closeFace (d : Daemon) (face g : FaceId) :
    (d.closeFace face).faces.isOpen g = (d.faces.isOpen g && g ≠ face) := by
  change (d.faces.close face).isOpen g = _
  by_cases hg : g = face
  · simp [hg, FaceRegistry.isOpen_close]
  · simp [hg, FaceRegistry.isOpen_close_of_ne]

theorem framer_closeFace (d : Daemon) (face g : FaceId) :
    (d.closeFace face).framers.find? g = if g = face then none else d.framers.find? g := by
  change (d.framers.erase face).find? g = _
  split
  · rename_i h
    rw [h, Framers.find?_erase_self]
  · rename_i h
    exact Framers.find?_erase_of_ne _ h

namespace Small

/-- A daemon with the best route strategy that has just been made. -/
def daemon (s : Settings) : Daemon :=
  { forwarder := .fresh s .bestRoute
    faces := .empty (max s.eventCapacity 1) (some s.maxUdpFaces)
    pipeline := .ofSettings s.transmission (max s.eventCapacity 1)
    started := 0 }

/-- The clock stands still, and hosts are reached by their numbers only. -/
def surroundings : Surroundings where
  clock := ⟨0, 0⟩
  network :=
    { lookup := fun _ => .error "no such host"
      dial := fun _ => .ok ()
      transmit := fun _ _ => .ok () }
  pause := fun _ _ p => p

def received (face : UInt16) (data : Octets) : Input := .event surroundings (.received ⟨face⟩ data)

theorem reachable : (daemon {}).Reachable := by
  have hstrategy : Strategy.ofSetting? ({} : Settings).strategy = some .bestRoute :=
    Strategy.ofSetting?_setting .bestRoute
  have hstart : Daemon.ofSettings {} 0 = .ok (daemon {}) := by
    rw [ofSettings, Settings.fault?_default, Forwarder.ofSettings, hstrategy]
    rfl
  exact .start hstart

end Small

end Daemon
end NamedData
