import NamedData.Proofs.Daemon.Requests

/-!
# What the inputs do to a daemon

Every input leaves the framer of a face as it was, feeds it, renews it or removes it. For the
forwarder every input is a run of events, in which packets come only from a face that has completed
some and routes are added only through open faces. A face is closed by an event or a failure of its
own, or by the removal of the last route through it.
-/

namespace NamedData.Daemon

variable {d : Daemon} {face : FaceId} {input : Input}

namespace Input

def opens (face : FaceId) : Input → Bool
  | .event _ (.opened g _) => g = face
  | _ => false

/-- The data of a face that an input brings. -/
def piece? (face : FaceId) : Input → Option Octets
  | .event _ (.received g data) => if g = face then some data else none
  | _ => none

/-- Whether an input makes the daemon close a face whatever else has happened. -/
def ends (face : FaceId) : Input → Bool
  | .event _ (.closed g) | .failure g => g = face
  | _ => false

end Input

def Closes (d : Daemon) (face : FaceId) (input : Input) : Prop :=
  input.ends face ∨ d.faces.isOpen face ∧ ¬(d.take input).faces.isOpen face

instance (d : Daemon) (face : FaceId) (input : Input) : Decidable (d.Closes face input) :=
  inferInstanceAs (Decidable (input.ends face ∨ _ ∧ _))

/-- The packets of a face that an input makes the daemon hand to the forwarder. -/
def hands (d : Daemon) (face : FaceId) (input : Input) : List Frame :=
  match input.piece? face with
  | some data => (d.framers.receive face data).1.frames
  | none => []

theorem isOpen_take_opening {transport : Transport} {peer : Option SocketAddress}
    (h : d.faces.isOpen face) : (d.take (.opening transport peer)).faces.isOpen face := by
  dsimp only [take]
  cases hopened : d.faces.open? transport peer with
  | none => exact h
  | some opened => simp [FaceRegistry.isOpen_of_open? hopened, h]

/-- An input leaves the framer of a face as it was, feeds it, renews it or removes it. -/
theorem framer_take (hpeers : d.faces.PeersOpen) (face : FaceId) (input : Input) :
    (d.take input).framers.find? face =
      if input.opens face then some {}
      else
        match input.piece? face with
        | some data => some (((d.framers.find? face).getD {}).push data).drain.2
        | none => if d.Closes face input then none else d.framers.find? face := by
  have hkept : (d.take input).framers = d.framers → (d.take input).faces.isOpen face =
      d.faces.isOpen face → input.ends face = false →
      (d.take input).framers.find? face =
        if d.Closes face input then none else d.framers.find? face := by
    intro hframers hopen hends
    simp [Closes, hframers, hopen, hends]
  have hclosed : ∀ g, (d.closeFace g).framers.find? face =
      if d.Closes face (.failure g) then none else d.framers.find? face := by
    intro g
    have hopen := d.isOpen_closeFace g face
    rw [framer_closeFace]
    by_cases hg : g = face
    · simp [Closes, Input.ends, hg]
    · simp [Closes, Input.ends, take, hopen, hg, Ne.symm hg]
  cases input with
  | event w event =>
    cases event with
    | opened g transport =>
      by_cases hg : g = face
      · simp [Input.opens, take, handleEvent, Framers.start, hg]
      · simp only [Input.opens, hg, decide_false, Bool.false_eq_true, if_false]
        have hother := Framers.find?_put_of_ne d.framers {} (Ne.symm hg)
        simpa [Input.piece?, Closes, Input.ends, take, handleEvent, Framers.start] using hother
    | received g data =>
      obtain ⟨change, pipeline, stopping, hreceive⟩ := take_received w d g data
      by_cases hg : g = face
      · rw [hreceive]
        simp [Input.opens, Input.piece?, hg, Framers.receive]
      · have hother := Framers.find?_put_of_ne d.framers
          (((d.framers.find? g).getD {}).push data).drain.2 (Ne.symm hg)
        simpa [Input.opens, Input.piece?, hg, hreceive, Closes, Input.ends,
          Framers.receive] using hother
    | closed g => exact hclosed g
  | failure g => exact hclosed g
  | control w request =>
    rcases control_cases w d request with hadds | hremoves
    · have hnone : ¬d.Closes face (.control w request) := by
        rintro (hends | ⟨hopen, hafter⟩)
        · cases hends
        · exact hafter (hadds.keeps face hopen)
      simp only [Input.opens, Input.piece?, hnone, Bool.false_eq_true, if_false]
      exact congrArg (·.find? face) hadds.framers
    · have hframer := hremoves.framer hpeers face
      simpa [Input.opens, Input.piece?, Closes, Input.ends, take] using hframer
  | sweep w =>
    obtain ⟨pipeline, stopping, hsweep⟩ := take_sweep w d
    exact hkept (by rw [hsweep]) (by rw [hsweep]) rfl
  | opening transport peer =>
    have hnone : ¬d.Closes face (.opening transport peer) := by
      rintro (hends | ⟨hopen, hafter⟩)
      · cases hends
      · exact hafter (isOpen_take_opening hopen)
    simp [Input.opens, Input.piece?, hnone, take]
  | meanwhile events pipeline => exact hkept rfl rfl rfl

/-- What an input makes of the forwarder is a run of events. Packets come only from a face that an
input brings packets of, and routes are added only through faces that are open afterwards. -/
theorem forwarder_take (hpeers : d.faces.PeersOpen) (input : Input) :
    ∃ change events, (d.take input).forwarder = (d.forwarder.meter change).run events ∧
      ∀ e ∈ events, ∀ g, (e.isFrom g → d.hands g input ≠ []) ∧
        (e.routesVia g → (d.take input).faces.isOpen g) := by
  have hsingle : ∀ e : Forwarder.Event, (∀ g, e.isFrom g = false ∧ e.routesVia g = false) →
      (d.take input).forwarder = (d.forwarder.step e).1 →
      ∃ change events, (d.take input).forwarder = (d.forwarder.meter change).run events ∧
        ∀ e ∈ events, ∀ g, (e.isFrom g → d.hands g input ≠ []) ∧
          (e.routesVia g → (d.take input).faces.isOpen g) := by
    intro e he hstep
    refine ⟨id, [e], hstep, ?_⟩
    intro e' he' g
    rw [List.mem_singleton.1 he', (he g).1, (he g).2]
    exact ⟨nofun, nofun⟩
  cases input with
  | event w event =>
    cases event with
    | opened g transport => exact ⟨id, [], rfl, nofun⟩
    | received face data =>
      obtain ⟨change, pipeline, stopping, hreceive⟩ := take_received w d face data
      refine ⟨change, _, by rw [hreceive], ?_⟩
      intro e he g
      obtain ⟨frame, hframe, rfl⟩ := List.mem_map.1 he
      refine ⟨?_, nofun⟩
      intro hfrom
      obtain rfl := of_decide_eq_true hfrom
      have hhands : d.hands face (.event w (.received face data)) =
          (d.framers.receive face data).1.frames := by
        simp [hands, Input.piece?]
      rw [hhands]
      exact List.ne_nil_of_mem hframe
    | closed face => exact hsingle (.faceClosed face) (fun _ => ⟨rfl, rfl⟩) rfl
  | failure face => exact hsingle (.faceClosed face) (fun _ => ⟨rfl, rfl⟩) rfl
  | control w request =>
    rcases control_cases w d request with hadds | hremoves
    · obtain ⟨events, hrun, hevents⟩ := hadds.forwarder hpeers
      exact ⟨id, events, hrun, fun e he g =>
        ⟨fun hfrom => absurd hfrom (hevents e he g).1, (hevents e he g).2⟩⟩
    · obtain ⟨events, hrun, hevents⟩ := hremoves.forwarder
      refine ⟨id, events, hrun, ?_⟩
      intro e he g
      have hnone := hevents e he g
      simp only [Forwarder.Event.introduces, Bool.or_eq_true, not_or] at hnone
      exact ⟨fun hfrom => absurd hfrom hnone.1, fun hroute => absurd hroute hnone.2⟩
  | sweep w =>
    obtain ⟨pipeline, stopping, hsweep⟩ := take_sweep w d
    exact hsingle (.sweep w.clock.now) (fun _ => ⟨rfl, rfl⟩) (by rw [hsweep])
  | opening transport peer => exact ⟨id, [], rfl, nofun⟩
  | meanwhile events pipeline => exact ⟨id, [], rfl, nofun⟩

theorem peersOpen_take (hpeers : d.faces.PeersOpen) (input : Input) :
    (d.take input).faces.PeersOpen := by
  cases input with
  | event w event =>
    cases event with
    | opened g transport => exact hpeers
    | received face data =>
      obtain ⟨change, pipeline, stopping, hreceive⟩ := take_received w d face data
      rw [hreceive]
      exact hpeers
    | closed face => exact hpeers.close face
  | failure face => exact hpeers.close face
  | control w request =>
    exact (control_cases w d request).elim (·.peers hpeers) (·.peers hpeers)
  | sweep w =>
    obtain ⟨pipeline, stopping, hsweep⟩ := take_sweep w d
    rw [hsweep]
    exact hpeers
  | opening transport peer =>
    dsimp only [take]
    cases hopened : d.faces.open? transport peer with
    | none => exact hpeers
    | some opened => exact hpeers.open? hopened
  | meanwhile events pipeline => exact hpeers

theorem Sound.take (h : d.Sound) (input : Input) : (d.take input).Sound := by
  refine ⟨?_, peersOpen_take h.peers input⟩
  obtain ⟨change, events, hrun, -⟩ := forwarder_take h.peers input
  rw [hrun]
  exact (h.forwarder.meter change).run events

theorem Reachable.sound (h : d.Reachable) : d.Sound := by
  induction h with
  | @start settings started d hstart =>
    unfold ofSettings at hstart
    split at hstart
    · cases hstart
    · cases hstart
    · rename_i forwarder _ hforwarder
      obtain rfl := Except.ok.inj hstart
      exact ⟨Forwarder.Built.sound ⟨settings, forwarder, hforwarder, rfl⟩, nofun⟩
  | @route d name face flags cost d' change _ hroute ih =>
    unfold addRoute at hroute
    split at hroute
    · cases hroute
    · rename_i forwarder _ hforwarder
      obtain ⟨rfl, -⟩ := Prod.mk.inj (Except.ok.inj hroute)
      have hstep := ih.forwarder.step (.addRoute name face flags cost)
      simp only [Forwarder.step, hforwarder] at hstep
      exact ⟨hstep, ih.peers⟩
  | take input _ ih => exact ih.take input

/-- A face is closed by an event or a failure of its own, or by a request that removes routes. -/
theorem closes_cases (h : d.Closes face input) :
    d.take input = d.closeFace face ∨
      d.Removes (d.take input) ∧ d.faces.isOpen face ∧ ¬(d.take input).faces.isOpen face := by
  have hkeeps : (d.faces.isOpen face → (d.take input).faces.isOpen face) → input.ends face :=
    fun hkept => h.resolve_right fun ⟨hopen, hafter⟩ => hafter (hkept hopen)
  have hclosed : ∀ g, d.take input = d.closeFace g → (input.ends face → g = face) →
      d.take input = d.closeFace face := by
    intro g htake hends
    by_cases hg : g = face
    · rw [htake, hg]
    · refine absurd (hends (hkeeps ?_)) hg
      rw [htake, isOpen_closeFace]
      simp [Ne.symm hg]
  cases input with
  | event w event =>
    cases event with
    | opened g transport => cases hkeeps id
    | received g data =>
      obtain ⟨change, pipeline, stopping, hreceive⟩ := take_received w d g data
      cases hkeeps fun hopen => by rwa [hreceive]
    | closed g => exact .inl (hclosed g rfl of_decide_eq_true)
  | failure g => exact .inl (hclosed g rfl of_decide_eq_true)
  | control w request =>
    obtain ⟨hopen, hafter⟩ := h.resolve_left Bool.false_ne_true
    rcases control_cases w d request with hadds | hremoves
    · exact absurd (hadds.keeps face hopen) hafter
    · exact .inr ⟨hremoves, hopen, hafter⟩
  | sweep w =>
    obtain ⟨pipeline, stopping, hsweep⟩ := take_sweep w d
    cases hkeeps fun hopen => by rwa [hsweep]
  | opening transport peer => cases hkeeps isOpen_take_opening
  | meanwhile events pipeline => cases hkeeps id

theorem framer_of_closes (hpeers : d.faces.PeersOpen) (h : d.Closes face input) :
    (d.take input).framers.find? face = none := by
  rcases closes_cases h with hclosed | ⟨hremoves, hopen, hafter⟩
  · rw [hclosed, framer_closeFace, if_pos rfl]
  · rw [hremoves.framer hpeers face, if_pos ⟨hopen, hafter⟩]

theorem not_refersTo_of_closes (hd : d.Sound) (h : d.Closes face input) :
    ¬(d.take input).forwarder.RefersTo face := by
  rcases closes_cases h with hclosed | ⟨hremoves, hopen, hafter⟩
  · rw [hclosed]
    exact Forwarder.not_refersTo_faceClosed hd.forwarder.pending
  · exact hremoves.forgets hd face hopen hafter

theorem not_isOpen_of_closes (h : d.Closes face input) : ¬(d.take input).faces.isOpen face := by
  rcases closes_cases h with hclosed | ⟨-, -, hafter⟩
  · rw [hclosed, isOpen_closeFace]
    simp
  · exact hafter

end NamedData.Daemon
