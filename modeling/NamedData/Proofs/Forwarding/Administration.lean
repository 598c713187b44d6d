import NamedData.Proofs.Forwarding.Run

/-!
# Administrative Interests

A name is a command if it is the name of one, component by component. That names are looked up
by a hash of their printed form makes no difference: the three commands have different hashes,
and what is found is compared. An Interest for a command that is let in ends its way there, before
any table is asked, and nothing else makes a forwarder return a command.
-/

namespace NamedData

namespace Command

theorem mem_all (c : Command) : c ∈ all := by
  cases c <;> decide

theorem hash_name_injective : Function.Injective fun c : Command => hash c.name := by
  intro c d
  cases c <;> cases d <;> decide +kernel

theorem find?_all_of_injective {α : Type} [DecidableEq α] {g : Command → α}
    (hg : Function.Injective g) (c : Command) : (all.find? fun d => g d = g c) = some c := by
  cases hfind : all.find? fun d => g d = g c with
  | none => exact absurd (decide_eq_true rfl) (List.find?_eq_none.1 hfind c c.mem_all)
  | some d =>
    have hsame : g d = g c := by simpa using List.find?_some hfind
    rw [hg hsame]

/-- The hash misses no command and lets no other name through. -/
theorem ofName?_eq_some_iff {n : Name} {c : Command} : ofName? n = some c ↔ c.name = n := by
  unfold ofName?
  constructor
  · intro h
    simpa using (Option.filter_eq_some_iff.1 h).2
  · rintro rfl
    rw [find?_all_of_injective hash_name_injective, Option.filter_some, if_pos (by simp)]

theorem find?_name_eq_ofName? (n : Name) : all.find? (·.name = n) = ofName? n := by
  have hnames : Function.Injective name := fun _ _ h => hash_name_injective (congrArg hash h)
  ext c
  rw [ofName?_eq_some_iff]
  constructor
  · intro h
    simpa using List.find?_some h
  · rintro rfl
    exact find?_all_of_injective hnames c

end Command

def Action.isCommand : Action → Bool
  | .command .. => true
  | .send .. | .closeFace _ => false

namespace Forwarder

/-- The command that an event brings: it is an Interest for the name of the command, comes from
this host and is let in. -/
def Event.commanded? (accepts : Message → Bool) : Event → Option Action
  | .frame faces face bytes _ =>
    (Message.parse bytes).toOption.bind fun m =>
      if accepts m ∧ m.kind = .interest ∧ faces.isLocal face then
        (Command.all.find? (·.name = m.name)).map (.command · face m)
      else none
  | .sweep _ | .faceClosed _ | .addRoute .. | .removeRoute .. => none

def actions (f : Forwarder) : List Event → List Action
  | [] => []
  | e :: events => (f.step e).2 ++ (f.step e).1.actions events

variable {f f' : Forwarder} {faces : FaceView} {face : FaceId} {bytes : Octets} {clock : Clock}
variable {m : Message} {acts : List Action}

theorem commanded?_frame (h : Message.parse bytes = .ok m) (accepts : Message → Bool) :
    (Event.frame faces face bytes clock).commanded? accepts =
      if accepts m ∧ faces.isLocal face then (command? m).map (.command · face m) else none := by
  have hparse : (Message.parse bytes).toOption = some m := by rw [h]; rfl
  rw [Event.commanded?, hparse, Option.bind_some, Command.find?_name_eq_ofName?, command?]
  by_cases hkind : m.kind = .interest <;> simp [hkind]

theorem filter_isCommand_returnsOf (code : ReturnCode) :
    (f.returnsOf face m code).filter Action.isCommand = [] := by
  unfold returnsOf
  split <;> rfl

theorem filter_isCommand_fanOut (targets : List FaceId) (priority : Priority) :
    (fanOut m targets priority).filter Action.isCommand = [] := by
  rw [List.filter_eq_nil_iff]
  intro a ha
  obtain ⟨target, -, rfl⟩ := List.mem_map.1 ha
  exact Bool.false_ne_true

/-- The commands among what a packet makes a forwarder ask for are those that the packet brings. -/
theorem Handled.filter_isCommand (h : Handled f faces face bytes clock f' acts) :
    acts.filter Action.isCommand =
      ((Event.frame faces face bytes clock).commanded? f.accepts).toList := by
  have hrequest : ∀ {d}, f.Requests bytes d →
      (Event.frame faces face bytes clock).commanded? f.accepts = none := by
    intro d hreq
    rw [commanded?_frame hreq.parse, hreq.noCommand, Option.map_none, ite_self]
  have hanswer : ∀ {d}, Message.parse bytes = .ok d → d.kind ≠ .interest →
      (Event.frame faces face bytes clock).commanded? f.accepts = none := by
    intro d hparse hkind
    rw [commanded?_frame hparse, command?, if_neg hkind, Option.map_none, ite_self]
  cases h with
  | malformed _ herror => simp [Event.commanded?, herror, Except.toOption]
  | refused _ hparse hrefused =>
    rw [commanded?_frame hparse, hrefused, filter_isCommand_returnsOf]
    simp
  | @command d c _ hparse haccepts hkind hname =>
    rw [commanded?_frame hparse, command?, if_pos hkind, hname, haccepts]
    by_cases hlocal : faces.isLocal face <;> simp [hlocal, Action.isCommand]
  | exceeded _ hreq | full _ hreq | unrouted _ hreq =>
    rw [hrequest hreq, filter_isCommand_returnsOf]
    rfl
  | joined _ hreq | cached _ hreq | held _ hreq | routed _ hreq =>
    rw [hrequest hreq]
    rfl
  | dropped _ hparse _ hkind =>
    rw [hanswer hparse (by rcases hkind with hkind | hkind <;> simp [hkind])]
    rfl
  | delivered _ hparse _ hkind =>
    rw [hanswer hparse (by rcases hkind with hkind | hkind <;> simp [hkind]),
      filter_isCommand_fanOut]
    rfl
  | returned _ hparse _ hkind =>
    rw [hanswer hparse (by simp [hkind]), filter_isCommand_fanOut]
    rfl

theorem filter_isCommand_step (f : Forwarder) (e : Event) :
    (f.step e).2.filter Action.isCommand = (e.commanded? f.accepts).toList := by
  cases e with
  | frame faces face bytes clock => exact (handled_handleFrame ..).filter_isCommand
  | sweep now =>
    rw [step, actions_sweep, List.filter_eq_nil_iff.2]
    · rfl
    · intro a ha
      obtain ⟨due, -, rfl⟩ := List.mem_map.1 ha
      exact Bool.false_ne_true
  | faceClosed face => rfl
  | addRoute name face flags cost =>
    obtain ⟨routes, metrics, hstep⟩ := f.step_addRoute name face flags cost
    rw [hstep]
    rfl
  | removeRoute faces name face =>
    obtain ⟨routes, metrics, acts, hstep, hclose⟩ := f.step_removeRoute faces name face
    rw [hstep, List.filter_eq_nil_iff.2]
    · rfl
    · intro a ha
      rw [hclose a ha]
      exact Bool.false_ne_true

theorem accepts_step (f : Forwarder) (e : Event) : (f.step e).1.accepts = f.accepts :=
  accepts_run f [e]

theorem filter_isCommand_actions (f : Forwarder) (events : List Event) :
    (f.actions events).filter Action.isCommand = events.filterMap (·.commanded? f.accepts) := by
  induction events generalizing f with
  | nil => rfl
  | cons e events ih =>
    rw [actions, List.filter_append, filter_isCommand_step, ih, accepts_step, List.filterMap_cons]
    cases e.commanded? f.accepts <;> rfl

/-- An Interest for a command that is let in touches no table and has no answer but the command,
which is returned if the Interest comes from this host. -/
theorem Handled.eq_of_commanded (h : Handled f faces face bytes clock f' acts)
    (hparse : Message.parse bytes = .ok m) (haccepts : f.accepts m) (hkind : m.kind = .interest)
    {c : Command} (hname : m.name = c.name) :
    f'.pending = f.pending ∧ f'.routes = f.routes ∧ f'.cache = f.cache ∧
      acts = if faces.isLocal face then [.command c face m] else [] := by
  have hfound : Command.ofName? m.name = some c := Command.ofName?_eq_some_iff.2 hname.symm
  have hcommand : command? m = some c := (if_pos hkind).trans hfound
  have hrequest : ∀ {d}, f.Requests bytes d → False := by
    intro d hreq
    have hnone := hreq.noCommand
    rw [Message.eq_of_parse hparse hreq.parse, hcommand] at hnone
    cases hnone
  cases h with
  | malformed _ herror =>
    rw [hparse] at herror
    cases herror
  | refused _ hd hrefused =>
    rw [Message.eq_of_parse hparse hd, haccepts] at hrefused
    cases hrefused
  | command _ hd _ _ hfound' =>
    obtain rfl := Message.eq_of_parse hparse hd
    rw [Option.some.inj (hfound.symm.trans hfound')]
    exact ⟨rfl, rfl, rfl, rfl⟩
  | exceeded _ hreq | full _ hreq | joined _ hreq | cached _ hreq | held _ hreq | routed _ hreq
  | unrouted _ hreq => exact (hrequest hreq).elim
  | dropped _ hd _ hanswer | delivered _ hd _ hanswer =>
    rw [Message.eq_of_parse hparse hd, hkind] at hanswer
    rcases hanswer with hanswer | hanswer <;> cases hanswer
  | returned _ hd _ hanswer =>
    rw [Message.eq_of_parse hparse hd, hkind] at hanswer
    cases hanswer

/-- An Interest that is let in and has the name of a command, whatever else it says, changes no
table and sends nothing; the command is returned if the Interest comes from this host. No packet
with another name makes the forwarder return a command, and neither does anything but a packet.
So the commands of a run are the administrative Interests of this host that are let in. -/
theorem administration_isolated (f : Forwarder) :
    (∀ faces face bytes clock m (c : Command), Message.parse bytes = .ok m → f.accepts m →
      m.kind = .interest → m.name = c.name →
        let after := f.handleFrame faces face bytes clock
        after.1.pending = f.pending ∧ after.1.routes = f.routes ∧ after.1.cache = f.cache ∧
          after.2 = if faces.isLocal face then [.command c face m] else []) ∧
      (∀ e : Event, (∀ face m, e.packet? = some (face, m) → ∀ c : Command, m.name ≠ c.name) →
        ∀ a ∈ (f.step e).2, a.isCommand = false) ∧
      ∀ events : List Event,
        (f.actions events).filter Action.isCommand = events.filterMap (·.commanded? f.accepts) := by
  refine ⟨?_, ?_, f.filter_isCommand_actions⟩
  · intro faces face bytes clock m c hparse haccepts hkind hname
    exact (handled_handleFrame ..).eq_of_commanded hparse haccepts hkind hname
  · intro e hother a ha
    have hnone : e.commanded? f.accepts = none := by
      cases e with
      | frame faces face bytes clock =>
        cases hparse : Message.parse bytes with
        | error => simp [Event.commanded?, hparse, Except.toOption]
        | ok m =>
          have hcommand : command? m = none := by
            rw [Option.eq_none_iff_forall_not_mem]
            intro c hc
            have hfound : Command.ofName? m.name = some c := by
              by_contra hne
              simp [command?, hne] at hc
            exact hother face m (Event.packet?_frame hparse) c
              (Command.ofName?_eq_some_iff.1 hfound).symm
          rw [commanded?_frame hparse, hcommand, Option.map_none, ite_self]
      | sweep | faceClosed | addRoute | removeRoute => rfl
    have hfilter := f.filter_isCommand_step e
    rw [hnone, Option.toList_none, List.filter_eq_nil_iff] at hfilter
    simpa using hfilter a ha

/-- An application asks for the status of the forwarder, and so does a neighbour, whose Interest
has no effect. The Interest for `/cefnd` is none for a command and is given back. -/
theorem administration_isolated_small :
    let f := fresh {} .bestRoute
    let faces : FaceView := .ofList [(⟨1⟩, .unix), (⟨2⟩, .udp)] []
    let status : Name := ⟨[[99, 101, 102, 110, 100], [115, 116, 97, 116, 117, 115]]⟩
    let asked := Small.octets { Draft.interest status with hopLimit := 0 }
    let other := Small.octets (.interest (status.take 1))
    let events := [Event.frame faces ⟨2⟩ asked ⟨0, 0⟩, .frame faces ⟨1⟩ other ⟨1, 0⟩,
      .frame faces ⟨1⟩ asked ⟨2, 0⟩]
    ∃ m, Message.parse asked = .ok m ∧ m.kind = .interest ∧ m.name = Command.status.name ∧
      (f.handleFrame faces ⟨1⟩ asked ⟨0, 0⟩).2 = [.command .status ⟨1⟩ m] ∧
      (f.handleFrame faces ⟨2⟩ asked ⟨0, 0⟩).2 = [] ∧
      (∀ a ∈ (f.handleFrame faces ⟨1⟩ other ⟨1, 0⟩).2, a.isCommand = false) ∧
      (f.actions events).filter Action.isCommand = [.command .status ⟨1⟩ m] := by
  intro f faces status asked other events
  obtain ⟨hadmin, hother, hrun⟩ := administration_isolated f
  have hstatus : status = Command.status.name := by decide +kernel
  obtain ⟨m, hm, hasked⟩ :=
    Small.exists_parse asked (fun m => m.kind = .interest ∧ m.name = status) (by decide +kernel)
  obtain ⟨hkind, hname⟩ : m.kind = .interest ∧ m.name = status := by simpa using hasked
  rw [hstatus] at hname
  obtain ⟨d, hd, hread⟩ :=
    Small.exists_parse other (fun d => d.name = status.take 1) (by decide +kernel)
  have hdname : d.name = status.take 1 := by simpa using hread
  obtain ⟨-, -, -, hhere⟩ := hadmin faces ⟨1⟩ asked ⟨0, 0⟩ m .status hm rfl hkind hname
  obtain ⟨-, -, -, hthere⟩ := hadmin faces ⟨2⟩ asked ⟨0, 0⟩ m .status hm rfl hkind hname
  refine ⟨m, hm, hkind, hname, hhere, hthere, ?_, ?_⟩
  · refine hother (.frame faces ⟨1⟩ other ⟨1, 0⟩) ?_
    intro face d' hd' c
    rw [Event.packet?_frame hd] at hd'
    obtain ⟨-, rfl⟩ := Prod.mk.inj (Option.some.inj hd')
    rw [hdname]
    cases c <;> decide +kernel
  · have hcommand : command? m = some .status :=
      (if_pos hkind).trans (Command.ofName?_eq_some_iff.2 hname.symm)
    have hnone : command? d = none := by
      have hfound : Command.ofName? (status.take 1) = none := by decide +kernel
      rw [command?, hdname, hfound, ite_self]
    rw [hrun]
    simp only [events, List.filterMap_cons, commanded?_frame hm, commanded?_frame hd, hcommand,
      hnone]
    rfl

end Forwarder
end NamedData
