import NamedData.Proofs.Transmission.Conservation

/-!
# Passages

Whatever happens to a pipeline comes down to steps: turns of dispatcher and workers, and offers of a
frame to its lane, each of which is the last one of a push. Along the steps it is written down which
frames enter and leave the lanes, which lanes the dispatcher finds empty and how it deals with each
parcel of a frame that has left. Lanes, hand and workers are queues, so what was there and what
enters is, in this order, what leaves and what is there afterwards.
-/

namespace NamedData

/-- The lanes that come before another. -/
def Priority.above : Priority → List Priority
  | .high => []
  | .normal => [.high]
  | .low => [.high, .normal]

def payloadsFor (face : FaceId) (parcels : List Parcel) : List Octets :=
  (parcels.filter (·.face = face)).map (·.payload)

@[simp] theorem payloadsFor_nil (face : FaceId) : payloadsFor face [] = [] := rfl

@[simp] theorem payloadsFor_append (face : FaceId) (parcels others : List Parcel) :
    payloadsFor face (parcels ++ others) = payloadsFor face parcels ++ payloadsFor face others := by
  simp [payloadsFor]

theorem payloadsFor_eq_nil {face : FaceId} {parcels : List Parcel}
    (h : ∀ parcel ∈ parcels, parcel.face ≠ face) : payloadsFor face parcels = [] := by
  have hnone : parcels.filter (·.face = face) = [] := by simpa using h
  rw [payloadsFor, hnone, List.map_nil]

/-- A queue, with what enters at its end and what leaves at its front. -/
def Queues {α : Type} (before entering leaving after : List α) : Prop :=
  before ++ entering = leaving ++ after

theorem Queues.refl {α : Type} (waiting : List α) : Queues waiting [] [] waiting :=
  List.append_nil waiting

theorem Queues.trans {α : Type} {before between after entering leaving entering' leaving' : List α}
    (h : Queues before entering leaving between) (h' : Queues between entering' leaving' after) :
    Queues before (entering ++ entering') (leaving ++ leaving') after := by
  unfold Queues at *
  rw [← List.append_assoc, h, List.append_assoc, h', List.append_assoc]

namespace Pipeline

/-- Something that becomes of a frame at its lane, or of a parcel in the hands of the dispatcher. -/
inductive Passage
  | entered (priority : Priority) (frame : OutFrame)
  | left (priority : Priority) (frame : OutFrame)
  | passed (priority : Priority)
  /-- A parcel was sent by the dispatcher or given to a worker, or else refused by the worker. -/
  | dealt (parcel : Parcel) (accepted : Bool)
deriving DecidableEq

namespace Passage

def entered? (priority : Priority) : Passage → Option OutFrame
  | .entered lane frame => if lane = priority then some frame else none
  | .left .. | .passed _ | .dealt .. => none

def left? (priority : Priority) : Passage → Option OutFrame
  | .left lane frame => if lane = priority then some frame else none
  | .entered .. | .passed _ | .dealt .. => none

/-- The frame that has left some lane. -/
def departed? : Passage → Option OutFrame
  | .left _ frame => some frame
  | .entered .. | .passed _ | .dealt .. => none

def dealt? : Passage → Option (Parcel × Bool)
  | .dealt parcel accepted => some (parcel, accepted)
  | .entered .. | .left .. | .passed _ => none

end Passage

/-- The parcels that were not refused. -/
def accepted (dealt : List (Parcel × Bool)) : List Parcel := (dealt.filter (·.2)).map (·.1)

/-! ## Steps -/

/-- A turn, or the last offer of a frame to its lane. -/
inductive Step
  | turn (t : Turn)
  | offer (frame : OutFrame) (priority : Priority)

/-- What a step makes of a pipeline: a frame that finds no room is dropped. -/
def step (p : Pipeline) : Step → Pipeline
  | .turn t => p.turn t
  | .offer frame priority => (p.offer? frame priority).getD p.countDropped

def stepsOf (p : Pipeline) : Happening → List Step
  | .push frame priority pauses =>
    if frame.faces.isEmpty then []
    else
      (meanwhile frame priority pauses p.settings.pushRetries p).map .turn ++
        [.offer frame priority]
  | .turn t => [.turn t]

def steps (p : Pipeline) : List Happening → List Step
  | [] => []
  | h :: happenings => p.stepsOf h ++ (p.happen h).steps happenings

def passagesOf (p : Pipeline) : Step → List Passage
  | .turn (.worker ..) => []
  | .turn (.dispatcher _) =>
    match p.inHand with
    | none =>
      match p.lane p.looksAt with
      | [] => [.passed p.looksAt]
      | frame :: _ => [.left p.looksAt frame]
    | some h =>
      match p.settings.mode with
      | .simple => [.dealt ⟨h.face, h.payload⟩ true]
      | .sharded =>
        if p.hasRoom (p.workerOf h.face) then [.dealt ⟨h.face, h.payload⟩ true]
        else if h.tries = 0 then [.dealt ⟨h.face, h.payload⟩ false]
        else []
  | .offer frame priority =>
    if (p.offer? frame priority).isSome then [.entered priority frame] else []

variable {p q r : Pipeline} {frame : OutFrame} {priority : Priority} {log log' : List Passage}

theorem lane_putLane (p : Pipeline) (priority lane : Priority) (frames : List OutFrame) :
    (p.putLane priority frames).lane lane = if priority = lane then frames else p.lane lane := by
  cases priority <;> cases lane <;> rfl

/-! ## What is under way -/

/-- The parcels that the dispatcher has still to deal with, those of the frame in hand. -/
def held (p : Pipeline) : List Parcel := p.inHand.elim [] InHand.parcels

def partOf (p : Pipeline) (index : Nat) : List Parcel := p.workers[index]?.elim [] Worker.parcels

/-- The payloads that the worker of a face has for it. -/
def underway (p : Pipeline) (face : FaceId) : List Octets :=
  payloadsFor face (p.partOf (p.workerOf face))

def attemptedOn (p : Pipeline) (face : FaceId) : List Octets :=
  payloadsFor face p.attempted.reverse

/-- Every parcel is with the worker of its face, and there is a worker unless the dispatcher sends
frames itself. -/
structure Arranged (p : Pipeline) : Prop where
  worker : ∀ index, ∀ parcel ∈ p.partOf index, p.workerOf parcel.face = index
  simple : p.settings.mode = .simple → p.workers = []
  sharded : p.settings.mode = .sharded → p.workers ≠ []

@[simp] theorem lane_turnTo (p : Pipeline) (payload : Octets) (faces : List FaceId)
    (lane : Priority) : (p.turnTo payload faces).lane lane = p.lane lane := by
  cases faces <;> cases lane <;> rfl

@[simp] theorem workers_turnTo (p : Pipeline) (payload : Octets) (faces : List FaceId) :
    (p.turnTo payload faces).workers = p.workers := by
  cases faces <;> rfl

@[simp] theorem held_turnTo (p : Pipeline) (payload : Octets) (faces : List FaceId) :
    (p.turnTo payload faces).held = faces.map (⟨·, payload⟩) := by
  cases faces <;> rfl

theorem held_of_inHand {h : InHand} (hhand : p.inHand = some h) :
    p.held = ⟨h.face, h.payload⟩ :: h.others.map (⟨·, h.payload⟩) := by
  rw [held, hhand]
  rfl

theorem workerOf_updateWorker (p : Pipeline) (index : Nat) (f : Worker → Worker) (face : FaceId) :
    (p.updateWorker index f).workerOf face = p.workerOf face := by
  simp [workerOf, updateWorker]

theorem partOf_updateWorker {index : Nat} {w : Worker} (hw : p.workers[index]? = some w)
    (f : Worker → Worker) (other : Nat) :
    (p.updateWorker index f).partOf other =
      if other = index then (f w).parcels else p.partOf other := by
  simp only [partOf, updateWorker, List.getElem?_modify]
  split
  · rename_i hsame
    subst hsame
    rw [hw, if_pos rfl]
    rfl
  · rename_i hother
    rw [if_neg (Ne.symm hother)]
    simp

theorem partOf_of_getElem? {index : Nat} {w : Worker} (hw : p.workers[index]? = some w) :
    p.partOf index = w.parcels := by
  rw [partOf, hw]
  rfl

/-! ## The order of frames and parcels -/

/-- One pipeline has become another, and the passages tell how frames and parcels have moved: every
queue has kept its order. -/
structure Orders (p q : Pipeline) (log : List Passage) : Prop where
  lanes : ∀ lane, Queues (p.lane lane) (log.filterMap (Passage.entered? lane))
    (log.filterMap (Passage.left? lane)) (q.lane lane)
  hand : Queues p.held ((log.filterMap Passage.departed?).flatMap OutFrame.parcels)
    ((log.filterMap Passage.dealt?).map (·.1)) q.held
  sends : p.Arranged → q.Arranged ∧ ∀ face,
    Queues (p.attemptedOn face ++ p.underway face)
      (payloadsFor face (accepted (log.filterMap Passage.dealt?))) []
      (q.attemptedOn face ++ q.underway face)
  settings : q.settings = p.settings
  simple : p.settings.mode = .simple → ∀ dealt ∈ log.filterMap Passage.dealt?, dealt.2 = true

theorem accepted_append (dealt later : List (Parcel × Bool)) :
    accepted (dealt ++ later) = accepted dealt ++ accepted later := by
  simp [accepted]

theorem Orders.refl (p : Pipeline) : Orders p p [] where
  lanes lane := .refl (p.lane lane)
  hand := .refl p.held
  sends hp := ⟨hp, fun _ => .refl _⟩
  settings := rfl
  simple _ := by simp

theorem Orders.trans (h : Orders p q log) (h' : Orders q r log') : Orders p r (log ++ log') where
  lanes lane := by
    rw [List.filterMap_append, List.filterMap_append]
    exact (h.lanes lane).trans (h'.lanes lane)
  hand := by
    rw [List.filterMap_append, List.filterMap_append, List.flatMap_append, List.map_append]
    exact h.hand.trans h'.hand
  sends hp := by
    obtain ⟨hq, hfirst⟩ := h.sends hp
    obtain ⟨hr, hsecond⟩ := h'.sends hq
    refine ⟨hr, ?_⟩
    intro face
    rw [List.filterMap_append, accepted_append, payloadsFor_append]
    exact (hfirst face).trans (hsecond face)
  settings := h'.settings.trans h.settings
  simple hmode := by
    intro dealt hdealt
    rw [List.filterMap_append, List.mem_append] at hdealt
    rcases hdealt with hfirst | hsecond
    · exact h.simple hmode dealt hfirst
    · exact h'.simple (by rwa [h.settings]) dealt hsecond

/-- Nothing is sent and workers are left alone. -/
theorem sends_of_same (hworkers : q.workers = p.workers) (hattempts : q.attempts = p.attempts)
    (hsettings : q.settings = p.settings) (hp : p.Arranged) :
    q.Arranged ∧ ∀ face, Queues (p.attemptedOn face ++ p.underway face) [] []
      (q.attemptedOn face ++ q.underway face) := by
  have hpart : ∀ index, q.partOf index = p.partOf index := by
    intro index
    rw [partOf, hworkers, partOf]
  have hof : ∀ face, q.workerOf face = p.workerOf face := by
    intro face
    rw [workerOf, hworkers, workerOf]
  refine ⟨⟨?_, ?_, ?_⟩, ?_⟩
  · intro index parcel hparcel
    rw [hof]
    exact hp.worker index parcel (hpart index ▸ hparcel)
  · rw [hsettings, hworkers]
    exact hp.simple
  · rw [hsettings, hworkers]
    exact hp.sharded
  · intro face
    have hunderway : q.underway face = p.underway face := by
      rw [underway, hof, hpart, underway]
    have hattempted : q.attemptedOn face = p.attemptedOn face := by
      rw [attemptedOn, attempted, hattempts, attemptedOn, attempted]
    rw [hunderway, hattempted]
    exact .refl _

theorem orders_pass (hlane : p.lane p.looksAt = []) : Orders p p.look [.passed p.looksAt] := by
  rw [look_of_nil hlane]
  refine ⟨?_, .refl _, sends_of_same rfl rfl rfl, rfl, by simp [Passage.dealt?]⟩
  intro lane
  cases lane <;> exact .refl _

theorem orders_take {frames : List OutFrame} (hhand : p.inHand = none)
    (hlane : p.lane p.looksAt = frame :: frames) :
    Orders p p.look [.left p.looksAt frame] := by
  have hempty : p.held = [] := by rw [held, hhand]; rfl
  let again : Pipeline := { p with looksAt := .high }
  have hlook : p.look = (again.putLane p.looksAt frames).turnTo frame.payload frame.faces :=
    look_of_cons hlane
  rw [hlook]
  refine ⟨?_, ?_, ?_, ?_, ?_⟩
  · intro lane
    have hagain : again.lane lane = p.lane lane := by cases lane <;> rfl
    rw [lane_turnTo, lane_putLane, hagain]
    by_cases hsame : p.looksAt = lane
    · rw [if_pos hsame, ← hsame]
      simp [Queues, Passage.left?, Passage.entered?, hlane]
    · simp [Queues, Passage.left?, Passage.entered?, hsame]
  · simp [Queues, Passage.departed?, Passage.dealt?, hempty, OutFrame.parcels]
  · exact sends_of_same (by simp [again]) (by simp [again]) (by simp [again])
  · simp [again]
  · simp [Passage.dealt?]

theorem orders_send {h : InHand} (hhand : p.inHand = some h) (hmode : p.settings.mode = .simple)
    (outcome : SendOutcome) :
    Orders p (p.dispatcherTurn outcome) [.dealt ⟨h.face, h.payload⟩ true] := by
  obtain ⟨failures, hnote⟩ := p.note_eq ⟨h.face, h.payload⟩ outcome
  have hturn : p.dispatcherTurn outcome =
      (p.note ⟨h.face, h.payload⟩ outcome).turnTo h.payload h.others := by
    simp only [dispatcherTurn, hhand, hmode]
  rw [hturn, hnote]
  refine ⟨?_, ?_, ?_, ?_, ?_⟩
  · intro lane
    rw [lane_turnTo]
    cases lane <;> exact .refl _
  · simp [Queues, Passage.departed?, Passage.dealt?, held_of_inHand hhand]
  · intro hp
    have hnone := hp.simple hmode
    refine ⟨⟨?_, ?_, ?_⟩, ?_⟩
    · intro index parcel hparcel
      simp [partOf, hnone] at hparcel
    · intro _
      rw [workers_turnTo]
      exact hnone
    · intro hsharded
      rw [settings_turnTo] at hsharded
      cases hmode.symm.trans hsharded
    · intro face
      simp [Queues, Passage.dealt?, accepted, underway, partOf, hnone, attemptedOn, attempted]
  · rw [settings_turnTo]
  · simp [Passage.dealt?]

/-- A worker gets or sends parcels. It is a queue, and only parcels for its faces pass through it. -/
theorem sends_of_worker {index : Nat} {w : Worker} {f : Worker → Worker}
    (incoming sent : List Parcel) (hw : p.workers[index]? = some w)
    (hworkers : q.workers = (p.updateWorker index f).workers)
    (hattempted : q.attempted.reverse = p.attempted.reverse ++ sent)
    (hsettings : q.settings = p.settings)
    (hqueue : Queues w.parcels incoming sent (f w).parcels)
    (hincoming : ∀ parcel ∈ incoming, p.workerOf parcel.face = index) (hp : p.Arranged) :
    q.Arranged ∧ ∀ face, Queues (p.attemptedOn face ++ p.underway face)
      (payloadsFor face incoming) [] (q.attemptedOn face ++ q.underway face) := by
  have hof : ∀ face, q.workerOf face = p.workerOf face := by
    intro face
    rw [← p.workerOf_updateWorker index f face, workerOf, hworkers, workerOf]
  have hpart : ∀ other,
      q.partOf other = if other = index then (f w).parcels else p.partOf other := by
    intro other
    rw [← partOf_updateWorker hw f other, partOf, hworkers, partOf]
  -- every parcel that the worker has, gets or sends is for one of its faces
  have hserved : ∀ parcel ∈ sent ++ (f w).parcels, p.workerOf parcel.face = index := by
    intro parcel hparcel
    rw [← hqueue, List.mem_append] at hparcel
    rcases hparcel with hold | hnew
    · exact hp.worker index parcel (partOf_of_getElem? hw ▸ hold)
    · exact hincoming parcel hnew
  refine ⟨⟨?_, ?_, ?_⟩, ?_⟩
  · intro other parcel hparcel
    rw [hof]
    rw [hpart] at hparcel
    split at hparcel
    · rename_i hsame
      rw [hsame]
      exact hserved parcel (List.mem_append_right _ hparcel)
    · exact hp.worker other parcel hparcel
  · intro hmode
    have hnone := hp.simple (hsettings ▸ hmode)
    rw [hnone] at hw
    cases hw
  · intro hmode
    have hsome := hp.sharded (hsettings ▸ hmode)
    simpa [hworkers, updateWorker] using hsome
  · intro face
    have hsent : q.attemptedOn face = p.attemptedOn face ++ payloadsFor face sent := by
      rw [attemptedOn, hattempted, payloadsFor_append, attemptedOn]
    unfold Queues at hqueue ⊢
    rw [List.nil_append, hsent, List.append_assoc, List.append_assoc]
    congr 1
    rw [underway, underway, hof, hpart]
    split
    · rename_i hsame
      rw [hsame, partOf_of_getElem? hw, ← payloadsFor_append, ← payloadsFor_append, hqueue]
    · rename_i hother
      have hnothing : ∀ parcels : List Parcel, (∀ parcel ∈ parcels,
          p.workerOf parcel.face = index) → payloadsFor face parcels = [] := by
        intro parcels hall
        apply payloadsFor_eq_nil
        rintro parcel hparcel rfl
        exact hother (hall parcel hparcel)
      rw [hnothing incoming hincoming,
        hnothing sent fun parcel h => hserved parcel (List.mem_append_left _ h)]
      exact List.append_nil _

theorem orders_handOver {h : InHand} (hhand : p.inHand = some h)
    (hmode : p.settings.mode = .sharded) (hroom : p.hasRoom (p.workerOf h.face))
    (outcome : SendOutcome) :
    Orders p (p.dispatcherTurn outcome) [.dealt ⟨h.face, h.payload⟩ true] := by
  obtain ⟨w, hw⟩ := exists_worker hroom
  let fill : Worker → Worker := fun w => { w with queue := w.queue ++ [⟨h.face, h.payload⟩] }
  have hturn : p.dispatcherTurn outcome =
      (p.updateWorker (p.workerOf h.face) fill).countQueued.turnTo h.payload h.others := by
    simp only [dispatcherTurn, hhand, hmode, handOff, hroom, if_true, fill]
  rw [hturn]
  refine ⟨?_, ?_, ?_, settings_turnTo .., ?_⟩
  · intro lane
    rw [lane_turnTo]
    cases lane <;> exact .refl _
  · simp [Queues, Passage.departed?, Passage.dealt?, held_of_inHand hhand]
  · refine sends_of_worker [⟨h.face, h.payload⟩] [] hw (workers_turnTo ..) ?_ (settings_turnTo ..)
      ?_ ?_
    · rw [attempted, attempts_turnTo, List.append_nil]
      rfl
    · exact List.append_assoc ..
    · intro parcel hparcel
      rw [List.mem_singleton.1 hparcel]
  · simp [Passage.dealt?]

theorem orders_turnAway {h : InHand} (hhand : p.inHand = some h)
    (hmode : p.settings.mode = .sharded) (hroom : ¬p.hasRoom (p.workerOf h.face))
    (htries : h.tries = 0) (outcome : SendOutcome) :
    Orders p (p.dispatcherTurn outcome) [.dealt ⟨h.face, h.payload⟩ false] := by
  have hturn : p.dispatcherTurn outcome = p.countDropped.turnTo h.payload h.others := by
    simp only [dispatcherTurn, hhand, hmode, handOff, if_neg hroom, htries]
  rw [hturn]
  refine ⟨?_, ?_, ?_, settings_turnTo .., ?_⟩
  · intro lane
    rw [lane_turnTo]
    cases lane <;> exact .refl _
  · simp [Queues, Passage.departed?, Passage.dealt?, held_of_inHand hhand]
  · exact sends_of_same (workers_turnTo ..) (attempts_turnTo ..) (settings_turnTo ..)
  · intro hsimple
    cases hmode.symm.trans hsimple

theorem orders_tryAgain {h : InHand} (hhand : p.inHand = some h)
    (hmode : p.settings.mode = .sharded) (hroom : ¬p.hasRoom (p.workerOf h.face)) {tries : Nat}
    (htries : h.tries = tries + 1) (outcome : SendOutcome) :
    Orders p (p.dispatcherTurn outcome) [] := by
  have hturn : p.dispatcherTurn outcome = { p with inHand := some { h with tries } } := by
    simp only [dispatcherTurn, hhand, hmode, handOff, if_neg hroom, htries]
  rw [hturn]
  refine ⟨?_, ?_, sends_of_same rfl rfl rfl, rfl, ?_⟩
  · intro lane
    cases lane <;> exact .refl _
  · rw [held_of_inHand hhand]
    exact .refl _
  · simp

theorem orders_dispatcherTurn (p : Pipeline) (outcome : SendOutcome) :
    Orders p (p.dispatcherTurn outcome) (p.passagesOf (.turn (.dispatcher outcome))) := by
  rw [passagesOf]
  cases hhand : p.inHand with
  | none =>
    rw [dispatcherTurn_of_none hhand]
    cases hlane : p.lane p.looksAt with
    | nil => exact orders_pass hlane
    | cons frame frames => exact orders_take hhand hlane
  | some h =>
    dsimp only
    cases hmode : p.settings.mode with
    | simple => exact orders_send hhand hmode outcome
    | sharded =>
      dsimp only
      by_cases hroom : p.hasRoom (p.workerOf h.face)
      · rw [if_pos hroom]
        exact orders_handOver hhand hmode hroom outcome
      · rw [if_neg hroom]
        cases htries : h.tries with
        | zero => exact orders_turnAway hhand hmode hroom htries outcome
        | succ tries => exact orders_tryAgain hhand hmode hroom htries outcome

theorem orders_workerTurn (p : Pipeline) (index : Nat) (outcome : SendOutcome) :
    Orders p (p.workerTurn index outcome) [] := by
  unfold workerTurn
  cases hw : p.workers[index]? with
  | none => exact .refl p
  | some w =>
    dsimp only
    split
    · rename_i parcel hcurrent
      obtain ⟨failures, hnote⟩ :=
        (p.updateWorker index fun w => { w with current := none }).note_eq parcel outcome
      rw [hnote]
      refine ⟨?_, .refl _, ?_, rfl, by simp⟩
      · intro lane
        cases lane <;> exact .refl _
      · refine sends_of_worker [] [parcel] hw rfl ?_ rfl ?_ (by simp)
        · simp [attempted, updateWorker]
        · simp [Queues, Worker.parcels, hcurrent]
    · rename_i parcel queue hcurrent hqueue
      refine ⟨?_, .refl _, ?_, rfl, by simp⟩
      · intro lane
        cases lane <;> exact .refl _
      · refine sends_of_worker [] [] hw rfl (List.append_nil _).symm rfl ?_ (by simp)
        simp [Queues, Worker.parcels, hcurrent, hqueue]
    · exact .refl p

theorem orders_enter (h : p.offer? frame priority = some q) :
    Orders p q [.entered priority frame] := by
  unfold offer? at h
  dsimp only at h
  split at h
  · obtain rfl := Option.some.inj h
    refine ⟨?_, ?_, ?_, ?_, by simp [Passage.dealt?]⟩
    · intro lane
      have hcounted : ∀ u : Pipeline, u.countQueued.lane lane = u.lane lane := by
        intro u
        cases lane <;> rfl
      rw [hcounted, lane_putLane]
      by_cases hsame : priority = lane
      · subst hsame
        simp [Queues, Passage.entered?, Passage.left?]
      · simp [Queues, Passage.entered?, Passage.left?, hsame]
    · have hheld : (p.putLane priority (p.lane priority ++ [frame])).countQueued.held = p.held := by
        cases priority <;> rfl
      rw [hheld]
      exact .refl _
    · refine sends_of_same ?_ ?_ ?_ <;> cases priority <;> rfl
    · cases priority <;> rfl
  · cases h

theorem orders_drop (p : Pipeline) : Orders p p.countDropped [] where
  lanes lane := by cases lane <;> exact .refl _
  hand := .refl _
  sends := sends_of_same rfl rfl rfl
  settings := rfl
  simple := by simp

theorem orders_offer (p : Pipeline) (frame : OutFrame) (priority : Priority) :
    Orders p (p.step (.offer frame priority)) (p.passagesOf (.offer frame priority)) := by
  rw [step, passagesOf]
  cases hoffer : p.offer? frame priority with
  | some q => exact orders_enter hoffer
  | none => exact p.orders_drop

theorem orders_step (p : Pipeline) (s : Step) : Orders p (p.step s) (p.passagesOf s) := by
  cases s with
  | turn t =>
    cases t with
    | dispatcher outcome => exact p.orders_dispatcherTurn outcome
    | worker index outcome => exact p.orders_workerTurn index outcome
  | offer frame priority => exact p.orders_offer frame priority

end Pipeline
end NamedData
