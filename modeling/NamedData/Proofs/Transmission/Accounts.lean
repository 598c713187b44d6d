import Mathlib.Algebra.GroupWithZero.Nat
import NamedData.Transmission.Pipeline

/-!
# Accounts of the transmission

Frames are pushed one after another, and dispatcher and workers proceed in any order between the
pushes and in the pauses of each. What happens to frames at the lanes and to parcels at the queues
of the workers is written down as a list of marks. A push counts as accepted or refused by what it
returns, and a hand-off is refused when the queue is full and no try is left.

From one pipeline to another the account balances when the parcels that were there or were accepted
are afterwards waiting, tried to be sent or turned away.
-/

namespace NamedData

/-- The parcels of a frame, one for each face. -/
def OutFrame.parcels (frame : OutFrame) : List Parcel := frame.faces.map (⟨·, frame.payload⟩)

def InHand.parcels (h : InHand) : List Parcel := (h.face :: h.others).map (⟨·, h.payload⟩)

def Worker.parcels (w : Worker) : List Parcel := w.current.toList ++ w.queue

namespace Pipeline

/-- Something that becomes of a frame at its lane, or of a parcel at the queue of a worker. -/
inductive Mark
  | accepted (frame : OutFrame)
  | refused (frame : OutFrame)
  | handedOver (parcel : Parcel)
  | turnedAway (parcel : Parcel)

namespace Mark

def accepted? : Mark → Option OutFrame
  | .accepted frame => some frame
  | .refused _ | .handedOver _ | .turnedAway _ => none

def turnedAway? : Mark → Option Parcel
  | .turnedAway parcel => some parcel
  | .accepted _ | .refused _ | .handedOver _ => none

/-- Whether something has got into a queue. -/
def isQueued : Mark → Bool
  | .accepted _ | .handedOver _ => true
  | .refused _ | .turnedAway _ => false

end Mark

/-- A push, with the turns that others take in each pause of it, or a turn. -/
inductive Happening
  | push (frame : OutFrame) (priority : Priority) (pauses : Nat → List Turn)
  | turn (t : Turn)

def happen (p : Pipeline) : Happening → Pipeline
  | .push frame priority pauses => (p.push (fun tries p => p.run (pauses tries)) frame priority).1
  | .turn t => p.turn t

def undergo (p : Pipeline) (happenings : List Happening) : Pipeline := happenings.foldl happen p

def marksOfTurn (p : Pipeline) : Turn → List Mark
  | .dispatcher _ =>
    match p.inHand with
    | none => []
    | some h =>
      match p.settings.mode with
      | .simple => []
      | .sharded =>
        if p.hasRoom (p.workerOf h.face) then [.handedOver ⟨h.face, h.payload⟩]
        else if h.tries = 0 then [.turnedAway ⟨h.face, h.payload⟩]
        else []
  | .worker .. => []

def marksOfRun (p : Pipeline) : List Turn → List Mark
  | [] => []
  | t :: turns => p.marksOfTurn t ++ (p.turn t).marksOfRun turns

/-- The turns that others take while a frame is pushed. -/
def meanwhile (frame : OutFrame) (priority : Priority) (pauses : Nat → List Turn) :
    (tries : Nat) → Pipeline → List Turn
  | 0, _ => []
  | tries + 1, p =>
    match p.offer? frame priority with
    | some _ => []
    | none => pauses tries ++ meanwhile frame priority pauses tries (p.run (pauses tries))

/-- All marks that something leaves. A frame for no face leaves none. -/
def marksOf (p : Pipeline) : Happening → List Mark
  | .push frame priority pauses =>
    if frame.faces.isEmpty then []
    else
      let accepted := (p.push (fun tries p => p.run (pauses tries)) frame priority).2
      p.marksOfRun (meanwhile frame priority pauses p.settings.pushRetries p) ++
        [if accepted then .accepted frame else .refused frame]
  | .turn t => p.marksOfTurn t

def history (p : Pipeline) : List Happening → List Mark
  | [] => []
  | h :: happenings => p.marksOf h ++ (p.happen h).history happenings

/-- The parcels that have been accepted and with which nothing has been done yet. -/
def waiting (p : Pipeline) : List Parcel :=
  (p.high ++ p.normal ++ p.low).flatMap OutFrame.parcels ++
    p.inHand.toList.flatMap InHand.parcels ++ p.workers.flatMap Worker.parcels

def attempted (p : Pipeline) : List Parcel := p.attempts.map (·.parcel)

/-- How many attempts came to one of some outcomes. -/
def numberOf (outcomes : List SendOutcome) (attempts : List Attempt) : Nat :=
  attempts.countP (·.outcome ∈ outcomes)

/-- The statistics that marks and attempts amount to, modulo 2^64. -/
def tally (marks : List Mark) (attempts : List Attempt) : TransmissionStats where
  queued := ⟨.ofNat (marks.countP (·.isQueued))⟩
  sent := ⟨.ofNat (numberOf [.sent] attempts)⟩
  dropped := ⟨.ofNat (marks.countP (!·.isQueued))⟩
  sendErrors := ⟨.ofNat (numberOf [.short, .failed] attempts)⟩
  undeliverable := ⟨.ofNat (numberOf [.gone] attempts)⟩

/-- One pipeline has become another, and marks tell what has become of frames and parcels: what was
there before or was accepted is there afterwards or was turned away, and the statistics have gone
along. -/
structure Balances (p q : Pipeline) (marks : List Mark) : Prop where
  parcels : ∀ x, q.waiting.count x + q.attempted.count x +
      (marks.filterMap Mark.turnedAway?).count x =
    p.waiting.count x + p.attempted.count x +
      ((marks.filterMap Mark.accepted?).flatMap OutFrame.parcels).count x
  stats : ∀ before, p.stats = tally before p.attempts →
    q.stats = tally (before ++ marks) q.attempts
  settings : q.settings = p.settings

variable {p q r : Pipeline} {marks marks' : List Mark} {frame : OutFrame} {priority : Priority}

/-- Something with which nothing gets into a queue and nothing is refused. -/
theorem Balances.unmarked
    (hparcels : ∀ x, q.waiting.count x + q.attempted.count x =
      p.waiting.count x + p.attempted.count x)
    (hstats : ∀ before, p.stats = tally before p.attempts → q.stats = tally before q.attempts)
    (hsettings : q.settings = p.settings) : Balances p q [] where
  parcels := hparcels
  stats before hbefore := by
    rw [List.append_nil]
    exact hstats before hbefore
  settings := hsettings

theorem Balances.refl (p : Pipeline) : Balances p p [] :=
  .unmarked (fun _ => rfl) (fun _ h => h) rfl

theorem Balances.trans (h : Balances p q marks) (h' : Balances q r marks') :
    Balances p r (marks ++ marks') where
  parcels x := by
    have hfirst := h.parcels x
    have hsecond := h'.parcels x
    simp only [List.filterMap_append, List.flatMap_append, List.count_append]
    omega
  stats before hbefore := by
    rw [← List.append_assoc]
    exact h'.stats _ (h.stats before hbefore)
  settings := h'.settings.trans h.settings

theorem count_waiting (p : Pipeline) (x : Parcel) :
    p.waiting.count x = (p.high.flatMap OutFrame.parcels).count x +
      (p.normal.flatMap OutFrame.parcels).count x + (p.low.flatMap OutFrame.parcels).count x +
      (p.inHand.toList.flatMap InHand.parcels).count x +
      (p.workers.flatMap Worker.parcels).count x := by
  simp [waiting, List.flatMap_append, List.count_append, Nat.add_assoc]

theorem count_turnTo (p : Pipeline) (payload : Octets) (faces : List FaceId) (x : Parcel) :
    (p.turnTo payload faces).waiting.count x +
        (p.inHand.toList.flatMap InHand.parcels).count x =
      p.waiting.count x + (faces.map (⟨·, payload⟩ : FaceId → Parcel)).count x := by
  cases faces with
  | nil =>
    simp only [turnTo, count_waiting, Option.toList_none, List.flatMap_nil, List.count_nil,
      List.map_nil]
    omega
  | cons face others =>
    simp only [turnTo, count_waiting, Option.toList_some, List.flatMap_singleton, InHand.parcels]
    omega

theorem count_turnTo_others {h : InHand} (hhand : p.inHand = some h) (x : Parcel) :
    (p.turnTo h.payload h.others).waiting.count x + [⟨h.face, h.payload⟩].count x =
      p.waiting.count x := by
  have hturn := p.count_turnTo h.payload h.others x
  have hparcels : (p.inHand.toList.flatMap InHand.parcels).count x =
      (h.others.map (⟨·, h.payload⟩ : FaceId → Parcel)).count x +
        [⟨h.face, h.payload⟩].count x := by
    rw [hhand, Option.toList_some, List.flatMap_singleton, InHand.parcels, List.map_cons,
      ← List.singleton_append, List.count_append, Nat.add_comm]
  omega

@[simp] theorem attempts_turnTo (p : Pipeline) (payload : Octets) (faces : List FaceId) :
    (p.turnTo payload faces).attempts = p.attempts := by
  cases faces <;> rfl

@[simp] theorem stats_turnTo (p : Pipeline) (payload : Octets) (faces : List FaceId) :
    (p.turnTo payload faces).stats = p.stats := by
  cases faces <;> rfl

@[simp] theorem settings_turnTo (p : Pipeline) (payload : Octets) (faces : List FaceId) :
    (p.turnTo payload faces).settings = p.settings := by
  cases faces <;> rfl

@[simp] theorem settings_putLane (p : Pipeline) (priority : Priority) (frames : List OutFrame) :
    (p.putLane priority frames).settings = p.settings := by
  cases priority <;> rfl

@[simp] theorem inHand_putLane (p : Pipeline) (priority : Priority) (frames : List OutFrame) :
    (p.putLane priority frames).inHand = p.inHand := by
  cases priority <;> rfl

@[simp] theorem looksAt_putLane (p : Pipeline) (priority : Priority) (frames : List OutFrame) :
    (p.putLane priority frames).looksAt = p.looksAt := by
  cases priority <;> rfl

@[simp] theorem workers_putLane (p : Pipeline) (priority : Priority) (frames : List OutFrame) :
    (p.putLane priority frames).workers = p.workers := by
  cases priority <;> rfl

@[simp] theorem stats_putLane (p : Pipeline) (priority : Priority) (frames : List OutFrame) :
    (p.putLane priority frames).stats = p.stats := by
  cases priority <;> rfl

@[simp] theorem attempts_putLane (p : Pipeline) (priority : Priority) (frames : List OutFrame) :
    (p.putLane priority frames).attempts = p.attempts := by
  cases priority <;> rfl

theorem count_putLane {frames : List OutFrame} (h : p.lane priority = frame :: frames)
    (x : Parcel) :
    (p.putLane priority frames).waiting.count x + frame.parcels.count x = p.waiting.count x := by
  cases priority <;> simp only [lane] at h <;>
    simp only [putLane, count_waiting, h, List.flatMap_cons, List.count_append] <;> omega

theorem look_of_nil (h : p.lane p.looksAt = []) :
    p.look = { p with looksAt := p.looksAt.next } := by
  rw [look, h]

theorem look_of_cons {frames : List OutFrame} (h : p.lane p.looksAt = frame :: frames) :
    p.look = ({ p with looksAt := .high }.putLane p.looksAt frames).turnTo frame.payload
      frame.faces := by
  rw [look, h]

theorem dispatcherTurn_of_none (hhand : p.inHand = none) (outcome : SendOutcome) :
    p.dispatcherTurn outcome = p.look := by
  rw [dispatcherTurn, hhand]

theorem count_modify {workers : List Worker} {index : Nat} {w : Worker}
    (h : workers[index]? = some w) (f : Worker → Worker) (x : Parcel) :
    ((workers.modify index f).flatMap Worker.parcels).count x + w.parcels.count x =
      (workers.flatMap Worker.parcels).count x + (f w).parcels.count x := by
  induction workers generalizing index with
  | nil => cases h
  | cons first workers ih =>
    cases index with
    | zero =>
      obtain rfl := Option.some.inj h
      simp only [List.modify_zero_cons, List.flatMap_cons, List.count_append]
      omega
    | succ index =>
      have hrest := ih h
      simp only [List.modify_succ_cons, List.flatMap_cons, List.count_append]
      omega

theorem count_updateWorker {index : Nat} {w : Worker} (h : p.workers[index]? = some w)
    (f : Worker → Worker) (x : Parcel) :
    (p.updateWorker index f).waiting.count x + w.parcels.count x =
      p.waiting.count x + (f w).parcels.count x := by
  have hworkers := count_modify h f x
  simp only [updateWorker, count_waiting]
  omega

def noted (stats : TransmissionStats) : SendOutcome → TransmissionStats
  | .sent => { stats with sent := stats.sent.increment }
  | .short | .failed => { stats with sendErrors := stats.sendErrors.increment }
  | .gone => { stats with undeliverable := stats.undeliverable.increment }

theorem report_eq (p : Pipeline) (face : FaceId) :
    ∃ failures, p.report face = { p with failures } := by
  unfold report
  by_cases hroom : p.failures.length < p.failureCapacity
  · exact ⟨_, if_pos hroom⟩
  · exact ⟨_, if_neg hroom⟩

theorem note_eq (p : Pipeline) (parcel : Parcel) (outcome : SendOutcome) :
    ∃ failures, p.note parcel outcome =
      { p with
        attempts := ⟨parcel, outcome⟩ :: p.attempts
        stats := noted p.stats outcome
        failures } := by
  cases outcome with
  | sent | short | gone => exact ⟨_, rfl⟩
  | failed =>
    exact report_eq
      { p with
        attempts := ⟨parcel, .failed⟩ :: p.attempts
        stats := noted p.stats .failed } parcel.face

theorem count_attempted {parcel : Parcel} {outcome : SendOutcome}
    (h : q.attempts = ⟨parcel, outcome⟩ :: p.attempts) (x : Parcel) :
    q.attempted.count x = [parcel].count x + p.attempted.count x := by
  rw [attempted, h, List.map_cons, ← List.singleton_append, List.count_append, attempted]

theorem increment_mk (n : UInt64) : Counter.increment ⟨n⟩ = ⟨n + 1⟩ := by
  simp [Counter.increment, Counter.add]

theorem tally_attempt (marks : List Mark) (attempts : List Attempt) (parcel : Parcel)
    (outcome : SendOutcome) :
    tally marks (⟨parcel, outcome⟩ :: attempts) = noted (tally marks attempts) outcome := by
  cases outcome <;> simp [tally, numberOf, noted, increment_mk]

theorem stats_countQueued {mark : Mark} (hmark : mark.isQueued = true)
    (h : p.stats = tally marks p.attempts) :
    p.countQueued.stats = tally (marks ++ [mark]) p.attempts := by
  simp [countQueued, count, h, tally, List.countP_append, hmark, increment_mk]

theorem stats_countDropped {mark : Mark} (hmark : mark.isQueued = false)
    (h : p.stats = tally marks p.attempts) :
    p.countDropped.stats = tally (marks ++ [mark]) p.attempts := by
  simp [countDropped, count, h, tally, List.countP_append, hmark, increment_mk]

end Pipeline
end NamedData
