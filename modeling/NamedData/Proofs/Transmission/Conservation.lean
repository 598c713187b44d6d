import NamedData.Proofs.Transmission.Accounts

/-!
# Nothing is lost in the transmission

The account balances for every turn of dispatcher and workers and for every push, and so for
whatever happens. The parcels of the accepted frames are at any time those that wait, those that
were tried to be sent and those that were turned away, and the statistics are the numbers of marks
and of attempts.
-/

namespace NamedData
namespace Pipeline

variable {p q : Pipeline} {frame : OutFrame} {priority : Priority}

/-! ## Turns -/

/-- The dispatcher looks at a lane, and takes the first frame if there is one. -/
theorem balances_look (hhand : p.inHand = none) : Balances p p.look [] := by
  cases hlane : p.lane p.looksAt with
  | nil =>
    rw [look_of_nil hlane]
    exact .unmarked (fun _ => rfl) (fun _ hbefore => hbefore) rfl
  | cons frame frames =>
    let again : Pipeline := { p with looksAt := .high }
    let taken := again.putLane p.looksAt frames
    have hlook : p.look = taken.turnTo frame.payload frame.faces := look_of_cons hlane
    rw [hlook]
    refine .unmarked ?_ (by simp [taken, again]) (by simp [taken, again])
    intro x
    have hturn := taken.count_turnTo frame.payload frame.faces x
    have hframe : taken.waiting.count x + frame.parcels.count x = p.waiting.count x :=
      count_putLane (p := again) hlane x
    have hnone : taken.inHand = none := by simp [taken, again, hhand]
    have hattempted : (taken.turnTo frame.payload frame.faces).attempted = p.attempted := by
      simp [attempted, taken, again]
    simp only [hnone, Option.toList_none, List.flatMap_nil, List.count_nil] at hturn
    rw [OutFrame.parcels] at hframe
    rw [hattempted]
    omega

theorem balances_send {h : InHand} (hhand : p.inHand = some h) (outcome : SendOutcome) :
    Balances p ((p.note ⟨h.face, h.payload⟩ outcome).turnTo h.payload h.others) [] := by
  obtain ⟨failures, hnote⟩ := p.note_eq ⟨h.face, h.payload⟩ outcome
  refine .unmarked ?_ ?_ (by simp [hnote])
  · intro x
    have hother : (p.note ⟨h.face, h.payload⟩ outcome).inHand = some h := by rw [hnote, hhand]
    have hturn := count_turnTo_others hother x
    have hsame : (p.note ⟨h.face, h.payload⟩ outcome).waiting = p.waiting := by
      rw [hnote]
      rfl
    have hattempted := @count_attempted p
      ((p.note ⟨h.face, h.payload⟩ outcome).turnTo h.payload h.others)
      ⟨h.face, h.payload⟩ outcome (by simp [hnote]) x
    rw [hsame] at hturn
    omega
  · intro before hbefore
    rw [stats_turnTo, attempts_turnTo, hnote, tally_attempt, ← hbefore]

theorem exists_worker {index : Nat} (hroom : p.hasRoom index) :
    ∃ w, p.workers[index]? = some w := by
  unfold hasRoom at hroom
  cases hw : p.workers[index]? with
  | none => simp [hw] at hroom
  | some w => exact ⟨w, rfl⟩

theorem balances_handOver {h : InHand} (hhand : p.inHand = some h)
    (hroom : p.hasRoom (p.workerOf h.face)) :
    Balances p (p.handOff h) [.handedOver ⟨h.face, h.payload⟩] := by
  obtain ⟨w, hw⟩ := exists_worker hroom
  let fill : Worker → Worker := fun w => { w with queue := w.queue ++ [⟨h.face, h.payload⟩] }
  let filled := (p.updateWorker (p.workerOf h.face) fill).countQueued
  have hhanded : p.handOff h = filled.turnTo h.payload h.others := by rw [handOff, if_pos hroom]
  have hfilled : filled.inHand = some h := hhand
  rw [hhanded]
  refine ⟨?_, ?_, settings_turnTo ..⟩
  · intro x
    have hturn := count_turnTo_others hfilled x
    have hworker : filled.waiting.count x + w.parcels.count x =
        p.waiting.count x + (fill w).parcels.count x := count_updateWorker hw fill x
    have hfill : (fill w).parcels.count x =
        w.parcels.count x + [⟨h.face, h.payload⟩].count x := by
      simp only [fill, Worker.parcels, List.count_append, Nat.add_assoc]
    have hattempted : (filled.turnTo h.payload h.others).attempted.count x =
        p.attempted.count x := by rw [attempted, attempts_turnTo]; rfl
    simp only [List.filterMap_cons, List.filterMap_nil, Mark.turnedAway?, Mark.accepted?,
      List.flatMap_nil, List.count_nil]
    omega
  · intro before hbefore
    rw [stats_turnTo, attempts_turnTo]
    exact stats_countQueued rfl hbefore

theorem balances_turnAway {h : InHand} (hhand : p.inHand = some h)
    (hroom : ¬p.hasRoom (p.workerOf h.face)) (htries : h.tries = 0) :
    Balances p (p.handOff h) [.turnedAway ⟨h.face, h.payload⟩] := by
  have hdropped : p.handOff h = p.countDropped.turnTo h.payload h.others := by
    rw [handOff, if_neg hroom, htries]
  have hkept : p.countDropped.inHand = some h := hhand
  rw [hdropped]
  refine ⟨?_, ?_, settings_turnTo ..⟩
  · intro x
    have hturn : (p.countDropped.turnTo h.payload h.others).waiting.count x +
        [⟨h.face, h.payload⟩].count x = p.waiting.count x := count_turnTo_others hkept x
    have hattempted : (p.countDropped.turnTo h.payload h.others).attempted.count x =
        p.attempted.count x := by rw [attempted, attempts_turnTo]; rfl
    simp only [List.filterMap_cons, List.filterMap_nil, Mark.turnedAway?, Mark.accepted?,
      List.flatMap_nil, List.count_nil]
    omega
  · intro before hbefore
    rw [stats_turnTo, attempts_turnTo]
    exact stats_countDropped rfl hbefore

theorem balances_tryAgain {h : InHand} (hhand : p.inHand = some h)
    (hroom : ¬p.hasRoom (p.workerOf h.face)) {tries : Nat} (htries : h.tries = tries + 1) :
    Balances p (p.handOff h) [] := by
  have hkept : p.handOff h = { p with inHand := some { h with tries } } := by
    rw [handOff, if_neg hroom, htries]
  rw [hkept]
  refine .unmarked ?_ (fun _ hbefore => hbefore) rfl
  intro x
  simp only [count_waiting, hhand]
  rfl

theorem balances_dispatcherTurn (p : Pipeline) (outcome : SendOutcome) :
    Balances p (p.dispatcherTurn outcome) (p.marksOfTurn (.dispatcher outcome)) := by
  cases hhand : p.inHand with
  | none =>
    rw [dispatcherTurn_of_none hhand, marksOfTurn, hhand]
    exact balances_look hhand
  | some h =>
    simp only [dispatcherTurn, marksOfTurn, hhand]
    cases hmode : p.settings.mode with
    | simple => exact balances_send hhand outcome
    | sharded =>
      dsimp only
      by_cases hroom : p.hasRoom (p.workerOf h.face)
      · rw [if_pos hroom]
        exact balances_handOver hhand hroom
      · rw [if_neg hroom]
        cases htries : h.tries with
        | zero => exact balances_turnAway hhand hroom htries
        | succ tries => exact balances_tryAgain hhand hroom htries

/-- A worker that sends a parcel has it no more, and one that takes a parcel up still has it. -/
theorem balances_workerTurn (p : Pipeline) (index : Nat) (outcome : SendOutcome) :
    Balances p (p.workerTurn index outcome) [] := by
  unfold workerTurn
  cases hw : p.workers[index]? with
  | none => exact .refl p
  | some w =>
    dsimp only
    split
    · rename_i parcel hcurrent
      obtain ⟨failures, hnote⟩ :=
        (p.updateWorker index fun w => { w with current := none }).note_eq parcel outcome
      rw [hnote]
      refine .unmarked ?_ ?_ rfl
      · intro x
        have hworker := count_updateWorker hw (fun w => { w with current := none }) x
        have hparcels : w.parcels.count x =
            ({ w with current := none } : Worker).parcels.count x + [parcel].count x := by
          simp only [Worker.parcels, hcurrent, Option.toList_some, Option.toList_none,
            List.count_append, List.nil_append, Nat.add_comm]
        rw [@count_attempted p _ parcel outcome rfl x]
        simp only [count_waiting, updateWorker] at hworker ⊢
        omega
      · intro before hbefore
        rw [tally_attempt]
        exact congrArg (noted · outcome) hbefore
    · rename_i parcel queue hcurrent hqueue
      refine .unmarked ?_ (fun _ hbefore => hbefore) rfl
      intro x
      have hworker := count_updateWorker hw (fun _ => { queue, current := some parcel }) x
      have hparcels : w.parcels.count x =
          ({ queue, current := some parcel } : Worker).parcels.count x := by
        simp only [Worker.parcels, hcurrent, hqueue, Option.toList_some, Option.toList_none]
        rfl
      have hattempted : (p.updateWorker index fun _ =>
          { queue, current := some parcel }).attempted = p.attempted := rfl
      rw [hattempted]
      omega
    · exact .refl p

theorem balances_turn (p : Pipeline) (t : Turn) : Balances p (p.turn t) (p.marksOfTurn t) := by
  cases t with
  | dispatcher outcome => exact p.balances_dispatcherTurn outcome
  | worker index outcome => exact p.balances_workerTurn index outcome

theorem balances_run (p : Pipeline) (turns : List Turn) :
    Balances p (p.run turns) (p.marksOfRun turns) := by
  induction turns generalizing p with
  | nil => exact .refl p
  | cons t turns ih => exact (p.balances_turn t).trans (ih (p.turn t))

/-! ## Pushes -/

theorem run_append (p : Pipeline) (turns later : List Turn) :
    p.run (turns ++ later) = (p.run turns).run later := List.foldl_append ..

/-- When the others have taken their turns, the frame is accepted or dropped. -/
theorem insist_eq (frame : OutFrame) (priority : Priority) (pauses : Nat → List Turn)
    (tries : Nat) (p : Pipeline) :
    let before := p.run (meanwhile frame priority pauses tries p)
    insist frame priority (fun tries p => p.run (pauses tries)) tries p =
      match before.offer? frame priority with
      | some q => (q, true)
      | none => (before.countDropped, false) := by
  induction tries generalizing p with
  | zero => rfl
  | succ tries ih =>
    dsimp only
    rw [insist, meanwhile]
    cases hoffer : p.offer? frame priority with
    | some q => simp only [run, List.foldl_nil, hoffer]
    | none =>
      dsimp only
      rw [run_append]
      exact ih (p.run (pauses tries))

theorem insist_cases (frame : OutFrame) (priority : Priority) (pauses : Nat → List Turn)
    (tries : Nat) (p : Pipeline) :
    let before := p.run (meanwhile frame priority pauses tries p)
    let pushed := insist frame priority (fun tries p => p.run (pauses tries)) tries p
    (∃ q, before.offer? frame priority = some q ∧ pushed = (q, true)) ∨
      pushed = (before.countDropped, false) := by
  intro before pushed
  have hpushed : pushed = _ := insist_eq frame priority pauses tries p
  cases hoffer : before.offer? frame priority with
  | some q =>
    refine .inl ⟨q, rfl, ?_⟩
    rw [hpushed, hoffer]
  | none =>
    refine .inr ?_
    rw [hpushed, hoffer]

theorem balances_offer (h : p.offer? frame priority = some q) :
    Balances p q [.accepted frame] := by
  unfold offer? at h
  dsimp only at h
  split at h
  · obtain rfl := Option.some.inj h
    refine ⟨?_, ?_, ?_⟩
    · intro x
      have hattempted : ∀ frames, (p.putLane priority frames).countQueued.attempted =
          p.attempted := by
        intro frames
        cases priority <;> rfl
      have hwaiting : (p.putLane priority (p.lane priority ++ [frame])).countQueued.waiting.count x =
          p.waiting.count x + frame.parcels.count x := by
        cases priority <;>
          simp only [putLane, lane, countQueued, count, count_waiting, List.flatMap_append,
            List.flatMap_singleton, List.count_append] <;>
          omega
      simp only [hattempted, List.filterMap_cons, List.filterMap_nil, Mark.turnedAway?,
        Mark.accepted?, List.flatMap_singleton, List.count_nil]
      omega
    · intro before hbefore
      cases priority <;> exact stats_countQueued rfl hbefore
    · cases priority <;> rfl
  · cases h

theorem balances_refusal (p : Pipeline) (frame : OutFrame) :
    Balances p p.countDropped [.refused frame] :=
  ⟨fun _ => rfl, fun _ hbefore => stats_countDropped rfl hbefore, rfl⟩

theorem balances_push (p : Pipeline) (frame : OutFrame) (priority : Priority)
    (pauses : Nat → List Turn) :
    Balances p (p.happen (.push frame priority pauses))
      (p.marksOf (.push frame priority pauses)) := by
  rw [happen, marksOf, push]
  split
  · exact .refl p
  · have hothers := p.balances_run (meanwhile frame priority pauses p.settings.pushRetries p)
    rcases insist_cases frame priority pauses p.settings.pushRetries p with
      ⟨q, hoffer, hpushed⟩ | hpushed
    · rw [hpushed]
      exact hothers.trans (balances_offer hoffer)
    · rw [hpushed]
      exact hothers.trans (balances_refusal _ frame)

theorem balances_happen (p : Pipeline) (h : Happening) :
    Balances p (p.happen h) (p.marksOf h) := by
  cases h with
  | push frame priority pauses => exact p.balances_push frame priority pauses
  | turn t => exact p.balances_turn t

theorem balances_undergo (p : Pipeline) (happenings : List Happening) :
    Balances p (p.undergo happenings) (p.history happenings) := by
  induction happenings generalizing p with
  | nil => exact .refl p
  | cons h happenings ih => exact (p.balances_happen h).trans (ih (p.happen h))

/-! ## The whole run -/

variable {settings : TransmissionSettings} {capacity : Nat} {happenings : List Happening}

theorem marksOfRun_of_simple (h : p.settings.mode = .simple) (turns : List Turn) :
    p.marksOfRun turns = [] := by
  induction turns generalizing p with
  | nil => rfl
  | cons t turns ih =>
    have hlater : (p.turn t).settings.mode = .simple := by rwa [(p.balances_turn t).settings]
    have hfirst : p.marksOfTurn t = [] := by
      cases t with
      | dispatcher outcome =>
        rw [marksOfTurn, h]
        split <;> rfl
      | worker index outcome => rfl
    rw [marksOfRun, hfirst, ih hlater]
    rfl

theorem turnedAway_of_simple (h : p.settings.mode = .simple) (happenings : List Happening) :
    (p.history happenings).filterMap Mark.turnedAway? = [] := by
  induction happenings generalizing p with
  | nil => rfl
  | cons happening happenings ih =>
    have hlater : (p.happen happening).settings.mode = .simple := by
      rwa [(p.balances_happen happening).settings]
    have hfirst : (p.marksOf happening).filterMap Mark.turnedAway? = [] := by
      cases happening with
      | push frame priority pauses =>
        rw [marksOf, marksOfRun_of_simple h]
        split
        · rfl
        · dsimp only
          split <;> rfl
      | turn t =>
        have hone := marksOfRun_of_simple h [t]
        simp only [marksOfRun, List.append_nil] at hone
        rw [marksOf, hone]
        rfl
    rw [history, List.filterMap_append, hfirst, ih hlater]
    rfl

theorem waiting_ofSettings (settings : TransmissionSettings) (capacity : Nat) :
    (ofSettings settings capacity).waiting = [] := by
  simp [waiting, ofSettings, Worker.parcels]

theorem waiting_of_idle (h : p.idle) : p.waiting = [] := by
  simp only [idle, Bool.and_eq_true, List.isEmpty_iff, Option.isNone_iff_eq_none,
    List.all_eq_true] at h
  obtain ⟨⟨⟨⟨hhigh, hnormal⟩, hlow⟩, hhand⟩, hworkers⟩ := h
  have hempty : p.workers.flatMap Worker.parcels = [] := by
    refine List.flatMap_eq_nil_iff.2 ?_
    intro w hw
    obtain ⟨hqueue, hcurrent⟩ := hworkers w hw
    rw [Worker.parcels, hqueue, hcurrent]
    rfl
  simp [waiting, hhigh, hnormal, hlow, hhand, hempty]

theorem numberOf_outcomes (attempts : List Attempt) :
    numberOf [.sent] attempts + numberOf [.short, .failed] attempts + numberOf [.gone] attempts =
      attempts.length := by
  induction attempts with
  | nil => rfl
  | cons a attempts ih =>
    obtain ⟨parcel, outcome⟩ := a
    cases outcome <;> simp [numberOf] at ih ⊢ <;> omega

theorem length_parcels (frames : List OutFrame) :
    (frames.flatMap OutFrame.parcels).length = (frames.map (·.faces.length)).sum := by
  simp [List.length_flatMap, OutFrame.parcels]

/-- Whatever is pushed, in whatever order the others proceed and whatever comes of sending, the
statistics count every push of a frame for some face and every hand-off once, as queued or as
dropped, and every attempt once by its outcome. When nothing waits any more, the parcels of the
accepted frames are those that were tried to be sent and those that workers have refused, of which
there are none if the dispatcher sends frames itself. -/
theorem transmission_accounted_for (settings : TransmissionSettings) (capacity : Nat)
    (happenings : List Happening) :
    let p := (ofSettings settings capacity).undergo happenings
    let marks := (ofSettings settings capacity).history happenings
    let accepted := marks.filterMap Mark.accepted?
    let turnedAway := marks.filterMap Mark.turnedAway?
    let faces := (accepted.map (·.faces.length)).sum
    let sends := numberOf [.sent] p.attempts + numberOf [.short, .failed] p.attempts +
      numberOf [.gone] p.attempts
    p.stats = tally marks p.attempts ∧
      (p.idle → (accepted.flatMap OutFrame.parcels).Perm (p.attempted ++ turnedAway) ∧
        (settings.mode = .simple → turnedAway = [] ∧ faces = sends) ∧
        (settings.mode = .sharded → faces = sends + turnedAway.length)) := by
  intro p marks accepted turnedAway faces sends
  have hbalances : Balances (ofSettings settings capacity) p marks := balances_undergo _ happenings
  refine ⟨hbalances.stats [] rfl, ?_⟩
  intro hidle
  have hparcels : (accepted.flatMap OutFrame.parcels).Perm (p.attempted ++ turnedAway) := by
    refine List.perm_iff_count.2 ?_
    intro x
    have hcount := hbalances.parcels x
    rw [waiting_of_idle hidle, waiting_ofSettings] at hcount
    have hstart : (ofSettings settings capacity).attempted = [] := rfl
    simp only [hstart, List.count_nil] at hcount
    simp only [accepted, turnedAway, List.count_append]
    omega
  have hfaces : faces = sends + turnedAway.length := by
    have hlength := hparcels.length_eq
    rw [length_parcels, List.length_append, attempted, List.length_map] at hlength
    rw [← numberOf_outcomes] at hlength
    exact hlength
  refine ⟨hparcels, ?_, fun _ => hfaces⟩
  intro hsimple
  have hnone : turnedAway = [] := turnedAway_of_simple hsimple happenings
  exact ⟨hnone, by rw [hfaces, hnone, List.length_nil, Nat.add_zero]⟩

/-- Every queue has room for one. The dispatcher takes the first frame while the second is pushed,
and the third finds its lane full. The parcel for face 2 is turned away after two tries, that for
face 1 is sent, and face 3 has gone. -/
theorem transmission_accounted_for_small :
    let settings : TransmissionSettings :=
      { workers := 1, laneCapacity := 1, workerCapacity := 1, pushRetries := 1 }
    let happenings : List Happening :=
      [.push ⟨[7], [⟨1⟩, ⟨2⟩], .object⟩ .high (fun _ => []),
        .push ⟨[8], [⟨3⟩], .object⟩ .high (fun _ => [.dispatcher .sent]),
        .push ⟨[9], [⟨4⟩], .object⟩ .high (fun _ => []),
        .turn (.dispatcher .sent), .turn (.dispatcher .sent), .turn (.dispatcher .sent),
        .turn (.dispatcher .sent), .turn (.worker 0 .sent), .turn (.worker 0 .sent),
        .turn (.dispatcher .sent), .turn (.worker 0 .sent), .turn (.worker 0 .gone)]
    let p := (ofSettings settings 1).undergo happenings
    let marks := (ofSettings settings 1).history happenings
    let accepted := marks.filterMap Mark.accepted?
    let turnedAway := marks.filterMap Mark.turnedAway?
    p.idle ∧ p.stats = { queued := ⟨4⟩, sent := ⟨1⟩, dropped := ⟨2⟩, undeliverable := ⟨1⟩ } ∧
      turnedAway = [⟨⟨2⟩, [7]⟩] ∧ (accepted.flatMap OutFrame.parcels).Perm
        (p.attempted ++ turnedAway) ∧ (accepted.map (·.faces.length)).sum = 3 := by
  intro settings happenings p marks accepted turnedAway
  obtain ⟨hstats, hdrained⟩ := transmission_accounted_for settings 1 happenings
  have hidle : p.idle := by decide +kernel
  obtain ⟨hparcels, -, -⟩ := hdrained hidle
  have hcounted : tally marks p.attempts =
      { queued := ⟨4⟩, sent := ⟨1⟩, dropped := ⟨2⟩, undeliverable := ⟨1⟩ } := by decide +kernel
  exact ⟨hidle, hstats.trans hcounted, by decide +kernel, hparcels, by decide +kernel⟩

end Pipeline
end NamedData
