import NamedData.Proofs.Transmission.Passages

/-!
# Rounds of the lanes

The dispatcher goes round the lanes from the highest one down, one look at a time. As soon as it
finds a frame it takes it, and it starts again at the top when the frame is dealt with. On a round
it has therefore passed every lane above the one that it looks at next, and nothing but frames that
have been pushed since then can stand in those lanes.
-/

namespace NamedData
namespace Pipeline

variable {p q : Pipeline} {lane : Priority} {log later : List Passage}

/-- What can come between a look at a lane and the end of the round: the dispatcher passes lower
lanes, and frames enter. -/
def Passage.OnTheWay (lane : Priority) : Passage → Prop
  | .entered .. => True
  | .passed lower => lane ∈ lower.above
  | .left .. | .dealt .. => False

/-- The dispatcher has found a lane empty on the round that it is on, and the frames that stand in
the lane have entered since then. -/
def PassedOver (log : List Passage) (lane : Priority) (standing : List OutFrame) : Prop :=
  ∃ earlier since, log = earlier ++ .passed lane :: since ∧
    (∀ passage ∈ since, passage.OnTheWay lane) ∧
    standing = since.filterMap (Passage.entered? lane)

theorem PassedOver.orders (h : PassedOver log lane (p.lane lane))
    (hlater : ∀ passage ∈ later, passage.OnTheWay lane) (horders : Orders p q later) :
    PassedOver (log ++ later) lane (q.lane lane) := by
  obtain ⟨earlier, since, hlog, hsince, hstanding⟩ := h
  refine ⟨earlier, since ++ later, by simp [hlog], ?_, ?_⟩
  · intro passage hpassage
    rcases List.mem_append.1 hpassage with hold | hnew
    · exact hsince passage hold
    · exact hlater passage hnew
  · have hnone : later.filterMap (Passage.left? lane) = [] := by
      refine List.filterMap_eq_nil_iff.2 ?_
      intro passage hpassage
      have hway := hlater passage hpassage
      cases passage with
      | left => exact hway.elim
      | entered | passed | dealt => rfl
    have hlane := horders.lanes lane
    rw [Queues, hnone, hstanding, List.nil_append] at hlane
    rw [List.filterMap_append, hlane]

/-- Where the dispatcher is on its round: with a frame in hand at the highest lane, and else below
the lanes that it has passed. -/
structure OnRound (log : List Passage) (p : Pipeline) : Prop where
  hand : p.inHand.isSome → p.looksAt = .high
  above : ∀ lane ∈ p.looksAt.above, PassedOver log lane (p.lane lane)

theorem OnRound.of_high (h : p.looksAt = .high) : OnRound log p where
  hand _ := h
  above := by simp [h, Priority.above]

theorem mem_above_next {lane priority : Priority} (h : lane ∈ priority.next.above) :
    lane = priority ∨ lane ∈ priority.above := by
  cases priority <;> cases lane <;> simp [Priority.next, Priority.above] at h ⊢

@[simp] theorem looksAt_turnTo (p : Pipeline) (payload : Octets) (faces : List FaceId) :
    (p.turnTo payload faces).looksAt = p.looksAt := by
  cases faces <;> rfl

@[simp] theorem looksAt_note (p : Pipeline) (parcel : Parcel) (outcome : SendOutcome) :
    (p.note parcel outcome).looksAt = p.looksAt := by
  obtain ⟨failures, hnote⟩ := p.note_eq parcel outcome
  rw [hnote]

theorem looksAt_of_inHand {h : InHand} (hhand : p.inHand = some h) (outcome : SendOutcome) :
    (p.dispatcherTurn outcome).looksAt = p.looksAt := by
  rw [dispatcherTurn, hhand]
  dsimp only
  split
  · simp
  · unfold handOff
    dsimp only
    split
    · rw [looksAt_turnTo]
      rfl
    · split
      · rw [looksAt_turnTo]
        rfl
      · rfl

theorem dispatcher_of_workerTurn (p : Pipeline) (index : Nat) (outcome : SendOutcome) :
    (p.workerTurn index outcome).looksAt = p.looksAt ∧
      (p.workerTurn index outcome).inHand = p.inHand := by
  unfold workerTurn
  split
  · exact ⟨rfl, rfl⟩
  · split
    · rename_i parcel _
      obtain ⟨failures, hnote⟩ :=
        (p.updateWorker index fun w => { w with current := none }).note_eq parcel outcome
      rw [hnote]
      exact ⟨rfl, rfl⟩
    · exact ⟨rfl, rfl⟩
    · exact ⟨rfl, rfl⟩

theorem dispatcher_of_offer (p : Pipeline) (frame : OutFrame) (priority : Priority) :
    (p.step (.offer frame priority)).looksAt = p.looksAt ∧
      (p.step (.offer frame priority)).inHand = p.inHand := by
  rw [step, offer?]
  split
  · exact ⟨looksAt_putLane .., inHand_putLane ..⟩
  · exact ⟨rfl, rfl⟩

/-- A step of others leaves the dispatcher where it is. -/
theorem OnRound.of_same (h : OnRound log p) (horders : Orders p q later)
    (hsame : q.looksAt = p.looksAt ∧ q.inHand = p.inHand)
    (hlater : ∀ lane, ∀ passage ∈ later, passage.OnTheWay lane) : OnRound (log ++ later) q where
  hand := by
    rw [hsame.1, hsame.2]
    exact h.hand
  above := by
    rw [hsame.1]
    intro lane hlane
    exact (h.above lane hlane).orders (hlater lane) horders

theorem OnRound.look (h : OnRound log p) (hhand : p.inHand = none) (outcome : SendOutcome) :
    OnRound (log ++ p.passagesOf (.turn (.dispatcher outcome))) p.look := by
  rw [passagesOf, hhand]
  cases hlane : p.lane p.looksAt with
  | nil =>
    have horders := orders_pass hlane
    rw [look_of_nil hlane] at horders ⊢
    refine ⟨by simp [hhand], ?_⟩
    intro lane habove
    -- the lane that has just been found empty, or one that was passed before it
    rcases mem_above_next habove with rfl | hhigher
    · refine ⟨log, [], rfl, by simp, ?_⟩
      have hstill := horders.lanes p.looksAt
      rw [Queues, hlane] at hstill
      exact hstill.symm
    · exact (h.above lane hhigher).orders (by simpa [Passage.OnTheWay] using hhigher) horders
  | cons frame frames =>
    rw [look_of_cons hlane]
    exact .of_high (by simp)

theorem OnRound.step (h : OnRound log p) (s : Step) :
    OnRound (log ++ p.passagesOf s) (p.step s) := by
  have horders := p.orders_step s
  cases s with
  | offer frame priority =>
    refine h.of_same horders (p.dispatcher_of_offer frame priority) ?_
    intro lane passage hpassage
    rw [passagesOf] at hpassage
    split at hpassage
    · rw [List.mem_singleton.1 hpassage]
      trivial
    · exact absurd hpassage List.not_mem_nil
  | turn t =>
    cases t with
    | worker index outcome =>
      refine h.of_same horders (p.dispatcher_of_workerTurn index outcome) ?_
      intro lane passage hpassage
      exact absurd hpassage List.not_mem_nil
    | dispatcher outcome =>
      cases hhand : p.inHand with
      | none =>
        rw [Pipeline.step, turn, dispatcherTurn_of_none hhand]
        exact h.look hhand outcome
      | some inHand =>
        refine .of_high ((looksAt_of_inHand hhand outcome).trans (h.hand ?_))
        rw [hhand]
        rfl

end Pipeline
end NamedData
