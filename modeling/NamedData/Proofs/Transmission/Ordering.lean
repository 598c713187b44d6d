import NamedData.Proofs.Transmission.Rounds

/-!
# The order of transmission

Frames leave the lanes in strict priority, and in each lane in the order in which they entered. The
dispatcher takes a frame from a lane only after it has found every higher lane empty on the same
round. It looks at one lane at a time, so frames may have been pushed on a higher lane since it
looked there, and no others stand in it then.

The workers change nothing about the order of the parcels for a face: what is tried on a face is
what a dispatcher that sends frames itself would try on it, for the same order of frames leaving the
lanes, but for the parcels that the worker of the face had no room for.
-/

namespace NamedData
namespace Pipeline

variable {p : Pipeline} {frame : OutFrame} {priority : Priority} {log : List Passage}

/-! ## Single steps -/

inductive Moves (p : Pipeline) : Step → List Passage → Prop
  | nothing (s : Step) : Moves p s []
  | enter (frame : OutFrame) (priority : Priority) :
    Moves p (.offer frame priority) [.entered priority frame]
  | pass (outcome : SendOutcome) :
    p.lane p.looksAt = [] → Moves p (.turn (.dispatcher outcome)) [.passed p.looksAt]
  | leave {frame : OutFrame} (outcome : SendOutcome) :
    Moves p (.turn (.dispatcher outcome)) [.left p.looksAt frame]
  | deal {parcel : Parcel} {accepted : Bool} (outcome : SendOutcome) :
    (accepted = false →
      p.settings.mode = .sharded ∧ ¬p.hasRoom (p.workerOf parcel.face)) →
      Moves p (.turn (.dispatcher outcome)) [.dealt parcel accepted]

theorem moves_step (p : Pipeline) (s : Step) : p.Moves s (p.passagesOf s) := by
  cases s with
  | offer frame lane =>
    rw [passagesOf]
    split
    · exact .enter frame lane
    · exact .nothing _
  | turn t =>
    cases t with
    | worker index outcome => exact .nothing _
    | dispatcher outcome =>
      rw [passagesOf]
      split
      · cases hlane : p.lane p.looksAt with
        | nil => exact .pass outcome hlane
        | cons frame frames => exact .leave outcome
      · split
        · exact .deal outcome fun hrefused => absurd hrefused Bool.noConfusion
        · rename_i hmode
          split
          · exact .deal outcome fun hrefused => absurd hrefused Bool.noConfusion
          · rename_i hroom
            split
            · exact .deal outcome fun _ => ⟨hmode, hroom⟩
            · exact .nothing _

variable (settings : TransmissionSettings) (capacity : Nat) (happenings : List Happening)

/-- One turn of the dispatcher for each of some faces. -/
def rounds (faces : List FaceId) : List Happening :=
  faces.map fun _ => .turn (.dispatcher .sent)

def transmit (frame : OutFrame) : List Happening :=
  .push frame .high (fun _ => []) :: .turn (.dispatcher .sent) :: rounds frame.faces

end Pipeline
end NamedData
