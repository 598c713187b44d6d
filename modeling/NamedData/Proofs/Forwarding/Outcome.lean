import NamedData.Proofs.Forwarding.Renewal
import NamedData.Proofs.Packet.Copies

/-!
# What an Interest leaves behind

An Interest that is let in and is no command is sent on, answered, given back or kept, and what is
sent for it tells what the pending table holds of it afterwards.
-/

namespace NamedData

theorem Message.toInterestReturn_inj {raw : Octets} {m : Message} (h : parse raw = .ok m)
    (hkind : m.kind = .interest) {code other : ReturnCode} :
    m.toInterestReturn code = m.toInterestReturn other ↔ code = other := by
  constructor
  · intro hsame
    have hparse := parse_toInterestReturn h hkind code
    rw [hsame, parse_toInterestReturn h hkind other] at hparse
    have hcode := congrArg Message.returnCode (Except.ok.inj hparse)
    exact (Option.some.inj hcode).symm
  · exact fun hcode => congrArg m.toInterestReturn hcode

namespace Forwarder

open PendingTable

variable {f : Forwarder} {faces : FaceView} {face : FaceId} {bytes : Octets} {clock : Clock}
variable {m : Message} {now : Instant} {after : PendingTable}

theorem HopLimit.ofMessage_eq_exhausted_iff {isLocal : Bool} {m : Message} :
    HopLimit.ofMessage isLocal m = .exhausted ↔ isLocal = false ∧ m.hopLimit = 1 := by
  unfold HopLimit.ofMessage
  cases isLocal with
  | true => simp
  | false =>
    by_cases hone : m.hopLimit = 1
    · simp [hone]
    · by_cases hzero : m.hopLimit = 0 <;> simp [hone, hzero]

/-- The record of a face that waits for what it asks for now. -/
def ownRecord (f : Forwarder) (face : FaceId) (m : Message) (now : Instant)
    (pendingReturn : Option Octets) : WaitRecord :=
  { face, expiry := now + f.lifetimeOf m, fingerprint := m.fingerprint, pendingReturn }

/-- The return that is put off for an Interest that comes with its last hop. -/
def putOff? (f : Forwarder) (faces : FaceView) (face : FaceId) (m : Message) : Option Octets :=
  if faces.isLocal face = false ∧ m.hopLimit = 1 then some (m.toInterestReturn f.hopLimitReturnCode)
  else none

/-- How the pending table after an Interest goes with what is sent for it. -/
structure Outcome (f : Forwarder) (faces : FaceView) (face : FaceId) (m : Message) (now : Instant)
    (after : PendingTable) (actions : List Action) : Prop where
  length_le : actions.length ≤ 1
  /-- Where the Interest is sent on, its face waits for it under all its keys. -/
  onward : ∀ frame priority, .send frame priority ∈ actions → frame.frameClass = .interest →
    ∀ key ∈ m.requestKeys, ∃ e, after.find? key = some e ∧
      e.record? face = some (f.ownRecord face m now none) ∧ ∀ g ∈ frame.faces, g ∈ e.onward
  /-- An answer from the cache leaves at high priority. -/
  answered : ∀ frame, .send frame .high ∈ actions →
    ∀ key ∈ m.requestKeys, after.record? key face = none
  unrouted : sendTo face (m.toInterestReturn .noRoute) .low ∈ actions →
    ∀ key ∈ m.requestKeys, after.record? key face = none
  exceeded : sendTo face (m.toInterestReturn .hopLimitExceeded) .low ∈ actions → after = f.pending
  /-- Where nothing is sent, the face waits, and with its last hop it has a return to wait for. -/
  silent : actions = [] → ∀ key ∈ m.requestKeys,
    after.record? key face = some (f.ownRecord face m now (f.putOff? faces face m))

theorem of_mem_sendTo {payload : Octets} {frame : OutFrame} {priority sent : Priority}
    (h : .send frame priority ∈ [sendTo face payload sent]) :
    frame.frameClass = .object ∧ priority = sent := by
  obtain ⟨rfl, hpriority⟩ := Action.send.inj (List.mem_singleton.1 h)
  exact ⟨rfl, hpriority⟩

namespace Outcome

theorem of_return (hparse : Message.parse bytes = .ok m) (hkind : m.kind = .interest)
    (code : ReturnCode)
    (hunrouted : code = .noRoute → ∀ key ∈ m.requestKeys, after.record? key face = none)
    (hexceeded : code = .hopLimitExceeded → after = f.pending) :
    f.Outcome faces face m now after [sendTo face (m.toInterestReturn code) .low] := by
  have hcode : ∀ other, sendTo face (m.toInterestReturn other) .low ∈
      [sendTo face (m.toInterestReturn code) .low] → code = other := by
    intro other hsent
    simp only [sendTo, List.mem_singleton, Action.send.injEq, OutFrame.mk.injEq, and_true] at hsent
    exact ((Message.toInterestReturn_inj hparse hkind).1 hsent).symm
  refine ⟨Nat.le_refl 1, ?_, ?_, fun hsent => hunrouted (hcode _ hsent),
    fun hsent => hexceeded (hcode _ hsent), by simp⟩
  · intro frame priority hsent hclass
    rw [(of_mem_sendTo hsent).1] at hclass
    cases hclass
  · intro frame hsent
    cases (of_mem_sendTo hsent).2

theorem of_cached {payload : Octets}
    (h : ∀ key ∈ m.requestKeys, after.record? key face = none) :
    f.Outcome faces face m now after [sendTo face payload .high] where
  length_le := Nat.le_refl 1
  onward := by
    intro frame priority hsent hclass
    rw [(of_mem_sendTo hsent).1] at hclass
    cases hclass
  answered _ _ := h
  unrouted _ := h
  exceeded := by
    intro hsent
    cases (of_mem_sendTo hsent).2
  silent := by simp

theorem of_nothing (h : ∀ key ∈ m.requestKeys,
    after.record? key face = some (f.ownRecord face m now (f.putOff? faces face m))) :
    f.Outcome faces face m now after [] where
  length_le := Nat.zero_le 1
  onward := by simp
  answered := by simp
  unrouted := by simp
  exceeded := by simp
  silent _ := h

end Outcome

theorem record_entrant {hop : HopLimit} (hreturns : f.interestReturn) (hkind : m.kind = .interest)
    (hhop : HopLimit.ofMessage (faces.isLocal face) m = hop) :
    (f.entrant face m hop now).record = f.ownRecord face m now (f.putOff? faces face m) := by
  simp only [putOff?, ← HopLimit.ofMessage_eq_exhausted_iff, hhop]
  simp [entrant, Entrant.record, ownRecord, lifetimeOf, hreturns, hkind, PendingRequest.ofMessage]

theorem Passes.outcome {hopLimit : UInt8} {st : Entered}
    (h : f.Passes faces face m now (.remaining hopLimit) st) (hkind : m.kind = .interest) :
    f.Outcome faces face m now (f.fate faces face m now).1 (f.fate faces face m now).2 := by
  obtain ⟨hfind, hactions⟩ := h.fate_eq
  have hsent : (f.fate faces face m now).2 = [.send ⟨m.withHopLimit hopLimit,
      f.nextHops faces face m (.remaining hopLimit), .interest⟩ .normal] := by
    rw [hactions, onwardActions, if_neg (by simp [hkind])]
  have hother : ∀ frame priority, .send frame priority ∈ (f.fate faces face m now).2 →
      priority = .normal := by
    intro frame priority hmem
    rw [hsent] at hmem
    exact (Action.send.inj (List.mem_singleton.1 hmem)).2
  refine ⟨by rw [hsent]; exact Nat.le_refl 1, ?_, ?_, ?_, ?_, ?_⟩
  · intro frame priority hmem _ k hk
    rw [hsent] at hmem
    obtain ⟨rfl, -⟩ := Action.send.inj (List.mem_singleton.1 hmem)
    obtain ⟨key, hkey, rfl⟩ := List.mem_map.1 hk
    refine ⟨_, hfind key hkey, ?_, fun g hg => ?_⟩
    · rw [PendingEntry.record?_addAllOnward, Entrant.record?_joins, face_entrant, if_pos rfl]
      simp [entrant, Entrant.record, ownRecord, lifetimeOf, PendingRequest.ofMessage]
    · rw [addAllOnward_eq]
      exact (mem_pushNew _ _).2 (.inr hg)
  · intro frame hmem
    cases hother _ _ hmem
  · intro hmem
    cases hother _ _ hmem
  · intro hmem
    cases hother _ _ hmem
  · intro hnothing
    rw [hsent] at hnothing
    cases hnothing

theorem outcome_fate (hparse : Message.parse bytes = .ok m) (hkind : m.kind = .interest)
    (hreturns : f.interestReturn) :
    f.Outcome faces face m now (f.fate faces face m now).1 (f.fate faces face m now).2 := by
  have hgiven : ∀ code, f.returnsOf face m code = [sendTo face (m.toInterestReturn code) .low] :=
    fun _ => if_pos ⟨hreturns, hkind⟩
  generalize hhop : HopLimit.ofMessage (faces.isLocal face) m = hop
  by_cases hpasses : hop = .exceeded
  · simp only [fate, hhop, if_pos hpasses, hgiven]
    exact .of_return hparse hkind _ (by simp) fun _ => rfl
  cases henter : f.entering face m hop now with
  | error st =>
    simp only [fate, hhop, if_neg hpasses, henter, hgiven]
    exact .of_return hparse hkind _ (by simp) (by simp)
  | ok st =>
    -- all exits from here on leave the table as it is entered, or withdraw the face again
    have henters := enters_of_enter henter
    have hentered : ∀ key ∈ m.requestKeys,
        st.table.record? key face = some (f.ownRecord face m now (f.putOff? faces face m)) := by
      intro key hkey
      rw [record?_entered henters, if_pos ⟨hkey, rfl⟩, record_entrant hreturns hkind hhop]
    have hwithdrawn : ∀ key ∈ m.requestKeys,
        (st.table.releaseAll face st.keys).record? key face = none := by
      intro key hkey
      exact (record?_withdrawn henters).trans (if_pos ⟨hkey, rfl⟩)
    by_cases hforward : st.forward = false
    · simp only [fate, hhop, if_neg hpasses, henter, if_pos hforward]
      exact .of_nothing hentered
    cases hstored : f.stored? m now with
    | some object =>
      simp only [fate, hhop, if_neg hpasses, henter, if_neg hforward, hstored]
      exact .of_cached hwithdrawn
    | none =>
      have hforward : st.forward = true := by simpa using hforward
      cases hop with
      | exceeded => exact absurd rfl hpasses
      | exhausted =>
        simp only [fate, hhop, henter, hforward, hstored]
        exact .of_nothing hentered
      | remaining hopLimit =>
        by_cases hhops : f.nextHops faces face m (.remaining hopLimit) = []
        · simp only [fate, hhop, henter, hforward, hstored, if_pos hhops, hgiven]
          exact .of_return hparse hkind _ (fun _ => hwithdrawn) (by simp)
        · exact Passes.outcome ⟨hhop, henter, hforward, hstored, .inr hhops⟩ hkind

/-- Where returns are enabled, what is sent for an Interest that is let in and is no command agrees
with what the pending table holds of it. -/
theorem interest_outcome (hreq : f.Requests bytes m) (hkind : m.kind = .interest)
    (hreturns : f.interestReturn) :
    f.Outcome faces face m clock.now (f.handleFrame faces face bytes clock).1.pending
      (f.handleFrame faces face bytes clock).2 := by
  have hfate := (handled_handleFrame f faces face bytes clock).fate_eq hreq
  have houtcome : f.Outcome faces face m clock.now (f.fate faces face m clock.now).1
    (f.fate faces face m clock.now).2 := outcome_fate hreq.parse hkind hreturns
  rwa [hfate] at houtcome

/-- Face 1 asks with its last hop. Nothing is sent, and its record has a return. -/
theorem interest_outcome_small :
    let f := Small.forwarder {}
    let asked := Small.octets { Draft.interest Small.name with hopLimit := 1 }
    let after := f.handleFrame Small.faces ⟨1⟩ asked ⟨0, 0⟩
    f.interestReturn ∧ after.2 = [] ∧ ∃ m, f.Requests asked m ∧ m.kind = .interest ∧
      f.Outcome Small.faces ⟨1⟩ m 0 after.1.pending after.2 ∧
      after.1.pending.record? (.exact Small.name none) ⟨1⟩ =
        some (f.ownRecord ⟨1⟩ m 0 (some (m.toInterestReturn .hopLimitExceeded))) := by
  intro f asked after
  obtain ⟨m, hparse, hm⟩ := Small.exists_parse asked (fun m => m.kind = .interest ∧
    m.hopLimit = 1 ∧ m.requestKeys = [.exact Small.name none] ∧ command? m = none)
    (by decide +kernel)
  have hfields : m.kind = .interest ∧ m.hopLimit = 1 ∧
      m.requestKeys = [.exact Small.name none] ∧ command? m = none := by simpa using hm
  obtain ⟨hkind, hlast, hkeys, hcommand⟩ := hfields
  have hreq : f.Requests asked m := ⟨hparse, rfl, by rw [hkind]; rfl, hcommand⟩
  have hreturns : f.interestReturn := by decide +kernel
  have hnothing : after.2 = [] := by decide +kernel
  have houtcome : f.Outcome Small.faces ⟨1⟩ m 0 after.1.pending after.2 :=
    @interest_outcome f Small.faces ⟨1⟩ asked ⟨0, 0⟩ m hreq hkind hreturns
  refine ⟨hreturns, hnothing, m, hreq, hkind, houtcome, ?_⟩
  rw [houtcome.silent hnothing _ (by simp [hkeys]), putOff?, if_pos ⟨rfl, hlast⟩]
  rfl

end Forwarder
end NamedData
