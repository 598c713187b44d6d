import NamedData.Proofs.Framing.Stream

/-!
# How a stream is cut

The packets in a stream can be told from the stream as a whole: at each octet either a packet can
begin, and it is taken if all of it is there, or the octet is skipped. A framer sees less of the
stream than that. But it skips only octets at which no packet can begin in the whole stream either,
and it takes a packet only when no later octet can speak against it. So it hands out the packets of
the stream however that is cut, unless it drops octets that it has not judged.
-/

namespace NamedData.Framer

variable {f : Framer} {b : UInt8} {bytes packet rest future : Octets} {header : FixedHeader}

def framesOf : Octets → List Frame
  | [] => []
  | b :: rest =>
    if canBegin (b :: rest) then
      match FixedHeader.peek? (b :: rest) with
      | none => []
      | some header =>
        if header.packetLength.toNat ≤ (b :: rest).length then
          ⟨(b :: rest).take header.packetLength.toNat, header.headerLength.toNat⟩ ::
            framesOf (rest.drop (header.packetLength.toNat - 1))
        else []
    else framesOf rest
termination_by bytes => bytes.length
decreasing_by
  all_goals
    simp only [List.length_cons, List.length_drop]
    omega

theorem framesOf_skip (h : ¬canBegin (b :: rest)) : framesOf (b :: rest) = framesOf rest := by
  rw [framesOf, if_neg h]

theorem framesOf_packet (hbegin : canBegin (packet ++ rest))
    (hpeek : FixedHeader.peek? (packet ++ rest) = some header)
    (hlength : packet.length = header.packetLength.toNat) :
    framesOf (packet ++ rest) = ⟨packet, header.headerLength.toNat⟩ :: framesOf rest := by
  have hmin := twelve_le_packetLength hbegin hpeek
  cases packet with
  | nil =>
    rw [← hlength] at hmin
    cases hmin
  | cons b packet =>
    have hfront : (b :: (packet ++ rest)).take header.packetLength.toNat = b :: packet :=
      List.take_left' hlength
    have hback : (packet ++ rest).drop (header.packetLength.toNat - 1) = rest := by
      rw [← hlength, List.length_cons, Nat.add_sub_cancel, List.drop_left]
    have hwhole : header.packetLength.toNat ≤ (b :: (packet ++ rest)).length := by
      rw [← hlength]
      simp
    rw [List.cons_append] at hbegin hpeek ⊢
    rw [framesOf, if_pos hbegin, hpeek]
    dsimp only
    rw [if_pos hwhole, hfront, hback]

theorem framesOf_waits (hbegin : canBegin bytes) (hpeek : FixedHeader.peek? bytes = some header)
    (hshort : bytes.length < header.packetLength.toNat) : framesOf bytes = [] := by
  cases bytes with
  | nil => cases hpeek
  | cons b rest =>
    rw [framesOf, if_pos hbegin, hpeek]
    exact if_neg (Nat.not_le.2 hshort)

theorem framesOf_of_peek? (h : FixedHeader.peek? bytes = none) : framesOf bytes = [] := by
  induction bytes with
  | nil => rw [framesOf]
  | cons b rest ih =>
    by_cases hbegin : canBegin (b :: rest)
    · rw [framesOf, if_pos hbegin, h]
    · have hrest : FixedHeader.peek? rest = none := by
        rw [FixedHeader.peek?_eq_none_iff] at h ⊢
        exact Nat.lt_of_succ_lt h
      rw [framesOf_skip hbegin, ih hrest]

theorem framesOf_drop {count : Nat} (hcount : count ≤ bytes.length)
    (hskipped : ∀ i < count, ¬canBegin (bytes.drop i)) (future : Octets) :
    framesOf (bytes.drop count ++ future) = framesOf (bytes ++ future) := by
  induction count generalizing bytes with
  | zero => rfl
  | succ count ih =>
    cases bytes with
    | nil => exact absurd hcount (Nat.not_succ_le_zero count)
    | cons b rest =>
      have hskip : ¬canBegin (b :: rest ++ future) :=
        mt (canBegin_of_append (List.cons_ne_nil b rest)) (hskipped 0 (Nat.succ_pos count))
      have hlater : ∀ i < count, ¬canBegin (rest.drop i) := fun i hi =>
        hskipped (i + 1) (Nat.succ_lt_succ hi)
      rw [List.drop_succ_cons, ih (Nat.le_of_succ_le_succ hcount) hlater]
      exact (framesOf_skip hskip).symm

/-- From one state to another, with octets to come in either, a framer has handed out the packets
that begin the stream, or it has dropped everything at times. -/
def HandsOut (f : Framer) (future : Octets) (frames : List Frame) (f' : Framer) (future' : Octets) :
    Prop :=
  f.resets < f'.resets ∨ f'.resets = f.resets ∧
    framesOf (f.buffer ++ future) = frames ++ framesOf (f'.buffer ++ future')

namespace HandsOut

theorem refl (f : Framer) (future : Octets) : HandsOut f future [] f future := .inr ⟨rfl, rfl⟩

theorem trans {f' f'' : Framer} {frames frames' : List Frame} {future' future'' : Octets}
    (h : HandsOut f future frames f' future') (h' : HandsOut f' future' frames' f'' future'') :
    HandsOut f future (frames ++ frames') f'' future'' := by
  rcases h with hmore | ⟨hresets, hframes⟩
  · rcases h' with hmore' | ⟨hresets', -⟩
    · exact .inl (Nat.lt_trans hmore hmore')
    · exact .inl (hresets' ▸ hmore)
  · rcases h' with hmore' | ⟨hresets', hframes'⟩
    · exact .inl (hresets ▸ hmore')
    · refine .inr ⟨hresets'.trans hresets, ?_⟩
      rw [hframes, hframes', List.append_assoc]

theorem push (f : Framer) (piece future : Octets) :
    HandsOut f (piece ++ future) [] (f.push piece) future := by
  refine .inr ⟨rfl, ?_⟩
  rw [Framer.push, List.append_assoc]
  rfl

end HandsOut

/-- What an attempt to take a packet may come to: it waits only where no packet is to be had yet. -/
def Attempts (f : Framer) (future : Octets) : Extraction × Framer → Prop
  | (.incomplete, f') => f' = f ∧ framesOf f.buffer = []
  | (.discarded _, f') => HandsOut f future [] f' future
  | (.frame frame, f') => HandsOut f future [frame] f' future

theorem attempts_next (f : Framer) (future : Octets) : Attempts f future f.next := by
  have hstep := f.step_next
  rw [← Prod.eta f.next]
  generalize f.next.1 = extraction, f.next.2 = f' at hstep ⊢
  cases hstep with
  | waits hwaits =>
    refine ⟨rfl, ?_⟩
    cases hpeek : FixedHeader.peek? f.buffer with
    | none => exact framesOf_of_peek? hpeek
    | some header =>
      obtain ⟨hbegin, hshort⟩ := hwaits header hpeek
      exact framesOf_waits hbegin hpeek hshort
  | skips _ hcount hskipped => exact .inr ⟨rfl, (framesOf_drop hcount hskipped future).symm⟩
  | resets => exact .inl (Nat.lt_succ_self _)
  | takes hbuffer hpacket =>
    refine .inr ⟨rfl, ?_⟩
    rw [hbuffer, List.append_assoc]
    exact framesOf_packet (hpacket.canBegin _) (FixedHeader.peek?_append hpacket.peek _)
      hpacket.packetLength.symm

theorem handsOut_drain (f : Framer) (future : Octets) :
    HandsOut f future f.drain.1 f.drain.2 future ∧ framesOf f.drain.2.buffer = [] := by
  fun_induction drain f with
  | case1 f f' hnext =>
    have hstep := f.attempts_next future
    rw [hnext] at hstep
    obtain ⟨rfl, hrest⟩ := hstep
    exact ⟨.refl f' future, hrest⟩
  | case2 f count f' hnext _ ih =>
    have hstep := f.attempts_next future
    rw [hnext] at hstep
    exact ⟨hstep.trans ih.1, ih.2⟩
  | case3 f frame f' hnext _ taken f'' hdrain ih =>
    have hstep := f.attempts_next future
    rw [hnext] at hstep
    rw [hdrain] at ih
    exact ⟨hstep.trans ih.1, ih.2⟩

theorem handsOut_feed (pieces : List Octets) (f : Framer) :
    HandsOut f pieces.flatten (feed pieces f).1 (feed pieces f).2 [] ∧
      (framesOf f.buffer = [] → framesOf (feed pieces f).2.buffer = []) := by
  induction pieces generalizing f with
  | nil => exact ⟨.refl f [], id⟩
  | cons piece pieces ih =>
    obtain ⟨hdrain, hrest⟩ := (f.push piece).handsOut_drain pieces.flatten
    obtain ⟨hfeed, hlater⟩ := ih (f.push piece).drain.2
    exact ⟨((HandsOut.push f piece _).trans hdrain).trans hfeed, fun _ => hlater hrest⟩

/-- A framer that never drops everything at once hands out the packets of the stream. -/
theorem feed_eq_framesOf {pieces : List Octets} (hresets : (feed pieces {}).2.resets = 0) :
    (feed pieces {}).1 = framesOf pieces.flatten := by
  have hempty : framesOf ({} : Framer).buffer = [] := by rw [framesOf]
  obtain ⟨hfeed, hrest⟩ := handsOut_feed pieces {}
  rcases hfeed with hmore | ⟨-, hframes⟩
  · rw [hresets] at hmore
    exact absurd hmore (Nat.lt_irrefl 0)
  · rw [List.append_nil, hrest hempty, List.append_nil] at hframes
    exact hframes.symm

/-- However a stream is cut, the same packets come out of it, if the framer never drops everything
at once. -/
theorem feed_eq_of_flatten_eq {pieces pieces' : List Octets} (h : pieces.flatten = pieces'.flatten)
    (hresets : (feed pieces {}).2.resets = 0) (hresets' : (feed pieces' {}).2.resets = 0) :
    (feed pieces {}).1 = (feed pieces' {}).1 := by
  rw [feed_eq_framesOf hresets, feed_eq_framesOf hresets', h]

/-- A request for `/a` after octets that look like the header of a packet at first. -/
def decoyed : Octets :=
  [0, 5] ++ [1, 0, 0, 6, 5, 0, 0, 8] ++ [0] ++
    [1, 0, 0, 21, 32, 0, 0, 8, 0, 1, 0, 9, 0, 0, 0, 5, 0, 1, 0, 1, 97]

/-- Octet by octet, the false beginning is waited for until its eighth octet has come. -/
theorem feed_decoyed : (feed (decoyed.map fun b => [b]) {}).2.resets = 0 ∧
    (feed [decoyed] {}).2.resets = 0 ∧
      (feed (decoyed.map fun b => [b]) {}).1 = (feed [decoyed] {}).1 ∧
        (feed [decoyed] {}).1.length = 1 := by
  have hcut : (decoyed.map fun b => [b]).flatten = [decoyed].flatten := by
    rw [← List.flatMap_def, List.flatMap_singleton', List.flatten_singleton]
  have hoctets : (feed (decoyed.map fun b => [b]) {}).2.resets = 0 := by decide +kernel
  have hwhole : (feed [decoyed] {}).2.resets = 0 := by decide +kernel
  have hframe : (feed [decoyed] {}).1.length = 1 := by decide +kernel
  exact ⟨hoctets, hwhole, feed_eq_of_flatten_eq hcut hoctets hwhole, hframe⟩

variable {g : Framer}

theorem feed_append (front back : List Octets) (f : Framer) :
    feed (front ++ back) f =
      ((feed front f).1 ++ (feed back (feed front f).2).1, (feed back (feed front f).2).2) := by
  induction front generalizing f with
  | nil => rfl
  | cons piece front ih => simp [feed, ih, List.append_assoc]

theorem next_congr (h : f.buffer = g.buffer) :
    f.next.1 = g.next.1 ∧ f.next.2.buffer = g.next.2.buffer := by
  unfold next
  rw [h]
  split
  · exact ⟨rfl, h⟩
  · split
    · exact ⟨rfl, congrArg (List.drop _) h⟩
    · split
      · exact ⟨rfl, h⟩
      · split
        · exact ⟨congrArg Extraction.discarded (congrArg List.length h), rfl⟩
        · split
          · split
            · exact ⟨rfl, h⟩
            · exact ⟨rfl, rfl⟩
          · exact ⟨rfl, congrArg (List.drop _) h⟩

theorem drain_eq (f : Framer) : f.drain =
    match f.next with
    | (.incomplete, f') => ([], f')
    | (.discarded _, f') => f'.drain
    | (.frame frame, f') => (frame :: f'.drain.1, f'.drain.2) := by
  rw [drain]
  split
  · rename_i f' hnext
    rw [hnext]
  · rename_i count f' hnext
    simp only [hnext]
  · rename_i frame f' hnext
    simp only [hnext]

theorem drain_congr (h : f.buffer = g.buffer) :
    f.drain.1 = g.drain.1 ∧ f.drain.2.buffer = g.drain.2.buffer := by
  fun_induction drain f generalizing g with
  | case1 f f' hnext =>
    obtain ⟨hsame, hbuffer⟩ := next_congr h
    rw [hnext] at hsame hbuffer
    rw [drain_eq g, ← Prod.eta g.next, ← hsame]
    exact ⟨rfl, hbuffer⟩
  | case2 f count f' hnext _ ih =>
    obtain ⟨hsame, hbuffer⟩ := next_congr h
    rw [hnext] at hsame hbuffer
    rw [drain_eq g, ← Prod.eta g.next, ← hsame]
    exact ih hbuffer
  | case3 f frame f' hnext _ taken f'' hdrain ih =>
    obtain ⟨hsame, hbuffer⟩ := next_congr h
    rw [hnext] at hsame hbuffer
    obtain ⟨hframes, hrest⟩ := ih hbuffer
    rw [hdrain] at hframes hrest
    rw [drain_eq g, ← Prod.eta g.next, ← hsame]
    exact ⟨congrArg (frame :: ·) hframes, hrest⟩

theorem feed_congr (h : f.buffer = g.buffer) (pieces : List Octets) :
    (feed pieces f).1 = (feed pieces g).1 := by
  induction pieces generalizing f g with
  | nil => rfl
  | cons piece pieces ih =>
    have hpush : (f.push piece).buffer = (g.push piece).buffer := congrArg (· ++ piece) h
    obtain ⟨hframes, hbuffer⟩ := drain_congr hpush
    simp only [feed, hframes, ih hbuffer]

end NamedData.Framer
