import NamedData.Proofs.Forwarding.Writing

/-!
# What a reply is matched by

A reply is matched by its name and chunk, and an Interest Return with regular
requests alone. Nothing else about the requests that wait matters: a trace reply
answers Interests as well as trace requests, and an Interest Return is not asked
which kind of Interest it gives back.
-/

namespace NamedData

/-- A packet asks for its own name and chunk, unless it asks for a window or for a run of chunks
without its own. -/
theorem Message.exact_mem_requestKeys (m : Message) :
    .exact m.name m.chunk ∈ m.requestKeys ↔
      m.interestType ≠ .symbolic ∧
        (m.interestType = .selective → ∀ range, m.selective = some range →
          ∃ c ∈ range.chunks, m.chunk = some c) := by
  unfold requestKeys PendingRequest.keys PendingRequest.ofMessage
  dsimp only
  split
  · rename_i htype
    simp [htype]
  · rename_i range htype hrange
    simp [htype, hrange, eq_comm]
  · rename_i hwindow hrun
    simp only [List.map_cons, List.map_nil, List.mem_singleton, true_iff]
    exact ⟨fun htype => hwindow htype, fun htype range hrange => (hrun range htype hrange).elim⟩

namespace PendingTable

variable {t : PendingTable} {key : PendingKey} {reply r : Message} {now : Instant}
variable {e : PendingEntry}

theorem entries_deliver_return (ht : t.Sound) (hkind : r.kind = .interestReturn) :
    (t.deliver r now).1.entries =
      t.entries.filter fun e => ¬(e.key = .exact r.name r.chunk ∧ e.kind = .regular) := by
  rw [deliver, candidates_of_ne_object (by simp [hkind]), List.foldl_cons, List.foldl_nil]
  cases he : t.find? (.exact r.name r.chunk) with
  | none =>
    have hnone := find?_eq_none_iff.1 he
    rw [deliverTo_of_find?_eq_none he]
    exact (List.filter_eq_self.2 fun d hd => by simp [hnone d hd]).symm
  | some e =>
    rcases deliverTo_cases r now {} he with ⟨htakes, hkept⟩ | ⟨htakes, htaken⟩
    · have hother : e.kind ≠ .regular := mt (takes_of_return hkind).2 (by simp [htakes])
      rw [hkept]
      refine (List.filter_eq_self.2 fun d hd => decide_eq_true ?_).symm
      rintro ⟨hkey, hregular⟩
      exact hother (ht.eq_of_find? he hd hkey ▸ hregular)
    · have hregular : e.kind = .regular := (takes_of_return hkind).1 htakes
      rw [htaken, if_neg (by simp [hregular])]
      refine List.filter_congr fun d hd => ?_
      by_cases hkey : d.key = .exact r.name r.chunk
      · obtain rfl := ht.eq_of_find? he hd hkey
        simp [hregular]
      · simp [hkey]

/-- Of a reachable table, an Interest Return consumes the regular entry under its name and chunk
and nothing else. That key is one of the Interest that is given back, unless this asks for a
window or for a run of chunks without the chunk of the packet. -/
theorem consumed_by_return (ht : t.Reachable) (hkind : r.kind = .interestReturn) (now : Instant) :
    (t.deliver r now).1.entries =
        t.entries.filter (fun e => ¬(e.key = .exact r.name r.chunk ∧ e.kind = .regular)) ∧
      (.exact r.name r.chunk ∈ r.requestKeys ↔
        r.interestType ≠ .symbolic ∧
          (r.interestType = .selective → ∀ range, r.selective = some range →
            ∃ c ∈ range.chunks, r.chunk = some c)) :=
  ⟨entries_deliver_return ht.sound hkind, r.exact_mem_requestKeys⟩

/-- Face 1 waits for a name, and its Interest comes back. -/
theorem consumed_by_return_small :
    let key := PendingKey.exact Forwarder.Small.name none
    let t := (empty {}).operate [.obtain key .regular 0,
      .join key ⟨1⟩ 4000 7 0 (.ofMode .suppress)]
    let draft := { Draft.interest Forwarder.Small.name with
      kind := .interestReturn, returnCode := some .noRoute }
    t.size = 1 ∧ ∃ r, Message.parse (Forwarder.Small.octets draft) = .ok r ∧
      r.kind = .interestReturn ∧ (t.deliver r 100).1.entries = [] ∧ key ∈ r.requestKeys := by
  intro key t draft
  have hreturn : ∃ r, Message.parse (Forwarder.Small.octets draft) = .ok r ∧
      r.kind = .interestReturn ∧ r.interestType = .regular ∧
      PendingKey.exact r.name r.chunk = key :=
    ⟨_, by cbv, by cbv, by cbv, by cbv⟩
  obtain ⟨r, hr, hkind, htype, hkey⟩ := hreturn
  obtain ⟨hentries, hkeys⟩ := consumed_by_return ⟨_, _, rfl⟩ hkind 100 (t := t)
  rw [hkey] at hentries hkeys
  refine ⟨by decide, r, hr, hkind, ?_, hkeys.2 (by simp [htype])⟩
  rw [hentries]
  decide

/-- An Interest for all chunks of a name is given back, and takes away the entry on which face 1
waits for the name alone. -/
theorem regular_entry_lost_to_window :
    let key := PendingKey.exact Forwarder.Small.name none
    let t := (empty {}).operate [.obtain key .regular 0,
      .join key ⟨1⟩ 4000 7 0 (.ofMode .suppress)]
    let draft := { Draft.interest Forwarder.Small.name with
      kind := .interestReturn, returnCode := some .noRoute, span := .window }
    t.Reachable ∧ t.entries.map (·.key) = [key] ∧
      ∃ r, Message.parse (Forwarder.Small.octets draft) = .ok r ∧ r.kind = .interestReturn ∧
        (t.deliver r 100).1.entries = [] ∧ r.requestKeys = [.window Forwarder.Small.name] ∧
        key ∉ r.requestKeys := by
  intro key t draft
  have hreturn : ∃ r, Message.parse (Forwarder.Small.octets draft) = .ok r ∧
      r.kind = .interestReturn ∧ (t.deliver r 100).1.entries = [] ∧
      r.requestKeys = [.window Forwarder.Small.name] :=
    ⟨_, by cbv, by cbv, by cbv, by cbv⟩
  obtain ⟨r, hr, hkind, hentries, hkeys⟩ := hreturn
  exact ⟨⟨_, _, rfl⟩, by decide, r, hr, hkind, hentries, hkeys, by rw [hkeys]; decide⟩

/-- A reply consumes the entry under its name and chunk, if its kind and the restrictions allow
it. -/
theorem find?_deliver_eq_none_iff (hfits : t.Every PendingEntry.Fits)
    (he : t.find? key = some e) :
    (t.deliver reply now).1.find? key = none ↔
      key = .exact reply.name reply.chunk ∧
        (reply.kind = .interestReturn → e.kind = .regular) ∧
        (reply.kind = .contentObject → e.restrictions.accept reply) := by
  have hkey := key_of_find? he
  rw [find?_deliver]
  by_cases hexact : key = .exact reply.name reply.chunk
  · have hmem : key ∈ candidates reply := hexact ▸ exact_mem_candidates.2 ⟨rfl, rfl⟩
    have hfit := hfits.find? he
    rw [if_pos hmem, he, Option.bind_some, remainder_eq_none_iff,
      takes_iff_of_fits hfit (hkey.trans hexact)]
    simp [hexact, ne_symbolic_of_fits hfit (hkey.trans hexact)]
  · split
    · rename_i hmem
      -- the other key of a reply is that of a window, and windows remain
      obtain ⟨-, hwindow⟩ := (mem_candidates_iff.1 hmem).resolve_left hexact
      have hsymbolic : e.kind = .symbolic := symbolic_of_fits (hfits.find? he) (hkey.trans hwindow)
      rw [he, Option.bind_some, remainder_eq_none_iff]
      simp [hsymbolic, hexact]
    · simp [he, hexact]

end PendingTable

namespace Forwarder

open PendingTable

/-- In every run, a reply that is let in goes to just those faces in use, but not back to where it
comes from, that have a live record under a key of the reply, on an entry that takes it. Every record
was written last by an Interest or a trace request of its face for its key; which of the two, and
which kind of reply, makes no difference. A reply consumes what stands under its exact name and
chunk, if it is no Interest Return or the entry is regular, and if it is no object or the
restrictions accept it. -/
theorem matched_whatever_family {f : Forwarder} (hf : f.Built) (past : List Event)
    {faces : FaceView} {face : FaceId} {bytes : Octets} {clock : Clock} {o : Message}
    (hparse : Message.parse bytes = .ok o) (hkind : o.kind.isRequest = false) :
    let before := f.run past
    let after := before.handleFrame faces face bytes clock
    (∀ g, (∃ a ∈ after.2, a.reaches g) ↔
      f.accepts o ∧ (g ≠ face ∧ faces.active g) ∧
        ∃ key ∈ candidates o, ∃ e r w, before.pending.find? key = some e ∧ takes o e ∧
          e.record? g = some r ∧ clock.now < r.expiry ∧
          f.lastWriter? key g none past = some w ∧
          (w.kind = .interest ∨ w.kind = .traceRequest) ∧ key ∈ w.requestKeys ∧
          r.fingerprint = w.fingerprint ∧
          (o.kind ≠ .contentObject → key = .exact o.name o.chunk)) ∧
      (∀ key e g r, before.pending.find? key = some e → e.record? g = some r →
        ∃ w, f.lastWriter? key g none past = some w ∧
          (w.kind = .interest ∨ w.kind = .traceRequest) ∧ key ∈ w.requestKeys ∧
          r.fingerprint = w.fingerprint) ∧
      ∀ key e, before.pending.find? key = some e →
        (after.1.pending.find? key = none ↔
          f.accepts o ∧ key = .exact o.name o.chunk ∧
            (o.kind = .interestReturn → e.kind = .regular) ∧
            (o.kind = .contentObject → e.restrictions.accept o)) := by
  intro before after
  have hsound : before.Sound := hf.sound.run past
  have hhandled : Handled before faces face bytes clock after.1 after.2 :=
    handled_handleFrame before faces face bytes clock
  have haccepts : before.accepts = f.accepts := accepts_run f past
  have hwritten : ∀ key e g r, before.pending.find? key = some e → e.record? g = some r →
      ∃ w, f.lastWriter? key g none past = some w ∧
        (w.kind = .interest ∨ w.kind = .traceRequest) ∧ key ∈ w.requestKeys ∧
        r.fingerprint = w.fingerprint := by
    intro key e g r he hr
    obtain ⟨w, hw, hrequest, hkeys, hfingerprint⟩ :=
      hf.writtenBy_run key g past r ((record?_of_find? he).trans hr)
    exact ⟨w, hw, PacketKind.isRequest_iff.1 hrequest, hkeys, hfingerprint⟩
  refine ⟨fun g => ?_, hwritten, fun key e he => ?_⟩
  · rw [hhandled.reaches_iff hparse hkind, haccepts, mem_targets_iff hsound.pending]
    constructor
    · rintro ⟨haccepted, husable, key, hkey, e, r, he, htakes, hr, htime⟩
      obtain ⟨w, hw, hrequest, hkeys, hfingerprint⟩ := hwritten key e g r he hr
      refine ⟨haccepted, husable, key, hkey, e, r, w, he, htakes, hr, htime, hw, hrequest, hkeys,
        hfingerprint, fun hobject => ?_⟩
      simpa [candidates, hobject] using hkey
    · rintro ⟨haccepted, husable, key, hkey, e, r, -, he, htakes, hr, htime, -⟩
      exact ⟨haccepted, husable, key, hkey, e, r, he, htakes, hr, htime⟩
  · rcases hhandled.reply hparse hkind with ⟨hrefused, hsame, -⟩ | ⟨haccepted, hmatched, -⟩
    · rw [hsame, he, ← haccepts, hrefused]
      simp
    · rw [hmatched, find?_deliver_eq_none_iff hsound.fits he, ← haccepts, haccepted]
      simp

/-- Face 1 traces a name, and the trace reply goes to it. -/
theorem matched_whatever_family_small :
    let f := fresh {} .bestRoute
    let key := PendingKey.exact Small.name none
    let past := [Small.route,
      Small.frame 1 { Draft.interest Small.name with kind := .traceRequest } 0]
    let reply := Small.octets { kind := .traceReply, name := Small.name }
    let after := (f.run past).handleFrame Small.faces ⟨2⟩ reply ⟨100, 0⟩
    after.2 = [sendTo ⟨1⟩ reply .low] ∧ after.1.pending.find? key = none ∧
      ∃ w, f.lastWriter? key ⟨1⟩ none past = some w ∧
        (w.kind = .interest ∨ w.kind = .traceRequest) ∧ key ∈ w.requestKeys := by
  intro f key past reply after
  have hreply : ∃ o, Message.parse reply = .ok o ∧ o.kind = .traceReply ∧
      candidates o = [key] ∧ PendingKey.exact o.name o.chunk = key :=
    ⟨_, by cbv, by cbv, by cbv, by cbv⟩
  obtain ⟨o, ho, hkind, hcandidates, hexact⟩ := hreply
  have hsent : after.2 = [sendTo ⟨1⟩ reply .low] := by decide +kernel
  have hfound : ((f.run past).pending.find? key).isSome := by decide +kernel
  obtain ⟨e, he⟩ := Option.isSome_iff_exists.1 hfound
  have hanswer : o.kind.isRequest = false := by rw [hkind]; rfl
  obtain ⟨hreached, hwritten, hconsumed⟩ :=
    @matched_whatever_family f (Small.built (s := {}) rfl) past Small.faces ⟨2⟩ reply ⟨100, 0⟩ o ho
      hanswer
  obtain ⟨-, -, k, hk, asked, r, -, hasked, -, hr, -⟩ :=
    (hreached ⟨1⟩).1 ⟨_, hsent ▸ List.mem_singleton_self _, by decide⟩
  rw [hcandidates, List.mem_singleton] at hk
  subst hk
  obtain ⟨w, hw, hrequest, hkeys, -⟩ := hwritten key asked ⟨1⟩ r hasked hr
  refine ⟨hsent, (hconsumed key e he).2 ⟨rfl, hexact.symm, ?_, ?_⟩, w, hw, hrequest, hkeys⟩
  · simp [hkind]
  · simp [hkind]

/-- Whether face 1 asks for a name as the only one, face 2 is heard with an answer, and the answer
goes to face 1 and consumes its entry. -/
def Small.answers (asked answer : Draft) : Bool :=
  let f := fresh {} .bestRoute
  let key := PendingKey.exact Small.name none
  let past := [Small.route, Small.frame 1 asked 0]
  let before := f.run past
  let after := before.handleFrame Small.faces ⟨2⟩ (Small.octets answer) ⟨100, 0⟩
  (f.lastWriter? key ⟨1⟩ none past).any (·.kind = asked.kind) &&
    (Message.parse (Small.octets answer)).toOption.any (·.kind = answer.kind) &&
    (before.pending.find? key).any (·.liveFaces 100 = [⟨1⟩]) &&
    after.2.any (·.reaches ⟨1⟩) && (after.1.pending.find? key).isNone

/-- A trace reply answers an Interest, and an object or an Interest Return a trace request. -/
theorem families_answer_each_other :
    let trace := { Draft.interest Small.name with kind := .traceRequest }
    Small.answers (.interest Small.name) { kind := .traceReply, name := Small.name } ∧
      Small.answers trace (.object Small.name [1]) ∧
      Small.answers trace
        { kind := .interestReturn, name := Small.name, returnCode := some .noRoute } := by
  intro trace
  exact ⟨by decide +kernel, by decide +kernel, by decide +kernel⟩

end Forwarder
end NamedData
