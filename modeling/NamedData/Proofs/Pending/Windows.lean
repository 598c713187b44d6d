import Mathlib.Data.List.DropRight
import NamedData.Proofs.Pending.Standing

/-!
# Which chunks a window lets through

A window remembers the last chunks that came through it, as many as it may, and passes over an
object whose chunk is one of them. A chunk is remembered whether or not anybody was waiting when it
came, so an object can be passed over that nobody has been sent.
-/

namespace NamedData.PendingTable

/-- The chunk that an operation makes the window under a key remember. -/
def recorded? (t : PendingTable) (k : PendingKey) : Operation → Option UInt32
  | .deliver reply _ =>
    if k ∈ candidates reply ∧ (t.find? k).any fun e => e.kind = .symbolic && takes reply e then
      reply.chunk
    else none
  | _ => none

def recorded (t : PendingTable) (k : PendingKey) : List Operation → List UInt32
  | [] => []
  | op :: ops => (t.recorded? k op).toList ++ (t.apply op).recorded k ops

/-- An object comes through a window, which remembers its chunk, and goes to those who wait. -/
structure LetThrough (t : PendingTable) (k : PendingKey) (e : PendingEntry) (reply : Message)
    (chunk : UInt32) (now : Instant) : Prop where
  remembers : (t.deliver reply now).1.find? k = some (e.remember chunk t.window)
  reaches : ∀ g, g ∈ t.reached reply now k ↔ ∃ r ∈ e.waiting, r.face = g ∧ now < r.expiry
  sent : ∀ g ∈ t.reached reply now k, g ∈ (t.deliver reply now).2.faces

/-- Nothing comes of an object at a window. -/
structure PassedOver (t : PendingTable) (k : PendingKey) (e : PendingEntry) (reply : Message)
    (now : Instant) : Prop where
  unchanged : (t.deliver reply now).1.find? k = some e
  nobody : t.reached reply now k = []

variable {t : PendingTable} {k : PendingKey} {now : Instant} {op : Operation}
variable {ops : List Operation} {d e : PendingEntry} {settings : PendingSettings}
variable {reply : Message} {chunk : UInt32} {chunks : List UInt32}

theorem recorded?_eq_some_iff :
    t.recorded? k op = some chunk ↔ ∃ reply now e, op = .deliver reply now ∧
      k ∈ candidates reply ∧ t.find? k = some e ∧ e.kind = .symbolic ∧ takes reply e ∧
      reply.chunk = some chunk := by
  cases op with
  | deliver reply now =>
    cases he : t.find? k with
    | none => simp [recorded?, he]
    | some e =>
      simp only [recorded?, he, Option.any_some, Bool.and_eq_true, decide_eq_true_eq,
        Option.ite_none_right_eq_some]
      constructor
      · rintro ⟨⟨hkey, hkind, htakes⟩, hchunk⟩
        exact ⟨reply, now, e, rfl, hkey, rfl, hkind, htakes, hchunk⟩
      · rintro ⟨_, _, _, ⟨⟩, hkey, ⟨⟩, hkind, htakes, hchunk⟩
        exact ⟨⟨hkey, hkind, htakes⟩, hchunk⟩
  | obtain | join | restrict | deferReturn | addOnward | release | sweep | forget =>
    simp [recorded?]

theorem takes_window_iff (hkind : e.kind = .symbolic) (hobject : reply.kind = .contentObject)
    (hchunk : reply.chunk = some chunk) (haccept : e.restrictions.accept reply) :
    takes reply e ↔ chunk ∉ e.delivered := by
  simp [takes, matchesKind, hkind, hobject, hchunk, haccept]

theorem exists_chunk_of_takes (hkind : e.kind = .symbolic) (htakes : takes reply e) :
    ∃ chunk, reply.chunk = some chunk ∧ chunk ∉ e.delivered := by
  simp only [takes, matchesKind, hkind, Bool.and_eq_true] at htakes
  obtain ⟨⟨hmatches, -⟩, hnew⟩ := htakes
  have hasks : reply.chunk.isSome ∧ reply.kind ≠ .interestReturn := by simpa using hmatches
  obtain ⟨chunk, hchunk⟩ := Option.isSome_iff_exists.1 hasks.1
  exact ⟨chunk, hchunk, by simpa [hchunk] using hnew⟩

/-- What a window remembers are the last chunks of a log, and still are when a chunk is added to
both. -/
theorem delivered_remember {window : Nat} (hwindow : 0 < window)
    (hlog : e.delivered = chunks.rtake window) :
    (e.remember chunk window).delivered = (chunks ++ [chunk]).rtake window := by
  obtain ⟨n, rfl⟩ := Nat.exists_eq_add_one.2 hwindow
  rw [List.rtake_concat_succ]
  simp only [PendingEntry.remember, hlog, List.rtake, List.length_drop]
  congr 1
  split
  · rw [List.tail_drop]
    congr 1
    omega
  · have hshort : chunks.length - (n + 1) = chunks.length - n := by omega
    rw [hshort]

theorem letThrough_of_takes (hkey : k ∈ candidates reply) (he : t.find? k = some e)
    (hkind : e.kind = .symbolic) (htakes : takes reply e) (hchunk : reply.chunk = some chunk) :
    t.LetThrough k e reply chunk now where
  remembers := by
    rw [find?_deliver, if_pos hkey, he, Option.bind_some]
    simp [remainder, htakes, hkind, hchunk]
  reaches g := by
    simp only [reached, he, htakes, if_true, PendingEntry.mem_liveFaces]
  sent g hg := by
    rw [faces_deliver, mem_pushNew]
    exact .inr (List.mem_flatMap.2 ⟨k, hkey, hg⟩)

theorem passedOver_of_not_takes (hkey : k ∈ candidates reply) (he : t.find? k = some e)
    (htakes : takes reply e = false) : t.PassedOver k e reply now where
  unchanged := by
    rw [find?_deliver, if_pos hkey, he, Option.bind_some]
    simp [remainder, htakes]
  nobody := by simp [reached, he, htakes]

/-- A window that outlasts an operation remembers the last chunks of its log, with the chunk that
the operation adds to it. -/
theorem delivered_of_find?_apply (ht : t.Sound) (hold : t.creates k op = false)
    (he : t.find? k = some e) (hkind : e.kind = .symbolic)
    (hlog : e.delivered = chunks.rtake t.window) (hd : (t.apply op).find? k = some d) :
    d.delivered = (chunks ++ (t.recorded? k op).toList).rtake t.window := by
  by_cases hreply : ∃ reply now, op = .deliver reply now
  · obtain ⟨reply, now, rfl⟩ := hreply
    by_cases htaken : k ∈ candidates reply ∧ takes reply e
    · obtain ⟨hkey, htakes⟩ := htaken
      obtain ⟨chunk, hchunk, -⟩ := exists_chunk_of_takes hkind htakes
      have hthrough : t.LetThrough k e reply chunk now :=
        letThrough_of_takes hkey he hkind htakes hchunk
      have hadded : t.recorded? k (.deliver reply now) = some chunk :=
        recorded?_eq_some_iff.2 ⟨reply, now, e, rfl, hkey, he, hkind, htakes, hchunk⟩
      rw [hadded, ← Option.some.inj (hthrough.remembers.symm.trans hd)]
      exact delivered_remember window_pos hlog
    · have hnone : t.recorded? k (.deliver reply now) = none := by
        rw [recorded?, he, if_neg]
        simpa [hkind] using htaken
      have hsame : (t.apply (.deliver reply now)).find? k = some e := by
        by_cases hkey : k ∈ candidates reply
        · have htakes : takes reply e = false := by simpa [hkey] using htaken
          exact (passedOver_of_not_takes hkey he htakes).unchanged
        · rw [apply, find?_deliver, if_neg hkey, he]
      rw [hnone, Option.toList_none, List.append_nil, ← hlog, Option.some.inj (hd.symm.trans hsame)]
  · have hother : ∀ reply now, op ≠ .deliver reply now := fun reply now h => hreply ⟨reply, now, h⟩
    obtain ⟨c, hc, hsame⟩ := sameWindow_of_find?_apply ht hold hother hd
    have hnone : t.recorded? k op = none := by
      rw [Option.eq_none_iff_forall_not_mem]
      intro chunk hchunk
      obtain ⟨reply, now, -, rfl, -⟩ := recorded?_eq_some_iff.1 hchunk
      exact hother reply now rfl
    rw [hnone, Option.toList_none, List.append_nil, ← hlog, hsame.2,
      Option.some.inj (hc.symm.trans he)]

theorem Stands.exists_delivered (h : t.Stands k ops) (ht : t.Sound) (he : t.find? k = some e)
    (hkind : e.kind = .symbolic) (hlog : e.delivered = chunks.rtake t.window) :
    ∃ d, (t.operate ops).find? k = some d ∧ d.kind = .symbolic ∧
      d.delivered = (chunks ++ t.recorded k ops).rtake t.window := by
  induction ops generalizing t e chunks with
  | nil => exact ⟨e, he, hkind, by simpa [recorded] using hlog⟩
  | cons op ops ih =>
    obtain ⟨-, hold, hrest⟩ := h
    obtain ⟨c, hc⟩ := Option.isSome_iff_exists.1 hrest.isSome
    have hwindow : (t.apply op).window = t.window := by rw [window, settings_apply, window]
    have hadded := delivered_of_find?_apply ht hold he hkind hlog hc
    obtain ⟨e', he', hsame⟩ := kind_of_find?_apply ht hold hc
    have hsymbolic : c.kind = .symbolic := by
      rw [hsame, Option.some.inj (he'.symm.trans he), hkind]
    obtain ⟨d, hd, hdkind, hdelivered⟩ := ih hrest (ht.apply op) hc hsymbolic (hwindow ▸ hadded)
    refine ⟨d, hd, hdkind, ?_⟩
    rw [hdelivered, hwindow, recorded, List.append_assoc]

theorem exists_of_recorded {before after : List UInt32}
    (h : t.recorded k ops = before ++ chunk :: after) :
    ∃ past op rest, ops = past ++ op :: rest ∧ t.recorded k past = before ∧
      (t.operate past).recorded? k op = some chunk := by
  induction ops generalizing t before with
  | nil => simp [recorded] at h
  | cons op ops ih =>
    rw [recorded] at h
    cases hadded : t.recorded? k op with
    | none =>
      rw [hadded, Option.toList_none, List.nil_append] at h
      obtain ⟨past, other, rest, rfl, hpast, hother⟩ := ih h
      exact ⟨op :: past, other, rest, rfl, by simp [recorded, hadded, hpast], hother⟩
    | some c =>
      rw [hadded, Option.toList_some, List.singleton_append] at h
      cases before with
      | nil =>
        obtain ⟨rfl, -⟩ := List.cons.inj h
        exact ⟨[], op, ops, rfl, rfl, hadded⟩
      | cons first before =>
        obtain ⟨rfl, hrest⟩ := List.cons.inj h
        obtain ⟨past, other, rest, rfl, hpast, hother⟩ := ih hrest
        exact ⟨op :: past, other, rest, rfl, by simp [recorded, hadded, hpast], hother⟩

theorem Stands.of_append {more : List Operation} (h : t.Stands k (ops ++ more)) :
    t.Stands k ops := by
  induction ops generalizing t with
  | nil => exact h.isSome
  | cons op ops ih => exact ⟨h.1, h.2.1, ih h.2.2⟩

namespace Life

variable (life : Life settings k ops)

/-- The chunks that a window has let through since it was created, in order. -/
def log : List UInt32 := life.birth.recorded k life.since

/-- At any time since it was created, a window remembers the last chunks of its log up to then. -/
theorem exists_delivered {past rest : List Operation} (hkind : life.kind = .symbolic)
    (hsince : life.since = past ++ rest) :
    ∃ d, (life.birth.operate past).find? k = some d ∧ d.kind = .symbolic ∧
      d.delivered = (life.birth.recorded k past).rtake (max settings.symbolicWindow 1) := by
  have hstands : life.birth.Stands k past := by
    have hall := life.stands
    rw [hsince] at hall
    exact hall.of_append
  have hwindow : life.birth.window = max settings.symbolicWindow 1 := by
    rw [window, birth, settings_apply, settings_operate]
    rfl
  have hempty : (PendingEntry.create k life.kind life.time settings.cleanInterval).delivered =
      ([] : List UInt32).rtake life.birth.window := by
    rw [List.rtake_nil]
    rfl
  obtain ⟨d, hd, hdkind, hdelivered⟩ :=
    hstands.exists_delivered life.sound_birth life.find?_birth hkind hempty
  exact ⟨d, hd, hdkind, by rw [hdelivered, hwindow, List.nil_append]⟩

theorem delivered_eq (he : ((empty settings).operate ops).find? k = some e)
    (hkind : e.kind = .symbolic) :
    e.delivered = life.log.rtake (max settings.symbolicWindow 1) := by
  have hcreated : life.kind = .symbolic := (life.kind_eq he).symm.trans hkind
  obtain ⟨d, hd, -, hdelivered⟩ := life.exists_delivered hcreated (List.append_nil _).symm
  rw [life.operate_birth, he] at hd
  rw [Option.some.inj hd, hdelivered, log]

/-- A chunk of the log was brought by an object that was let through, and the window remembered
the last chunks before it and not this one. -/
theorem exists_letThrough (hkind : life.kind = .symbolic) {before after : List UInt32}
    (hlog : life.log = before ++ chunk :: after) :
    ∃ past reply now rest d, life.since = past ++ .deliver reply now :: rest ∧
      k ∈ candidates reply ∧ reply.chunk = some chunk ∧
      (life.birth.operate past).find? k = some d ∧ chunk ∉ d.delivered ∧
      d.delivered = before.rtake (max settings.symbolicWindow 1) ∧
      (life.birth.operate past).LetThrough k d reply chunk now := by
  obtain ⟨past, op, rest, hsince, hbefore, hop⟩ := exists_of_recorded hlog
  obtain ⟨reply, now, d, rfl, hkey, hd, hdkind, htakes, hchunk⟩ := recorded?_eq_some_iff.1 hop
  obtain ⟨c, hc, -, hdelivered⟩ := life.exists_delivered hkind hsince
  rw [hd, Option.some.injEq] at hc
  obtain ⟨new, hnew, hfresh⟩ := exists_chunk_of_takes hdkind htakes
  rw [hchunk, Option.some.injEq] at hnew
  refine ⟨past, reply, now, rest, d, hsince, hkey, hchunk, hd, hnew ▸ hfresh, ?_,
    letThrough_of_takes hkey hd hdkind htakes hchunk⟩
  rw [hc, hdelivered, hbefore]

end Life

/-- Where the last elements of a list are without one that stands earlier in the list, they all come
after it. -/
theorem rtake_suffix_of_not_mem {before between : List UInt32} {n : Nat}
    (h : chunk ∉ (before ++ chunk :: between).rtake n) :
    (before ++ chunk :: between).rtake n <:+ between ∧
      ((before ++ chunk :: between).rtake n).length = n := by
  have hlast : (before ++ chunk :: between).rtake n <:+ before ++ chunk :: between :=
    List.drop_suffix _ _
  constructor
  · rcases List.suffix_or_suffix_of_suffix hlast (List.suffix_append before _) with hshort | hlong
    · rcases List.suffix_cons_iff.1 hshort with heq | hsuffix
      · rw [heq] at h
        exact absurd List.mem_cons_self h
      · exact hsuffix
    · exact absurd (hlong.subset List.mem_cons_self) h
  · rw [List.rtake, List.length_drop]
    by_contra hshort
    have hall : (before ++ chunk :: between).length - n = 0 := by omega
    rw [List.rtake, hall, List.drop_zero] at h
    exact h (by simp)

/-- A window passes over the objects whose chunk is among the last chunks that it has let through
since it was created, as many as it may remember, and lets the others through that its restrictions
accept. So as many other chunks come between two objects with one chunk. -/
theorem window_law (settings : PendingSettings) (ops : List Operation) {k : PendingKey}
    {e : PendingEntry} (he : ((empty settings).operate ops).find? k = some e)
    (hkind : e.kind = .symbolic) :
    let t := (empty settings).operate ops
    ∃ life : Life settings k ops,
      (∀ reply chunk now, k ∈ candidates reply → reply.kind = .contentObject →
        reply.chunk = some chunk → e.restrictions.accept reply →
        if chunk ∈ life.log.rtake (max settings.symbolicWindow 1) then t.PassedOver k e reply now
        else t.LetThrough k e reply chunk now) ∧
      ∀ chunk before between after, life.log = before ++ chunk :: (between ++ chunk :: after) →
        ∃ others, others <:+ between ∧ others.length = max settings.symbolicWindow 1 ∧
          others.Nodup ∧ chunk ∉ others := by
  intro t
  obtain ⟨life⟩ := exists_life (by rw [he]; rfl)
  have hcreated : life.kind = .symbolic := (life.kind_eq he).symm.trans hkind
  refine ⟨life, ?_, ?_⟩
  · intro reply chunk now hkey hobject hchunk haccept
    have htakes := takes_window_iff hkind hobject hchunk haccept
    rw [← life.delivered_eq he hkind]
    split
    · rename_i hmem
      exact passedOver_of_not_takes hkey he (by simpa [hmem] using htakes)
    · rename_i hmem
      exact letThrough_of_takes hkey he hkind (htakes.2 hmem) hchunk
  · intro chunk before between after hlog
    have hsplit : life.log = (before ++ chunk :: between) ++ chunk :: after := by simpa using hlog
    obtain ⟨past, reply, now, rest, d, -, -, -, hd, hnew, hdelivered, -⟩ :=
      life.exists_letThrough hcreated hsplit
    have hsound : (life.birth.operate past).Sound := life.sound_birth.operate past
    have hnodup := (hsound.entry hd).delivered_nodup
    rw [hdelivered] at hnew hnodup
    obtain ⟨hsuffix, hlength⟩ := rtake_suffix_of_not_mem hnew
    exact ⟨_, hsuffix, hlength, hnodup, hnew⟩

/-- A window for one chunk. Chunk 1, chunk 2 and chunk 1 again come through, and after that chunk 1
is passed over. -/
theorem window_law_small :
    let name : Name := ⟨[[97]]⟩
    let window := PendingKey.window name
    let settings : PendingSettings := { symbolicWindow := 1 }
    let object (chunk : UInt32) : Draft := { Draft.object name [120] with chunk := some chunk }
    ∃ first second, (object 1).build = .ok first ∧ (object 2).build = .ok second ∧
      let t := (empty settings).operate [.obtain window .symbolic 0,
        .join window ⟨1⟩ 4000 7 0 (.ofMode .suppress), .deliver first 100, .deliver second 200,
        .deliver first 300]
      ∃ e, t.find? window = some e ∧ t.PassedOver window e first 400 ∧
        t.LetThrough window e second 2 400 := by
  intro name window settings object
  have hobjects : ∃ first second, (object 1).build = .ok first ∧ (object 2).build = .ok second ∧
      (first.kind = .contentObject ∧ first.chunk = some 1 ∧ window ∈ candidates first) ∧
      (second.kind = .contentObject ∧ second.chunk = some 2 ∧ window ∈ candidates second) ∧
      (((empty settings).operate [.obtain window .symbolic 0,
        .join window ⟨1⟩ 4000 7 0 (.ofMode .suppress), .deliver first 100, .deliver second 200,
        .deliver first 300]).find? window).any fun e =>
          e.kind = .symbolic && e.restrictions = {} && e.delivered = [1] :=
    ⟨_, _, by cbv, by cbv, by decide +kernel, by decide +kernel, by decide +kernel⟩
  obtain ⟨first, second, hfirst, hsecond, ⟨hkind, hchunk, hkey⟩, ⟨hkind', hchunk', hkey'⟩,
    hentry⟩ := hobjects
  refine ⟨first, second, hfirst, hsecond, ?_⟩
  intro t
  obtain ⟨e, he, hfields⟩ := (Option.any_eq_true _ _).1 hentry
  simp only [Bool.and_eq_true, decide_eq_true_eq] at hfields
  obtain ⟨⟨hsymbolic, hnone⟩, hdelivered⟩ := hfields
  have haccept : ∀ reply, e.restrictions.accept reply := by
    intro reply
    rw [hnone]
    rfl
  obtain ⟨life, hlaw, -⟩ := window_law settings _ he hsymbolic
  have hlast : life.log.rtake (max settings.symbolicWindow 1) = [1] :=
    (life.delivered_eq he hsymbolic).symm.trans hdelivered
  rw [hlast] at hlaw
  refine ⟨e, he, ?_, ?_⟩
  · have hfirst := hlaw first 1 400 hkey hkind hchunk (haccept first)
    rwa [if_pos List.mem_cons_self] at hfirst
  · have hsecond := hlaw second 2 400 hkey' hkind' hchunk' (haccept second)
    rwa [if_neg (by decide)] at hsecond

/-- An object that a window passes over has a chunk that an earlier object has brought through the
same window. That one was sent to those who had live records then, so to nobody if all records were
dead. -/
theorem passed_over_for_earlier (settings : PendingSettings) (ops : List Operation)
    {reply : Message} {chunk : UInt32} {e : PendingEntry} (now : Instant)
    (he : ((empty settings).operate ops).find? (.window reply.name) = some e)
    (hkind : e.kind = .symbolic) (hobject : reply.kind = .contentObject)
    (hchunk : reply.chunk = some chunk) (hmem : chunk ∈ e.delivered) :
    ((empty settings).operate ops).PassedOver (.window reply.name) e reply now ∧
      ∃ (life : Life settings (.window reply.name) ops) (past : List Operation)
        (earlier : Message) (time : Instant) (rest : List Operation) (d : PendingEntry),
        life.since = past ++ .deliver earlier time :: rest ∧
          earlier.kind = .contentObject ∧ earlier.name = reply.name ∧ earlier.chunk = some chunk ∧
          let u := life.birth.operate past
          u.find? (.window reply.name) = some d ∧ chunk ∉ d.delivered ∧
            u.LetThrough (.window reply.name) d earlier chunk time ∧
            (u.reached earlier time (.window reply.name) ≠ [] ↔
              ∃ r ∈ d.waiting, time < r.expiry) := by
  have hsome : reply.chunk.isSome := by rw [hchunk]; rfl
  have hkey : .window reply.name ∈ candidates reply :=
    mem_candidates_iff.2 (.inr ⟨⟨hobject, hsome⟩, rfl⟩)
  obtain ⟨life⟩ := exists_life (by rw [he]; rfl)
  have hcreated : life.kind = .symbolic := (life.kind_eq he).symm.trans hkind
  have hlog : chunk ∈ life.log := by
    rw [life.delivered_eq he hkind] at hmem
    exact List.mem_of_mem_drop hmem
  obtain ⟨before, after, hsplit⟩ := List.append_of_mem hlog
  obtain ⟨past, earlier, time, rest, d, hsince, hcandidate, hearlier, hd, hnew, -, hthrough⟩ :=
    life.exists_letThrough hcreated hsplit
  constructor
  · exact passedOver_of_not_takes hkey he (by simp [takes, hkind, hchunk, hmem])
  · have hwindow := (mem_candidates_iff.1 hcandidate).resolve_left (by simp)
    refine ⟨life, past, earlier, time, rest, d, hsince, hwindow.1.1,
      (PendingKey.window.inj hwindow.2).symm, hearlier, hd, hnew, hthrough, ?_⟩
    constructor
    · intro hsomebody
      obtain ⟨g, hg⟩ := List.exists_mem_of_ne_nil _ hsomebody
      obtain ⟨r, hr, -, hlive⟩ := (hthrough.reaches g).1 hg
      exact ⟨r, hr, hlive⟩
    · rintro ⟨r, hr, hlive⟩
      exact List.ne_nil_of_mem ((hthrough.reaches r.face).2 ⟨r, hr, rfl, hlive⟩)

/-- Face 1 waits for all chunks of a name. Chunk 0 comes and comes again. -/
theorem passed_over_for_earlier_small :
    let name : Name := ⟨[[97]]⟩
    let window := PendingKey.window name
    ∃ object, { Draft.object name [120] with chunk := some 0 }.build = .ok object ∧
      let ops := [.obtain window .symbolic 0, .join window ⟨1⟩ 4000 7 0 (.ofMode .suppress),
        .deliver object 100]
      ∃ e, ((empty {}).operate ops).PassedOver (.window object.name) e object 200 ∧
        ∃ (life : Life {} (.window object.name) ops) (past : List Operation) (earlier : Message)
          (time : Instant) (rest : List Operation),
          life.since = past ++ .deliver earlier time :: rest ∧ earlier.chunk = some 0 := by
  intro name window
  have hobject : ∃ object, { Draft.object name [120] with chunk := some 0 }.build = .ok object ∧
      object.kind = .contentObject ∧ object.chunk = some 0 ∧
      (((empty {}).operate [.obtain window .symbolic 0,
        .join window ⟨1⟩ 4000 7 0 (.ofMode .suppress), .deliver object 100]).find?
          (.window object.name)).any fun e => e.kind = .symbolic && 0 ∈ e.delivered :=
    ⟨_, by cbv, by cbv, by cbv, by decide +kernel⟩
  obtain ⟨object, hbuild, hkind, hchunk, hentry⟩ := hobject
  refine ⟨object, hbuild, ?_⟩
  intro ops
  obtain ⟨e, he, hfields⟩ := (Option.any_eq_true _ _).1 hentry
  simp only [Bool.and_eq_true, decide_eq_true_eq] at hfields
  obtain ⟨hsymbolic, hmem⟩ := hfields
  obtain ⟨hover, life, past, earlier, time, rest, -, hsince, -, -, hearlier, -⟩ :=
    passed_over_for_earlier {} ops 200 he hsymbolic hkind hchunk hmem
  exact ⟨e, hover, life, past, earlier, time, rest, hsince, hearlier⟩

/-- Face 1 waits for all chunks of a name until 1000. Chunk 0 comes at 1500 and goes to nobody. Face
2 asks as well and is live when chunk 0 comes again, which goes to nobody either. -/
theorem remembered_for_nobody :
    let name : Name := ⟨[[97]]⟩
    let window := PendingKey.window name
    let asks (face : UInt16) (m : Message) (now : Instant) : Entrant :=
      { face := ⟨face⟩, request := .ofMessage m 4000, now }
    let enters (r : Entrant) (isNew : Bool) :=
      r.operations (.ofMode .suppress) (window, .symbolic) isNew
    ∃ request object,
      { Draft.interest name with span := .window, lifetime := some 1000 }.build = .ok request ∧
      { Draft.object name [120] with chunk := some 0 }.build = .ok object ∧
      let before := (empty {}).operate (enters (asks 1 request 0) true)
      let between := (before.deliver object 1500).1
      let t := between.operate (enters (asks 2 request 1600) false)
      t = (empty {}).operate (enters (asks 1 request 0) true ++ [.deliver object 1500] ++
          enters (asks 2 request 1600) false) ∧
        (∀ r, r = asks 1 request 0 ∨ r = asks 2 request 1600 →
          r.request.keys = [(window, .symbolic)]) ∧
        (before.deliver object 1500).2.faces = [] ∧
        ((t.find? window).any fun e => e.kind = .symbolic && e.restrictions.accept object &&
          0 ∈ e.delivered && e.waiting.any (·.live 1700)) ∧
        (t.deliver object 1700).2.faces = [] := by
  intro name window asks enters
  refine ⟨_, _, by cbv, by cbv, ?_⟩
  intro before between t
  refine ⟨?_, ?_, by decide +kernel, by decide +kernel, by decide +kernel⟩
  · rw [operate_append, operate_append]
    rfl
  · rintro r (rfl | rfl)
    · cbv
    · cbv

end NamedData.PendingTable
