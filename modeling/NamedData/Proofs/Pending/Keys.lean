import NamedData.Proofs.Pending.Entrywise

/-!
# The keys of requests and replies

A request waits under each of its keys once. Keys with a chunk are shared by
regular and selective requests, keys without one belong to regular requests and
windows to symbolic ones, and an entry is of a kind that its key allows.
-/

namespace NamedData

theorem ChunkRange.nodup_chunks (range : ChunkRange) : range.chunks.Nodup := by
  have hrange : ((List.range range.count.toNat).map fun i => range.first.toNat + i).Nodup :=
    List.nodup_range.map fun i j h => Nat.add_left_cancel h
  refine hrange.filterMap ?_
  intro a b c ha hb
  simp only [Option.mem_def, Option.ite_none_right_eq_some, Option.some.injEq] at ha hb
  obtain ⟨ha, rfl⟩ := ha
  obtain ⟨hb, hab⟩ := hb
  have h := congrArg UInt32.toNat hab
  rwa [UInt32.toNat_ofNat_of_lt' hb, UInt32.toNat_ofNat_of_lt' ha, eq_comm] at h

def Message.requestKeys (m : Message) : List PendingKey :=
  (PendingRequest.ofMessage m 0).keys.map (·.1)

def PendingKey.Allows : PendingKey → PendingKind → Prop
  | .exact _ none, kind => kind = .regular
  | .exact _ (some _), kind => kind ≠ .symbolic
  | .window _, kind => kind = .symbolic

theorem PendingKey.ne_symbolic_of_allows {n : Name} {c : Option UInt32} {kind : PendingKind}
    (h : (PendingKey.exact n c).Allows kind) : kind ≠ .symbolic := by
  rintro rfl
  cases c with
  | none => exact absurd h nofun
  | some c => exact h rfl

theorem Message.name_of_mem_requestKeys {m : Message} {k : PendingKey} (h : k ∈ m.requestKeys) :
    k.name = m.name := by
  unfold requestKeys PendingRequest.keys PendingRequest.ofMessage at h
  dsimp only at h
  split at h
  · rw [List.mem_singleton.1 h]
    rfl
  · simp only [List.map_map, List.mem_map, Function.comp_apply] at h
    obtain ⟨chunk, -, rfl⟩ := h
    rfl
  · rw [List.mem_singleton.1 h]
    rfl

namespace PendingRequest

theorem nodup_keys (r : PendingRequest) : (r.keys.map (·.1)).Nodup := by
  unfold keys
  split
  · simp
  · rename_i range _ _
    rw [List.map_map]
    refine range.nodup_chunks.map ?_
    intro c d h
    simpa using h
  · simp

theorem nodup_front {r : PendingRequest} {front rest : List (PendingKey × PendingKind)}
    (h : r.keys = front ++ rest) : (front.map (·.1)).Nodup := by
  have hall := r.nodup_keys
  rw [h, List.map_append] at hall
  exact hall.of_append_left

theorem allows_of_mem_keys {r : PendingRequest} {key : PendingKey × PendingKind}
    (h : key ∈ r.keys) : key.1.Allows key.2 := by
  unfold keys at h
  split at h
  · rw [List.mem_singleton.1 h]
    rfl
  · obtain ⟨c, -, rfl⟩ := List.mem_map.1 h
    exact nofun
  · rw [List.mem_singleton.1 h]
    cases hc : r.chunk with
    | none => rfl
    | some c => exact nofun

end PendingRequest

def PendingEntry.Fits (e : PendingEntry) : Prop := e.key.Allows e.kind

theorem PendingEntry.stable_fits : Stable Fits :=
  ⟨fun _ _ _ _ h => h, fun _ _ h => h, fun _ _ h => h⟩

namespace PendingTable

variable {t : PendingTable} {reply : Message} {now : Instant}

theorem Entrant.fits_joins {s : Suppression} {r : Entrant} {key : PendingKey × PendingKind}
    (h : t.Every PendingEntry.Fits) (hkey : key.1.Allows key.2) :
    (r.joins s (r.host t key)).Fits := by
  have hhost : (r.host t key).Fits := by
    unfold Entrant.host
    cases hfound : r.found? t key.1 with
    | none => exact hkey
    | some e => exact h.find? (Entrant.found?_eq_some hfound).1
  unfold PendingEntry.Fits
  rw [Entrant.key_joins, (Entrant.joins_fields _).2.1]
  exact hhost

/-- A reply under its own name and chunk, if it is no Interest Return, takes up any
entry of a table whose entries fit. -/
theorem matchesKind_of_fits {e : PendingEntry} (hfits : e.Fits)
    (hkey : e.key = .exact reply.name reply.chunk) (hkind : reply.kind ≠ .interestReturn) :
    matchesKind reply e := by
  unfold PendingEntry.Fits at hfits
  rw [hkey] at hfits
  cases hc : reply.chunk with
  | none =>
    rw [hc] at hfits
    have hregular : e.kind = .regular := hfits
    simp [matchesKind, hregular]
  | some c => simp [matchesKind, hc, hkind]

theorem ne_symbolic_of_fits {e : PendingEntry} {n : Name} {c : Option UInt32} (hfits : e.Fits)
    (hkey : e.key = .exact n c) : e.kind ≠ .symbolic := by
  rw [PendingEntry.Fits, hkey] at hfits
  exact PendingKey.ne_symbolic_of_allows hfits

theorem symbolic_of_fits {e : PendingEntry} {n : Name} (hfits : e.Fits)
    (hkey : e.key = .window n) : e.kind = .symbolic := by
  rwa [PendingEntry.Fits, hkey] at hfits

theorem takes_of_return {e : PendingEntry} (hkind : reply.kind = .interestReturn) :
    takes reply e ↔ e.kind = .regular := by
  simp only [takes, matchesKind, hkind]
  cases e.kind <;> simp

/-- Under its own name and chunk a reply is taken by every entry that its kind and the
restrictions allow. -/
theorem takes_iff_of_fits {e : PendingEntry} (hfits : e.Fits)
    (hkey : e.key = .exact reply.name reply.chunk) :
    takes reply e ↔ (reply.kind = .interestReturn → e.kind = .regular) ∧
      (reply.kind = .contentObject → e.restrictions.accept reply) := by
  by_cases hreturn : reply.kind = .interestReturn
  · simp [takes_of_return hreturn, hreturn]
  · have hmatches := matchesKind_of_fits hfits hkey hreturn
    have hkind := ne_symbolic_of_fits hfits hkey
    by_cases hobject : reply.kind = .contentObject <;>
      simp [takes, hmatches, hkind, hreturn, hobject]

theorem takes_of_accept {e : PendingEntry} (hfits : e.Fits)
    (hkey : e.key = .exact reply.name reply.chunk) (hkind : reply.kind = .contentObject)
    (haccept : e.restrictions.accept reply) : takes reply e :=
  (takes_iff_of_fits hfits hkey).2 ⟨by simp [hkind], fun _ => haccept⟩

end PendingTable
end NamedData
