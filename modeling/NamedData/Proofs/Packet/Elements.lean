import NamedData.Proofs.Octets
import NamedData.Tlv

/-!
# Sequences of elements

An element can be read back from what is written of it, if the length field can hold the length of
its value. So a region is read as some elements exactly if it is tiled by them. What is made of the
elements of a region, one after another, depends on the last one of each kind.
-/

namespace NamedData

variable {ε α β γ : Type} {bytes rest region : Octets}

theorem bind_eq_ok_iff {x : Except ε α} {f : α → Except ε β} {b : β} :
    (x >>= f) = .ok b ↔ ∃ a, x = .ok a ∧ f a = .ok b := by
  cases x with
  | error e => exact ⟨nofun, nofun⟩
  | ok a =>
    constructor
    · intro h
      exact ⟨a, rfl, h⟩
    · rintro ⟨a, ⟨⟩, h⟩
      exact h

theorem map_eq_ok_iff {x : Except ε α} {f : α → β} {b : β} :
    x.map f = .ok b ↔ ∃ a, x = .ok a ∧ f a = b := by
  cases x <;> simp [Except.map]

theorem map_eq_ok_iff_of {x : Except ε α} {P : Prop} {v : α} (h : ∀ a, x = .ok a ↔ P ∧ a = v)
    {f : α → β} {b : β} : x.map f = .ok b ↔ P ∧ b = f v := by
  simp only [map_eq_ok_iff, h]
  constructor
  · rintro ⟨a, ⟨hread, rfl⟩, rfl⟩
    exact ⟨hread, rfl⟩
  · rintro ⟨hread, rfl⟩
    exact ⟨v, ⟨hread, rfl⟩, rfl⟩

theorem toOption_eq_some_iff {x : Except ε α} {a : α} : x.toOption = some a ↔ x = .ok a := by
  cases x <;> simp [Except.toOption]

theorem map_some_eq_ok_iff {x : Except ε α} {g : Option α → β} {b : β} :
    x.map (fun a => g (some a)) = .ok b ↔ (∃ a, x = .ok a) ∧ b = g x.toOption := by
  cases x <;> simp [Except.map, Except.toOption, eq_comm]

theorem mapM_eq_ok_iff {f : α → Except ε β} {P : α → Prop} {g : α → β}
    (h : ∀ a b, f a = .ok b ↔ P a ∧ b = g a) {as : List α} {bs : List β} :
    as.mapM f = .ok bs ↔ (∀ a ∈ as, P a) ∧ bs = as.map g := by
  induction as generalizing bs with
  | nil => simp [pure, Except.pure, eq_comm]
  | cons a as ih =>
    simp only [List.mapM_cons, bind_eq_ok_iff, pure, Except.pure, Except.ok.injEq,
      List.forall_mem_cons, List.map_cons]
    constructor
    · rintro ⟨b, hb, bs', hbs, rfl⟩
      obtain ⟨ha, rfl⟩ := (h a b).1 hb
      obtain ⟨hall, rfl⟩ := ih.1 hbs
      exact ⟨⟨ha, hall⟩, rfl⟩
    · rintro ⟨⟨ha, hall⟩, rfl⟩
      exact ⟨g a, (h a _).2 ⟨ha, rfl⟩, _, ih.2 ⟨hall, rfl⟩, rfl⟩

namespace Tlv

variable {t : Tlv} {ts : List Tlv}

theorem decode_eq_ok (h : decode bytes = .ok (t, rest)) :
    ∃ k₁ k₀ l₁ l₀, bytes = k₁ :: k₀ :: l₁ :: l₀ :: (t.value ++ rest) ∧
      t.kind = UInt16.ofNat (Octets.word16 k₁ k₀) ∧ t.value.length = Octets.word16 l₁ l₀ := by
  unfold decode at h
  split at h
  · rename_i k₁ k₀ l₁ l₀ tail
    dsimp only at h
    split at h
    · rename_i value rest' hcut
      obtain ⟨rfl, hlength⟩ := Octets.cut?_eq_some hcut
      simp only [Except.ok.injEq, Prod.mk.injEq] at h
      obtain ⟨rfl, rfl⟩ := h
      exact ⟨k₁, k₀, l₁, l₀, rfl, rfl, hlength⟩
    · cases h
  · cases h

theorem decodeAll_cons (h : decodeAll bytes = .ok (t :: ts)) :
    ∃ rest, decode bytes = .ok (t, rest) ∧ decodeAll rest = .ok ts := by
  rw [decodeAll] at h
  split at h
  · cases h
  · split at h
    · cases h
    · rename_i t' rest hdecode
      split at h
      · cases h
      · rename_i ts' hts
        obtain ⟨rfl, rfl⟩ := List.cons.inj (Except.ok.inj h)
        exact ⟨rest, hdecode, hts⟩

theorem eq_nil_of_decodeAll (h : decodeAll bytes = .ok []) : bytes = [] := by
  rw [decodeAll] at h
  split at h
  · rename_i hempty
    exact List.isEmpty_iff.1 hempty
  · split at h
    · cases h
    · split at h <;> cases h

def Fits (t : Tlv) : Prop := t.value.length < 65536

/-- The elements fill the region, one after another. -/
structure Tiled (region : Octets) (ts : List Tlv) : Prop where
  eq : region = encodeAll ts
  fits : ∀ t ∈ ts, t.Fits

theorem decode_encode_append (h : t.Fits) (rest : Octets) :
    decode (t.encode ++ rest) = .ok (t, rest) := by
  have hlength : Octets.word16 (UInt8.ofNat (t.value.length / 256)) (UInt8.ofNat t.value.length) =
      t.value.length := by
    rw [Octets.word16_ofNat]
    exact Nat.mod_eq_of_lt h
  have hkind : UInt16.ofNat (Octets.word16 (UInt8.ofNat (t.kind.toNat / 256))
      (UInt8.ofNat t.kind.toNat)) = t.kind := by
    rw [Octets.word16_ofNat, Nat.mod_eq_of_lt t.kind.toNat_lt, UInt16.ofNat_toNat]
  rw [encode, Octets.ofNat_two, Octets.ofNat_two]
  simp only [List.cons_append, List.nil_append, decode, hlength, hkind, Octets.cut?_append]

theorem decode_eq_ok_iff : decode bytes = .ok (t, rest) ↔ bytes = t.encode ++ rest ∧ t.Fits := by
  constructor
  · intro h
    obtain ⟨k₁, k₀, l₁, l₀, rfl, hkind, hlength⟩ := decode_eq_ok h
    have hword : t.kind.toNat = Octets.word16 k₁ k₀ := by
      rw [hkind, UInt16.toNat_ofNat']
      exact Nat.mod_eq_of_lt (Octets.word16_lt k₁ k₀)
    refine ⟨?_, ?_⟩
    · rw [encode, hword, hlength, Octets.ofNat_word16, Octets.ofNat_word16]
      rfl
    · rw [Fits, hlength]
      exact Octets.word16_lt l₁ l₀
  · rintro ⟨rfl, hfits⟩
    exact decode_encode_append hfits rest

theorem decodeAll_of_decode (h : decode bytes = .ok (t, rest)) (hrest : decodeAll rest = .ok ts) :
    decodeAll bytes = .ok (t :: ts) := by
  have hne : bytes.isEmpty = false := by
    have hlt := length_lt_of_decode h
    cases bytes with
    | nil => exact absurd hlt (Nat.not_lt_zero _)
    | cons b bytes => rfl
  rw [decodeAll, hne, if_neg Bool.false_ne_true]
  split
  · rename_i e herror
    rw [h] at herror
    cases herror
  · rename_i t' rest' hread
    rw [h] at hread
    cases hread
    rw [hrest]

theorem decodeAll_eq_ok_iff : decodeAll region = .ok ts ↔ Tiled region ts := by
  induction ts generalizing region with
  | nil =>
    constructor
    · intro h
      exact ⟨eq_nil_of_decodeAll h, nofun⟩
    · rintro ⟨rfl, -⟩
      rw [decodeAll]
      rfl
  | cons t ts ih =>
    constructor
    · intro h
      obtain ⟨rest, hdecode, hrest⟩ := decodeAll_cons h
      obtain ⟨rfl, hfits⟩ := decode_eq_ok_iff.1 hdecode
      obtain ⟨rfl, hall⟩ := ih.1 hrest
      exact ⟨rfl, List.forall_mem_cons.2 ⟨hfits, hall⟩⟩
    · rintro ⟨rfl, hall⟩
      obtain ⟨hfits, hrest⟩ := List.forall_mem_cons.1 hall
      exact decodeAll_of_decode (decode_encode_append hfits _) (ih.2 ⟨rfl, hrest⟩)

theorem Tiled.unique {us : List Tlv} (h : Tiled region ts) (h' : Tiled region us) : ts = us :=
  Except.ok.inj ((decodeAll_eq_ok_iff.2 h).symm.trans (decodeAll_eq_ok_iff.2 h'))

theorem tiles_cons (k₁ k₀ l₁ l₀ : UInt8) (rest : Octets) :
    tiles (k₁ :: k₀ :: l₁ :: l₀ :: rest) =
      (decide (Octets.word16 l₁ l₀ ≤ rest.length) && tiles (rest.drop (Octets.word16 l₁ l₀))) := by
  rw [tiles]

theorem tiles_of_short (hpos : 0 < bytes.length) (hshort : bytes.length < 4) :
    tiles bytes = false := by
  match bytes, hpos, hshort with
  | [_], _, _ | [_, _], _, _ | [_, _, _], _, _ => simp [tiles]

/-- The regions that are tiled are those that can be read. -/
theorem tiles_iff : tiles region ↔ ∃ ts, decodeAll region = .ok ts := by
  constructor
  · intro h
    fun_induction tiles region with
    | case1 => exact ⟨[], decodeAll_eq_ok_iff.2 ⟨rfl, nofun⟩⟩
    | case2 k₁ k₀ l₁ l₀ rest declared ih =>
      rw [Bool.and_eq_true, decide_eq_true_eq] at h
      obtain ⟨hroom, hrest⟩ := h
      obtain ⟨ts, hts⟩ := ih hrest
      have hcut : Octets.cut? declared rest = some (rest.take declared, rest.drop declared) :=
        if_pos (List.length_take_of_le hroom)
      have hdecode : decode (k₁ :: k₀ :: l₁ :: l₀ :: rest) =
          .ok (⟨UInt16.ofNat (Octets.word16 k₁ k₀), rest.take declared⟩, rest.drop declared) := by
        simp only [decode, declared] at hcut ⊢
        rw [hcut]
      exact ⟨_, decodeAll_of_decode hdecode hts⟩
    | case3 => cases h
  · rintro ⟨ts, h⟩
    induction ts generalizing region with
    | nil =>
      rw [eq_nil_of_decodeAll h, tiles]
    | cons t ts ih =>
      obtain ⟨rest, hdecode, hts⟩ := decodeAll_cons h
      obtain ⟨k₁, k₀, l₁, l₀, rfl, -, hlength⟩ := decode_eq_ok hdecode
      rw [tiles_cons, ← hlength, List.drop_left, ih hts, Bool.and_true, decide_eq_true_eq,
        List.length_append]
      exact Nat.le_add_right ..

/-- The number in an element, of which no more than 64 bits count. -/
def number (t : Tlv) : UInt64 := UInt64.ofNat (Octets.toNat t.value)

def Numeric (t : Tlv) : Prop := 1 ≤ t.value.length ∧ t.value.length ≤ 8

theorem decodeUInt_eq_ok_iff {n : UInt64} :
    decodeUInt t.value = .ok n ↔ t.Numeric ∧ n = t.number := by
  have hwidth : (t.value.isEmpty || decide (8 < t.value.length)) ↔ ¬t.Numeric := by
    rw [Bool.or_eq_true, List.isEmpty_iff_length_eq_zero, decide_eq_true_eq, Numeric]
    omega
  unfold decodeUInt
  by_cases hnumeric : t.Numeric
  · rw [if_neg (mt hwidth.1 (not_not_intro hnumeric)), Except.ok.injEq]
    exact ⟨fun h => ⟨hnumeric, h.symm⟩, fun h => h.2.symm⟩
  · rw [if_pos (hwidth.2 hnumeric)]
    exact ⟨nofun, fun h => absurd h.1 hnumeric⟩

theorem Numeric.toNat_number (h : t.Numeric) : t.number.toNat = Octets.toNat t.value := by
  have hlt : Octets.toNat t.value < 256 ^ 8 :=
    Nat.lt_of_lt_of_le (Octets.toNat_lt t.value) (Nat.pow_le_pow_right (by decide) h.2)
  rw [number, UInt64.toNat_ofNat']
  exact Nat.mod_eq_of_lt hlt

theorem numeric_ofUInt64 (kind : TlvKind) (n : UInt64) : (ofUInt64 kind n).Numeric :=
  ⟨Octets.length_ofUInt64_pos n, Octets.length_ofUInt64_le n⟩

theorem number_ofUInt64 (kind : TlvKind) (n : UInt64) : (ofUInt64 kind n).number = n := by
  rw [number, ofUInt64, Octets.toNat_ofUInt64, UInt64.ofNat_toNat]

def last? (p : Tlv → Bool) (ts : List Tlv) : Option Tlv := (ts.filter p).getLast?

def lastOf? (kind : TlvKind) (ts : List Tlv) : Option Tlv := last? (·.kind = kind) ts

variable {p : Tlv → Bool} {kind : TlvKind}

theorem last?_append (front back : List Tlv) :
    last? p (front ++ back) = (last? p back).or (last? p front) := by
  rw [last?, List.filter_append, List.getLast?_append]
  rfl

theorem last?_cons (t : Tlv) (ts : List Tlv) :
    last? p (t :: ts) = (last? p ts).or (if p t then some t else none) := by
  rw [← List.singleton_append, last?_append]
  cases hp : p t <;> simp [last?, hp]

theorem mem_of_last? (h : last? p ts = some t) : t ∈ ts ∧ p t :=
  List.mem_filter.1 (List.mem_of_getLast? h)

theorem last?_eq_none_iff : last? p ts = none ↔ ∀ t ∈ ts, ¬p t := by
  rw [last?, List.getLast?_eq_none_iff, List.filter_eq_nil_iff]

theorem mem_of_lastOf? (h : lastOf? kind ts = some t) : t ∈ ts ∧ t.kind = kind := by
  simpa using mem_of_last? h

theorem foldlM_eq_ok_iff {take : β → Tlv → Except ε β} {set : β → Tlv → β} {Allows : Tlv → Prop}
    (htake : ∀ b t b', take b t = .ok b' ↔ Allows t ∧ b' = set b t) {b b' : β} :
    ts.foldlM take b = .ok b' ↔ (∀ t ∈ ts, Allows t) ∧ b' = ts.foldl set b := by
  induction ts generalizing b with
  | nil =>
    constructor
    · intro h
      exact ⟨nofun, (Except.ok.inj h).symm⟩
    · rintro ⟨-, rfl⟩
      rfl
  | cons t ts ih =>
    rw [List.foldlM_cons, bind_eq_ok_iff, List.forall_mem_cons, List.foldl_cons]
    constructor
    · rintro ⟨b₁, hfirst, hrest⟩
      obtain ⟨hallows, rfl⟩ := (htake b t b₁).1 hfirst
      obtain ⟨hall, rfl⟩ := ih.1 hrest
      exact ⟨⟨hallows, hall⟩, rfl⟩
    · rintro ⟨⟨hallows, hall⟩, rfl⟩
      exact ⟨set b t, (htake b t _).2 ⟨hallows, rfl⟩, ih.2 ⟨hall, rfl⟩⟩

theorem get_foldl {set : β → Tlv → β} (get : β → γ) (value : Tlv → γ)
    (hset : ∀ b t, get (set b t) = if p t then value t else get b) (ts : List Tlv) (b : β) :
    get (ts.foldl set b) = (last? p ts).elim (get b) value := by
  induction ts generalizing b with
  | nil => rfl
  | cons t ts ih =>
    rw [List.foldl_cons, ih, hset, last?_cons]
    cases last? p ts with
    | some u => rfl
    | none => cases p t <;> rfl

theorem get_foldl_of_none {set : β → Tlv → β} (get : β → Option γ) (value : Tlv → Option γ)
    (hset : ∀ b t, get (set b t) = if t.kind = kind then value t else get b) (ts : List Tlv)
    {b : β} (hb : get b = none) : get (ts.foldl set b) = (lastOf? kind ts).bind value := by
  have hlast : get (ts.foldl set b) = (lastOf? kind ts).elim (get b) value :=
    get_foldl get value (fun b t => by simp [hset]) ts b
  rw [hlast, hb]
  cases lastOf? kind ts <;> rfl

theorem get_foldl_eq_map {set : β → Tlv → β} (get : β → Option γ) (value : Tlv → γ)
    (hset : ∀ b t, get (set b t) = if t.kind = kind then some (value t) else get b) (ts : List Tlv)
    {b : β} (hb : get b = none) : get (ts.foldl set b) = (lastOf? kind ts).map value := by
  rw [get_foldl_of_none get (some ∘ value) hset ts hb, Option.map_eq_bind]

end Tlv
end NamedData
