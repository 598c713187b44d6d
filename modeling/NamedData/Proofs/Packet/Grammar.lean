import NamedData.Packet.Message
import NamedData.Proofs.Packet.Elements

/-!
# The grammar of regions

The options of a packet, the parts of a name, the fields of a message and what follows it are each a
sequence of elements. For each of them `Allows` says which elements there may be, and `set` what
one more of them changes. Reading a region takes its elements into account one after another, and
succeeds if all of them are allowed.
-/

namespace NamedData

variable {t : Tlv} {segments : List Tlv}

theorem map_decodeUInt_eq_ok_iff {β : Type} {f : UInt64 → β} {b : β} :
    (PacketError.liftTlv (Tlv.decodeUInt t.value)).map f = .ok b ↔ t.Numeric ∧ b = f t.number := by
  apply map_eq_ok_iff_of
  intro n
  rw [PacketError.liftTlv_eq_ok, Tlv.decodeUInt_eq_ok_iff]

theorem ofRegion_eq_ok_iff {β : Type} {region : Octets} {f : List Tlv → Except PacketError β}
    {b : β} : (match Tlv.decodeAll region with
      | .error e => Except.error (PacketError.tlv e)
      | .ok ts => f ts) = .ok b ↔ ∃ ts, Tlv.Tiled region ts ∧ f ts = .ok b := by
  simp only [← Tlv.decodeAll_eq_ok_iff]
  cases Tlv.decodeAll region with
  | error e => simp
  | ok ts => simp

/-! ## Options -/

namespace HopOptions

/-- The value of an option is as long as its kind asks for. -/
def Allows (t : Tlv) : Prop :=
  (t.kind = lifetimeKind ∨ t.kind = cacheTimeKind ∨ t.kind = nonceKind → t.Numeric) ∧
    (t.kind = selectiveKind → t.value.length = 6)

def rangeOf (t : Tlv) : ChunkRange :=
  ⟨UInt32.ofNat (Octets.toNat (t.value.take 4)), UInt16.ofNat (Octets.toNat (t.value.drop 4))⟩

def set (o : HopOptions) (t : Tlv) : HopOptions where
  lifetime := if t.kind = lifetimeKind then some t.number else o.lifetime
  cacheTime := if t.kind = cacheTimeKind then some t.number else o.cacheTime
  interestType :=
    if t.kind = symbolicKind ∨ t.kind = selectiveKind then
      if t.kind = symbolicKind then .symbolic else .selective
    else o.interestType
  selective := if t.kind = selectiveKind then some (rangeOf t) else o.selective
  nonce := if t.kind = nonceKind then some t.number else o.nonce

theorem readRange_eq_ok_iff {r : ChunkRange} :
    readRange t.value = .ok r ↔ t.value.length = 6 ∧ r = rangeOf t := by
  unfold readRange rangeOf
  split
  · rename_i hvalue
    simp [hvalue, Octets.word16_eq_toNat, eq_comm]
  · rename_i hother
    constructor
    · exact nofun
    · rintro ⟨hlength, -⟩
      match hvalue : t.value, hlength with
      | [f₃, f₂, f₁, f₀, c₁, c₀], _ => exact absurd hvalue (hother f₃ f₂ f₁ f₀ c₁ c₀)

theorem map_readRange_eq_ok_iff {β : Type} {f : ChunkRange → β} {b : β} :
    (readRange t.value).map f = .ok b ↔ t.value.length = 6 ∧ b = f (rangeOf t) :=
  map_eq_ok_iff_of fun _ => readRange_eq_ok_iff

theorem apply_eq_ok_iff (o : HopOptions) (t : Tlv) (o' : HopOptions) :
    apply o t = .ok o' ↔ Allows t ∧ o' = o.set t := by
  unfold apply Allows set
  -- in each case the kind is known, and all comparisons with other kinds are decided
  by_cases hlifetime : t.kind = lifetimeKind
  · simp [hlifetime, map_decodeUInt_eq_ok_iff, lifetimeKind, cacheTimeKind, symbolicKind,
      selectiveKind, nonceKind]
  by_cases hcacheTime : t.kind = cacheTimeKind
  · simp [hcacheTime, map_decodeUInt_eq_ok_iff, lifetimeKind, cacheTimeKind, symbolicKind,
      selectiveKind, nonceKind]
  by_cases hsymbolic : t.kind = symbolicKind
  · simp [hsymbolic, lifetimeKind, cacheTimeKind, symbolicKind, selectiveKind, nonceKind, eq_comm]
  by_cases hselective : t.kind = selectiveKind
  · simp [hselective, map_readRange_eq_ok_iff, lifetimeKind, cacheTimeKind, symbolicKind,
      selectiveKind, nonceKind]
  by_cases hnonce : t.kind = nonceKind
  · simp [hnonce, map_decodeUInt_eq_ok_iff, lifetimeKind, cacheTimeKind, symbolicKind,
      selectiveKind, nonceKind]
  · simp only [hlifetime, hcacheTime, hsymbolic, hselective, hnonce, or_self, if_false,
      false_imp_iff, true_and, Except.ok.injEq]
    exact eq_comm

theorem read_eq_ok_iff {region : Octets} {o : HopOptions} : read region = .ok o ↔
    ∃ ts, Tlv.Tiled region ts ∧ (∀ t ∈ ts, Allows t) ∧ o = ts.foldl set {} := by
  simp only [← Tlv.foldlM_eq_ok_iff apply_eq_ok_iff]
  exact ofRegion_eq_ok_iff

end HopOptions

/-! ## Names -/

namespace Name

/-- The parts of a name are few enough, and its chunk numbers have 32 bits. -/
structure Spelled (segments : List Tlv) : Prop where
  components_le : (segments.filter (·.kind ≠ chunkKind)).length ≤ 64
  chunks : ∀ s ∈ segments, s.kind = chunkKind → s.Numeric ∧ Octets.toNat s.value < 2 ^ 32

def spelling (segments : List Tlv) : Name :=
  ⟨(segments.filter (·.kind ≠ chunkKind)).map (·.value)⟩

def chunkOf (segments : List Tlv) : Option UInt32 :=
  (Tlv.last? (·.kind = chunkKind) segments).map (·.number.toUInt32)

theorem readChunk_eq_ok_iff {c : UInt32} : readChunk t = .ok c ↔
    (t.Numeric ∧ Octets.toNat t.value < 2 ^ 32) ∧ c = t.number.toUInt32 := by
  unfold readChunk
  cases hread : Tlv.decodeUInt t.value with
  | error e =>
    constructor
    · exact nofun
    · rintro ⟨⟨hnumeric, -⟩, -⟩
      rw [Tlv.decodeUInt_eq_ok_iff.2 ⟨hnumeric, rfl⟩] at hread
      cases hread
  | ok n =>
    obtain ⟨hnumeric, rfl⟩ := Tlv.decodeUInt_eq_ok_iff.1 hread
    have hvalue : t.number.toNat = Octets.toNat t.value := hnumeric.toNat_number
    dsimp only
    rw [hvalue]
    by_cases hsmall : Octets.toNat t.value < UInt32.size
    · rw [if_pos hsmall, Except.ok.injEq]
      exact ⟨fun h => ⟨⟨hnumeric, hsmall⟩, h.symm⟩, fun h => h.2.symm⟩
    · rw [if_neg hsmall]
      exact ⟨nofun, fun h => absurd h.1.2 hsmall⟩

theorem ofSegments_eq_ok_iff {n : Name × Option UInt32} :
    ofSegments segments = .ok n ↔ Spelled segments ∧ n = (spelling segments, chunkOf segments) := by
  have hchunks : ∀ chunks, (segments.filter (·.kind = chunkKind)).mapM readChunk = .ok chunks ↔
      (∀ s ∈ segments, s.kind = chunkKind → s.Numeric ∧ Octets.toNat s.value < 2 ^ 32) ∧
        chunks = (segments.filter (·.kind = chunkKind)).map (·.number.toUInt32) := by
    intro chunks
    rw [mapM_eq_ok_iff fun _ _ => readChunk_eq_ok_iff]
    simp only [List.mem_filter, decide_eq_true_eq, and_imp]
  unfold ofSegments
  cases hread : (segments.filter (·.kind = chunkKind)).mapM readChunk with
  | error e =>
    constructor
    · exact nofun
    · rintro ⟨⟨-, hall⟩, -⟩
      rw [(hchunks _).2 ⟨hall, rfl⟩] at hread
      cases hread
  | ok chunks =>
    obtain ⟨hall, rfl⟩ := (hchunks chunks).1 hread
    dsimp only
    rw [List.length_map, List.getLast?_map]
    by_cases hfew : (segments.filter (·.kind ≠ chunkKind)).length ≤ maxComponents
    · rw [if_pos hfew, Except.ok.injEq]
      exact ⟨fun h => ⟨⟨hfew, hall⟩, h.symm⟩, fun h => h.2.symm⟩
    · rw [if_neg hfew]
      exact ⟨nofun, fun h => absurd h.1.1 hfew⟩

theorem ofTlv_eq_ok_iff (hkind : t.kind = nameKind) {n : Name × Option UInt32} :
    ofTlv t = .ok n ↔ ∃ segments, Tlv.Tiled t.value segments ∧ Spelled segments ∧
      n = (spelling segments, chunkOf segments) := by
  simp only [← ofSegments_eq_ok_iff]
  rw [ofTlv, if_pos hkind]
  exact ofRegion_eq_ok_iff

end Name

/-! ## Fields of the message -/

namespace MessageFields

def Allows (t : Tlv) : Prop :=
  (t.kind = Name.nameKind → ∃ segments, Tlv.Tiled t.value segments ∧ Name.Spelled segments) ∧
    (t.kind = keyIdRestrictionKind ∨ t.kind = objectHashRestrictionKind → t.value.length = 32) ∧
    (t.kind = expiryKind → t.Numeric)

def set (f : MessageFields) (t : Tlv) : MessageFields where
  name := if t.kind = Name.nameKind then (Name.ofTlv t).toOption else f.name
  payload := if t.kind = payloadKind then some t.value else f.payload
  keyIdRestriction :=
    if t.kind = keyIdRestrictionKind then (readDigest t.value).toOption else f.keyIdRestriction
  objectHashRestriction :=
    if t.kind = objectHashRestrictionKind then (readDigest t.value).toOption
    else f.objectHashRestriction
  expiry := if t.kind = expiryKind then some t.number else f.expiry

theorem readDigest_eq_ok_iff {value : Octets} {d : Digest} :
    readDigest value = .ok d ↔ value = d.1 := by
  unfold readDigest Digest.ofOctets?
  by_cases hlength : value.length = 32
  · rw [dif_pos hlength, Except.ok.injEq, Subtype.ext_iff]
  · rw [dif_neg hlength]
    refine ⟨nofun, ?_⟩
    rintro rfl
    exact absurd d.2 hlength

theorem exists_readDigest_iff {value : Octets} :
    (∃ d, readDigest value = .ok d) ↔ value.length = 32 := by
  simp only [readDigest_eq_ok_iff]
  constructor
  · rintro ⟨d, rfl⟩
    exact d.2
  · intro hlength
    exact ⟨⟨value, hlength⟩, rfl⟩

theorem exists_ofTlv_iff (hkind : t.kind = Name.nameKind) : (∃ n, Name.ofTlv t = .ok n) ↔
    ∃ segments, Tlv.Tiled t.value segments ∧ Name.Spelled segments := by
  simp only [Name.ofTlv_eq_ok_iff hkind]
  constructor
  · rintro ⟨_, segments, htiled, hspelled, -⟩
    exact ⟨segments, htiled, hspelled⟩
  · rintro ⟨segments, htiled, hspelled⟩
    exact ⟨_, segments, htiled, hspelled, rfl⟩

theorem apply_eq_ok_iff (f : MessageFields) (t : Tlv) (f' : MessageFields) :
    apply f t = .ok f' ↔ Allows t ∧ f' = f.set t := by
  unfold apply Allows set
  by_cases hname : t.kind = Name.nameKind
  · rw [if_pos hname]
    refine (map_some_eq_ok_iff (g := fun n => { f with name := n })).trans ?_
    rw [exists_ofTlv_iff hname]
    simp [hname, Name.nameKind, payloadKind, keyIdRestrictionKind, objectHashRestrictionKind,
      expiryKind]
  by_cases hpayload : t.kind = payloadKind
  · simp [hpayload, Name.nameKind, payloadKind, keyIdRestrictionKind, objectHashRestrictionKind,
      expiryKind, eq_comm]
  by_cases hkeyId : t.kind = keyIdRestrictionKind
  · rw [if_neg hname, if_neg hpayload, if_pos hkeyId]
    refine (map_some_eq_ok_iff (g := fun d => { f with keyIdRestriction := d })).trans ?_
    rw [exists_readDigest_iff]
    simp [hkeyId, Name.nameKind, payloadKind, keyIdRestrictionKind, objectHashRestrictionKind,
      expiryKind]
  by_cases hobjectHash : t.kind = objectHashRestrictionKind
  · rw [if_neg hname, if_neg hpayload, if_neg hkeyId, if_pos hobjectHash]
    refine (map_some_eq_ok_iff (g := fun d => { f with objectHashRestriction := d })).trans ?_
    rw [exists_readDigest_iff]
    simp [hobjectHash, Name.nameKind, payloadKind, keyIdRestrictionKind,
      objectHashRestrictionKind, expiryKind]
  by_cases hexpiry : t.kind = expiryKind
  · simp [hexpiry, map_decodeUInt_eq_ok_iff, Name.nameKind, payloadKind, keyIdRestrictionKind,
      objectHashRestrictionKind, expiryKind]
  · simp only [hname, hpayload, hkeyId, hobjectHash, hexpiry, or_self, if_false, false_imp_iff,
      true_and, Except.ok.injEq]
    exact eq_comm

theorem read_eq_ok_iff {region : Octets} {f : MessageFields} : read region = .ok f ↔
    ∃ ts, Tlv.Tiled region ts ∧ (∀ t ∈ ts, Allows t) ∧ f = ts.foldl set {} := by
  simp only [← Tlv.foldlM_eq_ok_iff apply_eq_ok_iff]
  exact ofRegion_eq_ok_iff

end MessageFields

/-! ## What follows the message -/

namespace Validation

/-- The blocks of an algorithm are looked through for the first key identifier. Each block is a
sequence of elements, and no block after the one with the key is looked at. -/
inductive FirstKey : List Tlv → Option Digest → Prop
  | none : FirstKey [] none
  | later {block blocks fields key} : Tlv.Tiled block.value fields →
      (∀ f ∈ fields, f.kind ≠ keyIdKind) → FirstKey blocks key → FirstKey (block :: blocks) key
  | found {block blocks front field back} {key : Digest} :
      Tlv.Tiled block.value (front ++ field :: back) → (∀ f ∈ front, f.kind ≠ keyIdKind) →
      field.kind = keyIdKind → field.value = key.1 → FirstKey (block :: blocks) (some key)

/-- An element after the message is a validation payload, or an algorithm with a key that can be
found or with none. -/
def Allows (t : Tlv) : Prop :=
  t.kind = payloadKind ∨
    t.kind = algorithmKind ∧ ∃ blocks key, Tlv.Tiled t.value blocks ∧ FirstKey blocks key

def keyOf (t : Tlv) : Option Digest :=
  (Tlv.decodeAll t.value).toOption.bind fun blocks => (findKeyId blocks).toOption.join

def set (v : Validation) (t : Tlv) : Validation where
  signed := if t.kind = algorithmKind then true else v.signed
  keyId := if t.kind = algorithmKind then keyOf t else v.keyId

theorem findKeyId_eq_ok_iff {blocks : List Tlv} {key : Option Digest} :
    findKeyId blocks = .ok key ↔ FirstKey blocks key := by
  induction blocks generalizing key with
  | nil =>
    constructor
    · rintro ⟨⟩
      exact .none
    · rintro ⟨⟩
      rfl
  | cons block blocks ih =>
    rw [findKeyId]
    refine ofRegion_eq_ok_iff.trans ?_
    constructor
    · rintro ⟨fields, htiled, h⟩
      split at h
      · rename_i field hfind
        obtain ⟨d, hd, rfl⟩ := map_eq_ok_iff.1 h
        obtain ⟨hkind, front, back, rfl, hfront⟩ := List.find?_eq_some_iff_append.1 hfind
        refine .found htiled ?_ (by simpa using hkind) (MessageFields.readDigest_eq_ok_iff.1 hd)
        intro f hf
        simpa using hfront f hf
      · rename_i hnone
        refine .later htiled ?_ (ih.1 h)
        intro f hf
        simpa using List.find?_eq_none.1 hnone f hf
    · intro h
      cases h with
      | @later _ _ fields _ htiled hother hrest =>
        have hnone : fields.find? (·.kind = keyIdKind) = none := by
          rw [List.find?_eq_none]
          intro f hf
          simpa using hother f hf
        refine ⟨fields, htiled, ?_⟩
        rw [hnone]
        exact ih.2 hrest
      | @found _ _ front field back key htiled hfront hkind hvalue =>
        have hfind : (front ++ field :: back).find? (·.kind = keyIdKind) = some field := by
          rw [List.find?_eq_some_iff_append]
          refine ⟨by simpa using hkind, front, back, rfl, ?_⟩
          intro f hf
          simpa using hfront f hf
        refine ⟨front ++ field :: back, htiled, ?_⟩
        rw [hfind]
        exact map_eq_ok_iff.2 ⟨key, MessageFields.readDigest_eq_ok_iff.2 hvalue, rfl⟩

theorem FirstKey.unique {blocks : List Tlv} {key key' : Option Digest} (h : FirstKey blocks key)
    (h' : FirstKey blocks key') : key = key' :=
  Except.ok.inj ((findKeyId_eq_ok_iff.2 h).symm.trans (findKeyId_eq_ok_iff.2 h'))

theorem keyOf_eq {blocks : List Tlv} {key : Option Digest} (htiled : Tlv.Tiled t.value blocks)
    (hkey : FirstKey blocks key) : keyOf t = key := by
  rw [keyOf, Tlv.decodeAll_eq_ok_iff.2 htiled]
  change (findKeyId blocks).toOption.join = key
  rw [findKeyId_eq_ok_iff.2 hkey]
  rfl

theorem apply_eq_ok_iff (v : Validation) (t : Tlv) (v' : Validation) :
    apply v t = .ok v' ↔ Allows t ∧ v' = v.set t := by
  unfold apply Allows set
  by_cases halgorithm : t.kind = algorithmKind
  · rw [if_pos halgorithm, if_pos halgorithm, if_pos halgorithm]
    refine ofRegion_eq_ok_iff.trans ?_
    simp only [map_eq_ok_iff, findKeyId_eq_ok_iff]
    constructor
    · rintro ⟨blocks, htiled, key, hfirst, rfl⟩
      rw [keyOf_eq htiled hfirst]
      exact ⟨.inr ⟨halgorithm, blocks, key, htiled, hfirst⟩, rfl⟩
    · rintro ⟨hpayload | ⟨-, blocks, key, htiled, hfirst⟩, rfl⟩
      · rw [halgorithm] at hpayload
        cases hpayload
      · exact ⟨blocks, htiled, key, hfirst, by rw [keyOf_eq htiled hfirst]⟩
  by_cases hpayload : t.kind = payloadKind
  · rw [if_neg halgorithm, if_pos hpayload, if_neg halgorithm, if_neg halgorithm, Except.ok.injEq]
    exact ⟨fun h => ⟨.inl hpayload, h.symm⟩, fun h => h.2.symm⟩
  · simp [halgorithm, hpayload]

end Validation

end NamedData
