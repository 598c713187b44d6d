import NamedData.Octets

/-!
# Type-length-value elements

Everything after the fixed header of a packet is a sequence of elements: two
octets of kind, two octets of length, then the value. A region is *tiled* when
its elements end exactly where it ends; reading succeeds on exactly the tiled
regions.
-/

namespace NamedData

/-- Why an element, or a number inside one, cannot be read. -/
inductive TlvError
  | truncatedHeader
  | truncatedValue (declared available : Nat)
  /-- A number has no octets or more than eight. -/
  | integerWidth (width : Nat)
deriving DecidableEq, Repr

def TlvError.describe : TlvError → String
  | .truncatedHeader => "Buffer too small for TLV header"
  | .truncatedValue declared available =>
    s!"Buffer underflow: TLV value requires {declared} bytes but only {available} available"
  | .integerWidth width => s!"Integer field of {width} bytes is out of range"

/-- The kind of an element; which kinds mean something depends on the region. -/
abbrev TlvKind := UInt16

structure Tlv where
  kind : TlvKind
  value : Octets
deriving DecidableEq, Repr

namespace Tlv

/-- Octets taken by the kind and the length of an element. -/
def headerSize : Nat := 4

def size (t : Tlv) : Nat := headerSize + t.value.length

/-- Writes an element. The length field holds the length modulo 65536. -/
def encode (t : Tlv) : Octets :=
  Octets.ofNat 2 t.kind.toNat ++ Octets.ofNat 2 t.value.length ++ t.value

@[simp] theorem length_encode (t : Tlv) : t.encode.length = t.size := by
  simp [encode, size, headerSize]
  omega

def encodeAll (ts : List Tlv) : Octets := ts.flatMap encode

/-- Reads the element at the front and returns it with what follows it. -/
def decode : Octets → Except TlvError (Tlv × Octets)
  | k₁ :: k₀ :: l₁ :: l₀ :: rest =>
    let declared := Octets.word16 l₁ l₀
    match Octets.cut? declared rest with
    | some (value, rest) => .ok (⟨UInt16.ofNat (Octets.word16 k₁ k₀), value⟩, rest)
    | none => .error (.truncatedValue declared rest.length)
  | _ => .error .truncatedHeader

theorem length_lt_of_decode {bytes rest : Octets} {t : Tlv} (h : decode bytes = .ok (t, rest)) :
    rest.length < bytes.length := by
  unfold decode at h
  split at h
  · dsimp only at h
    split at h
    · rename_i hc
      obtain ⟨hr, -⟩ := Octets.cut?_eq_some hc
      simp only [Except.ok.injEq, Prod.mk.injEq] at h
      obtain ⟨-, rfl⟩ := h
      simp [hr]
      omega
    · simp at h
  · simp at h

def decodeAll (bytes : Octets) : Except TlvError (List Tlv) :=
  if bytes.isEmpty then .ok []
  else
    match h : decode bytes with
    | .error e => .error e
    | .ok (t, rest) =>
      have := length_lt_of_decode h
      match decodeAll rest with
      | .error e => .error e
      | .ok ts => .ok (t :: ts)
termination_by bytes.length

/-- Whether the declared lengths of a region land exactly on its end. -/
def tiles (bytes : Octets) : Bool :=
  match bytes with
  | [] => true
  | _ :: _ :: l₁ :: l₀ :: rest =>
    let declared := Octets.word16 l₁ l₀
    decide (declared ≤ rest.length) && tiles (rest.drop declared)
  | _ => false
termination_by bytes.length
decreasing_by simp; omega

/-- Reads a number of one to eight octets. -/
def decodeUInt (value : Octets) : Except TlvError UInt64 :=
  if value.isEmpty || 8 < value.length then .error (.integerWidth value.length)
  else .ok (UInt64.ofNat (Octets.toNat value))

/-- An element whose value is a number in the fewest octets. -/
def ofUInt64 (kind : TlvKind) (n : UInt64) : Tlv := ⟨kind, Octets.ofUInt64 n⟩

end Tlv
end NamedData
