import NamedData.Octets

/-!
# SHA-256

The padded message is read in blocks of sixteen 32-bit words. Each block drives
sixty-four rounds; the message schedule is kept as a window of the last sixteen
words, which slides by one word in every round.
-/

namespace NamedData

/-- A digest of 32 octets: an object hash or the identifier of a key. -/
abbrev Digest := { bytes : Octets // bytes.length = 32 }

namespace Digest

def ofOctets? (bytes : Octets) : Option Digest :=
  if h : bytes.length = 32 then some ⟨bytes, h⟩ else none

theorem ofOctets?_val (d : Digest) : ofOctets? d.1 = some d := by
  simp [ofOctets?, d.2]

namespace Sha256

/-- The eight working words of the compression function. -/
structure Words where
  a : UInt32
  b : UInt32
  c : UInt32
  d : UInt32
  e : UInt32
  f : UInt32
  g : UInt32
  h : UInt32

/-- The words that a message starts from. -/
def initial : Words :=
  ⟨0x6a09e667, 0xbb67ae85, 0x3c6ef372, 0xa54ff53a, 0x510e527f, 0x9b05688c, 0x1f83d9ab, 0x5be0cd19⟩

def roundConstants : List UInt32 :=
  [0x428a2f98, 0x71374491, 0xb5c0fbcf, 0xe9b5dba5, 0x3956c25b, 0x59f111f1, 0x923f82a4, 0xab1c5ed5,
   0xd807aa98, 0x12835b01, 0x243185be, 0x550c7dc3, 0x72be5d74, 0x80deb1fe, 0x9bdc06a7, 0xc19bf174,
   0xe49b69c1, 0xefbe4786, 0x0fc19dc6, 0x240ca1cc, 0x2de92c6f, 0x4a7484aa, 0x5cb0a9dc, 0x76f988da,
   0x983e5152, 0xa831c66d, 0xb00327c8, 0xbf597fc7, 0xc6e00bf3, 0xd5a79147, 0x06ca6351, 0x14292967,
   0x27b70a85, 0x2e1b2138, 0x4d2c6dfc, 0x53380d13, 0x650a7354, 0x766a0abb, 0x81c2c92e, 0x92722c85,
   0xa2bfe8a1, 0xa81a664b, 0xc24b8b70, 0xc76c51a3, 0xd192e819, 0xd6990624, 0xf40e3585, 0x106aa070,
   0x19a4c116, 0x1e376c08, 0x2748774c, 0x34b0bcb5, 0x391c0cb3, 0x4ed8aa4a, 0x5b9cca4f, 0x682e6ff3,
   0x748f82ee, 0x78a5636f, 0x84c87814, 0x8cc70208, 0x90befffa, 0xa4506ceb, 0xbef9a3f7, 0xc67178f2]

/-- Rotation of a word to the right, by less than 32 places. -/
def rotate (w : UInt32) (n : UInt32) : UInt32 := (w >>> n) ||| (w <<< (32 - n))

/-- The message word that follows a window of sixteen. -/
def nextWord (window : Array UInt32) : UInt32 :=
  let w (i : Nat) := window.getD i 0
  let s₀ := rotate (w 1) 7 ^^^ rotate (w 1) 18 ^^^ (w 1 >>> 3)
  let s₁ := rotate (w 14) 17 ^^^ rotate (w 14) 19 ^^^ (w 14 >>> 10)
  w 0 + s₀ + w 9 + s₁

def round (s : Words) (k w : UInt32) : Words :=
  let s₁ := rotate s.e 6 ^^^ rotate s.e 11 ^^^ rotate s.e 25
  let choice := (s.e &&& s.f) ^^^ (~~~s.e &&& s.g)
  let t₁ := s.h + s₁ + choice + k + w
  let s₀ := rotate s.a 2 ^^^ rotate s.a 13 ^^^ rotate s.a 22
  let majority := (s.a &&& s.b) ^^^ (s.a &&& s.c) ^^^ (s.b &&& s.c)
  ⟨t₁ + (s₀ + majority), s.a, s.b, s.c, s.d + t₁, s.e, s.f, s.g⟩

/-- The rounds for a list of constants, the window sliding along. -/
def rounds : List UInt32 → Array UInt32 → Words → Words
  | [], _, s => s
  | k :: ks, window, s =>
    rounds ks ((window.push (nextWord window)).extract 1 17) (round s k (window.getD 0 0))

def Words.add (s t : Words) : Words :=
  ⟨s.a + t.a, s.b + t.b, s.c + t.c, s.d + t.d, s.e + t.e, s.f + t.f, s.g + t.g, s.h + t.h⟩

/-- The octets of a state, each word high octet first. -/
def Words.octets (s : Words) : Octets :=
  [s.a, s.b, s.c, s.d, s.e, s.f, s.g, s.h].flatMap fun w => Octets.ofNat 4 w.toNat

theorem Words.length_octets (s : Words) : s.octets.length = 32 := by
  simp [Words.octets]

/-- The 32-bit words of an octet string whose length is a multiple of four. -/
def words : Octets → List UInt32
  | b₃ :: b₂ :: b₁ :: b₀ :: rest =>
    ((b₃.toUInt32 <<< 24) ||| (b₂.toUInt32 <<< 16) ||| (b₁.toUInt32 <<< 8) ||| b₀.toUInt32) ::
      words rest
  | _ => []

/-- A message followed by a one bit, zeros up to the block size, and its length in bits. -/
def pad (message : Octets) : Octets :=
  let size := message.length
  message ++ 0x80 :: List.replicate ((119 - size % 64) % 64) 0 ++ Octets.ofNat 8 (8 * size)

/-- Compresses the blocks of a padded message one after another. -/
def absorb (state : Words) (message : Octets) : Words :=
  match message with
  | [] => state
  | b :: rest =>
    absorb (state.add (rounds roundConstants (words ((b :: rest).take 64)).toArray state))
      (rest.drop 63)
termination_by message.length
decreasing_by
  simp only [List.length_drop, List.length_cons]
  omega

end Sha256

def sha256 (message : Octets) : Digest :=
  let state := Sha256.absorb Sha256.initial (Sha256.pad message)
  ⟨state.octets, state.length_octets⟩

end Digest
end NamedData
