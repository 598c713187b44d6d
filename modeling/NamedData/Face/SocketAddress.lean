import NamedData.Text.Hexadecimal
import NamedData.Text.Natural
import NamedData.Text.Pieces

/-!
# Socket addresses

A peer is known by the number of its host and by a port. A host number has 32
bits, written as four octets, or eight groups of 16 bits with the number of the
interface it belongs to. The strict form of an address stands for itself; the
loose form also takes hosts with fewer or with hexadecimal and octal parts.
-/

namespace NamedData

inductive HostNumber
  | octets (bits : UInt32)
  /-- Eight groups, and the interface they are local to; zero is none. -/
  | groups (words : { words : List UInt16 // words.length = 8 }) (scope : UInt32)
deriving DecidableEq, Repr

/-- Where a peer is reached. -/
structure SocketAddress where
  host : HostNumber
  port : UInt16
deriving DecidableEq, Repr

namespace HostNumber

def octetsText (bits : UInt32) : String :=
  ".".intercalate ((Octets.ofNat 4 bits.toNat).map fun b => s!"{b}")

def groupsText (words : List UInt16) : String :=
  ":".intercalate (words.map fun w => String.ofList (Nat.toDigits 16 w.toNat))

/-- The length of the run of zeros at the front. -/
def zerosAtFront (words : List UInt16) : Nat := (words.takeWhile (· = 0)).length

/-- The start and the length of the first of the longest runs of zeros, after
`index` groups that have been looked at. -/
def longestZeros : (index : Nat) → List UInt16 → Nat × Nat
  | index, [] => (index, 0)
  | index, w :: words =>
    let here := zerosAtFront (w :: words)
    let later := longestZeros (index + 1) words
    if later.2 ≤ here then (index, here) else later

/-- Eight groups: the longest run of two zeros or more is left out, and a
number of 32 bits inside the groups is written as octets. -/
def wordsText (words : List UInt16) : String :=
  match words with
  | [0, 0, 0, 0, 0, 0xffff, high, low] =>
    "::ffff:" ++ octetsText (UInt32.ofNat (high.toNat * 65536 + low.toNat))
  | _ =>
    let (start, length) := longestZeros 0 words
    if 1 < length then
      groupsText (words.take start) ++ "::" ++ groupsText (words.drop (start + length))
    else groupsText words

/-- Reads an octet of at most three digits, without needless zeros. -/
def octet? : List Char → Option Nat
  | ['0'] => some 0
  | '0' :: _ => none
  | cs => if cs.length ≤ 3 then (Text.digits? cs).filter (· < 256) else none

def strictOctets? (cs : List Char) : Option UInt32 :=
  match (Text.pieces '.' cs).mapM octet? with
  | some [a, b, c, d] => some (UInt32.ofNat (((a * 256 + b) * 256 + c) * 256 + d))
  | _ => none

/-- Reads digits of a base, at least one. -/
def ofBase? (base : Nat) (cs : List Char) : Option Nat :=
  if cs.isEmpty then none
  else
    (cs.mapM fun c => (Text.hexValue? c).filter (· < base)).map fun digits =>
      digits.foldl (fun n d => n * base + d) 0

/-- Reads a group of one to four hexadecimal digits. -/
def group? (cs : List Char) : Option UInt16 :=
  if cs.length ≤ 4 then (ofBase? 16 cs).map UInt16.ofNat else none

/-- Reads groups; four octets at the end count as two groups. -/
def groups? : List (List Char) → Option (List UInt16)
  | [] => some []
  | [last] =>
    match strictOctets? last with
    | some bits =>
      some [UInt16.ofNat (bits.toNat / 65536), UInt16.ofNat (bits.toNat % 65536)]
    | none => (group? last).map fun w => [w]
  | piece :: rest =>
    match group? piece, groups? rest with
    | some w, some words => some (w :: words)
    | _, _ => none

def someGroups? (cs : List Char) : Option (List UInt16) :=
  if cs.isEmpty then some [] else groups? (Text.pieces ':' cs)

/-- Splits at the first pair of colons. -/
def splitAtGap? : List Char → Option (List Char × List Char)
  | ':' :: ':' :: rest => some ([], rest)
  | c :: rest => (splitAtGap? rest).map fun (before, after) => (c :: before, after)
  | [] => none

/-- The groups around a gap, which stands for at least one group of zero. -/
def aroundGap? (before after : List Char) : Option (List UInt16) :=
  match someGroups? before, someGroups? after with
  | some front, some back =>
    if '.' ∉ before ∧ front.length + back.length ≤ 7 then
      some (front ++ List.replicate (8 - front.length - back.length) 0 ++ back)
    else none
  | _, _ => none

/-- Reads eight groups, of which a run of zeros may be left out. -/
def words? (cs : List Char) : Option { words : List UInt16 // words.length = 8 } :=
  let words :=
    match splitAtGap? cs with
    | some (before, after) => aroundGap? before after
    | none => groups? (Text.pieces ':' cs)
  words.bind fun words => if h : words.length = 8 then some ⟨words, h⟩ else none

/-- Reads the number of an interface. -/
def scope? (cs : List Char) : Option UInt32 :=
  (Text.digits? cs).bind fun n => if n < UInt32.size then some (UInt32.ofNat n) else none

/-- Reads eight groups with the number of an interface behind a per cent sign, or without. -/
def scopedWords? (cs : List Char) : Option HostNumber :=
  match Text.splitAt? '%' cs with
  | none => (words? cs).map fun words => .groups words 0
  | some (words, scope) =>
    match words? words, scope? scope with
    | some words, some scope => some (.groups words scope)
    | _, _ => none

/-- Reads a part of a number: hexadecimal after `0x`, octal after `0`, or else decimal. -/
def part? : List Char → Option Nat
  | '0' :: 'x' :: cs | '0' :: 'X' :: cs => ofBase? 16 cs
  | '0' :: cs => ofBase? 8 ('0' :: cs)
  | cs => ofBase? 10 cs

/-- The number of one to four parts: the last part fills the places that are left. -/
def ofParts? : (place : Nat) → List Nat → Option Nat
  | _, [] => none
  | place, [last] => if last < 256 ^ place ∧ 0 < place then some last else none
  | place, part :: rest =>
    if part < 256 ∧ 0 < place then (ofParts? (place - 1) rest).map (part * 256 ^ (place - 1) + ·)
    else none

def looseOctets? (cs : List Char) : Option UInt32 :=
  ((Text.pieces '.' cs).mapM part?).bind fun parts => (ofParts? 4 parts).map UInt32.ofNat

def ofLoose? (cs : List Char) : Option HostNumber :=
  match looseOctets? cs with
  | some bits => some (.octets bits)
  | none => scopedWords? cs

end HostNumber

namespace SocketAddress

def toString (a : SocketAddress) : String :=
  match a.host with
  | .octets bits => s!"{HostNumber.octetsText bits}:{a.port}"
  | .groups words scope =>
    let text := HostNumber.wordsText words.1
    if scope = 0 then s!"[{text}]:{a.port}" else s!"[{text}%{scope}]:{a.port}"

instance : ToString SocketAddress := ⟨toString⟩

def port? (cs : List Char) : Option UInt16 :=
  (Text.digits? cs).bind fun n => if n < UInt16.size then some (UInt16.ofNat n) else none

/-- Reads the strict form: a host, with eight groups in brackets, and a port. -/
def parse? (cs : List Char) : Option SocketAddress :=
  match Text.splitAtLast? ':' cs with
  | none => none
  | some (host, port) =>
    let host : Option HostNumber :=
      match host with
      | '[' :: inner =>
        if inner.getLast? = some ']' then HostNumber.scopedWords? inner.dropLast else none
      | _ => (HostNumber.strictOctets? host).map .octets
    match host, port? port with
    | some host, some port => some ⟨host, port⟩
    | _, _ => none

end SocketAddress
end NamedData
