import NamedData.Packet.Message
import NamedData.Settings

/-!
# Requests and the keys they wait under

A request waits under one key or several. An exact key is a name with a chunk
number or without; a window key is a name alone and stands for all its chunks.
-/

namespace NamedData

/-- The kind of request for which an entry was created. -/
inductive PendingKind
  | regular
  | symbolic
  | selective
deriving DecidableEq, Repr

def PendingKind.label : PendingKind → String
  | .regular => "regular"
  | .symbolic => "symbolic"
  | .selective => "selective"

/-- What a request waits for, and what replies are matched against. -/
inductive PendingKey
  /-- A reply must have this name and this chunk. -/
  | exact (name : Name) (chunk : Option UInt32)
  /-- A reply must have this name and some chunk. -/
  | window (name : Name)
deriving Repr

namespace PendingKey

/-- Chunks are compared first, because many keys differ in nothing else. -/
instance : DecidableEq PendingKey
  | .exact n c, .exact m d =>
    if hc : c = d then
      if hn : n = m then isTrue (by rw [hn, hc]) else isFalse fun h => hn (PendingKey.exact.inj h).1
    else isFalse fun h => hc (PendingKey.exact.inj h).2
  | .window n, .window m =>
    if hn : n = m then isTrue (by rw [hn]) else isFalse fun h => hn (PendingKey.window.inj h)
  | .exact _ _, .window _ => isFalse nofun
  | .window _, .exact _ _ => isFalse nofun

def name : PendingKey → Name
  | .exact name _ => name
  | .window name => name

def chunk : PendingKey → Option UInt32
  | .exact _ chunk => chunk
  | .window _ => none

def toString : PendingKey → String
  | .exact name none => name.toString
  | .exact name (some chunk) => s!"{name}/chunk={chunk}"
  | .window name => s!"{name} (symbolic)"

instance : ToString PendingKey := ⟨toString⟩

end PendingKey

/-- What a reply must satisfy besides its name. -/
structure Restrictions where
  keyId : Option Digest := none
  objectHash : Option Digest := none
deriving DecidableEq

namespace Restrictions

/-- Whether a reply has the key and the hash asked for. -/
def accept (r : Restrictions) (reply : Message) : Bool :=
  r.keyId.all (fun k => reply.keyId = some k) && r.objectHash.all fun h => reply.objectHash = h

end Restrictions

/-- The part of an Interest that matters to the table of pending requests. -/
structure PendingRequest where
  name : Name
  chunk : Option UInt32
  interestType : InterestType
  selective : Option ChunkRange
  lifetime : Nat
  fingerprint : UInt64
  restrictions : Restrictions

namespace PendingRequest

/-- The request made by a message; a message without a lifetime gets the default. -/
def ofMessage (m : Message) (defaultLifetime : Nat) : PendingRequest :=
  { name := m.name
    chunk := m.chunk
    interestType := m.interestType
    selective := m.selective
    lifetime := (m.lifetime.map UInt64.toNat).getD defaultLifetime
    fingerprint := m.fingerprint
    restrictions := ⟨m.keyIdRestriction, m.objectHashRestriction⟩ }

/-- The keys that a request waits under, one for each chunk of a selective request. -/
def keys (r : PendingRequest) : List (PendingKey × PendingKind) :=
  match r.interestType, r.selective with
  | .symbolic, _ => [(.window r.name, .symbolic)]
  | .selective, some range =>
    range.chunks.map fun chunk => (.exact r.name (some chunk), .selective)
  | _, _ => [(.exact r.name r.chunk, .regular)]

end PendingRequest
end NamedData
