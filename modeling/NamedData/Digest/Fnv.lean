import NamedData.Octets

/-!
# The FNV-1a hash

A cheap 64-bit hash of an octet string. It names request bodies that carry no
nonce and indexes the administrative names; nothing here relies on it being
collision-free.
-/

namespace NamedData.Digest

/-- One step of the hash: mix in an octet, then multiply by the FNV prime. -/
def fnvStep (hash : UInt64) (b : UInt8) : UInt64 :=
  (hash ^^^ b.toUInt64) * 0x100000001b3

/-- The 64-bit FNV-1a hash of an octet string. -/
def fnv1a (bytes : Octets) : UInt64 :=
  bytes.foldl fnvStep 0xcbf29ce484222325

end NamedData.Digest
