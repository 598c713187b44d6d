import NamedData.Pending.Entry

/-!
# The cache of objects

A bounded first-in, first-out store. The list of objects is the order of
eviction, oldest first, so the store and its queue cannot disagree. An object
leaves when its cache time has passed, or when it is the oldest and a new one
needs its place; an object put again keeps its place.
-/

namespace NamedData

structure CachedObject where
  object : Message
  expires : Instant
deriving DecidableEq

namespace CachedObject

def fresh (c : CachedObject) (now : Instant) : Bool := decide (now < c.expires)

/-- Whether an object is stored under a name and chunk. -/
def isAt (c : CachedObject) (name : Name) (chunk : Option UInt32) : Bool :=
  c.object.name = name && c.object.chunk = chunk

end CachedObject

structure Cache where
  /-- The objects in the order of their eviction. -/
  objects : List CachedObject := []
  capacity : Nat
  /-- The cache time of objects that carry none. -/
  defaultCacheTime : Nat

namespace Cache

def empty (capacity defaultCacheTime : Nat) : Cache := { capacity, defaultCacheTime }

def size (c : Cache) : Nat := c.objects.length

/-- What is stored under a name and chunk, fresh or stale. -/
def find? (c : Cache) (name : Name) (chunk : Option UInt32) : Option CachedObject :=
  c.objects.find? (·.isAt name chunk)

def erase (c : Cache) (name : Name) (chunk : Option UInt32) : Cache :=
  { c with objects := c.objects.filter (!·.isAt name chunk) }

/-- The fresh object under a name and chunk. A stale one is removed. -/
def lookup (c : Cache) (name : Name) (chunk : Option UInt32) (now : Instant) :
    Cache × Option Message :=
  match c.find? name chunk with
  | none => (c, none)
  | some cached => if cached.fresh now then (c, some cached.object) else (c.erase name chunk, none)

/-- Whether an object says itself that it is stale. The wall clock counts
milliseconds since the epoch. -/
def outdated (object : Message) (wall : Nat) : Bool := object.expiry.any fun e => e.toNat ≤ wall

def put (c : Cache) (object : Message) (now : Instant) (wall : Nat) : Cache :=
  if c.capacity = 0 ∨ outdated object wall then c
  else
    let cacheTime := (object.cacheTime.map UInt64.toNat).getD c.defaultCacheTime
    let cached : CachedObject := { object, expires := now + cacheTime }
    match c.find? object.name object.chunk with
    | some _ =>
      { c with
        objects := c.objects.map fun o => if o.isAt object.name object.chunk then cached else o }
    | none =>
      let objects := c.objects ++ [cached]
      { c with objects := if c.capacity < objects.length then objects.tail else objects }

/-- Removes stale objects. The second component is their number. -/
def purge (c : Cache) (now : Instant) : Cache × Nat :=
  let objects := c.objects.filter (·.fresh now)
  ({ c with objects }, c.objects.length - objects.length)

end Cache
end NamedData
