import NamedData.Pending.Entry

/-!
# The table of pending requests

The table remembers who waits for which name. Entries stand in the order in
which they were created, no two under one key, and there are never more than
the capacity. A reply is matched against the exact key of its name and chunk
and, when it is an object with a chunk, against the window of its name as well.
-/

namespace NamedData

structure PendingTable where
  entries : List PendingEntry := []
  settings : PendingSettings
  /-- When the next sweep may run; the first may run at once. -/
  nextSweep : Option Instant := none

namespace PendingTable

def empty (settings : PendingSettings) : PendingTable := { settings }

def size (t : PendingTable) : Nat := t.entries.length

/-- How many delivered chunks a window remembers: at least one. -/
def window (t : PendingTable) : Nat := max t.settings.symbolicWindow 1

def find? (t : PendingTable) (key : PendingKey) : Option PendingEntry :=
  t.entries.find? (·.key = key)

def update (t : PendingTable) (key : PendingKey) (f : PendingEntry → PendingEntry) : PendingTable :=
  { t with entries := t.entries.map fun e => if e.key = key then f e else e }

def erase (t : PendingTable) (key : PendingKey) : PendingTable :=
  { t with entries := t.entries.filter (·.key ≠ key) }

/-- Finds the entry under a key, or creates it; fails when the table is full.
A dead entry is replaced and never handed out. The second component tells
whether the entry is new. -/
def obtain? (t : PendingTable) (key : PendingKey) (kind : PendingKind) (now : Instant) :
    Option (PendingTable × PendingEntry × Bool) :=
  let fresh := PendingEntry.create key kind now t.settings.cleanInterval
  match t.find? key with
  | some e =>
    if e.dead now then some (t.update key fun _ => fresh, fresh, true) else some (t, e, false)
  | none =>
    if t.settings.capacity ≤ t.size then none
    else some ({ t with entries := t.entries ++ [fresh] }, fresh, true)

/-- A request that is about to wait. -/
structure Entrant where
  face : FaceId
  request : PendingRequest
  deferred : Option Octets := none
  now : Instant

/-- How a request has come to wait under a key. -/
structure Joined where
  table : PendingTable
  entry : PendingEntry
  isNew : Bool
  outcome : JoinOutcome

/-- Lets a request wait under a key; fails when the table is full. The restrictions
of an entry are those of the request that created it. -/
def join? (t : PendingTable) (s : Suppression) (r : Entrant) (key : PendingKey × PendingKind) :
    Option Joined :=
  (t.obtain? key.1 key.2 r.now).map fun (table, entry, isNew) =>
    let entry := if isNew then { entry with restrictions := r.request.restrictions } else entry
    let (entry, outcome) := entry.join r.face r.request.lifetime r.request.fingerprint r.now s
    let entry :=
      match r.deferred with
      | some payload => entry.deferReturn r.face payload
      | none => entry
    { table := table.update key.1 fun _ => entry, entry, isNew, outcome }

/-- Removes the record of a face from the entry under a key, and the entry as
well when nobody is left waiting. -/
def release (t : PendingTable) (face : FaceId) (key : PendingKey) : PendingTable :=
  match t.find? key with
  | none => t
  | some e =>
    if (e.release face).waiting.isEmpty then t.erase key
    else t.update key fun e => e.release face

def releaseAll (t : PendingTable) (face : FaceId) (keys : List PendingKey) : PendingTable :=
  keys.foldl (fun t key => t.release face key) t

/-- Forgets a face everywhere. Entries stay, even when nobody is left waiting. -/
def forget (t : PendingTable) (face : FaceId) : PendingTable :=
  { t with entries := t.entries.map (·.forget face) }

/-- Who is to be sent a reply. -/
structure Delivery where
  faces : List FaceId := []
  matched : Nat := 0
  rejected : Nat := 0
deriving DecidableEq, Repr

/-- The keys that a reply is matched against. -/
def candidates (reply : Message) : List PendingKey :=
  .exact reply.name reply.chunk ::
    if reply.kind = .contentObject ∧ reply.chunk.isSome then [.window reply.name] else []

/-- Whether a reply matches an entry found under one of its keys: without a
chunk it answers regular requests only, and so does an Interest Return. -/
def matchesKind (reply : Message) (e : PendingEntry) : Bool :=
  e.kind = .regular ∨ (reply.chunk.isSome ∧ reply.kind ≠ .interestReturn)

def pushNew (faces more : List FaceId) : List FaceId :=
  more.foldl (fun out f => if f ∈ out then out else out ++ [f]) faces

/-- Hands a reply to the entry under one key. A window remembers the chunk and
keeps its requesters; any other entry is consumed. -/
def deliverTo (reply : Message) (now : Instant) (state : PendingTable × Delivery)
    (key : PendingKey) : PendingTable × Delivery :=
  let (t, d) := state
  match t.find? key with
  | none => (t, d)
  | some e =>
    if !matchesKind reply e then (t, d)
    else
      let d := { d with matched := d.matched + 1 }
      if reply.kind = .contentObject ∧ !e.restrictions.accept reply then
        (t, { d with rejected := d.rejected + 1 })
      else
        match e.kind with
        | .symbolic =>
          let chunk := reply.chunk.getD 0
          if chunk ∈ e.delivered then (t, d)
          else
            (t.update key (·.remember chunk t.window),
              { d with faces := pushNew d.faces (e.liveFaces now) })
        | _ => (t.erase key, { d with faces := pushNew d.faces (e.liveFaces now) })

/-- Matches a reply and collects the faces that are to be sent it. -/
def deliver (t : PendingTable) (reply : Message) (now : Instant) : PendingTable × Delivery :=
  (candidates reply).foldl (deliverTo reply now) (t, {})

structure SweepReport where
  ran : Bool := false
  returns : List (FaceId × Octets) := []
  expired : Nat := 0
  removed : Nat := 0
deriving DecidableEq

/-- The records that a sweep drops from an entry: all of them at the deadline,
and the expired ones when the entry is due to be looked through. -/
def dropped (e : PendingEntry) (now : Instant) : List WaitRecord :=
  if e.deadline ≤ now then e.waiting
  else if e.cleanDue ≤ now then e.waiting.filter (!·.live now)
  else []

def swept (e : PendingEntry) (now cleanInterval : Nat) : PendingEntry :=
  if e.deadline ≤ now then { e with waiting := [] }
  else if e.cleanDue ≤ now then
    { e with waiting := e.waiting.filter (·.live now), cleanDue := now + cleanInterval }
  else e

def returnsOf (records : List WaitRecord) : List (FaceId × Octets) :=
  records.filterMap fun r => r.pendingReturn.map fun payload => (r.face, payload)

/-- Drops what has expired, at most once in a sweep period. -/
def sweep (t : PendingTable) (now : Instant) : PendingTable × SweepReport :=
  if t.nextSweep.any (now < ·) then (t, {})
  else
    let records := t.entries.flatMap (dropped · now)
    let kept := (t.entries.map (swept · now t.settings.cleanInterval)).filter (!·.dead now)
    ({ t with entries := kept, nextSweep := some (now + t.settings.sweepPeriod) },
      { ran := true
        returns := returnsOf records
        expired := records.length
        removed := t.entries.length - kept.length })

/-- An entry as operators see it. -/
structure Row where
  name : String
  chunk : Option UInt32
  kind : PendingKind
  waiting : List FaceId
  onward : List FaceId
  /-- The time left until the deadline, modulo 2^64. -/
  remaining : Nat
deriving DecidableEq

def Row.ofEntry (now : Instant) (e : PendingEntry) : Row :=
  { name := e.key.name.toString
    chunk := e.key.chunk
    kind := e.kind
    waiting := e.waiting.map (·.face)
    onward := e.onward
    remaining := (e.deadline - now) % UInt64.size }

/-- The order of rows: by printed name, then by chunk, none first. -/
def Row.le (r s : Row) : Bool :=
  if r.name = s.name then
    match r.chunk, s.chunk with
    | none, _ => true
    | some _, none => false
    | some c, some d => c ≤ d
  else decide (r.name < s.name)

def rows (t : PendingTable) (now : Instant) : List Row :=
  (t.entries.map (Row.ofEntry now)).mergeSort Row.le

end PendingTable
end NamedData
