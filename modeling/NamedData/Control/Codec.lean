import NamedData.Control.Status
import NamedData.Json.Decode

/-!
# Reports as JSON

Every row of a report is a record. Counts have 64 bits, faces and costs 16, and
a chunk number or the address of a peer may be null.
-/

namespace NamedData

open Json.Fields (required optional withDefault)

def Json.uint64? (j : Json) : Option UInt64 := (Json.nat? j).map UInt64.ofNat

def Json.ofUInt64 (n : UInt64) : Json := .ofNat n.toNat

def FaceId.ofJson? (j : Json) : Option FaceId := (Json.uint16? j).map FaceId.mk

def FaceId.toJson (f : FaceId) : Json := .ofNat f.number.toNat

def FaceId.listJson (faces : List FaceId) : Json := .array (faces.map FaceId.toJson)

/-- What does not depend on the time. -/
def PendingTable.Row.lasting (r : PendingTable.Row) : List (String × Json) :=
  [("name", .string r.name), ("chunk", Json.ofOption (fun c => .ofNat c.toNat) r.chunk),
   ("pit_type", .string r.kind.label), ("down_faces", FaceId.listJson r.waiting),
   ("up_faces", FaceId.listJson r.onward)]

def PendingTable.Row.toJson (r : PendingTable.Row) : Json :=
  .object (r.lasting ++ [("remaining_ms", .ofNat r.remaining)])

def PendingTable.Row.ofJson? : Json → Option PendingTable.Row :=
  Json.record? do
    let name ← required "name" Json.string?
    let chunk ← optional "chunk" Json.uint32?
    let kind ← required "pit_type"
      (Json.innerConstant? PendingKind.label [.regular, .symbolic, .selective])
    let waiting ← required "down_faces" (Json.list? FaceId.ofJson?)
    let onward ← required "up_faces" (Json.list? FaceId.ofJson?)
    let remaining ← required "remaining_ms" Json.nat?
    return { name, chunk, kind, waiting, onward, remaining }

def RouteTable.HopRow.toJson (r : RouteTable.HopRow) : Json :=
  .object
    [("face", r.face.toJson), ("flags", .string r.flags), ("cost", .ofNat r.cost.toNat),
     ("keyed", .bool r.keyed), ("tx_interest", .ofNat r.sentInterests),
     ("tx_object", .ofNat r.sentObjects)]

def RouteTable.HopRow.ofJson? : Json → Option RouteTable.HopRow :=
  Json.record? do
    let face ← required "face" FaceId.ofJson?
    let flags ← required "flags" Json.string?
    let cost ← required "cost" Json.uint16?
    let keyed ← required "keyed" Json.bool?
    let sentInterests ← required "tx_interest" Json.nat?
    let sentObjects ← required "tx_object" Json.nat?
    return { face, flags, cost, keyed, sentInterests, sentObjects }

def RouteTable.Row.toJson (r : RouteTable.Row) : Json :=
  .object
    [("prefix", .string r.name), ("faces", .array (r.hops.map RouteTable.HopRow.toJson))]

def RouteTable.Row.ofJson? : Json → Option RouteTable.Row :=
  Json.record? do
    let name ← required "prefix" Json.string?
    let hops ← required "faces" (Json.list? RouteTable.HopRow.ofJson?)
    return { name, hops }

def FaceRegistry.Row.toJson (r : FaceRegistry.Row) : Json :=
  .object
    [("face", r.face.toJson), ("face_type", .string r.transport.label),
     ("peer", Json.ofOption .string r.peer)]

def FaceRegistry.Row.ofJson? : Json → Option FaceRegistry.Row :=
  Json.record? do
    let face ← required "face" FaceId.ofJson?
    let transport ← required "face_type" (Json.innerConstant? Transport.label [.udp, .tcp, .unix])
    let peer ← optional "peer" Json.string?
    return { face, transport, peer }

def Forwarder.Status.toJson (s : Forwarder.Status) : Json :=
  .object
    [("strategy", .string s.strategy), ("suppression", .string s.suppression.setting),
     ("interest_return", .bool s.interestReturn), ("pit_entries", .ofNat s.pendingEntries),
     ("pit_capacity", .ofNat s.pendingCapacity), ("fib_entries", .ofNat s.routeEntries),
     ("cs_entries", .ofNat s.cacheEntries)]

def Forwarder.Status.ofJson? : Json → Option Forwarder.Status :=
  Json.record? do
    let strategy ← required "strategy" Json.string?
    let suppression ← required "suppression"
      (Json.innerConstant? SuppressionMode.setting [.suppress, .verbatim])
    let interestReturn ← required "interest_return" Json.bool?
    let pendingEntries ← required "pit_entries" Json.nat?
    let pendingCapacity ← required "pit_capacity" Json.nat?
    let routeEntries ← required "fib_entries" Json.nat?
    let cacheEntries ← required "cs_entries" Json.nat?
    return {
      strategy, suppression, interestReturn, pendingEntries, pendingCapacity, routeEntries,
      cacheEntries }

def TransmissionStats.toJson (s : TransmissionStats) : Json :=
  .object
    [("queued", .ofUInt64 s.queued.value), ("sent", .ofUInt64 s.sent.value),
     ("dropped", .ofUInt64 s.dropped.value), ("send_errors", .ofUInt64 s.sendErrors.value),
     ("undeliverable", .ofUInt64 s.undeliverable.value)]

def TransmissionStats.ofJson? : Json → Option TransmissionStats :=
  Json.record? do
    let queued ← required "queued" Json.uint64?
    let sent ← required "sent" Json.uint64?
    let dropped ← required "dropped" Json.uint64?
    let sendErrors ← required "send_errors" Json.uint64?
    let undeliverable ← withDefault "undeliverable" 0 Json.uint64?
    return {
      queued := ⟨queued⟩, sent := ⟨sent⟩, dropped := ⟨dropped⟩, sendErrors := ⟨sendErrors⟩,
      undeliverable := ⟨undeliverable⟩ }

namespace MeterReadings

def names : List String := (Metrics.report {}).map (·.1)

/-- The mean processing time stands before the last meter. -/
def toJson (r : MeterReadings) : Json :=
  let member : String × UInt64 → String × Json := fun (name, value) => (name, .ofUInt64 value)
  let mean : Json := .double r.meanProcessing
  .object
    (r.values.dropLast.map member ++ [("avg_processing_time_us", mean)] ++
      r.values.getLast?.toList.map member)

def readings (names : List String) : StateT Json.Fields Option (List (String × UInt64)) :=
  names.mapM fun name => do return (name, ← required name Json.uint64?)

def ofJson? : Json → Option MeterReadings :=
  Json.record? do
    let first ← readings names.dropLast
    let meanProcessing ← required "avg_processing_time_us" Json.double?
    let last ← readings names.getLast?.toList
    return { values := first ++ last, meanProcessing }

end MeterReadings

namespace DaemonStatus

def members (s : DaemonStatus) : List (String × Json) :=
  [("uptime_secs", .ofNat s.uptime), ("forwarder", s.forwarder.toJson),
   ("metrics", s.meters.toJson), ("tx", s.transmission.toJson),
   ("faces", .array (s.faces.map FaceRegistry.Row.toJson)),
   ("routes", .array (s.routes.map RouteTable.Row.toJson))]

def toJson (s : DaemonStatus) : Json := .object s.members

def fields : StateT Json.Fields Option DaemonStatus := do
  let uptime ← required "uptime_secs" Json.nat?
  let forwarder ← required "forwarder" Forwarder.Status.ofJson?
  let meters ← required "metrics" MeterReadings.ofJson?
  let transmission ← required "tx" TransmissionStats.ofJson?
  let faces ← required "faces" (Json.list? FaceRegistry.Row.ofJson?)
  let routes ← required "routes" (Json.list? RouteTable.Row.ofJson?)
  return { uptime, forwarder, meters, transmission, faces, routes }

end DaemonStatus
end NamedData
