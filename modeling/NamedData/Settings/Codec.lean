import NamedData.Decimal.Double
import NamedData.Json.Decode
import NamedData.Settings
import NamedData.Text.Natural

/-!
# Settings as JSON

Settings are a record with a record for each section, in which every field may
be left out. How a single value is read differs: a caller who writes JSON must
use the right type, while files and environment variables are read leniently,
because an environment variable is always a string.
-/

namespace NamedData

structure ScalarReader where
  bool? : Json → Option Bool
  string? : Json → Option String
  natural? : Json → Option Nat
  uint32? : Json → Option UInt32
  uint16? : Json → Option UInt16
  constant? : {α : Type} → (α → String) → List α → Json → Option α
  record? : {α : Type} → StateT Json.Fields Option α → Json → Option α

namespace ScalarReader

/-- Each value has the type of its field, and numbers are in range. -/
def strict : ScalarReader where
  bool? := Json.bool?
  string? := Json.string?
  natural? := Json.nat?
  uint32? := Json.uint32?
  uint16? := Json.uint16?
  constant? := Json.constant?
  record? := Json.record?

/-- Words that stand for one and for zero, in any case. -/
def truth? (s : String) : Option Bool :=
  let lower := s.map Char.toLower
  if lower = "true" ∨ lower = "on" ∨ lower = "yes" then some true
  else if lower = "false" ∨ lower = "off" ∨ lower = "no" then some false
  else none

def lenientBool? : Json → Option Bool
  | .bool b => some b
  | .int n => some (n ≠ 0)
  | .double x => some !x.isZero
  | .string "1" => some true
  | .string "0" => some false
  | .string s => truth? s
  | _ => none

/-- The text of a value; whole numbers that need 64 bits without a sign count as doubles. -/
def lenientString? : Json → Option String
  | .string s => some s
  | .bool b => some (if b then "true" else "false")
  | .int n =>
    some (if n < Decimal.twoTo 63 then toString n else (Decimal.Double.ofInt n).text)
  | .double x => some x.text
  | _ => none

def largest : Nat := UInt64.size - 1

/-- The number that a value stands for; whole numbers that need 64 bits without a sign
count as doubles. -/
def lenientNatural? : Json → Option Nat
  | .int n =>
    if n < 0 then none
    else if n < Decimal.twoTo 63 then some n.toNat
    else some ((Decimal.Double.ofInt n).toNat largest)
  | .double x => some (x.toNat largest)
  | .bool b => some b.toNat
  | .string s =>
    match truth? s with
    | some b => some b.toNat
    | none => (Text.natural? s.toList).filter (· ≤ largest)
  | _ => none

/-- The name of a constant, or an object whose only member has that name. -/
def lenientConstant? {α : Type} (name : α → String) (all : List α) : Json → Option α
  | .string s => all.find? fun a => name a = s
  | .object [(s, _)] => all.find? fun a => name a = s
  | _ => none

/-- Single values are converted to the type of their field, and of numbers too
large for their field only the low bits count. -/
def lenient : ScalarReader where
  bool? := lenientBool?
  string? := lenientString?
  natural? := lenientNatural?
  uint32? j := (lenientNatural? j).map UInt32.ofNat
  uint16? j := (lenientNatural? j).map UInt16.ofNat
  constant? := lenientConstant?
  record? reader j := (Json.Fields.ofJson? j).bind fun fields => (reader fields).map (·.1)

end ScalarReader

open Json.Fields (withDefault)

def PendingSettings.ofJson? (r : ScalarReader) : Json → Option PendingSettings :=
  r.record? do
    let d : PendingSettings := {}
    let capacity ← withDefault "capacity" d.capacity r.natural?
    let sweepPeriod ← withDefault "sweep_period_ms" d.sweepPeriod r.natural?
    let cleanInterval ← withDefault "clean_interval_ms" d.cleanInterval r.natural?
    let defaultLifetime ← withDefault "default_lifetime_ms" d.defaultLifetime r.natural?
    let symbolicWindow ← withDefault "symbolic_window" d.symbolicWindow r.natural?
    let suppression ← withDefault "suppression" d.suppression
      (r.constant? SuppressionMode.setting [.suppress, .verbatim])
    return {
      capacity, sweepPeriod, cleanInterval, defaultLifetime, symbolicWindow, suppression }

def PendingSettings.toJson (s : PendingSettings) : Json :=
  .object
    [("capacity", .ofNat s.capacity), ("sweep_period_ms", .ofNat s.sweepPeriod),
     ("clean_interval_ms", .ofNat s.cleanInterval),
     ("default_lifetime_ms", .ofNat s.defaultLifetime),
     ("symbolic_window", .ofNat s.symbolicWindow), ("suppression", .string s.suppression.setting)]

def RouteSettings.ofJson? (r : ScalarReader) : Json → Option RouteSettings :=
  r.record? do
    let d : RouteSettings := {}
    return { capacity := ← withDefault "capacity" d.capacity r.natural? }

def RouteSettings.toJson (s : RouteSettings) : Json := .object [("capacity", .ofNat s.capacity)]

def CacheSettings.ofJson? (r : ScalarReader) : Json → Option CacheSettings :=
  r.record? do
    let d : CacheSettings := {}
    let enabled ← withDefault "enabled" d.enabled r.bool?
    let capacity ← withDefault "capacity" d.capacity r.natural?
    let defaultCacheTime ← withDefault "default_cache_time_ms" d.defaultCacheTime r.natural?
    return { enabled, capacity, defaultCacheTime }

def CacheSettings.toJson (s : CacheSettings) : Json :=
  .object
    [("enabled", .bool s.enabled), ("capacity", .ofNat s.capacity),
     ("default_cache_time_ms", .ofNat s.defaultCacheTime)]

def TransmissionSettings.ofJson? (r : ScalarReader) : Json → Option TransmissionSettings :=
  r.record? do
    let d : TransmissionSettings := {}
    let mode ← withDefault "mode" d.mode
      (r.constant? TransmissionMode.setting [.simple, .sharded])
    let workers ← withDefault "workers" d.workers r.natural?
    let laneCapacity ← withDefault "lane_capacity" d.laneCapacity r.natural?
    let workerCapacity ← withDefault "worker_capacity" d.workerCapacity r.natural?
    let pushRetries ← withDefault "push_retries" d.pushRetries
      fun j => (r.uint32? j).map UInt32.toNat
    let retryBackoff ← withDefault "retry_backoff_us" d.retryBackoff r.natural?
    let pacing ← withDefault "pacing_us" d.pacing r.natural?
    return { mode, workers, laneCapacity, workerCapacity, pushRetries, retryBackoff, pacing }

def TransmissionSettings.toJson (s : TransmissionSettings) : Json :=
  .object
    [("mode", .string s.mode.setting), ("workers", .ofNat s.workers),
     ("lane_capacity", .ofNat s.laneCapacity), ("worker_capacity", .ofNat s.workerCapacity),
     ("push_retries", .ofNat s.pushRetries), ("retry_backoff_us", .ofNat s.retryBackoff),
     ("pacing_us", .ofNat s.pacing)]

namespace Settings

def ofJson? (r : ScalarReader) : Json → Option Settings :=
  r.record? do
    let d : Settings := {}
    let listenAddress ← withDefault "listen_addr" d.listenAddress r.string?
    let port ← withDefault "port" d.port r.uint16?
    let localSocket ← withDefault "local_socket" d.localSocket r.string?
    let controlSocket ← withDefault "control_socket" d.controlSocket r.string?
    let routesFile ← withDefault "routes_file" d.routesFile (Json.nullable? r.string?)
    let strategy ← withDefault "strategy" d.strategy r.string?
    let interestReturn ← withDefault "interest_return" d.interestReturn r.bool?
    let hopLimitReturnCode ← withDefault "hop_limit_return_code" d.hopLimitReturnCode
      (r.constant? ReturnCode.setting ReturnCode.all)
    let eventCapacity ← withDefault "event_buffer_size" d.eventCapacity r.natural?
    let maxUdpFaces ← withDefault "max_udp_faces" d.maxUdpFaces r.natural?
    let pending ← withDefault "pit" d.pending (PendingSettings.ofJson? r)
    let routes ← withDefault "fib" d.routes (RouteSettings.ofJson? r)
    let cache ← withDefault "cs" d.cache (CacheSettings.ofJson? r)
    let transmission ← withDefault "tx" d.transmission (TransmissionSettings.ofJson? r)
    return {
      listenAddress, port, localSocket, controlSocket, routesFile, strategy, interestReturn,
      hopLimitReturnCode, eventCapacity, maxUdpFaces, pending, routes, cache, transmission }

def toJson (s : Settings) : Json :=
  .object
    [("listen_addr", .string s.listenAddress), ("port", .ofNat s.port.toNat),
     ("local_socket", .string s.localSocket), ("control_socket", .string s.controlSocket),
     ("routes_file", Json.ofOption .string s.routesFile), ("strategy", .string s.strategy),
     ("interest_return", .bool s.interestReturn),
     ("hop_limit_return_code", .string s.hopLimitReturnCode.setting),
     ("event_buffer_size", .ofNat s.eventCapacity), ("max_udp_faces", .ofNat s.maxUdpFaces),
     ("pit", s.pending.toJson), ("fib", s.routes.toJson), ("cs", s.cache.toJson),
     ("tx", s.transmission.toJson)]

end Settings
end NamedData
