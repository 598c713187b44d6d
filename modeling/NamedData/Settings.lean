import NamedData.Packet.Kind

/-!
# Settings

Everything an operator can choose, grouped by the part that it steers. Every
setting has a default, so an empty configuration describes a working daemon.
Durations are in milliseconds unless a name says otherwise.
-/

namespace NamedData

/-- What happens when a face repeats a request that is still waiting. -/
inductive SuppressionMode
  /-- The repeated request is noted and goes no further. -/
  | suppress
  /-- Every request is noted and forwarded. -/
  | verbatim
deriving DecidableEq, Repr

def SuppressionMode.setting : SuppressionMode → String
  | .suppress => "suppress"
  | .verbatim => "verbatim"

inductive TransmissionMode
  /-- One dispatcher sends every frame. -/
  | simple
  /-- Each worker sends the frames of its share of the faces. -/
  | sharded
deriving DecidableEq, Repr

def TransmissionMode.setting : TransmissionMode → String
  | .simple => "simple"
  | .sharded => "sharded"

inductive Strategy
  /-- One route, over the transport of the request if possible. -/
  | bestRoute
  | flooding
  | lowestCost
deriving DecidableEq, Repr

namespace Strategy

def all : List Strategy := [.bestRoute, .flooding, .lowestCost]

def setting : Strategy → String
  | .bestRoute => "default"
  | .flooding => "flooding"
  | .lowestCost => "cost"

def ofSetting? (name : String) : Option Strategy := all.find? (·.setting = name)

@[simp] theorem ofSetting?_setting (s : Strategy) : ofSetting? s.setting = some s := by
  cases s <;> decide

end Strategy

structure PendingSettings where
  capacity : Nat := 2048
  sweepPeriod : Nat := 100
  /-- The time after which an entry is looked through for expired requesters. -/
  cleanInterval : Nat := 1000
  defaultLifetime : Nat := 4000
  /-- How many delivered chunks a sliding window remembers. -/
  symbolicWindow : Nat := 64
  suppression : SuppressionMode := .suppress
deriving DecidableEq, Repr

structure RouteSettings where
  capacity : Nat := 1024
deriving DecidableEq, Repr

structure CacheSettings where
  enabled : Bool := true
  capacity : Nat := 4096
  defaultCacheTime : Nat := 10000
deriving DecidableEq, Repr

structure TransmissionSettings where
  mode : TransmissionMode := .sharded
  workers : Nat := 2
  laneCapacity : Nat := 1024
  workerCapacity : Nat := 256
  pushRetries : Nat := 3
  /-- The pause between two tries, in microseconds. -/
  retryBackoff : Nat := 200
  /-- The least time between two frames to one face, in microseconds. -/
  pacing : Nat := 0
deriving DecidableEq, Repr

structure Settings where
  listenAddress : String := "0.0.0.0"
  port : UInt16 := 9896
  localSocket : String := "/tmp/cefnd.sock"
  controlSocket : String := "/tmp/cefnd.ctrl"
  routesFile : Option String := none
  strategy : String := "default"
  interestReturn : Bool := true
  hopLimitReturnCode : ReturnCode := .hopLimitExceeded
  eventCapacity : Nat := 1024
  /-- How many unknown senders may get a face of their own. -/
  maxUdpFaces : Nat := 4096
  pending : PendingSettings := {}
  routes : RouteSettings := {}
  cache : CacheSettings := {}
  transmission : TransmissionSettings := {}
deriving DecidableEq, Repr

namespace Settings

inductive Fault
  | unknownStrategy (name : String)
  | hopLimitReturnCode (code : ReturnCode)
  | noUdpFaces
  | noPendingEntries
  | noPrefixes
  | noQueueSpace
  | noWorkers
deriving DecidableEq, Repr

def Fault.describe : Fault → String
  | .unknownStrategy name =>
    let known := ", ".intercalate (Strategy.all.map Strategy.setting)
    s!"Unknown strategy '{name}' (expected one of: {known})"
  | .hopLimitReturnCode code =>
    s!"hop_limit_return_code must be hop_limit_exceeded or no_route, got {code.label}"
  | .noUdpFaces => "max_udp_faces must be at least 1"
  | .noPendingEntries => "pit.capacity must be at least 1"
  | .noPrefixes => "fib.capacity must be at least 1"
  | .noQueueSpace => "tx queue capacities must be at least 1"
  | .noWorkers => "tx.workers must be at least 1 in sharded mode"

/-- The first reason, if any, for which a daemon cannot run with these settings. -/
def fault? (s : Settings) : Option Fault :=
  if (Strategy.ofSetting? s.strategy).isNone then some (.unknownStrategy s.strategy)
  else if s.hopLimitReturnCode ≠ .hopLimitExceeded ∧ s.hopLimitReturnCode ≠ .noRoute then
    some (.hopLimitReturnCode s.hopLimitReturnCode)
  else if s.maxUdpFaces = 0 then some .noUdpFaces
  else if s.pending.capacity = 0 then some .noPendingEntries
  else if s.routes.capacity = 0 then some .noPrefixes
  else if s.transmission.laneCapacity = 0 ∨ s.transmission.workerCapacity = 0 then
    some .noQueueSpace
  else if s.transmission.mode = .sharded ∧ s.transmission.workers = 0 then some .noWorkers
  else none

theorem fault?_default : fault? {} = none := by decide

def endpoint (s : Settings) : String := s!"{s.listenAddress}:{s.port}"

end Settings
end NamedData
