import NamedData.Decimal.Double
import NamedData.Forwarding.Forwarder
import NamedData.Transmission.Pipeline

/-!
# The state of a daemon as operators see it

Everything that a status report tells: choices and table sizes, meters, the
statistics of the transmission, faces and routes.
-/

namespace NamedData

structure MeterReadings where
  values : List (String × UInt64)
  /-- The mean time for which a packet was dealt with, in microseconds. -/
  meanProcessing : Decimal.Double
deriving DecidableEq, Repr

structure DaemonStatus where
  /-- Seconds since the start. -/
  uptime : Nat
  forwarder : Forwarder.Status
  meters : MeterReadings
  transmission : TransmissionStats
  faces : List FaceRegistry.Row
  routes : List RouteTable.Row
deriving DecidableEq

end NamedData
