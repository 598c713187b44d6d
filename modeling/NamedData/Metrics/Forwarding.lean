import NamedData.Metrics.Meter

/-!
# The meters of a forwarder

One counter for everything that can become of a packet, and a gauge for the
size of each table.
-/

namespace NamedData

structure Metrics where
  interestsReceived : Counter := {}
  interestsForwarded : Counter := {}
  interestsAggregated : Counter := {}
  interestsSuppressed : Counter := {}
  hopLimitDrops : Counter := {}
  noRoute : Counter := {}
  objectsReceived : Counter := {}
  objectsForwarded : Counter := {}
  objectsUnsolicited : Counter := {}
  restrictionRejects : Counter := {}
  returnsReceived : Counter := {}
  returnsSent : Counter := {}
  cacheHits : Counter := {}
  cacheMisses : Counter := {}
  pendingFull : Counter := {}
  pendingExpirations : Counter := {}
  pendingSize : Gauge := {}
  routesSize : Gauge := {}
  validationFailures : Counter := {}
  malformed : Counter := {}
  framingDiscards : Counter := {}
  commands : Counter := {}
  /-- Packets that were parsed, accepted and dealt with. -/
  processed : Counter := {}
  bytesReceived : Counter := {}
deriving DecidableEq, Repr

namespace Metrics

/-- The meters by the names under which they are reported. -/
def report (m : Metrics) : List (String × UInt64) :=
  [("interests_received", m.interestsReceived.value),
   ("interests_forwarded", m.interestsForwarded.value),
   ("interests_aggregated", m.interestsAggregated.value),
   ("interests_suppressed", m.interestsSuppressed.value),
   ("hop_limit_drops", m.hopLimitDrops.value),
   ("no_route", m.noRoute.value),
   ("objects_received", m.objectsReceived.value),
   ("objects_forwarded", m.objectsForwarded.value),
   ("objects_unsolicited", m.objectsUnsolicited.value),
   ("restriction_rejects", m.restrictionRejects.value),
   ("returns_received", m.returnsReceived.value),
   ("returns_sent", m.returnsSent.value),
   ("cs_hits", m.cacheHits.value),
   ("cs_misses", m.cacheMisses.value),
   ("pit_full", m.pendingFull.value),
   ("pit_expirations", m.pendingExpirations.value),
   ("pit_size", m.pendingSize.value),
   ("fib_size", m.routesSize.value),
   ("validation_failures", m.validationFailures.value),
   ("malformed", m.malformed.value),
   ("framing_discards", m.framingDiscards.value),
   ("commands", m.commands.value),
   ("bytes_received", m.bytesReceived.value)]

end Metrics
end NamedData
