import NamedData.CommandLine.ControlTool
import NamedData.Decimal.Rounding
import NamedData.Text.Columns
import NamedData.Text.Order
import NamedData.Text.Quantity
import NamedData.Text.Utf8

/-!
# Reports of the control tool

Answers of a daemon are printed as tables, or as indented JSON. Every table has
a heading, which is underlined.
-/

namespace NamedData

open Text (alignLeft alignRight)

def MeterReadings.value (r : MeterReadings) (name : String) : Nat :=
  ((r.values.find? (·.1 = name)).map (·.2.toNat)).getD 0

/-- The mean processing time with two places. -/
def MeterReadings.meanText (r : MeterReadings) : String :=
  match r.meanProcessing with
  | .finite negative units =>
    let hundredths := Decimal.roundQuotient (units * 100) Decimal.Double.one
    Decimal.Double.signed negative (Text.hundredths hundredths)
  | x => x.text

namespace ControlTool

/-- A heading, with an empty line above it. -/
def heading (title : String) : List String := ["", title, "".pushn '=' title.utf8ByteSize]

def forwarderLines (uptime : Nat) (f : Forwarder.Status) : List String :=
  let returns := if f.interestReturn then "enabled" else "disabled"
  heading "cefnd" ++
  [s!"Uptime:            {Text.duration (uptime * 1000)}",
   s!"Strategy:          {f.strategy}",
   s!"Suppression:       {f.suppression.setting.capitalize}",
   s!"Interest Return:   {returns}",
   s!"PIT:               {f.pendingEntries} / {f.pendingCapacity}",
   s!"FIB:               {f.routeEntries}",
   s!"Content Store:     {f.cacheEntries}"]

/-- The names and meters of a line, separated by commas. -/
def meterList (m : MeterReadings) (meters : List (String × String)) : String :=
  ", ".intercalate (meters.map fun (meter, label) => s!"{m.value meter} {label}")

def trafficLines (m : MeterReadings) (t : TransmissionStats) : List String :=
  let interests := meterList m
    [("interests_received", "received"), ("interests_forwarded", "forwarded"),
     ("interests_aggregated", "aggregated"), ("interests_suppressed", "suppressed")]
  let objects := meterList m
    [("objects_received", "received"), ("objects_forwarded", "forwarded"),
     ("objects_unsolicited", "unsolicited")]
  let returns := meterList m [("returns_received", "received"), ("returns_sent", "sent")]
  let drops := meterList m
    [("hop_limit_drops", "hop limit"), ("no_route", "no route"), ("pit_full", "pit full"),
     ("malformed", "malformed")]
  let cache := meterList m [("cs_hits", "hits"), ("cs_misses", "misses")]
  let received := m.value "bytes_received"
  let queue := s!"{t.queued.value} queued, {t.sent.value} sent, {t.dropped.value} dropped"
  let lost := s!"{t.sendErrors.value} errors, {t.undeliverable.value} to vanished faces"
  heading "Traffic" ++
  [s!"Interests:         {interests}",
   s!"Objects:           {objects}",
   s!"Returns:           {returns}",
   s!"Drops:             {drops}",
   s!"CS:                {cache}",
   s!"Received:          {Text.size received}",
   s!"Avg processing:    {m.meanText} us",
   s!"Tx queue:          {queue}, {lost}"]

def faceLine (f : FaceRegistry.Row) : String :=
  let number := alignRight 5 s!"{f.face.number}"
  let peer := f.peer.getD "-"
  s!"{number}  {alignLeft 6 f.transport.label} {peer}"

def hopLine (h : RouteTable.HopRow) : String :=
  let face := alignRight 5 s!"{h.face.number}"
  let cost := alignRight 3 s!"{h.cost}"
  let sent := s!"{h.sentInterests} interests / {h.sentObjects} objects"
  s!"    face {face} cost {cost} [{h.flags}] tx {sent}"

def routeLines (r : RouteTable.Row) : List String :=
  let faces := FaceId.listText (r.hops.map (·.face))
  s!"{alignLeft 32 r.name} faces={faces}" :: r.hops.map hopLine

def statusLines (s : DaemonStatus) : List String :=
  forwarderLines s.uptime s.forwarder ++ trafficLines s.meters s.transmission ++
    heading "Faces" ++ s.faces.map faceLine ++ heading "Routes" ++ s.routes.flatMap routeLines

def pendingLine (r : PendingTable.Row) : String :=
  let chunk := (r.chunk.map fun c => s!"#{c}").getD ""
  let waiting := FaceId.listText r.waiting
  let onward := FaceId.listText r.onward
  let kind := r.kind.label.capitalize
  s!"{r.name}{alignLeft 12 chunk} {kind} down={waiting} up={onward} {r.remaining}ms"

def pendingLines (rows : List PendingTable.Row) : List String :=
  heading s!"PIT ({rows.length} entries)" ++ rows.map pendingLine

/-- A table without the lines that depend on the clock. -/
def untimed (table : List String) : List String :=
  let timed := ["Uptime:", "Avg processing:", "RTT:"]
  table.filter fun line => timed.all fun label => !line.startsWith label

/-- A table of pending requests in a fixed order and without the time that is left to them. -/
def untimedPending (table : List String) : List String :=
  let untimedRow (row : String) : String := " ".intercalate (row.splitOn " ").dropLast
  table.take (heading "").length ++
    Text.sortOn id ((table.drop (heading "").length).map untimedRow)

def answerLines (json : Bool) : ControlRequest → ControlResponse → Except Failure (List String)
  | _, .refused message => .error (.refused message)
  | .status, .status s => .ok (if json then [s.toJson.pretty] else statusLines s)
  | .statusPending, .pending rows =>
    let report := Json.array (rows.map PendingTable.Row.toJson)
    .ok (if json then [report.pretty] else pendingLines rows)
  | .stop, _ => .ok ["cefnd is stopping"]
  | .routeAdd namePrefix _ hops cost, _ =>
    let hops := ", ".intercalate hops
    .ok [s!"Added route: {namePrefix} -> {hops} (cost {cost})"]
  | .routeDel namePrefix _ hops, _ =>
    let hops := ", ".intercalate hops
    .ok [s!"Removed route: {namePrefix} -> {hops}"]
  | _, _ => .error .unexpected

def replyLines (m : Message) (elapsed : Nat) : List String :=
  let body :=
    match m.kind with
    | .interestReturn =>
      let code := (m.returnCode.map fun c => s!"Some({c.label})").getD "None"
      heading "Interest Return" ++ [s!"Name:      {m.name}", s!"Code:      {code}"]
    | _ =>
      let chunk := m.chunk.toList.map fun c => s!"Chunk:     {c}"
      let payload := m.payload.getD []
      let text := if payload.isEmpty then [] else [String.ofList (Text.ofUtf8 payload)]
      heading "Content Object" ++ [s!"Name:      {m.name}"] ++ chunk ++
        [s!"Size:      {Text.size payload.length}"] ++ text
  body ++ [s!"RTT:       {Text.duration elapsed}"]

end ControlTool
end NamedData
