import NamedData.Control.Message
import NamedData.Text.Order
import NamedData.Text.Quantity

/-!
# Comparable reports

Two daemons with the same history may list their rows in different orders and
report at different times. A comparable report lists its rows in a fixed order
and leaves out whatever depends on the clock.
-/

namespace NamedData

mutual

/-- A value with the members of all its objects in the order of their names. -/
def Json.sorted : Json → Json
  | .array items => .array (sortedItems items)
  | .object members => .object (Text.sortOn (·.1) (sortedMembers members))
  | scalar => scalar

def Json.sortedItems : List Json → List Json
  | [] => []
  | item :: items => item.sorted :: sortedItems items

def Json.sortedMembers : List (String × Json) → List (String × Json)
  | [] => []
  | (name, value) :: members => (name, value.sorted) :: sortedMembers members

end

/-- The text by which a row is put in order: some columns, then the whole row. -/
def Json.orderKey (columns : List String) (row : Json) : String :=
  (columns.map fun c => c.push (Char.ofNat 0)).foldr (· ++ ·) row.sorted.compact

/-- Pending requests in the order of name, chunk and kind, each written as `row` tells. -/
def PendingTable.Row.listing (row : PendingTable.Row → List (String × Json))
    (rows : List PendingTable.Row) : Json :=
  let chunk (r : PendingTable.Row) : String :=
    (r.chunk.map fun c => Text.padded 10 c.toNat).getD ""
  let key (r : PendingTable.Row) : String :=
    (Json.object (row r)).orderKey [r.name, chunk r, r.kind.label]
  .array ((Text.sortOn key rows).map fun r => .object (row r))

def RouteTable.Row.listing (rows : List RouteTable.Row) : Json :=
  .array ((Text.sortOn (fun r => r.toJson.orderKey [r.name]) rows).map RouteTable.Row.toJson)

def DaemonStatus.lasting (s : DaemonStatus) : List (String × Json) :=
  let meters := s.meters.values.map fun (name, value) => (name, Json.ofUInt64 value)
  [("forwarder", s.forwarder.toJson), ("metrics", .object meters),
   ("tx", s.transmission.toJson), ("faces", .array (s.faces.map FaceRegistry.Row.toJson)),
   ("routes", RouteTable.Row.listing s.routes)]

/-- A report, if it is one, without its times. -/
def Json.lasting (j : Json) : Json :=
  match Json.record? DaemonStatus.fields j with
  | some status => .object status.lasting
  | none =>
    match Json.list? PendingTable.Row.ofJson? j with
    | some rows => PendingTable.Row.listing PendingTable.Row.lasting rows
    | none => j

def ControlResponse.lasting : ControlResponse → Json
  | .status report => .object (("result", .string "status") :: report.lasting)
  | .pending entries =>
    .object
      [("result", .string "pit"),
       ("entries", PendingTable.Row.listing PendingTable.Row.lasting entries)]
  | response => response.toJson

end NamedData
