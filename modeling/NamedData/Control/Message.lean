import NamedData.Control.Codec
import NamedData.Json.Reader

/-!
# Control messages

Operators talk to a daemon in lines of JSON. Each request and each response is
a record with a tag that tells which one it is; the tag may stand anywhere.
-/

namespace NamedData

open Json.Fields (required withDefault)

/-- What an operator asks for. -/
inductive ControlRequest
  | stop
  | status
  | statusPending
  | routeAdd (namePrefix protocol : String) (nextHops : List String) (cost : UInt16)
  | routeDel (namePrefix protocol : String) (nextHops : List String)
deriving DecidableEq, Repr

namespace ControlRequest

def toJson : ControlRequest → Json
  | .stop => .object [("command", .string "stop")]
  | .status => .object [("command", .string "status")]
  | .statusPending => .object [("command", .string "status_pit")]
  | .routeAdd namePrefix protocol nextHops cost =>
    .object
      [("command", .string "route_add"), ("prefix", .string namePrefix),
       ("protocol", .string protocol), ("next_hops", .array (nextHops.map .string)),
       ("cost", .ofNat cost.toNat)]
  | .routeDel namePrefix protocol nextHops =>
    .object
      [("command", .string "route_del"), ("prefix", .string namePrefix),
       ("protocol", .string protocol), ("next_hops", .array (nextHops.map .string))]

def fields (tag : String) : StateT Json.Fields Option ControlRequest :=
  match tag with
  | "stop" => return .stop
  | "status" => return .status
  | "status_pit" => return .statusPending
  | "route_add" => do
    let namePrefix ← required "prefix" Json.string?
    let protocol ← required "protocol" Json.string?
    let nextHops ← required "next_hops" (Json.list? Json.string?)
    let cost ← withDefault "cost" 0 Json.uint16?
    return .routeAdd namePrefix protocol nextHops cost
  | "route_del" => do
    let namePrefix ← required "prefix" Json.string?
    let protocol ← required "protocol" Json.string?
    let nextHops ← required "next_hops" (Json.list? Json.string?)
    return .routeDel namePrefix protocol nextHops
  | _ => fun _ => none

def ofJson? (j : Json) : Option ControlRequest :=
  (Json.tagged? "command" j).bind fun (tag, rest) => Json.Fields.run (fields tag) rest

def parse? (line : String) : Option ControlRequest := (Json.parse? line).bind ofJson?

end ControlRequest

inductive ControlResponse
  | ok
  | status (report : DaemonStatus)
  | pending (entries : List PendingTable.Row)
  | refused (message : String)
deriving DecidableEq

namespace ControlResponse

def toJson : ControlResponse → Json
  | .ok => .object [("result", .string "ok")]
  | .status report => .object (("result", .string "status") :: report.members)
  | .pending entries =>
    .object
      [("result", .string "pit"), ("entries", .array (entries.map PendingTable.Row.toJson))]
  | .refused message => .object [("result", .string "error"), ("message", .string message)]

def fields (tag : String) : StateT Json.Fields Option ControlResponse :=
  match tag with
  | "ok" => return .ok
  | "status" => return .status (← DaemonStatus.fields)
  | "pit" => return .pending (← required "entries" (Json.list? PendingTable.Row.ofJson?))
  | "error" => return .refused (← required "message" Json.string?)
  | _ => fun _ => none

def ofJson? (j : Json) : Option ControlResponse :=
  (Json.tagged? "result" j).bind fun (tag, rest) => Json.Fields.run (fields tag) rest

def parse? (line : String) : Option ControlResponse := (Json.parse? line).bind ofJson?

end ControlResponse
end NamedData
