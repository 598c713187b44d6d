import NamedData.Text.Natural
import NamedData.Text.Pieces

/-!
# Addresses of neighbours

A neighbour is written `host` or `host:port`. A host with colons of its own
stands in brackets when a port follows. The port may be left out.
-/

namespace NamedData

inductive AddressError
  | empty
  | unclosed (text : String)
  | port (text : String)
  | noHost (text : String)
deriving DecidableEq, Repr

def AddressError.describe : AddressError → String
  | .empty => "empty next hop"
  | .unclosed text => s!"unterminated IPv6 literal '{text}'"
  | .port text => s!"invalid port in '{text}'"
  | .noHost text => s!"missing host in '{text}'"

structure Address where
  host : List Char
  bracketed : Bool
  port : UInt16
deriving DecidableEq, Repr

namespace Address

def defaultPort : UInt16 := 9896

/-- The written form, always with a port. -/
def toString (a : Address) : String :=
  let host := String.ofList a.host
  if a.bracketed then s!"[{host}]:{a.port}" else s!"{host}:{a.port}"

instance : ToString Address := ⟨toString⟩

/-- What follows a closing bracket: nothing, or a port, with a colon or without. -/
def bracketPort? : List Char → Option UInt16
  | [] => some defaultPort
  | ':' :: port => Text.uint16? port
  | port => Text.uint16? port

def parse (cs : List Char) : Except AddressError Address :=
  let text := String.ofList cs
  match cs with
  | [] => .error .empty
  | '[' :: rest =>
    match Text.splitAt? ']' rest with
    | none => .error (.unclosed text)
    | some (host, tail) =>
      match bracketPort? tail with
      | some port => .ok ⟨host, true, port⟩
      | none => .error (.port text)
  | cs =>
    if 1 < cs.count ':' then .ok ⟨cs, true, defaultPort⟩
    else
      match Text.splitAt? ':' cs with
      | none => .ok ⟨cs, false, defaultPort⟩
      | some ([], _) => .error (.noHost text)
      | some (host, port) =>
        match Text.uint16? port with
        | some port => .ok ⟨host, false, port⟩
        | none => .error (.port text)

end Address
end NamedData
