import NamedData.Tlv

/-!
# Kinds of packets and codes of returns

The second octet of a packet gives its kind, and the kind gives the element
that its message must be. An Interest Return carries one of nine reasons in its
sixth octet.
-/

namespace NamedData

inductive PacketKind
  | interest
  | contentObject
  | interestReturn
  | traceRequest
  | traceReply
deriving DecidableEq, Repr

namespace PacketKind

def maxCode : UInt8 := 4

def code : PacketKind → UInt8
  | .interest => 0
  | .contentObject => 1
  | .interestReturn => 2
  | .traceRequest => 3
  | .traceReply => 4

def ofCode? (code : UInt8) : Option PacketKind :=
  match code.toNat with
  | 0 => some .interest
  | 1 => some .contentObject
  | 2 => some .interestReturn
  | 3 => some .traceRequest
  | 4 => some .traceReply
  | _ => none

@[simp] theorem ofCode?_code (k : PacketKind) : ofCode? k.code = some k := by
  cases k <;> rfl

/-- The element that carries the message of a packet of this kind. -/
def messageElement : PacketKind → TlvKind
  | .interest | .interestReturn => 1
  | .contentObject => 2
  | .traceRequest | .traceReply => 8

/-- Whether the packet asks for something and so has a meaningful hop limit. -/
def isRequest : PacketKind → Bool
  | .interest | .traceRequest => true
  | _ => false

def label : PacketKind → String
  | .interest => "Interest"
  | .contentObject => "ContentObject"
  | .interestReturn => "InterestReturn"
  | .traceRequest => "TraceRequest"
  | .traceReply => "TraceReply"

end PacketKind

inductive ReturnCode
  | noRoute
  | hopLimitExceeded
  | noResources
  | pathError
  | prohibited
  | congested
  | mtuTooLarge
  | unsupportedHashRestriction
  | malformedInterest
deriving DecidableEq, Repr

namespace ReturnCode

/-- All codes, in the order of their numbers, which start at one. -/
def all : List ReturnCode :=
  [.noRoute, .hopLimitExceeded, .noResources, .pathError, .prohibited, .congested,
    .mtuTooLarge, .unsupportedHashRestriction, .malformedInterest]

def code : ReturnCode → UInt8
  | .noRoute => 1
  | .hopLimitExceeded => 2
  | .noResources => 3
  | .pathError => 4
  | .prohibited => 5
  | .congested => 6
  | .mtuTooLarge => 7
  | .unsupportedHashRestriction => 8
  | .malformedInterest => 9

def ofCode? (code : UInt8) : Option ReturnCode := all.find? (·.code = code)

@[simp] theorem ofCode?_code (c : ReturnCode) : ofCode? c.code = some c := by
  cases c <;> rfl

def label : ReturnCode → String
  | .noRoute => "NoRoute"
  | .hopLimitExceeded => "HopLimitExceeded"
  | .noResources => "NoResources"
  | .pathError => "PathError"
  | .prohibited => "Prohibited"
  | .congested => "Congested"
  | .mtuTooLarge => "MtuTooLarge"
  | .unsupportedHashRestriction => "UnsupportedHashRestriction"
  | .malformedInterest => "MalformedInterest"

def setting : ReturnCode → String
  | .noRoute => "no_route"
  | .hopLimitExceeded => "hop_limit_exceeded"
  | .noResources => "no_resources"
  | .pathError => "path_error"
  | .prohibited => "prohibited"
  | .congested => "congested"
  | .mtuTooLarge => "mtu_too_large"
  | .unsupportedHashRestriction => "unsupported_hash_restriction"
  | .malformedInterest => "malformed_interest"

end ReturnCode
end NamedData
