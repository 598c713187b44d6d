import NamedData.Face.SocketAddress

/-!
# The network as a host sees it

An address that consists of numbers is known without asking anybody. Whether a
name can be looked up and a peer can be reached is for the host to say.
-/

namespace NamedData

/-- What a host answers about other hosts; a refusal carries its reason. -/
structure Network where
  lookup : List Char → Except String HostNumber
  dial : SocketAddress → Except String Unit
  transmit : SocketAddress → Octets → Except String Unit

namespace Network

/-- Whether groups hold the number of a host of four octets. -/
def holdsOctets (words : List UInt16) : Bool := words.take 6 = [0, 0, 0, 0, 0, 0xffff]

def isMulticast (words : List UInt16) : Bool := words.head?.any (· &&& 0xff00 = 0xff00)

def isOnLink (words : List UInt16) : Bool := words.head?.any (· &&& 0xffc0 = 0xfe80)

/-- Why no peer can be reached without a network. -/
def unreachable (peer : SocketAddress) : String :=
  match peer.host with
  | .octets _ => "Network is unreachable (os error 101)"
  | .groups words link =>
    if holdsOctets words || isMulticast words then "Network is unreachable (os error 101)"
    else if isOnLink words && link = 0 then "Invalid argument (os error 22)"
    else "Cannot assign requested address (os error 99)"

def maxDatagram : Nat := 65507

/-- Whether a datagram leaves for no host in particular, which needs no network. -/
def isUnaddressed (peer : SocketAddress) (packet : Octets) : Bool :=
  peer.host = .octets 0 && peer.port ≠ 0 && decide (packet.length ≤ maxDatagram)

/-- Whether a text may be the name of a host. -/
def isHostName (host : List Char) : Bool :=
  !host.isEmpty && host.head? != some '-' &&
    host.all fun c => c.isAlphanum || c = '_' || c = '.' || c = '-'

def ownName : List Char := ['l', 'o', 'c', 'a', 'l', 'h', 'o', 's', 't']

def isLinkLocal (words : List UInt16) : Bool :=
  isOnLink words || words.head?.any fun w => w &&& 0xff0f = 0xff01 || w &&& 0xff0f = 0xff02

/-- The host that a text names together with the first interface, `lo`. -/
def onOwnLink? (host : List Char) : Option HostNumber :=
  match Text.splitAt? '%' host with
  | some (words, ['l', 'o']) =>
    ((HostNumber.words? words).filter (isLinkLocal ·.1)).map (.groups · 1)
  | _ => none

/-- What a host answers that is not connected to any other. -/
def isolated : Network where
  lookup host :=
    match onOwnLink? host with
    | some host => .ok host
    | none =>
      if host = ownName then .ok (.octets 0x7f000001)
      else if isHostName host then
        .error "failed to lookup address information: Temporary failure in name resolution"
      else .error "failed to lookup address information: Name or service not known"
  dial peer := .error (unreachable peer)
  transmit peer packet :=
    if isUnaddressed peer packet then .ok () else .error (unreachable peer)

/-- The address that a text of host and port stands for. -/
def resolve (n : Network) (text : List Char) : Except String SocketAddress :=
  match SocketAddress.parse? text with
  | some address => .ok address
  | none =>
    match Text.splitAtLast? ':' text with
    | none => .error "invalid socket address"
    | some (host, port) =>
      match Text.uint16? port with
      | none => .error "invalid port value"
      | some port =>
        if host.contains (Char.ofNat 0) then
          .error "file name contained an unexpected NUL byte"
        else
          match HostNumber.ofLoose? host with
          | some host => .ok ⟨host, port⟩
          | none => (n.lookup host).map (⟨·, port⟩)

/-- An address in its strict form is known on every host. -/
theorem resolve_of_parse? {text : List Char} {address : SocketAddress}
    (h : SocketAddress.parse? text = some address) (n : Network) :
    n.resolve text = .ok address := by
  simp [resolve, h]

end Network
end NamedData
