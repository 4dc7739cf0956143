import CoNet.Lib.IpText

/-!
# Addresses (`net/ip_addr.hpp`)

The parsers give `inet_pton` the pointer of a `string_view`, so it reads on behind the view up to a NUL.
Local variables that the source does not initialise are arguments here: `StackV4` and `StackV6` are what
the stack contains at the parser's `addr` and at the `addr` of the `SocketAddr` constructor. An address
is its bytes in network order; the other fields are numbers as the struct holds them.
-/

set_option autoImplicit false

namespace CoNet.Net.Ip

open IpText

/-- A `std::string_view`, and the memory behind it. -/
structure View where
  chars : Text
  after : Text
  deriving DecidableEq, Repr

/-- The C string at `data()`. -/
def View.cString (text : View) : Text := (text.chars ++ text.after).takeWhile (· ≠ 0)

/-- `AF_INET` and `AF_INET6`. -/
inductive Family where
  | inet
  | inet6
  deriving DecidableEq, Repr

namespace Family

def value : Family → BitVec 16
  | inet => 2
  | inet6 => 10

abbrev Address : Family → Type
  | inet => Vector UInt8 4
  | inet6 => Vector UInt8 16

/-- The address that a text denotes, if it is well formed. -/
def denotes : (family : Family) → Text → Option family.Address
  | inet => dottedQuad
  | inet6 => colonHex

end Family

/-- `inet_pton`, of a family that it supports: its result, and what is in `dst` then. -/
def inetPton (family : Family) (src : Text) (dst : family.Address) : Int × family.Address :=
  match family.denotes src with
  | some addr => (1, addr)
  | none => (0, dst)

/-- The body of both parsers. -/
def parse (family : Family) (message : String) (text : View) (addr : family.Address) :
    Except String family.Address :=
  let (res, addr) := inetPton family text.cString addr
  if res = -1 then .error message else .ok addr

structure Ipv4Addr where
  ip : Vector UInt8 4
  deriving DecidableEq

structure Ipv6Addr where
  ip : Vector UInt8 16
  deriving DecidableEq

def Ipv4Addr.parse (v4 : View) (addr : Vector UInt8 4) : Except String Ipv4Addr :=
  (Ip.parse .inet "IP address(v4) parse failed." v4 addr).map Ipv4Addr.mk

def Ipv6Addr.parse (v6 : View) (addr : Vector UInt8 16) : Except String Ipv6Addr :=
  (Ip.parse .inet6 "IP address(v6) parse failed." v6 addr).map Ipv6Addr.mk

/-- On a machine whose numbers have their low byte first. -/
def htons (port : BitVec 16) : BitVec 16 := port.extractLsb' 0 8 ++ port.extractLsb' 8 8

/-- `sockaddr_in`. -/
structure SockaddrIn where
  family : BitVec 16
  port : BitVec 16
  addr : Vector UInt8 4
  zero : Vector UInt8 8
  deriving DecidableEq

/-- `sockaddr_in6`. -/
structure SockaddrIn6 where
  family : BitVec 16
  port : BitVec 16
  flowinfo : BitVec 32
  addr : Vector UInt8 16
  scopeId : BitVec 32
  deriving DecidableEq

/-- The union of `SocketAddr`, with `is_v4_` as its tag. -/
inductive Sockaddr where
  | v4 (addr : SockaddrIn)
  | v6 (addr : SockaddrIn6)
  deriving DecidableEq

structure SocketAddr where
  sockaddr : Sockaddr
  len : BitVec 32
  deriving DecidableEq

namespace SocketAddr

def isIpv4 (s : SocketAddr) : Bool :=
  match s.sockaddr with
  | .v4 _ => true
  | .v6 _ => false

def ofIpv4 (ipv4 : Ipv4Addr) (port : BitVec 16) (addr : SockaddrIn) : SocketAddr where
  sockaddr := .v4 { addr with family := Family.inet.value, addr := ipv4.ip, port := htons port }
  len := 16

def ofIpv6 (ipv6 : Ipv6Addr) (port : BitVec 16) (addr : SockaddrIn6) : SocketAddr where
  sockaddr := .v6 { addr with family := Family.inet6.value, addr := ipv6.ip, port := htons port }
  len := 28

end SocketAddr

/-- What the stack contains at the two local variables. -/
structure StackV4 where
  addr : Vector UInt8 4
  sockaddr : SockaddrIn
  deriving DecidableEq

structure StackV6 where
  addr : Vector UInt8 16
  sockaddr : SockaddrIn6
  deriving DecidableEq

def makeAddrV4 (ipV4 : View) (port : BitVec 16) (stack : StackV4) : Except String SocketAddr := do
  let ip ← Ipv4Addr.parse ipV4 stack.addr
  return .ofIpv4 ip port stack.sockaddr

def makeAddrV6 (ipV6 : View) (port : BitVec 16) (stack : StackV6) : Except String SocketAddr := do
  let ip ← Ipv6Addr.parse ipV6 stack.addr
  return .ofIpv6 ip port stack.sockaddr

/-- The texts and the port of the source's test. -/
example (stack : StackV4) :
    (makeAddrV4 ⟨ofString "60.205.141.97", [0]⟩ 20589 stack).map SocketAddr.sockaddr =
      .ok (.v4 ⟨2, 0x6d50, #v[60, 205, 141, 97], stack.sockaddr.zero⟩) := by
  rfl

end CoNet.Net.Ip
