import CoNet.Lib.IpPrint
import CoNet.Net.IpAddr

/-!
# Addresses as texts (`net/ip_addr.hpp`)

What the address classes give out: the port of a `SocketAddr`, and the texts that `to_string` makes with
`inet_ntop`, which needs room for the text and a NUL and otherwise returns null.
-/

set_option autoImplicit false

namespace CoNet.Net.Ip

open IpText

/-- On a machine whose numbers have their low byte first. -/
def ntohs (port : BitVec 16) : BitVec 16 := port.extractLsb' 0 8 ++ port.extractLsb' 8 8

namespace Family

/-- The text of an address. -/
def print : (family : Family) → family.Address → Text
  | inet => ntop4
  | inet6 => ntop6

/-- `INET_ADDRSTRLEN` and `INET6_ADDRSTRLEN` -/
def addrstrlen : Family → Nat
  | inet => 16
  | inet6 => 46

end Family

/-- `inet_ntop` of a family that it supports, into a buffer of `size` bytes. -/
def inetNtop (family : Family) (src : family.Address) (size : Nat) : Option Text :=
  if (family.print src).length + 1 ≤ size then some (family.print src) else none

/-- The body of `to_string` in both classes. -/
def addrToString (family : Family) (message : String) (ip : family.Address) : Except String Text :=
  match inetNtop family ip family.addrstrlen with
  | none => .error message
  | some buf => .ok buf

namespace Ipv4Addr

def toString (a : Ipv4Addr) : Except String Text :=
  addrToString .inet "Ip address(v4) to string failed." a.ip

end Ipv4Addr

namespace Ipv6Addr

def toString (a : Ipv6Addr) : Except String Text :=
  addrToString .inet6 "Ip address(v6) to string failed." a.ip

end Ipv6Addr

namespace SocketAddr

def isIpv6 (s : SocketAddr) : Bool := !s.isIpv4

def nport (s : SocketAddr) : BitVec 16 :=
  match s.sockaddr with
  | .v4 addr => addr.port
  | .v6 addr => addr.port

def port (s : SocketAddr) : BitVec 16 :=
  match s.sockaddr with
  | .v4 addr => ntohs addr.port
  | .v6 addr => ntohs addr.port

/-- `std::format("{}:{}", buf, port)` -/
def formatted (buf : Text) (port : BitVec 16) : Text := buf ++ 58 :: numeral 10 port.toNat

/-- The result of `inet_ntop` is dropped: its buffer was zeros. -/
def toString (s : SocketAddr) : Text :=
  match s.sockaddr with
  | .v4 addr =>
    let buf := (inetNtop .inet addr.addr Family.inet.addrstrlen).getD []
    formatted buf (ntohs addr.port)
  | .v6 addr =>
    let buf := (inetNtop .inet6 addr.addr Family.inet6.addrstrlen).getD []
    formatted buf (ntohs addr.port)

end SocketAddr

end CoNet.Net.Ip
