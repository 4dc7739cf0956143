import CoNet.Lib.Ledger
import CoNet.Lib.Transition
import CoNet.Net.Listener

/-!
# Socket and listener objects (`net/socket.hpp`, `net/tcp/listener.hpp`)

The `Socket` and `TcpListener` objects that exist, each at its place, and the descriptors of the
process. The kernel gives a number that is not open, and may give it again once it was closed; a
descriptor is known by its place in the order in which they are acquired.
-/

set_option autoImplicit false

namespace CoNet.Net

open CoNet.Net.Ip

/-- An object of either class. -/
inductive SocketObject where
  | socket (s : Socket)
  | listener (l : TcpListener)
  deriving DecidableEq

namespace SocketObject

/-- The `Socket` that the object is, or its `socket_`. -/
def inner : SocketObject → Socket
  | socket s => s
  | listener l => l.socket

/-- `fd()`, and `listen_fd()` of a listener. -/
def fd (x : SocketObject) : Int := x.inner.fd

/-- A write to the fields of the `Socket`. -/
def modify (f : Socket → Socket) : SocketObject → SocketObject
  | socket s => socket (f s)
  | listener l => listener { socket := f l.socket }

/-- The move constructor of the object's class: the new object, and the old one after it. -/
def moveConstruct : SocketObject → SocketObject × SocketObject
  | socket s => (socket s.moveConstruct.1, socket s.moveConstruct.2)
  | listener l => (listener l.moveConstruct.1, listener l.moveConstruct.2)

/-- `~Socket()` or `~TcpListener()` -/
def destroy : SocketObject → SysM Unit
  | socket s => s.destroy
  | listener l => l.destroy

/-- Whether one can be assigned to the other. -/
def sameClass : SocketObject → SocketObject → Bool
  | socket _, socket _ | listener _, listener _ => true
  | _, _ => false

end SocketObject

structure SocketHeap where
  objects : Nat → Option SocketObject := fun _ => none
  /-- the process's descriptor table: what is open at a number -/
  table : Int → Option Nat := fun _ => none
  acquired : Nat := 0
  /-- what `::close` has closed, in order -/
  closed : List Nat := []

inductive SocketEvent where
  /-- `Socket(int fd, const ip::SocketAddr& addr)`, with what the kernel gave -/
  | construct (o : Nat) (fd : Int) (addr : SocketAddr) (outcomes : Outcomes)
  /-- `Socket(int fd, bool v4)`, with what `getpeername` leaves in its address -/
  | constructPeer (o : Nat) (fd : Int) (addr : SocketAddr)
  /-- `TcpListener(Socket&& socket)` -/
  | listener (dst src : Nat)
  /-- `Socket(Socket&& rhs)` or `TcpListener(TcpListener&& rhs)` -/
  | moveConstruct (dst src : Nat)
  /-- `operator=(Socket&& rhs)` or `operator=(TcpListener&& rhs)` -/
  | moveAssign (lhs rhs : Nat)
  | destroy (o : Nat)
  deriving DecidableEq

namespace SocketHeap

/-- The kernel gives a descriptor, if the number is one. -/
def acquire (s : SocketHeap) (fd : Int) : SocketHeap :=
  if 0 ≤ fd then
    { s with table := Function.update s.table fd (some s.acquired), acquired := s.acquired + 1 }
  else s

/-- What a system call does to the table. A close of a number that is not open fails (`EBADF`). -/
def syscall (s : SocketHeap) : Syscall → SocketHeap
  | .close fd =>
    match s.table fd with
    | some a => { s with table := Function.update s.table fd none, closed := s.closed ++ [a] }
    | none => s
  | _ => s

def put (s : SocketHeap) (o : Nat) (x : Option SocketObject) : SocketHeap :=
  { s with objects := Function.update s.objects o x }

def modify (s : SocketHeap) (o : Nat) (f : Socket → Socket) : Option SocketHeap := do
  let x ← s.objects o
  return s.put o (some (x.modify f))

/-- `operator=`, one statement after the other: both sides may be the same object. -/
def moveAssign (s : SocketHeap) (lhs rhs : Nat) : Option SocketHeap := do
  let source ← s.objects rhs
  let s ← s.modify lhs ({ · with fd := source.inner.fd })
  let source ← s.objects rhs
  let s ← s.modify lhs ({ · with addr := source.inner.addr })
  s.modify rhs ({ · with fd := -1 })

/-- A constructor with a descriptor that the kernel gave. One that throws leaves no object. -/
def construct (s : SocketHeap) (o : Nat) (fd : Int) (body : SysM Socket) : Option SocketHeap :=
  match s.objects o, s.table fd with
  | none, none =>
    let (result, calls) := outcome body []
    let s := calls.foldl syscall (s.acquire fd)
    match result with
    | .ok x => some (s.put o (some (.socket x)))
    | .error _ => some s
  | _, _ => none

/-- One operation. A constructor needs a place without an object, every other operation its
objects, and an assignment two of one class. -/
def step (s : SocketHeap) : SocketEvent → Option SocketHeap
  | .construct o fd addr outcomes => s.construct o fd (Socket.construct outcomes fd addr)
  | .constructPeer o fd addr => s.construct o fd (pure { fd, addr })
  | .listener dst src =>
    match s.objects dst, s.objects src with
    | none, some (.socket socket) =>
      let (l, left) := TcpListener.ofSocket socket
      some ((s.put dst (some (.listener l))).put src (some (.socket left)))
    | _, _ => none
  | .moveConstruct dst src =>
    match s.objects dst, s.objects src with
    | none, some rhs =>
      some ((s.put dst (some rhs.moveConstruct.1)).put src (some rhs.moveConstruct.2))
    | _, _ => none
  | .moveAssign lhs rhs =>
    match s.objects lhs, s.objects rhs with
    | some x, some y => if x.sameClass y then s.moveAssign lhs rhs else none
    | _, _ => none
  | .destroy o =>
    match s.objects o with
    | some x => some (((outcome x.destroy []).2.foldl syscall s).put o none)
    | none => none

end SocketHeap

end CoNet.Net
