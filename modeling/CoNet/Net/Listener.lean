import CoNet.Net.IpAddr

/-!
# Sockets and listeners (`net/socket.hpp`, `net/tcp/listener.hpp`)

`TcpListener::listen_on` awaits a socket, which `create_tcp_socket` makes of the result of
`prep_normal_socket` (`io/prep/prep_socket.hpp`), then binds it and listens. A function here makes system
calls, which are logged in order, and returns or throws; what the calls come to is given by `Outcomes`.
An object's destruction is written out where C++ runs its destructor. A constructor that throws leaves
no object, so no destructor runs.
-/

set_option autoImplicit false

namespace CoNet.Net

open CoNet.Net.Ip

inductive Syscall where
  /-- the request of `io_uring_prep_socket` -/
  | socket (domain : BitVec 16) (type protocol flags : Int)
  | setsockopt (fd level optname optval : Int)
  | bind (fd : Int) (addr : Sockaddr) (len : BitVec 32)
  | listen (fd backlog : Int)
  | close (fd : Int)
  deriving DecidableEq

/-- The completion of the socket request, and whether each of the calls succeeds on a descriptor. -/
structure Outcomes where
  socket : BitVec 32
  setsockopt : Bool
  bind : Bool
  listen : Bool
  deriving DecidableEq, Repr

abbrev SysM := ExceptT String (StateM (List Syscall))

/-- A call that returns `res`. -/
def call (syscall : Syscall) (res : Int) : SysM Int := do
  modify (· ++ [syscall])
  return res

/-- What a call on a descriptor returns. A negative one is none (`EBADF`). -/
def resultOn (fd : Int) (succeeds : Bool) : Int := if 0 ≤ fd ∧ succeeds then 0 else -1

/-- What a function returns or throws, and the log with its calls. -/
def outcome {α : Type} (body : SysM α) (log : List Syscall) : Except String α × List Syscall :=
  (ExceptT.run body).run log

structure Socket where
  fd : Int
  addr : SocketAddr
  deriving DecidableEq

namespace Socket

/-- `set_reuse`: `SO_REUSEADDR | SO_REUSEPORT` is 15, at the level `SOL_SOCKET`. -/
def setReuse (outcomes : Outcomes) (s : Socket) (on : Bool) : SysM Unit := do
  let optval := if on then 1 else 0
  let res ← call (.setsockopt s.fd 1 15 optval) (resultOn s.fd outcomes.setsockopt)
  if res = -1 then
    throw "Set socket resuable failed.\nNote: Direct Socket Cannot Set Reuse"

/-- `Socket(int fd, const ip::SocketAddr& addr)` -/
def construct (outcomes : Outcomes) (fd : Int) (addr : SocketAddr) : SysM Socket := do
  let s : Socket := { fd, addr }
  s.setReuse outcomes true
  return s

/-- `Socket(Socket&& rhs)`: the new object, and `rhs` after it. -/
def moveConstruct (rhs : Socket) : Socket × Socket :=
  ({ fd := rhs.fd, addr := rhs.addr }, { rhs with fd := -1 })

/-- `~Socket()` -/
def destroy (s : Socket) : SysM Unit := do
  if s.fd > -1 then
    let _ ← call (.close s.fd) 0

end Socket

/-- `prep_normal_socket`. The result that it throws on is `-ENFILE`. -/
def prepNormalSocket (outcomes : Outcomes) (domain : BitVec 16) (type protocol flags : Int) :
    SysM Int := do
  let res ← call (.socket domain type protocol flags) outcomes.socket.toInt
  if res = -23 then throw "io_uring prep normal socket failed."
  return res

/-- `create_tcp_socket`, as it is awaited: the temporary is moved into the coroutine's result, and the
result out to the caller. -/
def createTcpSocket (outcomes : Outcomes) (addr : SocketAddr) : SysM Socket := do
  let socktype := if addr.isIpv4 then Family.inet.value else Family.inet6.value
  let sockfd ← prepNormalSocket outcomes socktype 1 0 0
  let temporary ← Socket.construct outcomes sockfd addr
  let (result, temporary) := temporary.moveConstruct
  temporary.destroy
  let (socket, result) := result.moveConstruct
  result.destroy
  return socket

/-- A `TcpListener`; its `connections_` are never used. -/
structure TcpListener where
  socket : Socket
  deriving DecidableEq

namespace TcpListener

/-- `TcpListener(Socket&& socket)`: the new object, and `socket` after it. -/
def ofSocket (socket : Socket) : TcpListener × Socket :=
  let (moved, socket) := socket.moveConstruct
  ({ socket := moved }, socket)

/-- `TcpListener(TcpListener&& rhs)`: the new object, and `rhs` after it. -/
def moveConstruct (rhs : TcpListener) : TcpListener × TcpListener :=
  let (moved, left) := rhs.socket.moveConstruct
  ({ socket := moved }, { socket := left })

def destroy (l : TcpListener) : SysM Unit := l.socket.destroy

/-- `bind()`. Its result is dropped. -/
def bind (outcomes : Outcomes) (l : TcpListener) : SysM Unit := do
  let _ ← call (.bind l.socket.fd l.socket.addr.sockaddr l.socket.addr.len)
    (resultOn l.socket.fd outcomes.bind)

/-- `listen(int)`. Its result is dropped. -/
def listen (outcomes : Outcomes) (l : TcpListener) (backlog : Int) : SysM Unit := do
  let _ ← call (.listen l.socket.fd backlog) (resultOn l.socket.fd outcomes.listen)

/-- `listen_on`, as it is awaited. -/
def listenOn (outcomes : Outcomes) (addr : SocketAddr) (backlog : Int) : SysM TcpListener := do
  let socket ← createTcpSocket outcomes addr
  let (listener, socket) := ofSocket socket
  listener.bind outcomes
  listener.listen outcomes backlog
  let (result, listener) := listener.moveConstruct
  listener.destroy
  socket.destroy
  let (returned, result) := result.moveConstruct
  result.destroy
  return returned

end TcpListener

end CoNet.Net
