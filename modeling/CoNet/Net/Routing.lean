import CoNet.Io.Uring
import CoNet.Lib.Transition

/-!
# Connection objects on every thread, and where their requests go

Each thread has its ring, and each ring its own table of direct descriptors; the tables use the same
small numbers. A connection object comes into being in three ways: from an accept on the main ring,
from the hand-off of `parallel_spawn` (`impl_handle_msg_conn`), and from a multishot hand-off
(`impl_handle_macc_task`). The state says for each object (ghost) the ring whose table allocated the
number its `socket_` holds, and none once the object was moved from. The log holds every request
with the ring it went to.
-/

set_option autoImplicit false

namespace CoNet.Net

open CoNet.Io

/-- A thread, and the ring it runs. -/
inductive Thread where
  | main
  | worker (w : Nat)
  deriving DecidableEq, Repr

/-- The ring a request goes to, on the thread that submits it. -/
def Thread.resolve (t : Thread) : RingRef → Thread
  | .sysUringLoop => .main
  | .localUringLoop => t

/-- An object, the thread that owns it and (ghost) the ring whose table allocated its number. -/
structure Placed where
  conn : TcpConnection
  thread : Thread
  table : Option Thread
  deriving DecidableEq, Repr

/-- A submitted request, the ring it went to and (ghost) the ring whose table allocated the number
it names. -/
structure Submitted where
  ring : Thread
  request : Request
  table : Option Thread
  deriving DecidableEq, Repr

structure Routing where
  objects : Nat → Option Placed
  submitted : List Submitted

inductive RoutingEvent where
  /-- `TcpListener::accept` on the main thread -/
  | accept (o : Nat) (slot : Int)
  /-- `impl_handle_msg_conn` on a worker, with the slot installed in its table -/
  | msgConn (o w : Nat) (slot : Int)
  /-- `impl_handle_macc_task` on a worker, with a slot installed in its table -/
  | maccTask (o w : Nat) (slot : Int)
  | moveConstruct (dst src : Nat)
  | moveAssign (dst src : Nat)
  | release (o : Nat)
  | read (o : Nat)
  | write (o : Nat)
  | receive (o : Nat)
  | destroy (o : Nat)
  deriving DecidableEq, Repr

namespace Routing

def init : Routing := ⟨fun _ => none, []⟩

/-- A new object, at a place that has none. -/
def place (s : Routing) (o : Nat) (p : Placed) : Option Routing :=
  match s.objects o with
  | some _ => none
  | none => some { s with objects := Function.update s.objects o (some p) }

/-- A move between two places of one thread: the number goes along, with the table it is from. -/
def move (s : Routing) (dst src : Nat) (target source : TcpConnection) (p : Placed) : Routing :=
  { s with
    objects := Function.update (Function.update s.objects dst (some { p with conn := target })) src
      (some { p with conn := source, table := none }) }

/-- A request of an object, to the ring it names. -/
def submit (s : Routing) (p : Placed) (r : Request) : Routing :=
  { s with submitted := s.submitted ++ [⟨p.thread.resolve r.ring, r, p.table⟩] }

/-- A read, a write or a receive of an object. -/
def request (s : Routing) (o : Nat) (make : TcpConnection → Request) : Option Routing :=
  (s.objects o).map fun p => s.submit p (make p.conn)

def step (s : Routing) : RoutingEvent → Option Routing
  | .accept o slot =>
    if 0 ≤ slot then s.place o ⟨.ofDirectSocket slot, .main, some .main⟩ else none
  | .msgConn o w slot =>
    if 0 ≤ slot then s.place o ⟨msgConnConnection slot, .worker w, some (.worker w)⟩ else none
  | .maccTask o w slot =>
    if 0 ≤ slot then s.place o ⟨maccTaskConnection slot, .worker w, some (.worker w)⟩ else none
  | .moveConstruct dst src =>
    match s.objects dst, s.objects src with
    | none, some p => some (s.move dst src p.conn.moveConstruct.1 p.conn.moveConstruct.2 p)
    | _, _ => none
  | .moveAssign dst src =>
    match s.objects dst, s.objects src with
    | some d, some p =>
      if dst = src then
        some { s with
          objects := Function.update s.objects dst (some { p with conn := p.conn.moveAssignSelf }) }
      else if d.thread = p.thread then
        some (s.move dst src (d.conn.moveAssign p.conn).1 (d.conn.moveAssign p.conn).2 p)
      else none
    | _, _ => none
  | .release o =>
    match s.objects o with
    | none => none
    | some p =>
      match p.conn.release with
      | .error _ => some s
      | .ok c => some { s with objects := Function.update s.objects o (some { p with conn := c }) }
  | .read o => s.request o TcpConnection.readSome
  | .write o => s.request o TcpConnection.writeSome
  | .receive o => s.request o TcpConnection.ringBufReceive
  | .destroy o =>
    match s.objects o with
    | none => none
    | some p =>
      let gone : Routing := { s with objects := Function.update s.objects o none }
      match p.conn.destroy with
      | none => some gone
      | some r => some (gone.submit p r)

end Routing

end CoNet.Net
