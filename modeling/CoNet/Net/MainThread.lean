import CoNet.Lib.Ledger
import CoNet.Lib.Transition
import CoNet.Net.Connection

/-!
# Connection objects on the main thread

The main thread constructs a `TcpConnection` from each descriptor its ring accepts, moves it about,
releases it before a hand-off and destroys it. On this thread both ring names denote the main ring.
The state holds the objects that exist, the slot of each accepted connection, the close requests
that destructors submitted, and a ledger (ghost) that says which accepted connection each object
holds by the meaning of the operations. A slot number may be accepted again; an accepted connection
is known by its place in the order of acceptance.
-/

set_option autoImplicit false

namespace CoNet.Net

open CoNet.Io

/-- Where a `TcpConnection` object lives. -/
abbrev ObjId := Nat

/-- A close request that a destructor submitted: the descriptor it names, and (ghost) the accepted
connection the destroyed object held. -/
structure CloseRecord where
  fd : Int
  held : Option Nat
  deriving DecidableEq, Repr

structure MainThread where
  objects : ObjId → Option TcpConnection
  accepted : List Int
  ledger : Ledger ObjId
  closes : List CloseRecord

/-- The operations of the main thread on connection objects. -/
inductive MainEvent where
  /-- `TcpConnection{ client_sock }` from an accepted direct descriptor -/
  | accept (o : ObjId) (slot : Int)
  | moveConstruct (dst src : ObjId)
  | moveAssign (dst src : ObjId)
  | release (o : ObjId)
  | destroy (o : ObjId)
  deriving DecidableEq, Repr

namespace MainThread

def init : MainThread := ⟨fun _ => none, [], .empty, []⟩

/-- The accepted connections whose close a destructor submitted while it held them. -/
def closed (s : MainThread) : List Nat := s.closes.filterMap (·.held)

/-- The accepted connections that were released before a hand-off. -/
def released (s : MainThread) : List Nat := s.ledger.met .released

/-- One operation. A constructor needs a place with no object, every other operation an object. -/
def step (s : MainThread) : MainEvent → Option MainThread
  | .accept o slot =>
    match s.objects o with
    | some _ => none
    | none =>
      if 0 ≤ slot then
        some { s with
          objects := Function.update s.objects o (some (.ofDirectSocket slot))
          accepted := s.accepted ++ [slot]
          ledger := s.ledger.acquire o }
      else none
  | .moveConstruct dst src =>
    match s.objects dst, s.objects src with
    | none, some c =>
      some { s with
        objects := Function.update (Function.update s.objects dst (some c.moveConstruct.1)) src
          (some c.moveConstruct.2)
        ledger := s.ledger.transfer dst src }
    | _, _ => none
  | .moveAssign dst src =>
    match s.objects dst, s.objects src with
    | some d, some c =>
      if dst = src then
        some { s with objects := Function.update s.objects dst (some c.moveAssignSelf) }
      else
        some { s with
          objects := Function.update (Function.update s.objects dst (some (d.moveAssign c).1)) src
            (some (d.moveAssign c).2)
          ledger := s.ledger.transfer dst src }
    | _, _ => none
  | .release o =>
    match s.objects o with
    | none => none
    | some c =>
      match c.release with
      | .error _ => some s
      | .ok c' =>
        some { s with
          objects := Function.update s.objects o (some c')
          ledger := s.ledger.giveUp o .released }
  | .destroy o =>
    match s.objects o with
    | none => none
    | some c =>
      match c.destroy with
      | none => some { s with objects := Function.update s.objects o none }
      | some r =>
        some { s with
          objects := Function.update s.objects o none
          closes := s.closes ++ [⟨r.fd, s.ledger.holds o⟩]
          ledger := s.ledger.giveUp o .closed }

end MainThread

end CoNet.Net
