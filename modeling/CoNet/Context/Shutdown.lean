import CoNet.Net.Routing

/-!
# Shutdown (`context/context.hpp`, `context/worker.hpp`)

Each thread has a task loop and a ring, and destroys them when it shuts down. A worker thread's
locals are `task_loop`, `worker_ring` and `worker_buffer`, and the members of `SystemLoop`
`main_task_queue_`, `main_uring_`, `io_buffer_` and `workers_`: objects are destroyed in the reverse
order, so a ring is torn down before the frames of the tasks that are still queued, and the workers
are joined before the main ring. A frame destroys what it holds, and a connection submits the close
of its descriptor. The buffers take no submission slot and are left out. The log holds what is done
with the rings.
-/

set_option autoImplicit false

namespace CoNet.Context

open CoNet.Io CoNet.Net

mutual

/-- A coroutine's frame: what is alive at its suspension point (nothing, if it has not started or has
finished), the connection in its promise's result, and its parameters. Lists are in the order of
destruction. -/
inductive Frame where
  | mk (locals : List Held) (result : Option TcpConnection) (params : List Held)

/-- What a frame holds: a connection, or a `Task` with the frame of its coroutine. -/
inductive Held where
  | connection (conn : TcpConnection)
  | task (frame : Frame)

end

mutual

/-- `handle_.destroy()`: the requests submitted on the way. -/
def Frame.destroy : Frame → List Request
  | .mk locals result params =>
    destroyHeld locals ++ (result.bind TcpConnection.destroy).toList ++ destroyHeld params

def destroyHeld : List Held → List Request
  | [] => []
  | .connection conn :: rest => conn.destroy.toList ++ destroyHeld rest
  | .task frame :: rest => frame.destroy ++ destroyHeld rest

end

mutual

/-- The connections a frame holds, at any depth. -/
def Frame.connections : Frame → List TcpConnection
  | .mk locals result params => heldConnections locals ++ result.toList ++ heldConnections params

def heldConnections : List Held → List TcpConnection
  | [] => []
  | .connection conn :: rest => conn :: heldConnections rest
  | .task frame :: rest => frame.connections ++ heldConnections rest

end

inductive RingAction where
  | getSqe (ring : Thread)
  | submit (ring : Thread)
  /-- `io_uring_queue_exit` -/
  | queueExit (ring : Thread)
  deriving DecidableEq, Repr

/-- The ring a request is taken from or submitted to. -/
def RingAction.uses : RingAction → Option Thread
  | .getSqe ring => some ring
  | .submit ring => some ring
  | .queueExit _ => none

/-- Where a thread is with its shutdown. -/
inductive Phase where
  | running
  /-- The loop is left, with these tasks in its queue. -/
  | leaving (queue : List Frame)
  /-- The ring is torn down, and the queue's frames have still to submit these requests. -/
  | destroying (requests : List Request)
  | gone

def Phase.isGone : Phase → Bool
  | .gone => true
  | _ => false

structure Shutdown where
  phases : Thread → Phase
  /-- `Workers::stop` was called. -/
  stopRequested : Bool := false
  log : List RingAction := []

inductive ShutdownEvent where
  /-- A running thread submits a request. -/
  | use (t : Thread) (ring : RingRef)
  /-- `SystemLoop::terminate`, in the handler of SIGINT or in the destructor -/
  | terminate
  /-- A thread leaves its loop for good. -/
  | leave (t : Thread) (queue : List Frame)
  /-- `~Uring` -/
  | exitRing (t : Thread)
  /-- A connection of a queued frame is destroyed, and submits its close. -/
  | close (t : Thread)
  /-- The task loop is destroyed, and the thread is at its end. -/
  | finish (t : Thread)

namespace Shutdown

def init (workers : Nat) : Shutdown where
  phases
    | .main => .running
    | .worker w => if w < workers then .running else .gone

def setPhase (s : Shutdown) (t : Thread) (phase : Phase) : Shutdown :=
  { s with phases := Function.update s.phases t phase }

/-- `get_sqe` and `submit_all` on a ring. -/
def submitOn (s : Shutdown) (ring : Thread) : Shutdown :=
  { s with log := s.log ++ [.getSqe ring, .submit ring] }

/-- The join of the worker threads by the destructor of `workers_`. -/
def joined (s : Shutdown) (workers : Nat) : Bool :=
  (List.range workers).all fun (w : Nat) => (s.phases (.worker w)).isGone

def step (workers : Nat) (s : Shutdown) : ShutdownEvent → Option Shutdown
  | .use t ring =>
    match s.phases t with
    | .running => some (s.submitOn (t.resolve ring))
    | _ => none
  | .terminate =>
    match s.phases .main with
    | .running =>
      if s.stopRequested then some s
      else
        -- a message to each worker and one to itself, then one submit
        some { s with
          stopRequested := true
          log := s.log ++ List.replicate (workers + 1) (.getSqe .main) ++ [.submit .main] }
    | _ => none
  | .leave t queue =>
    match s.phases t with
    | .running => if s.stopRequested then some (s.setPhase t (.leaving queue)) else none
    | _ => none
  | .exitRing t =>
    match s.phases t with
    | .leaving queue =>
      if t = .main ∧ s.joined workers = false then none
      else
        some { s.setPhase t (.destroying (queue.flatMap Frame.destroy)) with
          log := s.log ++ [.queueExit t] }
    | _ => none
  | .close t =>
    match s.phases t with
    | .destroying (r :: rest) =>
      some ((s.submitOn (t.resolve r.ring)).setPhase t (.destroying rest))
    | _ => none
  | .finish t =>
    match s.phases t with
    | .destroying [] => some (s.setPhase t .gone)
    | _ => none

end Shutdown

end CoNet.Context
