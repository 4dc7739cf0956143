import CoNet.Config
import CoNet.Io.SubmissionQueue
import CoNet.Net.MultishotLoop

/-!
# A loop and its submission queue (`context/task_loop.hpp`, `context/worker.hpp`, `context/context.hpp`)

The loop of the main thread and the loop of a worker are the same in what they do with their ring: a
pass of `TaskLoop::run`, a submit, a wait, and a batch of completions. A pass resumes the runnable
tasks one by one, and a resumed task makes its calls, each of which may take slots of the ring's
submission queue, until it suspends or ends. A call that is handed a null slot writes through it: the
run is undefined from there on. The state records (ghost) how many tasks have suspended on an
operation since the last submit.
-/

set_option autoImplicit false

namespace CoNet.Context

open CoNet.Io CoNet.Net

/-- Where the loop is. -/
inductive LoopPoint where
  /-- before a pass -/
  | between
  /-- in `TaskLoop::run`, at a node of the queue -/
  | pass (cursor : Nat)
  /-- the task of a node is resumed -/
  | running (node : Nat)
  /-- `TaskLoop::run` has returned -/
  | ran
  /-- everything is submitted -/
  | waiting
  /-- in `process_batch`, with so many completions still to handle -/
  | batch (left : Nat)
  /-- A null `io_uring_sqe*` was written through. -/
  | undefined
  deriving DecidableEq, Repr

/-- What a running task calls that reaches its thread's ring or task queue. -/
inductive TaskCall where
  /-- `parallel_spawn` of a task -/
  | parallelSpawn
  /-- `parallel_spawn` of a task with a connection -/
  | parallelSpawnConnection
  /-- `mshot_accept_send_awaiting_fd_and_process` -/
  | mshotAcceptSend
  /-- a connection's destructor, with its `close_direct_socket` -/
  | destroyConnection
  | coSpawn
  deriving DecidableEq, Repr

/-- How a resumption of a task ends. -/
inductive Suspension where
  /-- in the `await_suspend` of a `UringAwaiter`, after its constructor -/
  | operation
  /-- in the one of `MultishotAcceptDirectAwaiter`, which leaves the task runnable -/
  | multishotAccept
  /-- in the one of `PendingAwaiter`, which makes no request -/
  | pending
  /-- at the end of the task -/
  | finished
  deriving DecidableEq, Repr

/-- The flags a task is left with. -/
def Suspension.flags : Suspension → TaskFlags
  | .operation => { pending := true }
  | .multishotAccept => {}
  | .pending => { pending := true }
  | .finished => { valid := false }

/-- The slots its constructor takes. -/
def Suspension.slots : Suspension → Nat
  | .operation => 1
  | .multishotAccept => 1
  | .pending => 0
  | .finished => 0

structure LoopPass (entries : Nat) where
  tasks : List TaskFlags := []
  sq : SubmissionQueue entries := .empty
  ring : Uring := {}
  point : LoopPoint := .between
  awaited : Nat := 0

inductive PassEvent (φ : Type) where
  /-- `TaskLoop::run` begins. -/
  | startPass
  /-- `TaskLoop::run` goes on to the node at its cursor. -/
  | visit
  /-- The running task makes a call. -/
  | call (call : TaskCall)
  /-- The running task suspends, or ends. -/
  | suspend (suspension : Suspension)
  | submitAll
  /-- `process_batch` peeks this many completions. -/
  | peek (count : Nat)
  /-- `process_batch` handles a completion. -/
  | handle (cqe : Cqe Unit φ Nat Unit)
  /-- `process_batch` returns; a ring that has stopped cancels everything first. -/
  | endBatch

namespace LoopPass

variable {φ : Type} {entries : Nat}

/-- The task of a node would be resumed by a pass. -/
def runnable (flags : TaskFlags) : Bool := flags.valid && !flags.pending

/-- So many requests, and a submit. -/
def requests (s : LoopPass entries) (count : Nat) : LoopPass entries :=
  match s.sq.getSqes count with
  | none => { s with point := .undefined }
  | some sq => { s with sq := sq.submit, awaited := 0 }

/-- A call of a running task. `parallel_spawn` throws on a worker, before it does anything. -/
def perform (onMain : Bool) (s : LoopPass entries) : TaskCall → LoopPass entries
  | .parallelSpawn => if onMain then s.requests 1 else s
  | .parallelSpawnConnection => if onMain then s.requests 2 else s
  | .mshotAcceptSend =>
    if onMain then
      { s.requests (3 * s.ring.awaitingDirectFd.length) with
        ring := { s.ring with awaitingDirectFd := [] } }
    else s
  | .destroyConnection => s.requests 1
  | .coSpawn => { s with tasks := s.tasks ++ [{}] }

/-- The end of a resumption. -/
def suspend (s : LoopPass entries) (node : Nat) (suspension : Suspension) : LoopPass entries :=
  match s.sq.getSqes suspension.slots with
  | none => { s with point := .undefined }
  | some sq =>
    { s with
      sq
      tasks := s.tasks.set node suspension.flags
      point := .pass (node + 1)
      awaited := s.awaited + suspension.slots }

/-- An effect of a completion on the loop. -/
def applyEffect (s : LoopPass entries) : Effect Unit φ Nat Unit → LoopPass entries
  | .setPending node pending => { s with tasks := s.tasks.modify node ({ · with pending }) }
  | .enqueue _ | .schedule _ _ => { s with tasks := s.tasks ++ [{}] }
  | .closeDirectSocket _ | .notifyMainRingReleaseFd _ => s.requests 1
  | .delete _ | .storeResult _ _ _ => s

/-- The loop of `TaskLoop::run`, at one node. -/
def visit (s : LoopPass entries) (node : Nat) : LoopPass entries :=
  match s.tasks[node]? with
  | none => { s with point := .ran }
  | some flags => { s with point := if runnable flags then .running node else .pass (node + 1) }

def step (onMain : Bool) (cfg : Config) (multishotToken : CompletionToken Nat)
    (s : LoopPass entries) : PassEvent φ → Option (LoopPass entries)
  | .startPass =>
    match s.point with
    | .between => some { s with point := .pass 0 }
    | _ => none
  | .visit =>
    match s.point with
    | .pass node => some (s.visit node)
    | _ => none
  | .call call =>
    match s.point with
    | .running _ => some (s.perform onMain call)
    | _ => none
  | .suspend suspension =>
    match s.point with
    | .running node => some (s.suspend node suspension)
    | _ => none
  | .submitAll =>
    match s.point with
    | .ran => some { s with sq := s.sq.submit, point := .waiting, awaited := 0 }
    | _ => none
  | .peek count =>
    match s.point with
    | .waiting =>
      if count ≤ cfg.uringPeekCqesBatch then some { s with point := .batch count } else none
    | _ => none
  | .handle cqe =>
    match s.point with
    | .batch (left + 1) =>
      if s.ring.stopped then none
      else do
        let (ring, effects) ← s.ring.handleRequest multishotToken cqe
        some (effects.foldl applyEffect { s with ring, point := .batch left })
    | _ => none
  | .endBatch =>
    match s.point with
    | .batch left =>
      if s.ring.stopped then some ({ s with point := .between }.requests 1)
      else if left = 0 then some { s with point := .between }
      else none
    | _ => none

/-- The main thread before its first pass, with the task of `block_on` in its queue. -/
def mainLoop (cfg : Config) : LoopPass cfg.uringMainSqes := { tasks := [{}] }

/-- A worker before its first pass. -/
def workerLoop (cfg : Config) : LoopPass cfg.uringWokersSqes := {}

end LoopPass

end CoNet.Context
