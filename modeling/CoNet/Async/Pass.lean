import CoNet.Lib.Steps
import Mathlib.Data.List.Basic

/-!
# One pass of the task loop (`context/task_loop.hpp`)

`TaskLoop::run` over a queue of any content. A task is known by the state `L` in which its chain is
suspended, and a program says what the chain does when it is resumed in that state: its `co_spawn`s, in
order, and how control comes back to `ScheduledTask::resume`. The calls and returns among the frames of
the chain do not show.
-/

set_option autoImplicit false

namespace CoNet.Async

/-- What a chain is suspended at. -/
inductive Awaiter where
  /-- an awaiter derived from `UringAwaiter` -/
  | uring
  /-- `PendingAwaiter` -/
  | pending
  /-- `MultishotAcceptDirectAwaiter` -/
  | multishotAccept
  deriving DecidableEq, Repr

/-- Whether `await_suspend` sets the task pending. -/
def Awaiter.setsPending : Awaiter → Bool
  | uring | pending => true
  | multishotAccept => false

/-- What `awaiting_handle_.resume()` does. -/
inductive Resumption (L : Type) where
  /-- `co_spawn` of a coroutine -/
  | coSpawn (task : L) (rest : Resumption L)
  /-- The chain suspends. -/
  | suspend (awaiter : Awaiter) (next : L)
  /-- The root coroutine returns. -/
  | coReturn
  /-- An exception leaves the root coroutine. -/
  | throw
  deriving DecidableEq, Repr

/-- A `ScheduledTask` in the list. -/
structure Node (L : Type) where
  task : L
  valid : Bool := true
  pending : Bool := false
  deriving DecidableEq, Repr

/-- A node that the loop has come to, as it was then (ghost). -/
structure Visit (L : Type) where
  place : Nat
  node : Node L
  resumed : Bool
  deriving DecidableEq, Repr

inductive Pass.Control (L : Type) where
  /-- at a node of the list, or past the last one -/
  | cursor (n : Nat)
  /-- in `resume` of the node at the cursor, with the rest of what it does -/
  | running (n : Nat) (rest : Resumption L)
  /-- `run` has returned. -/
  | returned
  /-- `std::terminate` -/
  | terminated
  deriving DecidableEq, Repr

structure Pass (L : Type) where
  queue : List (Node L)
  control : Pass.Control L := .cursor 0
  visits : List (Visit L) := []
  deriving DecidableEq, Repr

variable {L : Type}

/-- The constructor of `ScheduledTask`. -/
def Node.ofTask (task : L) : Node L := { task }

/-- A task is resumed in a pass when the loop comes to it so. -/
def Node.ready (t : Node L) : Bool := t.valid && !t.pending

/-- `await_suspend` on the task's node. -/
def Node.suspend (t : Node L) (awaiter : Awaiter) (next : L) : Node L :=
  if awaiter.setsPending then { t with task := next, pending := true } else { t with task := next }

namespace Pass

def visit (s : Pass L) (n : Nat) (node : Node L) (resumed : Bool) : Pass L :=
  { s with visits := s.visits ++ [⟨n, node, resumed⟩] }

/-- One step of `TaskLoop::run`. -/
def step (program : L → Resumption L) (s : Pass L) : Option (Pass L) :=
  match s.control with
  | .cursor n =>
    match s.queue[n]? with
    | none => some { s with control := .returned }
    | some t =>
      if t.ready then
        some { s.visit n t true with control := .running n (program t.task) }
      else
        some { s.visit n t false with control := .cursor (n + 1) }
  | .running n (.coSpawn task rest) =>
    some { s with queue := s.queue ++ [.ofTask task], control := .running n rest }
  | .running n (.suspend awaiter next) =>
    some { s with queue := s.queue.modify n (·.suspend awaiter next), control := .cursor (n + 1) }
  | .running n .coReturn =>
    some { s with queue := s.queue.modify n ({ · with valid := false }), control := .cursor (n + 1) }
  -- the rethrow in `FinalTaskAwaiter`, whose `await_suspend` is `noexcept`
  | .running _ .throw => some { s with control := .terminated }
  | .returned => none
  | .terminated => none

end Pass

end CoNet.Async
