import CoNet.Async.TaskLoop

/-!
# One task on its own loop (`async/scheduled_task.hpp`)

A `Program` says what each coroutine body does next, so it is a program for `Calls.eval` as well.
`Driver` is a loop with one `ScheduledTask` and the results its operations will complete with, in
order; `Driver.step` goes through passes of `TaskLoop::run`, resumes the task and completes the
operation it waits for, until the task has finished or an operation has no result.
-/

set_option autoImplicit false

namespace CoNet.Async

open CoNet.Io

/-- An operation with the awaiter it is prepared by, which is derived from `UringAwaiter`. -/
structure Operation (O : Type) where
  op : Op
  arg : O
  uring : uringAwaiterOp op = true

/-- What the kernel completes it with: none of the flags is of a task message. -/
structure OpResult where
  res : Int
  flags : BitVec 32
  plain : flags &&& netIoringCqeFTask = 0

variable {L V X O : Type}

/-- What `await_resume` gives. -/
def OpResult.pair (r : OpResult) : Int × BitVec 32 := (r.res, r.flags)

/-- The bodies of a program of `Task` coroutines. -/
abbrev Program (L V X O : Type) := L → Calls.Action L V X (Operation O) (Int × BitVec 32)

/-- A body's next action as the machine does it. -/
def instr : Calls.Action L V X (Operation O) (Int × BitVec 32) → Instr L V X (Operation O)
  | .perform operation k => .awaitOperation operation.op operation fun res flags => k (res, flags)
  | .call callee k => .awaitTask callee k
  | .ret v => .coReturn v
  | .raise x => .throw x

/-- What a direct-style evaluation has of an entry. -/
def observed : Entry V X (Operation O) → Option (Calls.Obs V X (Operation O) (Int × BitVec 32))
  | .performed _ _ operation => some (.performed operation)
  | .yielded _ _ res flags => some (.yielded (res, flags))
  | .delivered _ out => some (.delivered out)
  | _ => none

structure Driver (L V X O : Type) where
  machine : Machine L V X (Operation O)
  results : List OpResult

namespace Driver

/-- The loop with the task, before its first pass. -/
def enqueued (root : L) (results : List OpResult) : Driver L V X O :=
  ⟨({} : Machine L V X (Operation O)).emplaceBack root, results⟩

/-- The next event, and the results left after it. -/
def event (program : Program L V X O) (d : Driver L V X O) :
    Option (Event L V X (Operation O) × List OpResult) :=
  match d.machine.control with
  | .running _ _ body => some (.exec (instr (program body)), d.results)
  | .pass _ => some (.visit, d.results)
  | .idle =>
    match d.machine.inflight, d.results with
    | [], results => if d.machine.queue.any (·.valid) then some (.startPass, results) else none
    | _ :: _, [] => none
    | operation :: _, r :: rest => some (.complete operation r.res r.flags, rest)
  | _ => none

def step (program : Program L V X O) (d : Driver L V X O) : Option (Driver L V X O) :=
  (d.event program).bind fun next => (d.machine.step next.1).map (⟨·, next.2⟩)

/-- What was observed so far. -/
def trace (d : Driver L V X O) : List (Calls.Obs V X (Operation O) (Int × BitVec 32)) :=
  d.machine.log.filterMap observed

end Driver

end CoNet.Async
