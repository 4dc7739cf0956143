import CoNet.Net.Routing

/-!
# Stopping the threads (`context/worker.hpp`, `context/context.hpp`, `io/uring.hpp`)

The loops of the worker threads and of the main thread, as far as they stop: the stop tokens, `stopped_` of
`SystemLoop` and of each ring, and the `Quit` messages. `terminate` runs in the destructor of `SystemLoop` and
in the handler of SIGINT, which interrupts the main thread anywhere, also in the destructor's call between
its test of `stopped_` and the assignment. `main_task_queue_` holds the task of `block_on` from the start; a task
that ends stays in it. The state counts (ghost) the passes that a thread has begun since it was told to stop.
-/

set_option autoImplicit false

namespace CoNet.Context

open CoNet.Net

/-- What a worker does next. -/
inductive WorkerNext where
  /-- `task_loop.run()` -/
  | run
  | submitAll
  | waitCqe
  | processBatch
  /-- `st.stop_requested()` -/
  | testStop
  | returned
  deriving DecidableEq, Repr

structure WorkerLoop where
  point : WorkerNext := .run
  stopRequested : Bool := false
  /-- `stopped_` of its ring -/
  ringStopped : Bool := false
  /-- the `Quit` messages in its completion queue -/
  quits : Nat := 0
  late : Nat := 0
  deriving DecidableEq, Repr

/-- What `SystemLoop::terminate` does next. -/
inductive TerminateNext where
  /-- `if (!stopped_)` -/
  | test
  | setStopped
  /-- `workers_.stop()`, at this thread -/
  | requestStop (w : Nat)
  /-- `notify_workers_to_stop`, at this worker -/
  | notifyWorker (w : Nat)
  | notifySelf
  | submitAll
  | waitCqe
  | processAll
  deriving DecidableEq, Repr

/-- What the main thread does next, outside of the handler. -/
inductive MainNext where
  /-- `while (!stopped_)` -/
  | test
  /-- `main_task_queue_.run()` -/
  | run
  | testEmpty
  | submitAll
  | waitCqe
  | processBatch
  /-- `~SystemLoop()` -/
  | destructor (p : TerminateNext)
  /-- The members are destroyed, and the workers joined. -/
  | members
  | gone
  deriving DecidableEq, Repr

structure Stop where
  workers : Nat → WorkerLoop := fun _ => {}
  main : MainNext := .test
  /-- the size of `main_task_queue_` -/
  tasks : Nat := 1
  /-- `terminate`, in the handler of SIGINT -/
  handler : Option TerminateNext := none
  /-- `SystemLoop::stopped_` -/
  loopStopped : Bool := false
  /-- the `Quit` messages that are not submitted -/
  prepared : List Thread := []
  ringStopped : Bool := false
  quits : Nat := 0
  late : Nat := 0

inductive StopEvent where
  /-- A worker goes on; `quit`: the batch that it peeks has a `Quit` message. -/
  | worker (w : Nat) (quit : Bool)
  /-- The main thread goes on; `choice`: the wait has timed out, or the batch has a `Quit` message. -/
  | main (choice : Bool)
  /-- `co_spawn`, in a task that the main loop runs -/
  | coSpawn
  /-- SIGINT -/
  | interrupt
  deriving DecidableEq, Repr

/-- One step of a worker's loop. A ring that has stopped consumes what it has. -/
def WorkerLoop.step (w : WorkerLoop) (quit : Bool) : Option WorkerLoop :=
  match w.point with
  | .run => some { w with point := .submitAll, late := w.late + w.stopRequested.toNat }
  | .submitAll => some { w with point := .waitCqe }
  | .waitCqe => some { w with point := .processBatch }
  | .processBatch =>
    if w.ringStopped then some { w with point := .testStop, quits := 0 }
    else if quit then
      if 0 < w.quits then some { w with point := .testStop, ringStopped := true, quits := 0 } else none
    else some { w with point := .testStop }
  | .testStop => some { w with point := if w.stopRequested then .returned else .run }
  | .returned => none

namespace Stop

def setWorker (s : Stop) (w : Nat) (loop : WorkerLoop) : Stop :=
  { s with workers := Function.update s.workers w loop }

/-- `submit_all` of the main ring: the messages that are prepared are delivered. -/
def submitAll (s : Stop) : Stop :=
  { s with
    workers := fun w =>
      { s.workers w with quits := (s.workers w).quits + s.prepared.count (.worker w) }
    quits := s.quits + s.prepared.count .main
    prepared := [] }

/-- One step of `terminate`, and where it goes on. -/
def terminate (count : Nat) (s : Stop) : TerminateNext → Stop × Option TerminateNext
  | .test => (s, if s.loopStopped then none else some .setStopped)
  | .setStopped => ({ s with loopStopped := true }, some (.requestStop 0))
  | .requestStop w =>
    if w < count then
      (s.setWorker w { s.workers w with stopRequested := true }, some (.requestStop (w + 1)))
    else (s, some (.notifyWorker 0))
  | .notifyWorker w =>
    if w < count then
      ({ s with prepared := s.prepared ++ [.worker w] }, some (.notifyWorker (w + 1)))
    else (s, some .notifySelf)
  | .notifySelf => ({ s with prepared := s.prepared ++ [.main] }, some .submitAll)
  | .submitAll => (s.submitAll, some .waitCqe)
  | .waitCqe => (s, some .processAll)
  | .processAll => ({ s with ringStopped := s.ringStopped || decide (0 < s.quits), quits := 0 }, none)

/-- `process_batch` of the main ring. -/
def processBatch (s : Stop) (quit : Bool) : Option Stop :=
  if s.ringStopped then some { s with quits := 0 }
  else if quit then
    if 0 < s.quits then some { s with ringStopped := true, quits := 0 } else none
  else some s

/-- The join of the worker threads. -/
def joined (count : Nat) (s : Stop) : Bool :=
  (List.range count).all fun w => (s.workers w).point == .returned

/-- One step of the main thread outside of the handler: `run()`, and then the destructor. -/
def mainStep (count : Nat) (s : Stop) (choice : Bool) : Option Stop :=
  match s.main with
  | .test => some { s with main := if s.loopStopped then .destructor .test else .run }
  | .run => some { s with main := .testEmpty, late := s.late + s.loopStopped.toNat }
  | .testEmpty => some { s with main := if s.tasks = 0 then .destructor .test else .submitAll }
  | .submitAll => some { s.submitAll with main := .waitCqe }
  | .waitCqe => some { s with main := if choice then .test else .processBatch }
  | .processBatch => (s.processBatch choice).map ({ · with main := .test })
  | .destructor p =>
    let (s, next) := s.terminate count p
    some { s with main := (next.map MainNext.destructor).getD .members }
  | .members => if s.joined count then some { s with main := .gone } else none
  | .gone => none

def step (count : Nat) (s : Stop) : StopEvent → Option Stop
  | .worker w quit => if w < count then ((s.workers w).step quit).map (s.setWorker w) else none
  | .main choice =>
    match s.handler with
    | some p =>
      let (s, next) := s.terminate count p
      some { s with handler := next }
    | none => s.mainStep count choice
  | .coSpawn =>
    match s.handler, s.main with
    | none, .run => some { s with tasks := s.tasks + 1 }
    | _, _ => none
  | .interrupt =>
    match s.handler, s.main with
    | some _, _ | none, .gone => none
    | none, _ => some { s with handler := some .test }

end Stop

end CoNet.Context
