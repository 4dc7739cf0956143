import CoNet.Lib.Transition
import Mathlib.Data.List.Perm.Basic

/-!
# Start-up (`context/context.hpp`, `context/worker.hpp`)

The constructor of `SystemLoop` initialises the members in the order of their declarations, in which
`workers_` comes before `init_latch_`, and then waits. The constructor of `Workers` starts the worker
threads one by one; from then on each goes through its start-up by itself: it makes its ring, and under
`mtx_` puts the ring's descriptor into `uring_fds_` and counts the latch down. An event is the next step
of one thread.

`std::latch` is a counter in the memory of `init_latch_`. Its constructor writes the counter, and a
`count_down` takes one off whatever is in that memory.
-/

set_option autoImplicit false

namespace CoNet.Context

/-- What the program runs on. -/
structure Host where
  /-- `WORKERS` -/
  workers : Nat := 0
  /-- `std::thread::hardware_concurrency` -/
  hardwareConcurrency : Nat
  /-- the descriptor of each worker's ring -/
  ringFd : Nat → Int
  /-- what is in the memory of `init_latch_` before its constructor -/
  latchMemory : Int := 0

namespace Host

/-- The number of threads that `Workers` starts. -/
def howMany (host : Host) : Nat :=
  if host.workers = 0 then host.hardwareConcurrency else host.workers

/-- What `init_latch_` is constructed with. -/
def expected (host : Host) : Nat :=
  if host.workers ≠ 0 then host.workers else host.hardwareConcurrency

end Host

/-- What the constructor of `SystemLoop` does next. -/
inductive InitPoint where
  | mainTaskQueue
  | mainUring
  | ioBuffer
  /-- the constructor of `workers_`, which has started so many threads -/
  | workers (started : Nat)
  | initLatch
  | stopped
  | currentWorkerUringIdx
  /-- its body, at `init_latch_.wait()` -/
  | wait
  /-- after the wait -/
  | ready
  deriving DecidableEq, Repr

/-- What a worker thread does next. -/
inductive WorkerPoint where
  /-- its task loop, ring and buffers, and the table of its ring -/
  | setup
  /-- to lock `mtx_` -/
  | lock
  | pushBack
  | countDown
  /-- It has unlocked `mtx_`, and runs its loop. -/
  | looping
  deriving DecidableEq, Repr

structure Startup where
  point : InitPoint := .mainTaskQueue
  threads : List WorkerPoint := []
  uringFds : List Int := []
  /-- `mtx_` is locked. -/
  locked : Bool := false
  /-- `init_latch_` is constructed. -/
  built : Bool := false
  counter : Int
  deriving DecidableEq, Repr

inductive StartupEvent where
  /-- the constructor of `SystemLoop` -/
  | init
  | worker (i : Nat)
  deriving DecidableEq, Repr

namespace Startup

def start (host : Host) : Startup := { counter := host.latchMemory }

/-- The number of workers that have counted down. -/
def counted (s : Startup) : Nat := s.threads.count .looping

def initStep (host : Host) (s : Startup) : Option Startup :=
  match s.point with
  | .mainTaskQueue => some { s with point := .mainUring }
  | .mainUring => some { s with point := .ioBuffer }
  | .ioBuffer => some { s with point := .workers 0 }
  | .workers started =>
    if started < host.howMany then
      some { s with threads := s.threads ++ [.setup], point := .workers (started + 1) }
    else some { s with point := .initLatch }
  | .initLatch => some { s with counter := host.expected, built := true, point := .stopped }
  | .stopped => some { s with point := .currentWorkerUringIdx }
  | .currentWorkerUringIdx => some { s with point := .wait }
  | .wait => if s.counter = 0 then some { s with point := .ready } else none
  | .ready => none

def workerStep (host : Host) (s : Startup) (i : Nat) : Option Startup :=
  match s.threads[i]? with
  | some .setup => some { s with threads := s.threads.set i .lock }
  | some .lock =>
    if s.locked then none else some { s with threads := s.threads.set i .pushBack, locked := true }
  | some .pushBack =>
    some { s with
      threads := s.threads.set i .countDown, uringFds := s.uringFds ++ [host.ringFd i] }
  | some .countDown =>
    some { s with
      threads := s.threads.set i .looping, counter := s.counter - 1, locked := false }
  | some .looping | none => none

def step (host : Host) (s : Startup) : StartupEvent → Option Startup
  | .init => s.initStep host
  | .worker i => s.workerStep host i

end Startup

end CoNet.Context
