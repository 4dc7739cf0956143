import CoNet.Async.Task
import CoNet.Io.Uring
import CoNet.Lib.Transition

/-!
# Scheduled tasks and the task loop (`async/scheduled_task.hpp`, `context/task_loop.hpp`)

The state has the coroutine frames, the queue of a `TaskLoop`, the operations in flight and what the
thread is doing. `step` is one event: a task enqueued, the begin of a pass of `TaskLoop::run`, the
visit of one node of the queue, one step of the running coroutine's body, or the completion of an
operation handled between two passes. The queue is never shortened, so a node is known by its place.
A step into undefined behaviour (a null or dangling pointer followed, a coroutine resumed that is
not suspended, a result read that is not there) leads to `Control.undefined`.
-/

set_option autoImplicit false

namespace CoNet.Async

open CoNet.Io

/-- `ScheduledTask`: the handles of `task_` and `awaiting_handle_`, and the two flags. -/
structure ScheduledTask where
  task : FrameId
  awaitingHandle : FrameId
  valid : Bool := true
  pending : Bool := false
  deriving DecidableEq, Repr

/-- What the thread is doing. -/
inductive Control (L : Type) where
  /-- outside of `TaskLoop::run` -/
  | idle
  /-- in `TaskLoop::run`, at a node of the queue -/
  | pass (cursor : TaskId)
  /-- in `ScheduledTask::resume` of the node at the cursor: a frame's body is running -/
  | running (cursor : TaskId) (frame : FrameId) (body : L)
  /-- `std::terminate` -/
  | terminated
  | undefined

/-- What happened (ghost), in order. -/
inductive Entry (V X O : Type) where
  | queued (n : TaskId) (root : FrameId)
  | resumed (n : TaskId)
  | performed (id : Nat) (n : TaskId) (arg : O)
  /-- a completion was handled, and woke a task -/
  | woken (id : Nat) (n : TaskId) (res : Int) (flags : BitVec 32)
  /-- `await_resume` of an operation's awaiter -/
  | yielded (id : Nat) (n : TaskId) (res : Int) (flags : BitVec 32)
  /-- `return_value` -/
  | constructed (f : FrameId)
  /-- `move_out_result` -/
  | movedOut (f : FrameId)
  /-- `await_resume` of a task's awaiter -/
  | delivered (f : FrameId) (out : Outcome V X)
  | finished (n : TaskId) (root : FrameId)
  deriving DecidableEq, Repr

structure Machine (L V X O : Type) where
  frames : FrameId → Option (Frame L V X) := fun _ => none
  nextFrame : FrameId := 0
  queue : List ScheduledTask := []
  /-- the operations in flight, each with the frame its `user_data` points into -/
  inflight : List (Nat × FrameId) := []
  nextOp : Nat := 0
  control : Control L := .idle
  log : List (Entry V X O) := []

inductive Event (L V X O : Type) where
  /-- `TaskLoop::enqueue` or `emplace_back`, outside of a pass -/
  | enqueue (task : L)
  | startPass
  /-- `TaskLoop::run` goes on to the node at its cursor. -/
  | visit
  /-- The running body does this next. -/
  | exec (instr : Instr L V X O)
  /-- `process_batch` handles the completion of an operation. -/
  | complete (operation : Nat × FrameId) (res : Int) (flags : BitVec 32)

namespace Machine

variable {L V X O : Type}

def setFrame (s : Machine L V X O) (f : FrameId) (fr : Frame L V X) : Machine L V X O :=
  { s with frames := Function.update s.frames f (some fr) }

def setPoint (s : Machine L V X O) (f : FrameId) (fr : Frame L V X) (p : Point L V X) :
    Machine L V X O :=
  s.setFrame f { fr with point := p }

def modifyTask (s : Machine L V X O) (n : TaskId) (g : ScheduledTask → ScheduledTask) :
    Machine L V X O :=
  { s with queue := s.queue.modify n g }

def record (s : Machine L V X O) (entries : List (Entry V X O)) : Machine L V X O :=
  { s with log := s.log ++ entries }

/-- `std::list::emplace_back` of a `ScheduledTask`, whose constructor makes the coroutine's frame
and sets its `this_chain_task_`. -/
def emplaceBack (s : Machine L V X O) (body : L) : Machine L V X O :=
  { s with
    frames := Function.update s.frames s.nextFrame
      (some ⟨{ thisChainTask := some s.queue.length }, .initial body⟩)
    nextFrame := s.nextFrame + 1
    queue := s.queue ++ [{ task := s.nextFrame, awaitingHandle := s.nextFrame }]
    log := s.log ++ [.queued s.queue.length s.nextFrame] }

/-- The end of `ScheduledTask::resume`, and the next node of `TaskLoop::run`. -/
def afterResume (s : Machine L V X O) (n : TaskId) : Option (Machine L V X O) := do
  let t ← s.queue[n]?
  let fr ← s.frames t.task
  match fr.point with
  | .final =>
    some { (s.modifyTask n ({ · with valid := false })).record [.finished n t.task] with
      control := .pass (n + 1) }
  | _ => some { s with control := .pass (n + 1) }

/-- `ScheduledTask::resume`, up to the body that `awaiting_handle_.resume()` runs. -/
def resume (s : Machine L V X O) (n : TaskId) (t : ScheduledTask) : Option (Machine L V X O) := do
  let fr ← s.frames t.awaitingHandle
  let running := s.setPoint t.awaitingHandle fr .executing
  match fr.point with
  | .initial body =>
    some { running.record [.resumed n] with control := .running n t.awaitingHandle body }
  | .atOperation id token k =>
    some { running.record [.resumed n, .yielded id n token.cqeRes token.cqeFlags] with
      control := .running n t.awaitingHandle (k token.cqeRes token.cqeFlags) }
  | _ => none

/-- The loop of `TaskLoop::run`, at one node. -/
def visit (s : Machine L V X O) (n : TaskId) : Option (Machine L V X O) :=
  match s.queue[n]? with
  | none => some { s with control := .idle }
  | some t =>
    if t.valid && !t.pending then s.resume n t
    else some { s with control := .pass (n + 1) }

/-- `TaskLoop::empty`, on which `SystemLoop::run` breaks after a pass. -/
def empty (s : Machine L V X O) : Bool := s.queue.isEmpty

/-- `UringAwaiter`: its constructor prepares the request, and `await_suspend` sets
`awaiting_handle_`, the token's `chain_task_` and `pending_`. -/
def awaitOperation (s : Machine L V X O) (n : TaskId) (f : FrameId) (op : Op) (arg : O)
    (k : Int → BitVec 32 → L) : Option (Machine L V X O) := do
  let fr ← s.frames f
  let chainTask ← fr.promise.thisChainTask
  let _ ← s.queue[chainTask]?
  let s := s.setPoint f fr (.atOperation s.nextOp { op, chainTask := some chainTask } k)
  let s := s.modifyTask chainTask ({ · with awaitingHandle := f, pending := true })
  some { s.record [.performed s.nextOp n arg] with
    inflight := s.inflight ++ [(s.nextOp, f)], nextOp := s.nextOp + 1 }

/-- `TaskAwaier`: `await_suspend` sets the callee's `caller_` and `this_chain_task_` and transfers
control to it. -/
def awaitTask (s : Machine L V X O) (n : TaskId) (f : FrameId) (callee : L)
    (k : Outcome V X → L) : Option (Machine L V X O) := do
  let fr ← s.frames f
  let suspended := s.setPoint f fr (.atTask s.nextFrame k)
  let promise : Promise V X := { caller := some f, thisChainTask := fr.promise.thisChainTask }
  some { suspended.setFrame s.nextFrame ⟨promise, .executing⟩ with
    nextFrame := s.nextFrame + 1, control := .running n s.nextFrame callee }

/-- A caller goes on: `await_resume` reads the callee's result, and the temporary `Task` destroys
the callee's frame. -/
def resumeCaller (s : Machine L V X O) (n : TaskId) (g : FrameId) : Option (Machine L V X O) := do
  let gr ← s.frames g
  match gr.point with
  | .atTask callee k =>
    let fr ← s.frames callee
    let (out, _) ← fr.promise.result
    let moved := match out with
      | .value _ => [.movedOut callee, .delivered callee out]
      | .thrown _ => [.delivered callee out]
    let s := { s with frames := Function.update s.frames callee none }
    some { (s.setPoint g gr .executing).record moved with control := .running n g (k out) }
  | _ => none

/-- `FinalTaskAwaiter`: control goes to the caller, or back to `resume`; the exception of a frame
without a caller is rethrown from a `noexcept` function. -/
def finalSuspend (s : Machine L V X O) (n : TaskId) (p : Promise V X) : Option (Machine L V X O) :=
  match p.caller with
  | some g => s.resumeCaller n g
  | none =>
    match p.exp with
    | some _ => some { s with control := .terminated }
    | none => s.afterResume n

/-- A body ends. -/
def finish (s : Machine L V X O) (n : TaskId) (f : FrameId) (out : Outcome V X) :
    Option (Machine L V X O) := do
  let fr ← s.frames f
  let promise := fr.promise.finished out
  let constructed := match out with
    | .value _ => [.constructed f]
    | .thrown _ => []
  ((s.setFrame f ⟨promise, .final⟩).record constructed).finalSuspend n promise

/-- The running body does an instruction. -/
def exec (s : Machine L V X O) (n : TaskId) (f : FrameId) :
    Instr L V X O → Option (Machine L V X O)
  | .awaitOperation op arg k => (s.awaitOperation n f op arg k).bind (·.afterResume n)
  | .awaitTask callee k => s.awaitTask n f callee k
  | .coSpawn task k => some { s.emplaceBack task with control := .running n f k }
  | .coReturn v => s.finish n f (.value v)
  | .throw x => s.finish n f (.thrown x)

/-- The effects of a completion on frames and tasks. -/
def applyEffect (s : Machine L V X O) :
    Effect Unit Unit TaskId FrameId → Option (Machine L V X O)
  | .storeResult f res flags => do
    let fr ← s.frames f
    match fr.point with
    | .atOperation id token k =>
      some (s.setPoint f fr
        (.atOperation id { token with cqeRes := res, cqeFlags := flags } k))
    | _ => none
  | .setPending n pending => do
    let _ ← s.queue[n]?
    some (s.modifyTask n ({ · with pending }))
  | _ => some s

/-- The tasks a completion wakes. -/
def wakes (id : Nat) (res : Int) (flags : BitVec 32)
    (effects : List (Effect Unit Unit TaskId FrameId)) : List (Entry V X O) :=
  effects.filterMap fun
    | .setPending n false => some (.woken id n res flags)
    | _ => none

/-- `handle_request` of the completion of an operation. -/
def complete (s : Machine L V X O) (operation : Nat × FrameId) (res : Int) (flags : BitVec 32) :
    Option (Machine L V X O) := do
  let fr ← s.frames operation.2
  match fr.point with
  | .atOperation _ token _ =>
    let cqe : Cqe Unit Unit TaskId FrameId := ⟨res, flags, some (operation.2, .token token)⟩
    let (_, effects) ← ({} : Uring).handleRequest {} cqe
    let s := { s with inflight := s.inflight.erase operation }
    (effects.foldlM applyEffect s).map (·.record (wakes operation.1 res flags effects))
  | _ => none

/-- A step into undefined behaviour. -/
def orUndefined (s : Machine L V X O) : Option (Machine L V X O) → Machine L V X O
  | some s' => s'
  | none => { s with control := .undefined }

/-- One event. The only awaiters of operations are the ones derived from `UringAwaiter`, and the
kernel sets no flag of a task message on the completion of an operation. -/
def step (s : Machine L V X O) : Event L V X O → Option (Machine L V X O)
  | .enqueue task =>
    match s.control with
    | .idle => some (s.emplaceBack task)
    | _ => none
  | .startPass =>
    match s.control with
    | .idle => some { s with control := .pass 0 }
    | _ => none
  | .visit =>
    match s.control with
    | .pass n => some (s.orUndefined (s.visit n))
    | _ => none
  | .exec instr =>
    match s.control, instr with
    | .running n f _, .awaitOperation op _ _ =>
      if uringAwaiterOp op then some (s.orUndefined (s.exec n f instr)) else none
    | .running n f _, _ => some (s.orUndefined (s.exec n f instr))
    | _, _ => none
  | .complete operation res flags =>
    match s.control with
    | .idle =>
      if operation ∈ s.inflight ∧ flags &&& netIoringCqeFTask = 0 then
        some (s.orUndefined (s.complete operation res flags))
      else none
    | _ => none

end Machine

end CoNet.Async
