import CoNet.Async.Task
import CoNet.Io.Uring
import CoNet.Lib.Transition

/-!
# Task objects (`async/task.hpp`, `async/scheduled_task.hpp`)

`Task` and `ScheduledTask` objects at their places, and the frames of their coroutines. An event is an
operation on objects, what the body of the running coroutine does next, or the completion of an
operation. A body may work on objects too, and resume others, so the resumptions in progress are a
stack. The `Task` of a coroutine that another one awaits is a temporary in the caller's frame.

What C++ or the class does not allow is no event: a coroutine is resumed when it is suspended and not
at its end, and destroyed when it is suspended, and a `Task` that is resumed or made a `ScheduledTask`
has a coroutine. Any other step into undefined behaviour (a null or dangling pointer followed, a result read
that is not there, a completion whose token is gone) leads to `Status.undefined`.
-/

set_option autoImplicit false

namespace CoNet.Async

open CoNet.Io

/-- Where a coroutine is. -/
inductive Site where
  /-- at `initial_suspend` -/
  | initial
  | executing
  /-- at the `co_await` of an awaiter derived from `UringAwaiter`, whose token is in the frame; `id`
  (ghost) tells operations apart -/
  | atOperation (id : Nat) (token : CompletionToken TaskId)
  /-- at the `co_await` of a `PendingAwaiter` -/
  | atPending
  /-- at the `co_await` of a `MultishotAcceptDirectAwaiter` -/
  | atMultishotAccept
  /-- at the `co_await` of a `Task`, whose temporary is in the frame -/
  | atTask (callee : FrameId)
  /-- at `final_suspend` -/
  | final
  deriving DecidableEq, Repr

namespace Site

/-- `done()` of the handle. -/
def done : Site → Bool
  | final => true
  | _ => false

/-- The coroutine is suspended at an awaiter that has set `awaiting_handle_` to it. -/
def awaits : Site → Bool
  | atOperation .. | atPending | atMultishotAccept => true
  | _ => false

/-- `resume()` of the handle goes on with the body. -/
def resumable : Site → Bool
  | initial => true
  | site => site.awaits

/-- The coroutine of the temporary `Task`. -/
def callee : Site → Option FrameId
  | atTask callee => some callee
  | _ => none

/-- The operation that the coroutine awaits. -/
def operation : Site → Option Nat
  | atOperation id _ => some id
  | _ => none

end Site

structure Coroutine (V X : Type) where
  promise : Promise V X
  site : Site
  deriving DecidableEq, Repr

/-- A `Task` object. -/
structure Task where
  handle : Option FrameId
  deriving DecidableEq, Repr

/-- `Task(Task&& rhs)`: the new object, and `rhs` after it. -/
def Task.moveConstruct (rhs : Task) : Task × Task := (⟨rhs.handle⟩, ⟨none⟩)

/-- A `ScheduledTask` object. -/
structure ScheduledTaskObject where
  task : Task
  awaitingHandle : Option FrameId
  valid : Bool := true
  pending : Bool := false
  deriving DecidableEq, Repr

namespace ScheduledTaskObject

/-- The member initialisers of both constructors. -/
def ofTask (task : Task) : ScheduledTaskObject := { task, awaitingHandle := task.handle }

/-- `ScheduledTask(ScheduledTask&&) = default`: the new object, and the old one after it. -/
def moveConstruct (rhs : ScheduledTaskObject) : ScheduledTaskObject × ScheduledTaskObject :=
  let (task, left) := rhs.task.moveConstruct
  ({ rhs with task }, { rhs with task := left })

end ScheduledTaskObject

/-- The object whose `resume` runs a coroutine. -/
inductive Resumer where
  | task (x : Nat)
  | scheduledTask (n : TaskId)
  deriving DecidableEq, Repr

/-- A `resume` in progress: the coroutine that runs in it, and (ghost) the one that no other awaits. -/
structure Activation where
  resumer : Resumer
  root : FrameId
  frame : FrameId
  deriving DecidableEq, Repr

inductive Status where
  | running
  /-- `std::terminate` -/
  | terminated
  | undefined
  deriving DecidableEq, Repr

structure TaskHeap (V X : Type) where
  frames : FrameId → Option (Coroutine V X) := fun _ => none
  nextFrame : FrameId := 0
  tasks : Nat → Option Task := fun _ => none
  scheduled : TaskId → Option ScheduledTaskObject := fun _ => none
  /-- the innermost `resume` first -/
  stack : List Activation := []
  /-- the operations that the kernel has not completed, with the frames of their tokens;
  `nextOperation` (ghost) numbers them -/
  inflight : List (Nat × FrameId) := []
  nextOperation : Nat := 0
  status : Status := .running
  /-- the frames that were destroyed, in order (ghost) -/
  destroyed : List FrameId := []

/-- An awaiter, as a body awaits it. -/
inductive Awaiting where
  | operation (op : Op)
  | pending
  | multishotAccept
  deriving DecidableEq, Repr

inductive HeapEvent (V X : Type) where
  /-- a coroutine is called, and its `Task` is kept at a place -/
  | call (x : Nat)
  /-- `Task(Task&& rhs)` -/
  | moveTask (dst src : Nat)
  /-- `Task::operator=(Task&& rhs)` -/
  | assignTask (lhs rhs : Nat)
  | resumeTask (x : Nat)
  | destroyTask (x : Nat)
  /-- `ScheduledTask(net::async::Task<>&& task)` -/
  | schedule (n : TaskId) (x : Nat)
  /-- `ScheduledTask(VoidTask&& task, Args&&... args)` -/
  | emplace (n : TaskId)
  | moveScheduled (dst src : TaskId)
  | assignScheduled (lhs rhs : TaskId)
  | resumeScheduled (n : TaskId)
  | destroyScheduled (n : TaskId)
  /-- The running body awaits an awaiter of the library. -/
  | suspend (awaiting : Awaiting)
  /-- The running body awaits a coroutine that it calls. -/
  | awaitTask
  | coReturn (v : V)
  /-- An exception leaves the running body. -/
  | throw (x : X)
  /-- `handle_request` of the completion of an operation, whose token is in a frame -/
  | complete (id : Nat) (f : FrameId) (res : Int) (flags : BitVec 32)
  deriving DecidableEq, Repr

namespace Awaiting

/-- The awaiters of operations are the ones derived from `UringAwaiter`. -/
def ofLibrary : Awaiting → Bool
  | operation op => uringAwaiterOp op
  | _ => true

/-- Where `await_suspend` leaves a coroutine of the chain of `n`. -/
def site (n : TaskId) (id : Nat) : Awaiting → Site
  | operation op => .atOperation id { op, chainTask := some n }
  | pending => .atPending
  | multishotAccept => .atMultishotAccept

/-- What `await_suspend` does to the task of the chain. -/
def suspend (t : ScheduledTaskObject) (caller : FrameId) : Awaiting → ScheduledTaskObject
  | operation _ | pending => { t with awaitingHandle := some caller, pending := true }
  | multishotAccept => { t with awaitingHandle := some caller }

/-- The operation that the awaiter has submitted, with the frame of its token. -/
def submitted (id : Nat) (f : FrameId) : Awaiting → List (Nat × FrameId)
  | operation _ => [(id, f)]
  | _ => []

end Awaiting

namespace TaskHeap

variable {V X : Type}

def setFrame (s : TaskHeap V X) (f : FrameId) (c : Coroutine V X) : TaskHeap V X :=
  { s with frames := Function.update s.frames f (some c) }

def setTask (s : TaskHeap V X) (x : Nat) (t : Option Task) : TaskHeap V X :=
  { s with tasks := Function.update s.tasks x t }

def setScheduled (s : TaskHeap V X) (n : TaskId) (t : Option ScheduledTaskObject) : TaskHeap V X :=
  { s with scheduled := Function.update s.scheduled n t }

def setStack (s : TaskHeap V X) (stack : List Activation) : TaskHeap V X := { s with stack }

/-- What the awaiter has submitted is in flight. -/
def submit (s : TaskHeap V X) (f : FrameId) (awaiting : Awaiting) : TaskHeap V X :=
  { s with
    inflight := s.inflight ++ awaiting.submitted s.nextOperation f
    nextOperation := s.nextOperation + 1 }

/-- A coroutine is called. -/
def newFrame (s : TaskHeap V X) (promise : Promise V X) (site : Site) : TaskHeap V X :=
  { s with
    frames := Function.update s.frames s.nextFrame (some ⟨promise, site⟩)
    nextFrame := s.nextFrame + 1 }

/-- A step into undefined behaviour. -/
def orUndefined (s : TaskHeap V X) : Option (TaskHeap V X) → TaskHeap V X
  | some s' => s'
  | none => { s with status := .undefined }

/-- A `resume` runs a coroutine of the chain. -/
def runs (s : TaskHeap V X) (root : FrameId) : Bool := s.stack.any (·.root == root)

/-- `Task::done()`, of a `Task` that has a coroutine. -/
def done (s : TaskHeap V X) (root : FrameId) : Bool := (s.frames root).any (·.site.done)

/-! ## Objects -/

/-- `Task::operator=`: `handle_ = std::exchange(rhs.handle_, nullptr)`. -/
def assignTask (s : TaskHeap V X) (lhs rhs : Nat) : Option (TaskHeap V X) := do
  let old := (← s.tasks rhs).handle
  let s := s.setTask rhs (some ⟨none⟩)
  let _ ← s.tasks lhs
  return s.setTask lhs (some ⟨old⟩)

/-- `ScheduledTask::operator=(ScheduledTask&&) = default`, one member after the other. -/
def assignScheduled (s : TaskHeap V X) (lhs rhs : TaskId) : Option (TaskHeap V X) := do
  let source ← s.scheduled rhs
  let s := s.setScheduled rhs (some { source with task := ⟨none⟩ })
  let target ← s.scheduled lhs
  let s := s.setScheduled lhs (some { target with task := source.task })
  let source ← s.scheduled rhs
  let target ← s.scheduled lhs
  return s.setScheduled lhs (some { target with
    awaitingHandle := source.awaitingHandle, valid := source.valid, pending := source.pending })

/-- The body of both constructors of `ScheduledTask`: `task_.set_chain_task_root(this)`. -/
def setChainTaskRoot (s : TaskHeap V X) (n : TaskId) (root : FrameId) : Option (TaskHeap V X) := do
  let c ← s.frames root
  return s.setFrame root { c with promise := { c.promise with thisChainTask := some n } }

/-- `destroy()` of a handle: the frame's temporaries are destroyed before it. What is left, and the
frames destroyed, in order. A chain has no more frames than there are. -/
def destroyFrames (frames : FrameId → Option (Coroutine V X)) :
    Nat → FrameId → Option ((FrameId → Option (Coroutine V X)) × List FrameId)
  | 0, _ => none
  | fuel + 1, f => do
    let c ← frames f
    match c.site.callee with
    | some callee =>
      let (frames, gone) ← destroyFrames frames fuel callee
      return (Function.update frames f none, gone ++ [f])
    | none => return (Function.update frames f none, [f])

/-- `~Task()` -/
def destroy (s : TaskHeap V X) (t : Task) : Option (TaskHeap V X) :=
  match t.handle with
  | none => some s
  | some root => do
    let (frames, gone) ← destroyFrames s.frames s.nextFrame root
    return { s with frames, destroyed := s.destroyed ++ gone }

/-! ## Resumptions -/

/-- `resume()` of a handle. -/
def resume (s : TaskHeap V X) (resumer : Resumer) (root : FrameId) (handle : Option FrameId) :
    Option (TaskHeap V X) := do
  let h ← handle
  let c ← s.frames h
  if c.site.resumable then
    return (s.setFrame h { c with site := .executing }).setStack (⟨resumer, root, h⟩ :: s.stack)
  else none

/-- `Task::resume` ends with the handle's `resume`; `ScheduledTask::resume` goes on to see whether
the task is done. -/
def afterResume (s : TaskHeap V X) : Resumer → Option (TaskHeap V X)
  | .task _ => some s
  | .scheduledTask n => do
    let t ← s.scheduled n
    let root ← t.task.handle
    let c ← s.frames root
    if c.site.done then return s.setScheduled n (some { t with valid := false })
    else return s

/-- `await_suspend` of an awaiter: it goes through `this_chain_task_`. -/
def suspend (s : TaskHeap V X) (a : Activation) (rest : List Activation) (awaiting : Awaiting) :
    Option (TaskHeap V X) := do
  let c ← s.frames a.frame
  let n ← c.promise.thisChainTask
  let t ← s.scheduled n
  let s := s.setFrame a.frame { c with site := awaiting.site n s.nextOperation }
  let s := s.setScheduled n (some (awaiting.suspend t a.frame))
  ((s.submit a.frame awaiting).setStack rest).afterResume a.resumer

/-- `await_suspend` of `TaskAwaier` sets the callee's `caller_` and `this_chain_task_`. -/
def awaitTask (s : TaskHeap V X) (a : Activation) (rest : List Activation) :
    Option (TaskHeap V X) := do
  let c ← s.frames a.frame
  let promise : Promise V X := { caller := some a.frame, thisChainTask := c.promise.thisChainTask }
  let suspended := s.setFrame a.frame { c with site := .atTask s.nextFrame }
  return (suspended.newFrame promise .executing).setStack ({ a with frame := s.nextFrame } :: rest)

/-- A caller goes on: `await_resume` reads the callee's result, and the temporary `Task` is
destroyed. -/
def resumeCaller (s : TaskHeap V X) (a : Activation) (rest : List Activation) (g : FrameId) :
    Option (TaskHeap V X) := do
  let caller ← s.frames g
  let f ← caller.site.callee
  let c ← s.frames f
  let _ ← c.promise.result
  let s := { s with frames := Function.update s.frames f none, destroyed := s.destroyed ++ [f] }
  return (s.setFrame g { caller with site := .executing }).setStack ({ a with frame := g } :: rest)

/-- A body ends. `FinalTaskAwaiter` goes to the caller, or back to `resume`; the exception of a frame
without a caller is rethrown from a `noexcept` function. -/
def finish (s : TaskHeap V X) (a : Activation) (rest : List Activation) (out : Outcome V X) :
    Option (TaskHeap V X) := do
  let c ← s.frames a.frame
  let promise := c.promise.finished out
  let s := s.setFrame a.frame ⟨promise, .final⟩
  match promise.caller, promise.exp with
  | some g, _ => s.resumeCaller a rest g
  | none, some _ => return { s with status := .terminated }
  | none, none => (s.setStack rest).afterResume a.resumer

/-! ## Completions -/

/-- The effects of a completion on frames and tasks. -/
def applyEffect (s : TaskHeap V X) :
    Effect Unit Unit TaskId FrameId → Option (TaskHeap V X)
  | .storeResult f res flags => do
    let c ← s.frames f
    match c.site with
    | .atOperation id token =>
      return s.setFrame f
        { c with site := .atOperation id { token with cqeRes := res, cqeFlags := flags } }
    | _ => none
  | .setPending n pending => do
    let t ← s.scheduled n
    return s.setScheduled n (some { t with pending })
  | _ => some s

/-- `handle_request` of the completion whose `user_data` is the token of an operation. The token is
gone when the coroutine went on or its frame was destroyed. -/
def complete (s : TaskHeap V X) (id : Nat) (f : FrameId) (res : Int) (flags : BitVec 32) :
    Option (TaskHeap V X) := do
  match (← s.frames f).site with
  | .atOperation current token =>
    if current = id then
      let cqe : Cqe Unit Unit TaskId FrameId := ⟨res, flags, some (f, .token token)⟩
      let (_, effects) ← ({} : Uring).handleRequest {} cqe
      effects.foldlM applyEffect s
    else none
  | _ => none

/-! ## Events -/

/-- A step of the running body. -/
def inBody (s : TaskHeap V X)
    (body : Activation → List Activation → Option (TaskHeap V X)) : Option (TaskHeap V X) :=
  match s.stack with
  | [] => none
  | a :: rest => some (s.orUndefined (body a rest))

/-- One event. A constructor needs a place without an object, every other operation its objects. The
kernel sets no flag of a task message on the completion of an operation. -/
def act (s : TaskHeap V X) : HeapEvent V X → Option (TaskHeap V X)
  | .call x =>
    match s.tasks x with
    | none => some ((s.newFrame {} .initial).setTask x (some ⟨some s.nextFrame⟩))
    | some _ => none
  | .moveTask dst src =>
    match s.tasks dst, s.tasks src with
    | none, some t =>
      some ((s.setTask dst (some t.moveConstruct.1)).setTask src (some t.moveConstruct.2))
    | _, _ => none
  | .assignTask lhs rhs => s.assignTask lhs rhs
  | .resumeTask x =>
    match (s.tasks x).bind (·.handle) with
    | some root =>
      if s.runs root || s.done root then none
      else some (s.orUndefined (s.resume (.task x) root (some root)))
    | none => none
  | .destroyTask x =>
    match s.tasks x with
    | some t =>
      if t.handle.any s.runs then none
      else some (s.orUndefined ((s.destroy t).map (·.setTask x none)))
    | none => none
  | .schedule n x =>
    match s.scheduled n, s.tasks x with
    | none, some ⟨some root⟩ =>
      let (task, left) := (Task.mk (some root)).moveConstruct
      let s := (s.setTask x (some left)).setScheduled n (some (.ofTask task))
      some (s.orUndefined (s.setChainTaskRoot n root))
    | _, _ => none
  | .emplace n =>
    match s.scheduled n with
    | none =>
      let root := s.nextFrame
      let s := (s.newFrame {} .initial).setScheduled n (some (.ofTask ⟨some root⟩))
      some (s.orUndefined (s.setChainTaskRoot n root))
    | some _ => none
  | .moveScheduled dst src =>
    match s.scheduled dst, s.scheduled src with
    | none, some t =>
      some ((s.setScheduled dst (some t.moveConstruct.1)).setScheduled src (some t.moveConstruct.2))
    | _, _ => none
  | .assignScheduled lhs rhs => s.assignScheduled lhs rhs
  | .resumeScheduled n =>
    match s.scheduled n with
    | some { task := ⟨some root⟩, awaitingHandle, .. } =>
      if s.runs root || s.done root then none
      else some (s.orUndefined (s.resume (.scheduledTask n) root awaitingHandle))
    | some { task := ⟨none⟩, .. } => some (s.orUndefined none) -- `task_.done()` of a null handle
    | none => none
  | .destroyScheduled n =>
    match s.scheduled n with
    | some t =>
      if t.task.handle.any s.runs then none
      else some (s.orUndefined ((s.destroy t.task).map (·.setScheduled n none)))
    | none => none
  | .suspend awaiting =>
    if awaiting.ofLibrary then s.inBody fun a rest => s.suspend a rest awaiting else none
  | .awaitTask => s.inBody s.awaitTask
  | .coReturn v => s.inBody fun a rest => s.finish a rest (.value v)
  | .throw x => s.inBody fun a rest => s.finish a rest (.thrown x)
  | .complete id f res flags =>
    if s.inflight.contains (id, f) ∧ flags &&& netIoringCqeFTask = 0 then
      let s := { s with inflight := s.inflight.erase (id, f) }
      some (s.orUndefined (s.complete id f res flags))
    else none

/-- Nothing happens after the process has ended, or in undefined behaviour. -/
def step (s : TaskHeap V X) (e : HeapEvent V X) : Option (TaskHeap V X) :=
  match s.status with
  | .running => s.act e
  | _ => none

end TaskHeap

end CoNet.Async
