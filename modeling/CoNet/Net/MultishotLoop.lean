import CoNet.Laws.Io.Uring
import CoNet.Net.MultishotListeners

/-!
# The main loop with one multishot listener

`SystemLoop::run` with the task of one listener among others. A pass of `TaskLoop::run` visits the
nodes of the queue one by one; between passes `process_batch` handles completions of the main ring.
The listener's task first awaits its accept request, which does not make it pending, and then runs
the loop of `multishot_accept_then`. What any other task does in a resumption is the event's to say,
within what it can do here: spawn tasks, pick workers, allocate, suspend or end. The state records
(ghost) the descriptors accepted, the requests made for them, the accept completions handled, and
whether the accept request was armed at each suspension of the listener's task.
-/

set_option autoImplicit false

namespace CoNet.Net

open CoNet.Io CoNet.Context

/-- `IORING_CQE_F_MORE`: the request will post more completions. -/
def ioringCqeFMore : BitVec 32 := 1 <<< 1

def hasMore (flags : BitVec 32) : Bool := flags &&& ioringCqeFMore != 0

/-- The flags of a node of the task queue. -/
structure TaskFlags where
  valid : Bool := true
  pending : Bool := false
  deriving DecidableEq, Repr

/-- Where the task of the listener is. -/
inductive ListenerPoint where
  /-- not yet in `multishot_accept_then`, or before its first `co_await` -/
  | before
  /-- at the `MultishotAcceptDirectAwaiter` -/
  | atAccept
  /-- at the `PendingAwaiter` -/
  | atPending
  deriving DecidableEq, Repr

inductive LoopControl where
  /-- outside of `TaskLoop::run` -/
  | between
  /-- in `TaskLoop::run`, at a node of the queue -/
  | pass (cursor : Nat)
  deriving DecidableEq, Repr

/-- The worker rings that `pick_worker` picks from. There is one at least. -/
structure WorkerRings where
  fds : List Int
  nonempty : fds ≠ []

/-- What a task does when it is resumed, outside of the loop of `multishot_accept_then`. -/
structure Activity where
  /-- its own flags afterwards -/
  flags : TaskFlags := {}
  /-- the tasks it spawned -/
  spawned : Nat := 0
  /-- the workers it picked, and what it allocated -/
  current : Int := -1
  heap : Nat := 0
  /-- The listener's task goes on to its accept request. -/
  arms : Bool := false
  deriving DecidableEq, Repr

structure MultishotLoop (φ : Type) where
  /-- the node of the listener's task -/
  listener : Nat
  point : ListenerPoint := .before
  tasks : List TaskFlags := [{}]
  control : LoopControl := .between
  /-- the static `multishot_token_` -/
  token : CompletionToken Nat := {}
  ring : Uring := {}
  current : Int := -1
  heap : Nat := 0
  /-- The kernel has the accept request, or will be submitted it before the loop waits. -/
  request : Bool := false
  accepted : List Int := []
  dispatched : List (Handoff Unit φ Nat Nat) := []
  handled : List (Int × BitVec 32) := []
  suspensions : List Bool := []

inductive LoopEvent (φ : Type) where
  | startPass
  /-- `TaskLoop::run` goes on to the node at its cursor. -/
  | visit (activity : Activity)
  /-- `process_batch` handles a completion of the accept request. -/
  | accept (res : Int) (flags : BitVec 32)
  /-- `process_batch` handles another completion. -/
  | other (cqe : Cqe Unit φ Nat Unit)

namespace MultishotLoop

variable {φ : Type}

/-- The task runs the loop of `multishot_accept_then` when it is resumed. -/
def serving (s : MultishotLoop φ) (node : Nat) : Bool := node == s.listener && s.point != .before

/-- The loop of `multishot_accept_then`, from its begin to the `PendingAwaiter`. -/
def serve (workers : WorkerRings) (func : φ) (s : MultishotLoop φ) (node : Nat) :
    Option (MultishotLoop φ) := do
  let (ring, current, heap, handoffs) ←
    mshotAcceptSendAwaitingFdAndProcess workers.fds s.ring s.current s.heap (some func)
  some { s with
    ring, current, heap
    tasks := s.tasks.modify node ({ · with pending := true })
    point := .atPending
    dispatched := s.dispatched ++ handoffs
    suspensions := s.suspensions ++ [s.request] }

/-- What a resumed task does that is not in the loop of `multishot_accept_then`. -/
def act (s : MultishotLoop φ) (node : Nat) (activity : Activity) : MultishotLoop φ :=
  { s with
    tasks := s.tasks.set node activity.flags ++ List.replicate activity.spawned {}
    current := activity.current, heap := activity.heap }

/-- The `MultishotAcceptDirectAwaiter`: its constructor prepares the request, and its
`await_suspend` leaves the task's flags as they are. -/
def arm (s : MultishotLoop φ) (node : Nat) (flags : TaskFlags) (activity : Activity) :
    MultishotLoop φ :=
  { s.act node { activity with flags } with
    token := MultishotListeners.awaitMultishotAccept s.token node
    point := .atAccept
    request := true
    suspensions := s.suspensions ++ [true] }

/-- `ScheduledTask::resume` of a node. -/
def resume (workers : WorkerRings) (func : φ) (s : MultishotLoop φ) (node : Nat)
    (flags : TaskFlags) (activity : Activity) : Option (MultishotLoop φ) :=
  if s.serving node then s.serve workers func node
  else if node = s.listener ∧ activity.arms then some (s.arm node flags activity)
  else some (s.act node activity)

/-- The loop of `TaskLoop::run`, at one node. -/
def visit (workers : WorkerRings) (func : φ) (s : MultishotLoop φ) (node : Nat)
    (activity : Activity) : Option (MultishotLoop φ) :=
  match s.tasks[node]? with
  | none => some { s with control := .between }
  | some flags =>
    if flags.valid && !flags.pending then
      (s.resume workers func node flags activity).map ({ · with control := .pass (node + 1) })
    else some { s with control := .pass (node + 1) }

/-- The tasks after the effects of a completion. -/
def applyEffects (tasks : List TaskFlags) (effects : List (Effect Unit φ Nat Unit)) :
    List TaskFlags :=
  effects.foldl
    (fun tasks => fun
      | .setPending node pending => tasks.modify node ({ · with pending })
      | .enqueue _ | .schedule _ _ => tasks ++ [{}]
      | _ => tasks) tasks

/-- The completion is of another request of the main ring: no descriptor accepted elsewhere is sent
to it, and no `Quit` before the loop stops. -/
def isOther (cqe : Cqe Unit φ Nat Unit) : Bool :=
  match Uring.tokenOp cqe with
  | some .multishotAccept | some .multishotAcceptFdReceiver | some .quit => false
  | _ => true

/-- One event. A completion of the accept request comes while the kernel has it, and sets no flag of
a task message. -/
def step (workers : WorkerRings) (func : φ) (s : MultishotLoop φ) :
    LoopEvent φ → Option (MultishotLoop φ)
  | .startPass =>
    match s.control with
    | .between => some { s with control := .pass 0 }
    | .pass _ => none
  | .visit activity =>
    match s.control with
    | .between => none
    | .pass node => s.visit workers func node activity
  | .accept res flags =>
    if s.control = .between ∧ s.request ∧ flags &&& netIoringCqeFTask = 0 then
      match s.ring.handleRequest s.token
          (MultishotListeners.acceptCqe s.token res flags : Cqe Unit φ Nat Unit) with
      | none => none
      | some (ring, effects) =>
        some { s with
          ring
          tasks := applyEffects s.tasks effects
          request := hasMore flags
          accepted := s.accepted ++ if 0 ≤ res then [res] else []
          handled := s.handled ++ [(res, flags)] }
    else none
  | .other cqe =>
    if s.control = .between ∧ isOther cqe then
      (s.ring.handleRequest s.token cqe).map fun (ring, effects) =>
        { s with ring, tasks := applyEffects s.tasks effects }
    else none

end MultishotLoop

end CoNet.Net
