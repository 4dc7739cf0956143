import CoNet.Context.ParallelSpawn
import CoNet.Net.MultishotLoop

/-!
# Sends that can fail

The three ways in which the main thread sends work to a worker: a task (`parallel_spawn`), a task with
a connection (its other overload), and a task for an accepted descriptor
(`mshot_accept_send_awaiting_fd_and_process`). No completion of one uses what a completion of another
does, so each has its part of the queues, in order, with its fields of the rings and the slots it
uses. They share the index of the next worker; and the destructor of a connection that a dispatch made
closes a slot of the main ring, whosever it is.

A request that fails posts a completion with a negative result, and what is linked behind it is
cancelled. `user_data` that the source does not set is null. No ring is told to stop: runs with `terminate`,
in which a ring consumes completions behind a `Quit` message unhandled, are left out. The state says (ghost)
which tasks were spawned and dispatched and what became of them.
-/

set_option autoImplicit false

namespace CoNet.Context

open CoNet.Io CoNet.Net

variable {τ φ χ κ : Type}

def ECANCELED : Int := 125

/-- The completions of linked requests of which the first one fails. A request that skips its
completion on success posts it, and skips those of the requests that are cancelled with it. -/
def failureCqes (res : Int) : List (Sqe τ φ χ κ) → List (Cqe τ φ χ κ)
  | [] => []
  | sqe :: rest =>
    ⟨res, 0, sqe.userData⟩ ::
      if sqe.cqeSkipSuccess then []
      else rest.map fun (cancelled : Sqe τ φ χ κ) => ⟨-ECANCELED, 0, cancelled.userData⟩

/-- The ring a message is for. -/
def sqeTarget (sqe : Sqe τ φ χ κ) : Option Int :=
  match sqe.op with
  | .msgRingFdAlloc ring _ _ | .msgRing ring _ _ _ => some ring
  | .closeDirect _ => none

/-- Completions are posted to a ring. -/
def postTo {γ : Type} (cq : Int → List γ) (ring : Int) (cqes : List γ) : Int → List γ :=
  Function.update cq ring (cq ring ++ cqes)

/-- The completion is of a failure, and handling it did more than free an object. -/
def actsOnFailure (cqe : Cqe τ φ χ κ) (effects : List (Effect τ φ χ κ)) : Bool :=
  cqe.res < 0 && effects.any fun
    | .delete _ => false
    | _ => true

/-! ## Tasks -/

/-- What `parallel_spawn` of a task allocates. Tasks are numbered. -/
inductive TaskAddr where
  | message (i : Nat)
  | token (i : Nat)
  deriving DecidableEq, Repr

abbrev TaskSqe := Sqe Nat Empty Unit TaskAddr

abbrev TaskCqe := Cqe Nat Empty Unit TaskAddr

structure Tasks where
  /-- each task with its worker -/
  spawned : List (Int × Nat) := []
  sq : List TaskSqe := []
  cq : Int → List TaskCqe := fun _ => []
  /-- the tasks enqueued, with the ring -/
  enqueued : List (Int × Nat) := []
  /-- the tasks whose failure the main thread acted upon -/
  acted : List Nat := []

inductive TaskEvent where
  | spawn
  /-- The kernel executes a request. -/
  | kernel (k : Nat)
  /-- A request fails. -/
  | fail (k : Nat) (res : Int)
  /-- The loop of a ring handles its next completion. -/
  | handle (ring : Int)
  deriving DecidableEq, Repr

namespace Tasks

def spawn (rings : Rings) (current : Int) (s : Tasks) : Option (Int × Tasks) := do
  let i := s.spawned.length
  let (current, sqe) ← parallelSpawnTask rings.workers current (.message i) (.token i) i
  let worker ← sqeTarget sqe
  some (current, { s with spawned := s.spawned ++ [(worker, i)], sq := s.sq ++ [sqe] })

def kernelStep (rings : Rings) (s : Tasks) (k : Nat) : Option Tasks := do
  let sqe ← s.sq[k]?
  match sqe.op with
  | .msgRing target len data flags =>
    let cq := postTo s.cq target [⟨len, flags, some data⟩]
    some { s with
      sq := s.sq.eraseIdx k
      cq := if sqe.cqeSkipSuccess then cq else postTo cq rings.main [⟨0, 0, sqe.userData⟩] }
  | _ => none

def failStep (rings : Rings) (s : Tasks) (k : Nat) (res : Int) : Option Tasks := do
  let sqe ← s.sq[k]?
  if res < 0 then
    some { s with sq := s.sq.eraseIdx k, cq := postTo s.cq rings.main (failureCqes res [sqe]) }
  else none

/-- The task whose token a completion has. -/
def tokenOf (cqe : TaskCqe) : Option Nat :=
  match cqe.userData with
  | some (.token i, _) => some i
  | _ => none

def enqueues (ring : Int) : Effect Nat Empty Unit TaskAddr → Option (Int × Nat)
  | .enqueue i => some (ring, i)
  | _ => none

def handleStep (s : Tasks) (ring : Int) : Option Tasks :=
  match s.cq ring with
  | [] => none
  | cqe :: rest => do
    -- the handling of a task's message uses no field of the ring
    let (_, effects) ← ({} : Uring).handleRequest {} cqe
    some { s with
      cq := Function.update s.cq ring rest
      enqueued := s.enqueued ++ effects.filterMap (enqueues ring)
      acted := s.acted ++ if actsOnFailure cqe effects then (tokenOf cqe).toList else [] }

def step (rings : Rings) (current : Int) (s : Tasks) : TaskEvent → Option (Int × Tasks)
  | .spawn => s.spawn rings current
  | .kernel k => (s.kernelStep rings k).map (current, ·)
  | .fail k res => (s.failStep rings k res).map (current, ·)
  | .handle ring => (s.handleStep ring).map (current, ·)

end Tasks

/-! ## Tasks with a connection -/

structure Handovers (φ : Type) where
  system : System φ := {}
  /-- the connections whose failure the main thread acted upon -/
  acted : List Nat := []

inductive HandoverEvent (φ : Type) where
  | system (e : SystemEvent φ)
  /-- A message of `parallel_spawn` fails. -/
  | fail (k : Nat) (res : Int)

namespace Handovers

/-- What is left of a submission begins with a message of `parallel_spawn`. -/
def isSpawn (c : Submission φ) : Bool :=
  match c.chain with
  | [] => false
  | sqe :: _ =>
    match sqe.op with
    | .msgRingFdAlloc _ _ _ | .msgRing _ _ (_, .ringMsgConnTaskHelper _ _) _ => true
    | _ => false

def failStep (s : Handovers φ) (k : Nat) (res : Int) : Option (Handovers φ) := do
  let c ← s.system.sq[k]?
  if isSpawn c ∧ res < 0 then
    some { s with
      system := { s.system with
        sq := s.system.sq.eraseIdx k
        cq := postTo s.system.cq c.ring (failureCqes res c.chain) } }
  else none

/-- The connection whose sender token a completion has. -/
def senderOf (cqe : Cqe Unit φ Unit Addr) : Option Nat :=
  match cqe.userData with
  | some (⟨.sender, a⟩, _) => some a
  | _ => none

/-- The connections whose failure is acted upon in a step. -/
def acts (s : System φ) : SystemEvent φ → List Nat
  | .handle ring =>
    match s.cq ring with
    | [] => []
    | cqe :: _ =>
      match (s.uring ring).handleRequest {} cqe with
      | some (_, effects) => if actsOnFailure cqe effects then (senderOf cqe).toList else []
      | none => []
  | _ => []

def step (rings : Rings) (current : Int) (s : Handovers φ) :
    HandoverEvent φ → Option (Int × Handovers φ)
  | .system e => do
    let system ← System.step rings { s.system with current } e
    some (system.current, { system, acted := s.acted ++ acts s.system e })
  | .fail k res => (s.failStep k res).map (current, ·)

end Handovers

/-! ## Tasks for accepted descriptors -/

abbrev DispatchSqe (φ : Type) := Sqe Empty (Option φ) Unit Nat

abbrev DispatchCqe (φ : Type) := Cqe Empty (Option φ) Unit Nat

/-- What is left of the linked requests for a connection. -/
structure Chain (φ : Type) where
  conn : Nat
  sqes : List (DispatchSqe φ)

/-- A completion, marked with the connection whose request failed. -/
structure Posting (φ : Type) where
  failed : Option Nat := none
  cqe : DispatchCqe φ

/-- What happened to an accepted connection. -/
inductive DispatchNote (φ : Type) where
  /-- The kernel installed the connection in a slot of this ring. -/
  | installed (conn : Nat) (ring slot : Int)
  /-- The connection's task message scheduled its function with an object. -/
  | scheduled (conn : Nat) (ring : Int) (func : Option φ) (object : TcpConnection)
  /-- The kernel closed the connection's slot. -/
  | closed (conn : Nat) (ring slot : Int)
  deriving DecidableEq

/-- The main ring's accepted connections are numbered, and dispatched in that order. -/
structure Dispatches (φ : Type) where
  /-- the main ring's slot of each connection -/
  accepted : List Int := []
  /-- the worker and the function of each connection dispatched -/
  sent : List (Int × φ) := []
  /-- the next address. The static `multishot_token_` is at 0. -/
  heap : Nat := 1
  sq : List (Chain φ) := []
  cq : Int → List (Posting φ) := fun _ => []
  uring : Int → Uring := fun _ => {}
  table : Int → Int → Option Nat := fun _ _ => none
  log : List (DispatchNote φ) := []
  /-- the connections whose failure the main thread acted upon -/
  acted : List Nat := []

inductive DispatchEvent (φ : Type) where
  /-- The kernel accepts a connection into a slot. -/
  | accept (slot : Int)
  | dispatch (func : φ)
  /-- The kernel executes the next request of a chain. `slot` is the one it allocates. -/
  | kernel (k : Nat) (slot : Int)
  /-- The next request of a chain fails. -/
  | fail (k : Nat) (res : Int)
  /-- The loop of a ring handles its next completion. -/
  | handle (ring : Int)

/-- The static `multishot_token_`, armed. -/
def multishotToken : CompletionToken Unit := { op := .multishotAccept, chainTask := some () }

/-- The completion of an accept. -/
def acceptCqe (slot : Int) : DispatchCqe φ :=
  ⟨slot, ioringCqeFMore, some (0, .token multishotToken)⟩

namespace Dispatches

/-- The connection for which a token at this address was made. -/
def connAt (addr : Nat) : Nat := (addr - 1) / 2

def accept (rings : Rings) (s : Dispatches φ) (slot : Int) : Option (Dispatches φ) :=
  if 0 ≤ slot ∧ s.table rings.main slot = none then
    some { s with
      accepted := s.accepted ++ [slot]
      table := System.setSlot s.table rings.main slot (some s.accepted.length)
      cq := postTo s.cq rings.main [{ cqe := acceptCqe slot }] }
  else none

def dispatch (rings : Rings) (current : Int) (s : Dispatches φ) (func : φ) :
    Option (Int × Dispatches φ) := do
  let (uring, current, heap, handoffs) ←
    mshotAcceptSendAwaitingFdAndProcess rings.workers (s.uring rings.main) current s.heap (some func)
  some (current, { s with
    heap
    uring := Function.update s.uring rings.main uring
    sq := s.sq ++ (handoffs.zipIdx s.sent.length).map fun (h, a) =>
      ⟨a, [h.sendFd, h.sendTask, h.closeFd]⟩
    sent := s.sent ++ handoffs.filterMap fun (h : Handoff Empty φ Unit Nat) =>
      (sqeTarget h.sendFd).map (·, func) })

/-- The kernel executes a request of the main ring. -/
def execute (rings : Rings) (s : Dispatches φ) (sqe : DispatchSqe φ) (slot : Int) :
    Option (Dispatches φ) :=
  let complete (s : Dispatches φ) : Dispatches φ :=
    if sqe.cqeSkipSuccess then s
    else { s with cq := postTo s.cq rings.main [{ cqe := ⟨0, 0, sqe.userData⟩ }] }
  match sqe.op with
  | .msgRingFdAlloc target fd data =>
    match s.table rings.main fd, s.table target slot with
    | some a, none =>
      if 0 ≤ slot then
        some (complete { s with
          table := System.setSlot s.table target slot (some a)
          cq := postTo s.cq target [{ cqe := ⟨slot, 0, some data⟩ }]
          log := s.log ++ [.installed a target slot] })
      else none
    | _, _ => none
  | .msgRing target len data flags =>
    some (complete { s with cq := postTo s.cq target [{ cqe := ⟨len, flags, some data⟩ }] })
  | .closeDirect fd =>
    some (complete { s with
      table := System.setSlot s.table rings.main fd none
      log := s.log ++ (s.table rings.main fd).toList.map fun a => .closed a rings.main fd })

/-- What is left of a chain. -/
def remaining (c : Chain φ) (rest : List (DispatchSqe φ)) : List (Chain φ) :=
  if rest.isEmpty then [] else [{ c with sqes := rest }]

def kernelStep (rings : Rings) (s : Dispatches φ) (k : Nat) (slot : Int) :
    Option (Dispatches φ) := do
  let c ← s.sq[k]?
  match c.sqes with
  | [] => none
  | sqe :: rest => execute rings { s with sq := s.sq.eraseIdx k ++ remaining c rest } sqe slot

def failStep (rings : Rings) (s : Dispatches φ) (k : Nat) (res : Int) :
    Option (Dispatches φ) := do
  let c ← s.sq[k]?
  if res < 0 then
    some { s with
      sq := s.sq.eraseIdx k
      cq := postTo s.cq rings.main
        ((failureCqes res c.sqes).map fun cqe => { failed := some c.conn, cqe }) }
  else none

/-- The notes of an effect of a completion. -/
def effectNotes (ring : Int) (cqe : DispatchCqe φ) :
    Effect Empty (Option φ) Unit Nat → List (DispatchNote φ)
  | .schedule func object =>
    (cqe.userData.map fun data => .scheduled (connAt data.1) ring func object).toList
  | _ => []

def handleStep (s : Dispatches φ) (ring : Int) : Option (Dispatches φ) :=
  match s.cq ring with
  | [] => none
  | p :: rest => do
    let (uring, effects) ← (s.uring ring).handleRequest multishotToken p.cqe
    some { s with
      cq := Function.update s.cq ring rest
      uring := Function.update s.uring ring uring
      log := s.log ++ effects.flatMap (effectNotes ring p.cqe)
      acted := s.acted ++ if actsOnFailure p.cqe effects then p.failed.toList else [] }

def step (rings : Rings) (current : Int) (s : Dispatches φ) :
    DispatchEvent φ → Option (Int × Dispatches φ)
  | .accept slot => (s.accept rings slot).map (current, ·)
  | .dispatch func => s.dispatch rings current func
  | .kernel k slot => (s.kernelStep rings k slot).map (current, ·)
  | .fail k res => (s.failStep rings k res).map (current, ·)
  | .handle ring => (s.handleStep ring).map (current, ·)

/-- A task was scheduled with this connection object. -/
def wasScheduled (s : Dispatches φ) (ring : Int) (object : TcpConnection) : Bool :=
  s.log.any fun
    | .scheduled _ r _ c => r == ring && c == object
    | _ => false

end Dispatches

/-! ## All of them -/

structure Deliveries (φ : Type) where
  /-- `current_worker_uring_idx_` -/
  current : Int := -1
  tasks : Tasks := {}
  handovers : Handovers φ := {}
  dispatches : Dispatches φ := {}
  /-- the main ring's slots that destructors on the workers have submitted closes of -/
  closes : List Int := []

inductive DeliveryEvent (φ : Type) where
  | task (e : TaskEvent)
  | handover (e : HandoverEvent φ)
  | dispatch (e : DispatchEvent φ)
  /-- A worker destroys the connection of a task that a dispatch made. -/
  | destroy (ring : Int) (object : TcpConnection)
  /-- The kernel executes the close of a destructor. -/
  | close (k : Nat)

namespace Deliveries

/-- `maccTaskConnection` leaves `ownership_in_sys_ring_` set: the slot's number is closed on the main
ring. -/
def destroyStep (s : Deliveries φ) (ring : Int) (object : TcpConnection) :
    Option (Deliveries φ) :=
  match object.destroy with
  | some ⟨.sysUringLoop, .closeDirect, fd⟩ =>
    if s.dispatches.wasScheduled ring object then some { s with closes := s.closes ++ [fd] }
    else none
  | _ => none

def closeStep (rings : Rings) (s : Deliveries φ) (k : Nat) : Option (Deliveries φ) := do
  let fd ← s.closes[k]?
  let system := s.handovers.system
  let dispatches := s.dispatches
  some { s with
    closes := s.closes.eraseIdx k
    handovers := { s.handovers with
      system := { system with
        table := System.setSlot system.table rings.main fd none
        log := system.log ++
          (system.table rings.main fd).toList.map fun a => .closed a rings.main fd } }
    dispatches := { dispatches with
      table := System.setSlot dispatches.table rings.main fd none
      log := dispatches.log ++
        (dispatches.table rings.main fd).toList.map fun a => .closed a rings.main fd } }

def step (rings : Rings) (s : Deliveries φ) : DeliveryEvent φ → Option (Deliveries φ)
  | .task e => do
    let (current, tasks) ← s.tasks.step rings s.current e
    some { s with current, tasks }
  | .handover e => do
    let (current, handovers) ← s.handovers.step rings s.current e
    some { s with current, handovers }
  | .dispatch e => do
    let (current, dispatches) ← s.dispatches.step rings s.current e
    some { s with current, dispatches }
  | .destroy ring object => s.destroyStep ring object
  | .close k => s.closeStep rings k

end Deliveries

end CoNet.Context
