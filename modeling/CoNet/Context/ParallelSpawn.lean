import CoNet.Context.Send
import CoNet.Net.MainThread

/-!
# Connections handed to workers by `parallel_spawn`

The main ring and the worker rings, each with its table of direct descriptors, the requests submitted
to it, its completions in the order posted, and the fields of its `Uring`. The main thread accepts
connections, operates on their objects and spawns tasks with them; the kernel executes submitted
requests, in any order but for links; each loop handles its completions one by one; and a worker
destroys the connection of a task it was given. Sends succeed, and slots are allocated free. No ring is
told to stop: `terminate`, after which completions are consumed unhandled, is left out.

A heap object is named by its role and (ghost) by the accepted connection it is about; a submission
and a table slot are marked with their connection in the same way. The log (ghost) has what happened
to each connection.
-/

set_option autoImplicit false

namespace CoNet.Context

open CoNet.Io CoNet.Net

/-- What a heap object of a hand-over is for. -/
inductive Role where
  | sender | receiver | helper | notice
  deriving DecidableEq, Repr

/-- The address of a heap object. -/
structure Addr where
  role : Role
  conn : Nat
  deriving DecidableEq, Repr

/-- The descriptors of the rings. They are open at the same time, so they are different. -/
structure Rings where
  main : Int
  workers : List Int
  main_not_mem : main ∉ workers

variable {φ : Type}

/-- Linked requests submitted to a ring, executed in order. -/
structure Submission (φ : Type) where
  ring : Int
  about : Option Nat
  chain : List (Sqe Unit φ Unit Addr)

/-- What happened to an accepted connection. -/
inductive Note (φ : Type) where
  | spawned (conn : Nat) (worker : Int) (func : φ)
  /-- The kernel installed the connection in a slot of this ring. -/
  | installed (conn : Nat) (ring slot : Int)
  /-- `direct_map_[key] = slot`, with the entry that was there -/
  | stored (conn : Nat) (ring key slot : Int) (previous : Option Int)
  /-- a `RingFuncTask` completion, with the entry it finds and the connection in that slot -/
  | taken (conn : Nat) (ring : Int) (found : Option Int) (holder : Option Nat)
  | scheduled (conn : Nat) (ring : Int) (func : φ) (object : TcpConnection)
  /-- the close of the main ring's slot, on the worker's notice -/
  | closeRequested (conn : Nat) (fd : Int)
  /-- the close of the main ring's slot, by a connection object -/
  | closedByObject (conn : Nat) (fd : Int)
  /-- The kernel closed a slot that was the connection's. -/
  | closed (conn : Nat) (ring slot : Int)

structure System (φ : Type) where
  main : MainThread := .init
  /-- `current_worker_uring_idx_` -/
  current : Int := -1
  sq : List (Submission φ) := []
  cq : Int → List (Cqe Unit φ Unit Addr) := fun _ => []
  uring : Int → Uring := fun _ => {}
  table : Int → Int → Option Nat := fun _ _ => none
  log : List (Note φ) := []

inductive SystemEvent (φ : Type) where
  /-- an operation of the main thread on connection objects -/
  | main (e : MainEvent)
  /-- `parallel_spawn` with the connection of an object -/
  | spawn (o : ObjId) (func : φ)
  /-- The kernel executes the next request of a submission. `slot` is the one it allocates. -/
  | kernel (k : Nat) (slot : Int)
  /-- The loop of a ring handles its next completion. -/
  | handle (ring : Int)
  /-- A worker destroys the connection of a task it was given. -/
  | destroy (ring : Int) (conn : Nat) (object : TcpConnection)

/-- The objects `parallel_spawn` allocates. -/
def spawnAddrs (a : Nat) : SpawnAddrs Addr where
  helper := ⟨.helper, a⟩
  sender := ⟨.sender, a⟩
  receiver := ⟨.receiver, a⟩

/-- The request of `close_direct_socket`. -/
def closeSqe (fd : Int) : Sqe Unit φ Unit Addr :=
  { op := .closeDirect fd, cqeSkipSuccess := true }

/-- The request of `notify_main_ring_release_fd`. -/
def noticeSqe (mainRing : Int) (a : Nat) (fd : Int) : Sqe Unit φ Unit Addr :=
  { op := .msgRing mainRing fd (⟨.notice, a⟩, .token { op := .mainRingCloseDirectSocket }) 0
    cqeSkipSuccess := true }

/-- The ring a spawn sends to. -/
def SpawnSqes.worker {τ φ χ κ : Type} (sqes : SpawnSqes τ φ χ κ) : Option Int :=
  match sqes.sendFd.op with
  | .msgRingFdAlloc worker _ _ => some worker
  | _ => none

/-- The connection that the object of a completion is about. The sender's own completion tells
nothing. -/
def aboutCqe (cqe : Cqe Unit φ Unit Addr) : Option Nat :=
  match cqe.userData with
  | some (⟨.sender, _⟩, _) => none
  | some (⟨_, a⟩, _) => some a
  | none => none

namespace System

/-- A slot of a ring's table is set. -/
def setSlot (table : Int → Int → Option Nat) (ring slot : Int) (conn : Option Nat) :
    Int → Int → Option Nat :=
  Function.update table ring (Function.update (table ring) slot conn)

/-- A completion is posted to a ring. -/
def post (s : System φ) (ring : Int) (cqe : Cqe Unit φ Unit Addr) : System φ :=
  { s with cq := Function.update s.cq ring (s.cq ring ++ [cqe]) }

/-- The completion of a request itself. -/
def complete (s : System φ) (ring : Int) (sqe : Sqe Unit φ Unit Addr) : System φ :=
  if sqe.cqeSkipSuccess then s else s.post ring ⟨0, 0, sqe.userData⟩

/-- The closes that destructors submitted in a step of the main thread. -/
def newCloses (before after : MainThread) : List CloseRecord :=
  after.closes.drop before.closes.length

/-- The main thread's table after an operation: an accepted connection takes a free slot. -/
def acceptSlot (rings : Rings) (s : System φ) : MainEvent → Option (Int → Int → Option Nat)
  | .accept _ slot =>
    match s.table rings.main slot with
    | none => some (setSlot s.table rings.main slot (some s.main.accepted.length))
    | some _ => none
  | _ => some s.table

def mainStep (rings : Rings) (s : System φ) (e : MainEvent) : Option (System φ) := do
  let table ← s.acceptSlot rings e
  let main ← s.main.step e
  let closes := newCloses s.main main
  some { s with
    main, table
    sq := s.sq ++ closes.map fun r => ⟨rings.main, r.held, [closeSqe r.fd]⟩
    log := s.log ++ closes.filterMap fun r => r.held.map fun a => .closedByObject a r.fd }

/-- `parallel_spawn`. An object that holds no connection has descriptor -1 to send, or throws. -/
def spawn (rings : Rings) (s : System φ) (o : ObjId) (func : φ) : Option (System φ) := do
  let conn ← s.main.objects o
  let a ← s.main.ledger.holds o
  let (_, current, sqes) ← parallelSpawn rings.workers s.current (spawnAddrs a) func conn
  let main ← s.main.step (.release o)
  let worker ← sqes.worker
  some { s with
    main, current
    sq := s.sq ++ [⟨rings.main, some a, [sqes.sendFd, sqes.sendTask]⟩]
    log := s.log ++ [.spawned a worker func] }

/-- The kernel executes a request of a ring. -/
def execute (s : System φ) (ring : Int) (sqe : Sqe Unit φ Unit Addr) (slot : Int) :
    Option (System φ) :=
  match sqe.op with
  | .msgRingFdAlloc target fd data =>
    match s.table ring fd, s.table target slot with
    | some a, none =>
      if 0 ≤ slot then
        let installed : System φ := { s with
          table := setSlot s.table target slot (some a), log := s.log ++ [.installed a target slot] }
        some ((installed.post target ⟨slot, 0, some data⟩).complete ring sqe)
      else none
    | _, _ => none
  | .msgRing target len data flags => some ((s.post target ⟨len, flags, some data⟩).complete ring sqe)
  | .closeDirect fd =>
    -- a slot number is closed in the table (`prepCloseDirect_slot`); -1 is none of it
    -- (`prepCloseDirect_neg_one`)
    if 0 ≤ fd then
      let closed : System φ := { s with
        table := setSlot s.table ring fd none
        log := s.log ++ (s.table ring fd).toList.map fun a => .closed a ring fd }
      some (closed.complete ring sqe)
    else some (s.complete ring sqe)

/-- What is left of a submission. -/
def remaining (c : Submission φ) (rest : List (Sqe Unit φ Unit Addr)) : List (Submission φ) :=
  if rest.isEmpty then [] else [{ c with chain := rest }]

def kernelStep (s : System φ) (k : Nat) (slot : Int) : Option (System φ) :=
  match s.sq[k]? with
  | none => none
  | some c =>
    match c.chain with
    | [] => none
    | sqe :: rest =>
      (s.execute c.ring sqe slot).map fun s' =>
        { s' with sq := s.sq.take k ++ remaining c rest ++ s.sq.drop (k + 1) }

/-- What handling a completion submits. -/
def submissions (rings : Rings) (ring : Int) (a : Nat) :
    Effect Unit φ Unit Addr → List (Submission φ)
  | .notifyMainRingReleaseFd fd => [⟨ring, some a, [noticeSqe rings.main a fd]⟩]
  | .closeDirectSocket fd => [⟨ring, some a, [closeSqe fd]⟩]
  | _ => []

/-- What a completion finds in its ring's map. -/
def lookupNotes (s : System φ) (ring : Int) (a : Nat) (cqe : Cqe Unit φ Unit Addr) :
    List (Note φ) :=
  match cqe.userData with
  | some (⟨.receiver, _⟩, .token token) =>
    [.stored a ring token.cqeRes cqe.res ((s.uring ring).directMap token.cqeRes)]
  | some (_, .ringMsgConnTaskHelper _ fd) =>
    let found := (s.uring ring).directMap fd
    [.taken a ring found (found.bind (s.table ring))]
  | _ => []

def effectNotes (ring : Int) (a : Nat) : Effect Unit φ Unit Addr → List (Note φ)
  | .schedule func object => [.scheduled a ring func object]
  | .closeDirectSocket fd => [.closeRequested a fd]
  | _ => []

def handleStep (rings : Rings) (s : System φ) (ring : Int) : Option (System φ) :=
  match s.cq ring with
  | [] => none
  | cqe :: rest => do
    let (uring, effects) ← (s.uring ring).handleRequest {} cqe
    let handled : System φ := { s with
      cq := Function.update s.cq ring rest, uring := Function.update s.uring ring uring }
    match aboutCqe cqe with
    | none => some handled
    | some a =>
      some { handled with
        sq := s.sq ++ effects.flatMap (submissions rings ring a)
        log := s.log ++ s.lookupNotes ring a cqe ++ effects.flatMap (effectNotes ring a) }

/-- The task was scheduled with this connection object. -/
def wasScheduled (s : System φ) (ring : Int) (a : Nat) (object : TcpConnection) : Bool :=
  s.log.any fun
    | .scheduled b r _ c => b == a && r == ring && c == object
    | _ => false

/-- The destructor of a scheduled connection closes its slot, which it does once. -/
def destroyStep (rings : Rings) (s : System φ) (ring : Int) (a : Nat) (object : TcpConnection) :
    Option (System φ) :=
  match object.destroy with
  | some ⟨.localUringLoop, .closeDirect, fd⟩ =>
    if ring ∈ rings.workers ∧ s.wasScheduled ring a object ∧ s.table ring fd = some a then
      some { s with table := setSlot s.table ring fd none }
    else none
  | _ => none

def step (rings : Rings) (s : System φ) : SystemEvent φ → Option (System φ)
  | .main e => s.mainStep rings e
  | .spawn o func => s.spawn rings o func
  | .kernel k slot => s.kernelStep k slot
  | .handle ring => s.handleStep rings ring
  | .destroy ring a object => s.destroyStep rings ring a object

end System

end CoNet.Context
