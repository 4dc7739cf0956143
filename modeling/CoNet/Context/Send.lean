import CoNet.Io.Sqe
import CoNet.Io.Uring

/-!
# Hand-offs to a worker (`context/context.hpp`)

`pick_worker` and the functions of the main thread that send a task or a connection to a worker
ring: what they submit, and what they leave of their arguments. Objects made with `new` get the
addresses the caller passes.
-/

set_option autoImplicit false

namespace CoNet.Context

open CoNet.Io CoNet.Net

variable {τ φ χ : Type} {κ : Type}

/-- `SystemLoop::pick_worker`: the next `current_worker_uring_idx_`, and the worker's ring. -/
def pickWorker (workers : List Int) (current : Int) : Option (Int × Int) :=
  let next := (current + 1) % workers.length
  workers[next.toNat]?.map fun fd => (next, fd)

/-! ## `mshot_accept_send_awaiting_fd_and_process` -/

/-- The three linked requests submitted for one descriptor. `std::function` is `none` when empty. -/
structure Handoff (τ φ χ κ : Type) where
  sendFd : Sqe τ (Option φ) χ κ
  sendTask : Sqe τ (Option φ) χ κ
  closeFd : Sqe τ (Option φ) χ κ
  deriving DecidableEq, Repr

/-- The requests for a descriptor. -/
def handoff (worker fd : Int) (receiverAt taskAt : κ) (func : Option φ) : Handoff τ φ χ κ where
  sendFd :=
    { op := .msgRingFdAlloc worker fd
        (receiverAt, .token { op := .multishotAcceptFdReceiver })
      cqeSkipSuccess := true, ioLink := true }
  sendTask :=
    { op := .msgRing worker RingMsgType.multiAccTask.value
        (taskAt, .multishotAcceptTaskToken .multishotAcceptTaskReceiver func) netIoringCqeFTask
      cqeSkipSuccess := true, ioLink := true }
  closeFd := { op := .closeDirect fd, cqeSkipSuccess := true }

namespace Handoff

/-- The descriptor that is installed in the worker's ring. -/
def fd (h : Handoff τ φ χ κ) : Option Int :=
  match h.sendFd.op with
  | .msgRingFdAlloc _ fd _ => some fd
  | _ => none

/-- The handler that the worker is sent. -/
def func (h : Handoff τ φ χ κ) : Option φ :=
  match h.sendTask.op with
  | .msgRing _ _ (_, .multishotAcceptTaskToken _ func) _ => func
  | _ => none

end Handoff

/-- The loop over the descriptors. `std::move(func_task)` leaves the function empty for the
iterations after the first. -/
def sendAwaitingFds (workers : List Int) :
    Int → Nat → Option φ → List Int → Option (Int × Nat × List (Handoff τ φ χ Nat))
  | current, heap, _, [] => some (current, heap, [])
  | current, heap, func, fd :: fds => do
    let (current, worker) ← pickWorker workers current
    let (current, heap', rest) ← sendAwaitingFds workers current (heap + 2) none fds
    some (current, heap', handoff worker fd heap (heap + 1) func :: rest)

/-- `mshot_accept_send_awaiting_fd_and_process`. -/
def mshotAcceptSendAwaitingFdAndProcess (workers : List Int) (ring : Uring) (current : Int)
    (heap : Nat) (func : Option φ) : Option (Uring × Int × Nat × List (Handoff τ φ χ Nat)) := do
  let (current, heap, handoffs) ← sendAwaitingFds workers current heap func ring.awaitingDirectFd
  some ({ ring with awaitingDirectFd := [] }, current, heap, handoffs)

/-! ## `parallel_spawn` -/

/-- `parallel_spawn` of a task, on the main thread: the worker index and the request, with its message
and its token at two addresses. -/
def parallelSpawnTask (workers : List Int) (current : Int) (messageAt tokenAt : κ) (task : τ) :
    Option (Int × Sqe τ φ χ κ) := do
  let (current, worker) ← pickWorker workers current
  some (current, {
    op := .msgRing worker RingMsgType.ringTask.value (messageAt, .ringMsgTask task) netIoringCqeFTask
    userData := some (tokenAt, .token { op := .ringTask }) })

/-- Where `parallel_spawn` allocates its helper and its two tokens. -/
structure SpawnAddrs (κ : Type) where
  helper : κ
  sender : κ
  receiver : κ
  deriving DecidableEq, Repr

/-- The two linked requests of `parallel_spawn`. -/
structure SpawnSqes (τ φ χ κ : Type) where
  sendFd : Sqe τ φ χ κ
  sendTask : Sqe τ φ χ κ
  deriving DecidableEq, Repr

def spawnSqes (worker fd : Int) (at_ : SpawnAddrs κ) (func : φ) : SpawnSqes τ φ χ κ where
  sendFd :=
    { op := .msgRingFdAlloc worker fd
        (at_.receiver, .token { op := .ringFdReceiver, cqeRes := fd })
      userData := some (at_.sender, .token { op := .ringFdSender })
      ioLink := true }
  sendTask :=
    { op := .msgRing worker RingMsgType.ringFuncTask.value
        (at_.helper, .ringMsgConnTaskHelper func fd) netIoringCqeFTask
      cqeSkipSuccess := true }

/-- `parallel_spawn` of a task with a connection, on the main thread: the connection it leaves, the
worker index and the requests. `release` throws for a connection that is not the main ring's. -/
def parallelSpawn (workers : List Int) (current : Int) (at_ : SpawnAddrs κ) (func : φ)
    (conn : TcpConnection) : Option (TcpConnection × Int × SpawnSqes τ φ χ κ) :=
  match conn.release with
  | .error _ => none
  | .ok conn => do
    let (current, worker) ← pickWorker workers current
    some (conn, current, spawnSqes worker conn.fd at_ func)

/-! ## What they compute -/

/-- A worker is picked from a list with one at least. -/
theorem pickWorker_isSome {workers : List Int} (h : workers ≠ []) (current : Int) :
    (pickWorker workers current).isSome := by
  have hpos : (0 : Int) < workers.length := by
    exact_mod_cast List.length_pos_of_ne_nil h
  have hlo := Int.emod_nonneg (current + 1) (show (workers.length : Int) ≠ 0 by omega)
  have hhi := Int.emod_lt_of_pos (current + 1) hpos
  have hlt : ((current + 1) % workers.length).toNat < workers.length := by omega
  simp only [pickWorker, List.getElem?_eq_getElem hlt, Option.map_some, Option.isSome_some]

theorem pickWorker_mem {workers : List Int} {current next worker : Int}
    (h : pickWorker workers current = some (next, worker)) : worker ∈ workers := by
  simp only [pickWorker, Option.map_eq_some_iff, Prod.mk.injEq] at h
  obtain ⟨fd, hget, -, rfl⟩ := h
  exact List.mem_of_getElem? hget

/-- What `parallel_spawn` submits for an owned connection. -/
theorem parallelSpawn_eq {workers : List Int} {current current' : Int} {at_ : SpawnAddrs κ}
    {func : φ} {conn conn' : TcpConnection} {sqes : SpawnSqes τ φ χ κ}
    (h : parallelSpawn workers current at_ func conn = some (conn', current', sqes)) :
    conn.release = .ok conn' ∧ ∃ worker ∈ workers, sqes = spawnSqes worker conn.socket at_ func := by
  unfold parallelSpawn at h
  split at h
  · cases h
  · rename_i released hr
    simp only [Option.bind_eq_bind, Option.bind_eq_some_iff] at h
    obtain ⟨⟨next, worker⟩, hw, heq⟩ := h
    cases heq
    obtain ⟨-, rfl⟩ := TcpConnection.release_eq_ok hr
    exact ⟨hr, worker, pickWorker_mem hw, rfl⟩

@[simp] theorem handoff_fd (worker fd : Int) (receiverAt taskAt : κ) (func : Option φ) :
    (handoff worker fd receiverAt taskAt func : Handoff τ φ χ κ).fd = some fd := rfl

@[simp] theorem handoff_func (worker fd : Int) (receiverAt taskAt : κ) (func : Option φ) :
    (handoff worker fd receiverAt taskAt func : Handoff τ φ χ κ).func = func := rfl

/-- The loop sends every descriptor of the list once, in order. -/
theorem sendAwaitingFds_fd {workers : List Int} {fds : List Int} {current current' : Int}
    {heap heap' : Nat} {func : Option φ} {handoffs : List (Handoff τ φ χ Nat)}
    (h : sendAwaitingFds workers current heap func fds = some (current', heap', handoffs)) :
    handoffs.map Handoff.fd = fds.map some := by
  induction fds generalizing current heap func handoffs with
  | nil => cases h; rfl
  | cons fd fds ih =>
    simp only [sendAwaitingFds, Option.bind_eq_bind, Option.bind_eq_some_iff] at h
    obtain ⟨⟨next, worker⟩, -, ⟨last, lastHeap, rest⟩, hrest, heq⟩ := h
    cases heq
    simp only [List.map_cons, handoff_fd, ih hrest]

/-- **Only the first descriptor is sent with the handler.** -/
theorem sendAwaitingFds_func {workers : List Int} {fds : List Int} {current current' : Int}
    {heap heap' : Nat} {func : Option φ} {handoffs : List (Handoff τ φ χ Nat)}
    (h : sendAwaitingFds workers current heap func fds = some (current', heap', handoffs)) :
    handoffs.map Handoff.func =
      if fds = [] then [] else func :: List.replicate (fds.length - 1) none := by
  induction fds generalizing current heap func handoffs with
  | nil => cases h; rfl
  | cons fd fds ih =>
    simp only [sendAwaitingFds, Option.bind_eq_bind, Option.bind_eq_some_iff] at h
    obtain ⟨⟨next, worker⟩, -, ⟨last, lastHeap, rest⟩, hrest, heq⟩ := h
    cases heq
    simp only [List.map_cons, handoff_func, ih hrest]
    cases fds with
    | nil => rfl
    | cons fd' fds => simp [List.replicate_succ]

/-- A dispatch leaves no descriptor behind. -/
theorem mshotAcceptSend_eq {workers : List Int} {ring ring' : Uring} {current current' : Int}
    {heap heap' : Nat} {func : Option φ} {handoffs : List (Handoff τ φ χ Nat)}
    (h : mshotAcceptSendAwaitingFdAndProcess workers ring current heap func =
      some (ring', current', heap', handoffs)) :
    ring' = { ring with awaitingDirectFd := [] } ∧
      sendAwaitingFds workers current heap func ring.awaitingDirectFd =
        some (current', heap', handoffs) := by
  simp only [mshotAcceptSendAwaitingFdAndProcess, Option.bind_eq_bind,
    Option.bind_eq_some_iff] at h
  obtain ⟨⟨next, nextHeap, sent⟩, hsend, heq⟩ := h
  cases heq
  exact ⟨rfl, hsend⟩

end CoNet.Context
