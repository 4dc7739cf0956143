import CoNet.Context.Send
import CoNet.Laws.Io.Uring
import Mathlib.Data.List.Forall2

/-!
# One handler for every descriptor

`mshot_accept_send_awaiting_fd_and_process` is given its handler once, and moves it into the task
message of the first descriptor. `Dispatched` is what a dispatch should leave: messages for each
descriptor to one worker, all with the handler, and workers that call the handler for each of them.
`dispatchesAll_iff_single` says that a dispatch of one descriptor does, and no longer one.
-/

set_option autoImplicit false

namespace CoNet.Context

open CoNet.Io CoNet.Net

variable {τ φ χ κ : Type} {workers : List Int} {func : φ}

namespace Handoff

/-- The descriptor message and, linked behind it, the task message for a descriptor, both to one
worker, the second with the handler. -/
structure SentWith (workers : List Int) (func : φ) (fd : Int) (h : Handoff τ φ χ κ) : Prop where
  link : h.sendFd.ioLink = true
  messages : ∃ worker ∈ workers, ∃ receiverAt taskAt,
    h.sendFd.op = .msgRingFdAlloc worker fd
      (receiverAt, .token { op := .multishotAcceptFdReceiver }) ∧
    h.sendTask.op = .msgRing worker RingMsgType.multiAccTask.value
      (taskAt, .multishotAcceptTaskToken .multishotAcceptTaskReceiver (some func)) netIoringCqeFTask

/-- The completion of the task message on the worker's ring. -/
def taskCqe (h : Handoff τ φ χ κ) : Option (Cqe τ (Option φ) χ κ) :=
  match h.sendTask.op with
  | .msgRing _ len data flags => some ⟨len, flags, some data⟩
  | _ => none

/-- The calls of a handler among the effects of a completion. The call of an empty `std::function`
throws. -/
def calls (effects : List (Effect τ (Option φ) χ κ)) : List (φ × TcpConnection) :=
  effects.filterMap fun
    | .schedule (some func) conn => some (func, conn)
    | _ => none

/-- What the worker calls for the task message, when the message finds its ring like this. -/
def workerCalls (multishotToken : CompletionToken χ) (worker : Uring) (h : Handoff τ φ χ κ) :
    Option (List (φ × TcpConnection)) := do
  let cqe ← h.taskCqe
  let (_, effects) ← worker.handleRequest multishotToken cqe
  some (calls effects)

end Handoff

/-- Every descriptor is sent with the handler, and every worker calls it in the same way. -/
structure Dispatched (workers : List Int) (func : φ) (fds : List Int)
    (handoffs : List (Handoff τ φ χ κ)) : Prop where
  sent : List.Forall₂ (Handoff.SentWith workers func) fds handoffs
  alike : ∀ h ∈ handoffs, ∀ (multishotToken : CompletionToken χ) (worker : Uring),
    h.workerCalls multishotToken worker =
      some (worker.awaitingDirectFd.map fun fd => (func, maccTaskConnection fd))

/-- A hand-off with the handler: the worker calls it for each slot that awaits it. -/
theorem Handoff.workerCalls_of_sentWith {fd : Int} {h : Handoff τ φ χ κ}
    (sent : h.SentWith workers func fd) (multishotToken : CompletionToken χ) (worker : Uring) :
    h.workerCalls multishotToken worker =
      some (worker.awaitingDirectFd.map fun fd => (func, maccTaskConnection fd)) := by
  obtain ⟨w, -, receiverAt, taskAt, -, op⟩ := sent.messages
  have message : Uring.isMessage (⟨RingMsgType.multiAccTask.value, netIoringCqeFTask,
      some (taskAt, .multishotAcceptTaskToken .multishotAcceptTaskReceiver (some func))⟩ :
        Cqe τ (Option φ) χ κ) .multiAccTask = true := by
    simp [Uring.isMessage, netIoringCqeFTask]
  simp only [workerCalls, taskCqe, op, Option.bind_eq_bind, Option.bind_some,
    Uring.handleRequest_multiAccTask message, Uring.implHandleMaccTask, calls,
    List.filterMap_cons, List.filterMap_map]
  exact congrArg some (List.filterMap_eq_map (f := fun fd => (func, maccTaskConnection fd)) ▸ rfl)

theorem Handoff.func_of_sentWith {fd : Int} {h : Handoff τ φ χ κ}
    (sent : h.SentWith workers func fd) : h.func = some func := by
  obtain ⟨w, -, receiverAt, taskAt, -, op⟩ := sent.messages
  simp only [Handoff.func, op]

theorem handoff_sentWith {worker : Int} (mem : worker ∈ workers) (fd : Int) (receiverAt taskAt : κ) :
    (handoff worker fd receiverAt taskAt (some func) : Handoff τ φ χ κ).SentWith workers func fd :=
  ⟨rfl, worker, mem, receiverAt, taskAt, rfl, rfl⟩

theorem funcs_of_sent {fds : List Int} {handoffs : List (Handoff τ φ χ κ)}
    (sent : List.Forall₂ (Handoff.SentWith workers func) fds handoffs) :
    handoffs.map Handoff.func = List.replicate fds.length (some func) := by
  induction sent with
  | nil => rfl
  | cons head _ ih =>
    rw [List.map_cons, Handoff.func_of_sentWith head, ih]
    rfl

/-- A dispatch of more than one descriptor leaves a hand-off without the handler. -/
theorem length_of_dispatched {fds : List Int} {current current' : Int} {heap heap' : Nat}
    {handoffs : List (Handoff τ φ χ Nat)}
    (h : sendAwaitingFds workers current heap (some func) fds = some (current', heap', handoffs))
    (dispatched : Dispatched workers func fds handoffs) : fds.length ≤ 1 := by
  have funcs := (funcs_of_sent dispatched.sent).symm.trans (sendAwaitingFds_func h)
  cases fds with
  | nil => exact Nat.zero_le 1
  | cons fd fds =>
    cases fds with
    | nil => exact Nat.le_refl 1
    | cons fd' fds => cases (List.cons.inj (List.cons.inj funcs).2).1

/-- A dispatch of one descriptor. -/
theorem dispatched_single {fd worker current current' : Int} (heap : Nat)
    (picked : pickWorker workers current = some (current', worker)) :
    ∃ handoffs : List (Handoff τ φ χ Nat),
      sendAwaitingFds workers current heap (some func) [fd] = some (current', heap + 2, handoffs) ∧
        Dispatched workers func [fd] handoffs := by
  have sent : (handoff worker fd heap (heap + 1) (some func) : Handoff τ φ χ Nat).SentWith workers
      func fd := handoff_sentWith (pickWorker_mem picked) fd heap (heap + 1)
  refine ⟨[handoff worker fd heap (heap + 1) (some func)], ?_, .cons sent .nil, ?_⟩
  · simp only [sendAwaitingFds, picked, Option.bind_eq_bind, Option.bind_some]
  · intro h hh
    obtain rfl := List.mem_singleton.mp hh
    exact Handoff.workerCalls_of_sentWith sent

/-- The main thread dispatches, and every descriptor is sent with the handler. -/
def DispatchesAll (τ χ : Type) (workers : List Int) (ring : Uring) (current : Int) (heap : Nat)
    (func : φ) : Prop :=
  ∃ ring' current' heap' handoffs,
    mshotAcceptSendAwaitingFdAndProcess workers ring current heap (some func) =
        some (ring', current', heap', handoffs) ∧
      Dispatched (τ := τ) (χ := χ) workers func ring.awaitingDirectFd handoffs

theorem le_one_of_dispatchesAll {ring : Uring} {current : Int} {heap : Nat}
    (h : DispatchesAll τ χ workers ring current heap func) : ring.awaitingDirectFd.length ≤ 1 := by
  obtain ⟨ring', current', heap', handoffs, run, dispatched⟩ := h
  exact length_of_dispatched (mshotAcceptSend_eq run).2 dispatched

/-- **Every descriptor is sent with the handler exactly when there is one.** -/
theorem dispatchesAll_iff_single (workers : List Int) (ring : Uring) (current : Int) (heap : Nat)
    (func : φ) (nonempty : ring.awaitingDirectFd ≠ []) :
    DispatchesAll τ χ workers ring current heap func ↔
      workers ≠ [] ∧ ring.awaitingDirectFd.length = 1 := by
  have pos := List.length_pos_of_ne_nil nonempty
  constructor
  · intro h
    have le := le_one_of_dispatchesAll h
    refine ⟨?_, by omega⟩
    rintro rfl
    obtain ⟨ring', current', heap', handoffs, run, -⟩ := h
    obtain ⟨fd, rest, fds⟩ := List.exists_cons_of_ne_nil nonempty
    have sent := (mshotAcceptSend_eq run).2
    rw [fds] at sent
    simp [sendAwaitingFds, pickWorker] at sent
  · rintro ⟨some_worker, single⟩
    obtain ⟨fd, fds⟩ := List.length_eq_one_iff.mp single
    obtain ⟨⟨current', worker⟩, picked⟩ :=
      Option.isSome_iff_exists.mp (pickWorker_isSome some_worker current)
    have dispatch : ∃ handoffs : List (Handoff τ φ χ Nat),
        sendAwaitingFds workers current heap (some func) [fd] = some (current', heap + 2, handoffs) ∧
          Dispatched workers func [fd] handoffs := dispatched_single heap picked
    obtain ⟨handoffs, sent, dispatched⟩ := dispatch
    refine ⟨{ ring with awaitingDirectFd := [] }, current', heap + 2, handoffs, ?_, fds ▸ dispatched⟩
    simp only [mshotAcceptSendAwaitingFdAndProcess, fds, sent, Option.bind_eq_bind,
      Option.bind_some]

theorem dispatchesAll_iff_single_one :
    DispatchesAll Unit Unit [5] { awaitingDirectFd := [7] } (-1) 1 () :=
  (dispatchesAll_iff_single [5] { awaitingDirectFd := [7] } (-1) 1 () (by simp)).mpr (by simp)

/-- Two clients connect within one batch. -/
theorem not_dispatchesAll_two :
    ¬ DispatchesAll Unit Unit [5] { awaitingDirectFd := [7, 8] } (-1) 1 () := by
  intro h
  have le : 2 ≤ 1 := le_one_of_dispatchesAll h
  omega

end CoNet.Context
