import CoNet.Context.Send
import CoNet.Lib.Transition

/-!
# Listeners that run `multishot_accept_then`

Any number of listeners, each with the task that runs its `multishot_accept_then` and its handler.
The accept requests of all of them carry one static token, whose `chain_task_` the last one armed
set, and all accepted descriptors go to the one list of the main ring. The task loop resumes a task
that is not pending, and the main ring handles the accept completions of armed listeners; an event
is one of these. The state records (ghost) the listener of every accepted descriptor, of those still
in the list, of every dispatch, and of every wake-up.
-/

set_option autoImplicit false

namespace CoNet.Net

open CoNet.Io CoNet.Context

variable {ℓ φ : Type} [DecidableEq ℓ]

/-- The requests for a descriptor, the task that submitted them, and (ghost) the listener that
accepted the descriptor. -/
structure Dispatch (ℓ φ : Type) where
  acceptedOn : ℓ
  dispatcher : ℓ
  handoff : Handoff Unit φ ℓ Nat
  deriving DecidableEq, Repr

structure MultishotListeners (ℓ φ : Type) where
  /-- the static `multishot_token_` -/
  token : CompletionToken ℓ := {}
  ring : Uring := {}
  current : Int := -1
  heap : Nat := 0
  armed : ℓ → Bool := fun _ => false
  pending : ℓ → Bool := fun _ => false
  accepted : List (ℓ × Int) := []
  awaitingOn : List ℓ := []
  dispatched : List (Dispatch ℓ φ) := []
  /-- the listener of a completion, and the listener whose task it woke -/
  woken : List (ℓ × ℓ) := []

inductive ListenerEvent (ℓ : Type) where
  /-- `TaskLoop::run` resumes the task of the listener. -/
  | resume (listener : ℓ)
  /-- The main ring handles an accept completion of the listener. -/
  | complete (listener : ℓ) (res : Int) (flags : BitVec 32)
  deriving DecidableEq, Repr

namespace MultishotListeners

/-- `MultishotAcceptDirectAwaiter`: its constructor sets `op_`, its `await_suspend` `chain_task_`.
The task is not made pending. -/
def awaitMultishotAccept (token : CompletionToken ℓ) (caller : ℓ) : CompletionToken ℓ :=
  { token with op := .multishotAccept, chainTask := some caller }

/-- The completion of an accept request. -/
def acceptCqe (token : CompletionToken ℓ) (res : Int) (flags : BitVec 32) : Cqe Unit φ ℓ Unit :=
  ⟨res, flags, some ((), .token token)⟩

/-- The `pending_` of the tasks after the effects of a completion. -/
def applyPending (pending : ℓ → Bool) (effects : List (Effect Unit φ ℓ Unit)) : ℓ → Bool :=
  effects.foldl
    (fun pending => fun
      | .setPending task p => Function.update pending task p
      | _ => pending) pending

/-- The tasks that the effects of a completion make ready. -/
def wakes (effects : List (Effect Unit φ ℓ Unit)) : List ℓ :=
  effects.filterMap fun
    | .setPending task false => some task
    | _ => none

/-- One resumption of a task, or one accept completion. `handlers` are the functions bound to the
listeners, `workers` the worker rings. The kernel sets no flag of a task message. -/
def step (workers : List Int) (handlers : ℓ → φ) (s : MultishotListeners ℓ φ) :
    ListenerEvent ℓ → Option (MultishotListeners ℓ φ)
  | .resume l =>
    if s.pending l then none
    else if s.armed l then
      -- the loop of `multishot_accept_then`: send what is awaiting, then a `PendingAwaiter`
      match mshotAcceptSendAwaitingFdAndProcess workers s.ring s.current s.heap
          (some (handlers l)) with
      | none => none
      | some (ring, current, heap, handoffs) =>
        some { s with
          ring, current, heap
          pending := Function.update s.pending l true
          awaitingOn := []
          dispatched := s.dispatched ++ s.awaitingOn.zipWith (⟨·, l, ·⟩) handoffs }
    else
      some { s with
        token := awaitMultishotAccept s.token l
        armed := Function.update s.armed l true }
  | .complete l res flags =>
    if s.armed l = false ∨ flags &&& netIoringCqeFTask ≠ 0 then none
    else
      match s.ring.handleRequest s.token (acceptCqe s.token res flags : Cqe Unit φ ℓ Unit) with
      | none => none
      | some (ring, effects) =>
        some { s with
          ring
          pending := applyPending s.pending effects
          accepted := s.accepted ++ if 0 ≤ res then [(l, res)] else []
          awaitingOn := s.awaitingOn ++ if 0 ≤ res then [l] else []
          woken := s.woken ++ (wakes effects).map (l, ·) }

end MultishotListeners

end CoNet.Net
