import CoNet.Laws.Io.Uring
import CoNet.Lib.Transition

/-!
# Multishot hand-offs on a worker ring

The main ring hands an accepted connection to a worker with two messages: a descriptor, whose
completion carries a `MultishotAcceptFdReceiver` token and the slot, and a task, whose completion is
a `MultiAccTask`. An event is one completion of the worker's ring, in the order of its queue over
any number of batches; after `Quit` the rest is consumed unhandled. The state keeps three logs
(ghost): the slots received, the slots passed to handler invocations, and the task messages handled.
-/

set_option autoImplicit false

namespace CoNet.Net

open CoNet.Io

variable {τ φ χ κ : Type}

structure MultishotWorker where
  ring : Uring := {}
  received : List Int := []
  invoked : List Int := []
  tasks : Nat := 0

namespace MultishotWorker

/-- The slots of the connections that a list of effects passes to invocations. -/
def invocations (effects : List (Effect τ φ χ κ)) : List Int :=
  effects.filterMap fun
    | .schedule _ conn => some conn.fd
    | _ => none

def isReceiver (cqe : Cqe τ φ χ κ) : Bool :=
  Uring.tokenOp cqe == some .multishotAcceptFdReceiver

def isMaccTask (cqe : Cqe τ φ χ κ) : Bool := Uring.isMessage cqe .multiAccTask

/-- What the senders post to a worker ring: a received slot is not negative, a task message comes
after the slot of its own hand-off, and no accept request is armed on a worker ring. -/
def Delivered (s : MultishotWorker) (cqe : Cqe τ φ χ κ) : Prop :=
  (isReceiver cqe → 0 ≤ cqe.res) ∧ (isMaccTask cqe → s.tasks < s.received.length) ∧
    Uring.tokenOp cqe ≠ some .multishotAccept

instance (s : MultishotWorker) (cqe : Cqe τ φ χ κ) : Decidable (Delivered s cqe) := by
  unfold Delivered
  exact inferInstance

/-- One completion of the worker's ring. -/
def step (multishotToken : CompletionToken χ) (s : MultishotWorker) (cqe : Cqe τ φ χ κ) :
    Option MultishotWorker :=
  if s.ring.stopped then some s
  else if ¬ Delivered s cqe then none
  else
    match s.ring.handleRequest multishotToken cqe with
    | none => none
    | some (ring, effects) =>
      some {
        ring
        received := s.received ++ if isReceiver cqe then [cqe.res] else []
        invoked := s.invoked ++ if isMaccTask cqe then invocations effects else []
        tasks := s.tasks + if isMaccTask cqe then 1 else 0 }

end MultishotWorker

end CoNet.Net
