import CoNet.Context.Terminate

/-!
# What a ring's batches do (`io/uring.hpp`)

The completion queue of a ring whose thread no handler interrupts, as a worker's, with all that `process_batch`
has done with the completions so far (ghost): what each `handle_request` did outside the ring, in order.
-/

set_option autoImplicit false

namespace CoNet.Context

open CoNet.Io

variable {τ φ χ κ : Type}

structure Batches (τ φ χ κ : Type) where
  queue : MainQueue τ φ χ κ := {}
  effects : List (Effect τ φ χ κ) := []

/-- An event of the queue without a handler. -/
inductive BatchEvent (τ φ χ κ : Type) where
  | post (cqe : Cqe τ φ χ κ)
  | peek
  | handle
  | consume
  | finish
  | consumeAll
  deriving DecidableEq, Repr

def BatchEvent.queueEvent : BatchEvent τ φ χ κ → QueueEvent τ φ χ κ
  | post cqe => .post cqe
  | peek => .peek
  | handle => .handle
  | consume => .consume
  | finish => .finish
  | consumeAll => .consumeAll

namespace Batches

/-- What handling the next completion of the batch does outside the ring. -/
def next (multishotToken : CompletionToken χ) (s : Batches τ φ χ κ) : List (Effect τ φ χ κ) :=
  match s.queue.point with
  | .batch first _ done =>
    ((s.queue.posted[first + done]?).bind (s.queue.ring.handleRequest multishotToken)).elim [] (·.2)
  | _ => []

def step (cfg : Config) (multishotToken : CompletionToken χ) (s : Batches τ φ χ κ)
    (e : BatchEvent τ φ χ κ) : Option (Batches τ φ χ κ) := do
  let queue ← s.queue.step cfg multishotToken e.queueEvent
  match e with
  | .handle => some { queue, effects := s.effects ++ s.next multishotToken }
  | _ => some { s with queue }

end Batches

end CoNet.Context
