import CoNet.Config
import CoNet.Io.Uring
import CoNet.Lib.Transition

/-!
# Batches and the SIGINT handler (`io/uring.hpp`, `context/context.hpp`)

The completion queue of the main ring, and the main thread where it reads it: `process_batch` peeks
a batch, handles its completions one by one and consumes it, and the handler of SIGINT runs
`terminate`, which ends in `process_all`, at any point of this. A completion is known by its place in
the order of posting; the head and the tail of the queue count on without wrapping. A completion is
handled from the begin of its `handle_request` on, so an interruption inside of one comes after it.
The state records (ghost) the completions handled, in order.
-/

set_option autoImplicit false

namespace CoNet.Context

open CoNet.Io

variable {τ φ χ κ : Type}

/-- Where `SystemLoop::run` is with the queue. -/
inductive BatchPoint where
  /-- outside of `process_batch` -/
  | outside
  /-- `size` completions were peeked from `first` on, and `done` of them handled -/
  | batch (first size done : Nat)
  /-- the batch is consumed, and `stopped_` is tested -/
  | consumed
  /-- `consume_all` has counted the queue: the first time, or the second and last one -/
  | counted (count : Nat) (last : Bool)
  /-- everything is cancelled, and a completion has arrived -/
  | cancelled
  deriving DecidableEq, Repr

structure MainQueue (τ φ χ κ : Type) where
  posted : List (Cqe τ φ χ κ) := []
  head : Nat := 0
  ring : Uring := {}
  /-- `SystemLoop::stopped_` -/
  loopStopped : Bool := false
  point : BatchPoint := .outside
  /-- The handler is in `process_all`, whose loop is at this place. -/
  handler : Option Nat := none
  handled : List Nat := []

inductive QueueEvent (τ φ χ κ : Type) where
  /-- The kernel posts a completion. -/
  | post (cqe : Cqe τ φ χ κ)
  /-- `process_batch` peeks. -/
  | peek
  /-- `process_batch` handles the next completion of its batch. -/
  | handle
  /-- `process_batch` consumes its batch. -/
  | consume
  /-- `process_batch` goes on after a consume: to its end, or to a `consume_all` if the ring has
  stopped. -/
  | finish
  /-- `consume_all` consumes what it has counted. -/
  | consumeAll
  /-- SIGINT: `terminate` on the main thread, up to the begin of `process_all`. -/
  | interrupt
  /-- `process_all` handles the next completion, or consumes and returns. -/
  | processAll
  deriving DecidableEq, Repr

namespace MainQueue

def tail (s : MainQueue τ φ χ κ) : Nat := s.posted.length

/-- The number of completions that are peeked, or counted, and not yet consumed. -/
def peeked (s : MainQueue τ φ χ κ) : Nat :=
  match s.point with
  | .batch _ size _ => size
  | .counted count _ => count
  | _ => 0

/-- `handle_request` of the completion at a place. -/
def handleAt (multishotToken : CompletionToken χ) (s : MainQueue τ φ χ κ) (place : Nat) :
    Option (MainQueue τ φ χ κ) := do
  let cqe ← s.posted[place]?
  let (ring, _) ← s.ring.handleRequest multishotToken cqe
  some { s with ring, handled := s.handled ++ [place] }

/-- `io_uring_cq_advance`. -/
def advance (s : MainQueue τ φ χ κ) (count : Nat) : MainQueue τ φ χ κ :=
  { s with head := s.head + count }

/-- The loop of `process_all`, which goes on as long as its place is not the tail. -/
def processAll (multishotToken : CompletionToken χ) (s : MainQueue τ φ χ κ) (place : Nat) :
    Option (MainQueue τ φ χ κ) :=
  if place = s.tail then some { s.advance (place - s.head) with handler := none }
  else (s.handleAt multishotToken place).map ({ · with handler := some (place + 1) })

/-- One step of the main thread, or of the kernel. The handler is not interrupted, and `terminate`
does nothing once the loop is stopped. -/
def step (cfg : Config) (multishotToken : CompletionToken χ) (s : MainQueue τ φ χ κ) :
    QueueEvent τ φ χ κ → Option (MainQueue τ φ χ κ)
  | .post cqe => some { s with posted := s.posted ++ [cqe] }
  | .peek =>
    match s.handler, s.point with
    | none, .outside =>
      some { s with point := .batch s.head (min cfg.uringPeekCqesBatch (s.tail - s.head)) 0 }
    | _, _ => none
  | .handle =>
    match s.handler, s.point with
    | none, .batch first size done =>
      if done < size ∧ s.ring.stopped = false then
        (s.handleAt multishotToken (first + done)).map
          ({ · with point := .batch first size (done + 1) })
      else none
    | _, _ => none
  | .consume =>
    match s.handler, s.point with
    | none, .batch _ size done =>
      if done < size ∧ s.ring.stopped = false then none
      else some { s.advance size with point := .consumed }
    | _, _ => none
  | .finish =>
    match s.handler, s.point with
    | none, .consumed =>
      if s.ring.stopped then some { s with point := .counted (s.tail - s.head) false }
      else some { s with point := .outside }
    | none, .cancelled => some { s with point := .counted (s.tail - s.head) true }
    | _, _ => none
  | .consumeAll =>
    match s.handler, s.point with
    | none, .counted count last =>
      some { s.advance count with point := if last then .outside else .cancelled }
    | _, _ => none
  | .interrupt =>
    match s.handler with
    | some _ => none
    | none =>
      if s.loopStopped then some s
      else some { s with loopStopped := true, handler := some s.head }
  | .processAll =>
    match s.handler with
    | none => none
    | some place => s.processAll multishotToken place

end MainQueue

end CoNet.Context
