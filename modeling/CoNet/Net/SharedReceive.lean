import CoNet.Io.BufRing
import CoNet.Net.Receive

/-!
# `ring_buf_receive` over the shared ring (`net/tcp/connection.hpp`)

The thread of `Receive`, whose pool has its ring in memory. The kernel has no choice of the buffer: it takes
the entry at its head, and it posts `-ENOBUFS` only when it finds none.
-/

set_option autoImplicit false

namespace CoNet.Net

open CoNet.Io

structure SharedReceive (κ : Type) where
  pool : SharedBuffer
  phase : κ → RecvPhase
  receiveBuffer : κ → List UInt8

namespace SharedReceive

variable {κ : Type}

/-- The thread, with the list of the ring's entries for the ring. -/
def toReceive (s : SharedReceive κ) : Receive κ := ⟨s.pool.toRingBuffer, s.phase, s.receiveBuffer⟩

/-- A thread whose `RingBuffer` was constructed. -/
def start (cfg : Config) (setup : Int) : Option (SharedReceive κ) :=
  (SharedBuffer.construct cfg setup).map fun pool => ⟨pool, fun _ => .idle, fun _ => []⟩

/-- What the kernel may post for a receive. -/
def kernelPost (pool : SharedBuffer) (res : Int) (flags : BitVec 32) (data : List UInt8) :
    Option SharedBuffer :=
  if flags &&& netIoringCqeFTask ≠ 0 ∨ data.length ≠ res.toNat then none
  else if res = -ENOBUFS ∧ ¬ pool.noBuffer then none
  else if hasBuffer flags then pool.kernelTake (bufferId flags) data
  else if res ≤ 0 ∧ bufferId flags = 0 then some pool
  else none

variable [DecidableEq κ]

def setPhase (s : SharedReceive κ) (c : κ) (p : RecvPhase) : SharedReceive κ :=
  { s with phase := Function.update s.phase c p }

/-- The part of `ring_buf_receive` after a completion. -/
def resumeReceive (cfg : Config) (s : SharedReceive κ) (c : κ) (res : Int) (flags : BitVec 32)
    (setup : Int) : Option (SharedReceive κ) :=
  if res < 0 ∧ res ≠ -ENOBUFS then some (s.setPhase c .idle)
  else if res = -ENOBUFS then
    if cfg.autoExtendWhenNobufs then
      if s.pool.SetupWhole cfg setup then
        match s.pool.extendBuffer cfg setup with
        | none => none
        | some (pool, some _) => some { s.setPhase c .idle with pool }
        | some (pool, none) => some { s.setPhase c .submitted with pool }
      else none
    else some (s.setPhase c .sleeping)
  else do
    let bid := bidOf flags
    let received ← s.pool.copyData cfg [] bid res
    let pool ← s.pool.repay cfg bid
    some { s.setPhase c .idle with
      pool, receiveBuffer := Function.update s.receiveBuffer c received }

def step (cfg : Config) (s : SharedReceive κ) : RecvEvent κ → Option (SharedReceive κ)
  | .call c =>
    match s.phase c with
    | .idle => some (s.setPhase c .submitted)
    | _ => none
  | .post c res flags data =>
    match s.phase c with
    | .submitted =>
      (kernelPost s.pool res flags data).map fun pool =>
        { s.setPhase c (.posted res flags) with pool }
    | _ => none
  | .handle c =>
    match s.phase c with
    | .posted res flags =>
      (({} : Uring).handleRequest {} (Receive.receiveCqe c res flags)).map fun (_, effects) =>
        { s with phase := Receive.storeResults s.phase effects }
    | _ => none
  | .resume c setup =>
    match s.phase c with
    | .completed res flags => s.resumeReceive cfg c res flags setup
    | _ => none
  | .wake c =>
    match s.phase c with
    | .sleeping => some (s.setPhase c .submitted)
    | _ => none

end SharedReceive

end CoNet.Net
