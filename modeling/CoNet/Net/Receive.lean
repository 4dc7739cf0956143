import CoNet.Io.Buffer
import CoNet.Laws.Io.Uring
import CoNet.Lib.Transition

/-!
# `ring_buf_receive` on one thread (`net/tcp/connection.hpp`)

Any number of connections share the thread's pool of buffers. A call submits a receive; the kernel
posts its completion, taking a buffer out of the ring when it sets `IORING_CQE_F_BUFFER`; the ring's
batch handles the completion, which makes the task ready; and the task loop resumes the task, which
retries, throws, or copies the buffer and repays it. An event is one of these.
-/

set_option autoImplicit false

namespace CoNet.Net

open CoNet.Io

/-- `IORING_CQE_F_BUFFER`. -/
def ioringCqeFBuffer : BitVec 32 := 1

/-- The kernel took a buffer for this completion. -/
def hasBuffer (flags : BitVec 32) : Bool := flags &&& ioringCqeFBuffer != 0

/-- The upper 16 bits of the flags: the buffer's id, where there is one. -/
def bufferId (flags : BitVec 32) : Nat := (flags >>> 16).toNat

/-- `flag >> IORING_CQE_BUFFER_SHIFT`, on the token's `int32_t`. -/
def bidOf (flags : BitVec 32) : Int := flags.toInt >>> (16 : Nat)

/-- Where a `ring_buf_receive` call of a connection stands. -/
inductive RecvPhase where
  /-- no call, or one that returned or threw -/
  | idle
  | submitted
  /-- its completion is in the queue of the ring -/
  | posted (res : Int) (flags : BitVec 32)
  /-- its completion was handled, and its task is ready -/
  | completed (res : Int) (flags : BitVec 32)
  /-- waiting after `-ENOBUFS`, where pools are not extended -/
  | sleeping
  deriving DecidableEq, Repr

/-- The buffer that the call's completion took from the ring and the task has not repaid. -/
def RecvPhase.buffer : RecvPhase → Option Nat
  | .posted _ flags | .completed _ flags => if hasBuffer flags then some (bufferId flags) else none
  | _ => none

/-- The pool of the thread, and its connections. -/
structure Receive (κ : Type) where
  pool : RingBuffer
  phase : κ → RecvPhase
  receiveBuffer : κ → List UInt8

inductive RecvEvent (κ : Type) where
  /-- `ring_buf_receive` is called. -/
  | call (c : κ)
  /-- The kernel posts the completion, with the bytes it wrote. -/
  | post (c : κ) (res : Int) (flags : BitVec 32) (data : List UInt8)
  /-- `process_batch` handles the completion. -/
  | handle (c : κ)
  /-- `TaskLoop::run` resumes the task; an `extend_buffer` it runs sets its ring up with `setup`. -/
  | resume (c : κ) (setup : Int)
  /-- The sleep after `-ENOBUFS` is over. -/
  | wake (c : κ)
  deriving DecidableEq, Repr

namespace Receive

variable {κ : Type} [DecidableEq κ]

def setPhase (s : Receive κ) (c : κ) (p : RecvPhase) : Receive κ :=
  { s with phase := Function.update s.phase c p }

/-- A thread whose `RingBuffer` was constructed. -/
def start (cfg : Config) (setup : Int) : Option (Receive κ) :=
  (RingBuffer.construct cfg setup).map fun pool => ⟨pool, fun _ => .idle, fun _ => []⟩

/-- The completion of a receive. Its token is in the frame of the call. -/
def receiveCqe (c : κ) (res : Int) (flags : BitVec 32) : Cqe Unit Unit κ κ :=
  ⟨res, flags, some (c, .token { op := .receive, chainTask := some c })⟩

/-- The calls after the effects of a completion. -/
def storeResults (phase : κ → RecvPhase) (effects : List (Effect Unit Unit κ κ)) : κ → RecvPhase :=
  effects.foldl
    (fun phase => fun
      | .storeResult c res flags => Function.update phase c (.completed res flags)
      | _ => phase) phase

/-- What the kernel may post for a receive: a buffer that holds the data, or an error or an end of
stream without one. It sets no flag of a task message. -/
def kernelPost (pool : RingBuffer) (res : Int) (flags : BitVec 32) (data : List UInt8) :
    Option RingBuffer :=
  if flags &&& netIoringCqeFTask ≠ 0 ∨ data.length ≠ res.toNat then none
  else if hasBuffer flags then pool.kernelTake (bufferId flags) data
  else if res ≤ 0 ∧ bufferId flags = 0 then some pool
  else none

/-- The part of `ring_buf_receive` after a completion: `prep_recv_in_ring_buf` throws on an error
other than `-ENOBUFS`, which the loop retries. -/
def resumeReceive (cfg : Config) (s : Receive κ) (c : κ) (res : Int) (flags : BitVec 32)
    (setup : Int) : Option (Receive κ) :=
  if res < 0 ∧ res ≠ -ENOBUFS then some (s.setPhase c .idle)
  else if res = -ENOBUFS then
    if cfg.autoExtendWhenNobufs then
      if RingBuffer.SetupWhole cfg s.pool setup then
        match s.pool.extendBuffer cfg setup with
        | (pool, some _) => some { s.setPhase c .idle with pool }
        | (pool, none) => some { s.setPhase c .submitted with pool }
      else none
    else some (s.setPhase c .sleeping)
  else do
    let bid := bidOf flags
    let received ← s.pool.copyData cfg [] bid res
    let pool ← s.pool.repay cfg bid
    some { s.setPhase c .idle with
      pool, receiveBuffer := Function.update s.receiveBuffer c received }

def step (cfg : Config) (s : Receive κ) : RecvEvent κ → Option (Receive κ)
  | .call c =>
    match s.phase c with
    | .idle => some (s.setPhase c .submitted)
    | _ => none
  | .post c res flags data =>
    match s.phase c with
    | .submitted =>
      (kernelPost s.pool res flags data).map fun pool =>
        { s.setPhase c (.posted res flags) with pool }
    | _ => none
  | .handle c =>
    match s.phase c with
    | .posted res flags =>
      (({} : Uring).handleRequest {} (receiveCqe c res flags)).map fun (_, effects) =>
        { s with phase := storeResults s.phase effects }
    | _ => none
  | .resume c setup =>
    match s.phase c with
    | .completed res flags => s.resumeReceive cfg c res flags setup
    | _ => none
  | .wake c =>
    match s.phase c with
    | .sleeping => some (s.setPhase c .submitted)
    | _ => none

end Receive

end CoNet.Net
