import Mathlib.Data.BitVec

/-!
# Completions and the objects their `user_data` names

`CompletionToken` (`io/prep/completion_token.hpp`), the message objects of `io/uring_msg.hpp` and
the completion-queue entry that carries one of them. The types of a task, of a handler function, of
a list node (`ScheduledTask*`) and of an address are parameters.
-/

set_option autoImplicit false

namespace CoNet.Io

/-- `enum class Op`. -/
inductive Op where
  | wakeup | timeout | socket
  | accept | multishotAccept | multishotAcceptRetry | multishotAcceptPending
  | multishotAcceptFdSender | multishotAcceptFdReceiver | multishotAcceptTaskReceiver
  | ringTask | ringFdSender | ringFdReceiver
  | send
  | receive | multishotReceive | registerRingBuffer
  | shutdown
  | close | syncCloseDirect | asyncCloseDirect | mainRingCloseDirectSocket
  | cancelAny
  | quit
  | unknown
  deriving DecidableEq, Repr

def ENOSYS : Int := 38

def ENOBUFS : Int := 105

/-- `struct CompletionToken`, with its default initialisers. `chain_task_` is null or a node. -/
structure CompletionToken (χ : Type) where
  op : Op := .unknown
  chainTask : Option χ := none
  cqeRes : Int := -ENOSYS
  cqeFlags : BitVec 32 := 0
  deriving DecidableEq, Repr

/-- `enum class RingMsgType : int32_t`. -/
inductive RingMsgType where
  | ringTask | ringFuncTask | multiAccTask | ringFd
  deriving DecidableEq, Repr

def RingMsgType.value : RingMsgType → Int
  | .ringTask => 0x7a51
  | .ringFuncTask => 0x7a51b
  | .multiAccTask => 0x7a51c
  | .ringFd => 0xd1fd

/-- `NET_IORING_CQE_F_TASK`. -/
def netIoringCqeFTask : BitVec 32 := 1 <<< 4

/-- What a `user_data` pointer points to. -/
inductive Object (τ φ χ : Type) where
  | token (t : CompletionToken χ)
  | ringMsgTask (task : τ)
  | ringMsgConnTaskHelper (func : φ) (directFd : Int)
  | multishotAcceptTaskToken (op : Op) (func : φ)
  deriving DecidableEq, Repr

/-- `io_uring_cqe`. `user_data` is null, or an address with what is found there. -/
structure Cqe (τ φ χ κ : Type) where
  res : Int
  flags : BitVec 32
  userData : Option (κ × Object τ φ χ)
  deriving DecidableEq, Repr

end CoNet.Io
