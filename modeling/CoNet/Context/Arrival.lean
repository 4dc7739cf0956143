import CoNet.Context.Send
import Mathlib.Data.BitVec

/-!
# What arrives on a ring (`io/uring.hpp`, `context/context.hpp`)

The completions that reach `handle_request` of a ring: those of the messages that other rings send it, as
the senders prepare them, and those of its own requests whose `user_data` is set to a token. `kind` is
the branch that the sender means, and `object` what it attaches.
-/

set_option autoImplicit false

namespace CoNet.Context

open CoNet.Io CoNet.Net

variable {τ φ χ κ : Type}

/-- The flags of a completion of an operation: the four that are documented, and the id of a buffer. -/
structure CqeFlags where
  /-- `IORING_CQE_F_BUFFER` -/
  buffer : Bool := false
  /-- `IORING_CQE_F_MORE` -/
  more : Bool := false
  /-- `IORING_CQE_F_SOCK_NONEMPTY` -/
  sockNonempty : Bool := false
  /-- `IORING_CQE_F_NOTIF` -/
  notif : Bool := false
  bid : BitVec 16 := 0
  deriving DecidableEq, Repr

def flagBit (n : Nat) (set : Bool) : BitVec 32 := if set then 1 <<< n else 0

/-- `cqe->flags`. -/
def CqeFlags.word (flags : CqeFlags) : BitVec 32 :=
  flags.bid.setWidth 32 <<< 16 ||| flagBit 0 flags.buffer ||| flagBit 1 flags.more |||
    flagBit 2 flags.sockNonempty ||| flagBit 3 flags.notif

/-- The completion that a message posts on the ring it is sent to. `slot` is the one in which the kernel
installs a descriptor. -/
def messageCqe (slot : Int) (sqe : Sqe τ φ χ κ) : Option (Cqe τ φ χ κ) :=
  match sqe.op with
  | .msgRingFdAlloc _ _ data => some ⟨slot, 0, some data⟩
  | .msgRing _ len data flags => some ⟨len, flags, some data⟩
  | .closeDirect _ => none

/-- The request of `parallel_spawn` of a task. -/
def taskSqe (worker : Int) (messageAt tokenAt : κ) (task : τ) : Sqe τ φ χ κ :=
  { op := .msgRing worker RingMsgType.ringTask.value (messageAt, .ringMsgTask task) netIoringCqeFTask
    userData := some (tokenAt, .token { op := .ringTask }) }

/-- The message of `notify_main_ring_release_fd`. -/
def notifySqe (mainRing : Int) (tokenAt : κ) (directFd : Int) : Sqe τ φ χ κ :=
  { op := .msgRing mainRing directFd (tokenAt, .token { op := .mainRingCloseDirectSocket }) 0
    cqeSkipSuccess := true }

/-- The message of `notify_workers_to_stop` and `notify_self_quit`. -/
def quitSqe (ring : Int) (tokenAt : κ) : Sqe τ φ χ κ :=
  { op := .msgRing ring 0 (tokenAt, .token { op := .quit }) 0 }

/-- A completion, by what it is of. -/
inductive Arrival (τ φ χ κ : Type) where
  /-- `parallel_spawn` of a task -/
  | ringTask (worker : Int) (messageAt tokenAt : κ) (task : τ)
  /-- `parallel_spawn` with a connection: the descriptor -/
  | ringFd (worker fd : Int) (at_ : SpawnAddrs κ) (func : Option φ) (slot : Int)
  /-- and the task -/
  | ringFuncTask (worker fd : Int) (at_ : SpawnAddrs κ) (func : Option φ)
  /-- `mshot_accept_send_awaiting_fd_and_process`: the descriptor -/
  | multiAccFd (worker fd : Int) (receiverAt taskAt : κ) (func : Option φ) (slot : Int)
  /-- and the task -/
  | multiAccTask (worker fd : Int) (receiverAt taskAt : κ) (func : Option φ)
  | releaseNotice (mainRing : Int) (tokenAt : κ) (directFd : Int)
  | quit (ring : Int) (tokenAt : κ)
  /-- an operation of the ring itself, with any result -/
  | operation (tokenAt : κ) (token : CompletionToken χ) (res : BitVec 32) (flags : CqeFlags)

/-- The branches of `handle_request`. -/
inductive Branch where
  | message (type : RingMsgType)
  /-- the switch, at this `op_` -/
  | token (op : Op)
  /-- The `user_data` is null. -/
  | nothing
  deriving DecidableEq, Repr

namespace Arrival

/-- What is posted. -/
def cqe : Arrival τ φ χ κ → Option (Cqe τ (Option φ) χ κ)
  | .ringTask worker messageAt tokenAt task => messageCqe 0 (taskSqe worker messageAt tokenAt task)
  | .ringFd worker fd at_ func slot => messageCqe slot (spawnSqes worker fd at_ func).sendFd
  | .ringFuncTask worker fd at_ func => messageCqe 0 (spawnSqes worker fd at_ func).sendTask
  | .multiAccFd worker fd receiverAt taskAt func slot =>
    messageCqe slot (handoff worker fd receiverAt taskAt func).sendFd
  | .multiAccTask worker fd receiverAt taskAt func =>
    messageCqe 0 (handoff worker fd receiverAt taskAt func).sendTask
  | .releaseNotice mainRing tokenAt directFd => messageCqe 0 (notifySqe mainRing tokenAt directFd)
  | .quit ring tokenAt => messageCqe 0 (quitSqe ring tokenAt)
  | .operation tokenAt token res flags =>
    some ⟨res.toInt, flags.word, some (tokenAt, .token token)⟩

/-- The branch that is meant. -/
def kind : Arrival τ φ χ κ → Branch
  | .ringTask .. => .message .ringTask
  | .ringFd .. => .token .ringFdReceiver
  | .ringFuncTask .. => .message .ringFuncTask
  | .multiAccFd .. => .token .multishotAcceptFdReceiver
  | .multiAccTask .. => .message .multiAccTask
  | .releaseNotice .. => .token .mainRingCloseDirectSocket
  | .quit .. => .token .quit
  | .operation _ token _ _ => .token token.op

/-- The object that is attached, with its address. -/
def object : Arrival τ φ χ κ → κ × Object τ (Option φ) χ
  | .ringTask _ messageAt _ task => (messageAt, .ringMsgTask task)
  | .ringFd _ fd at_ _ _ => (at_.receiver, .token { op := .ringFdReceiver, cqeRes := fd })
  | .ringFuncTask _ fd at_ func => (at_.helper, .ringMsgConnTaskHelper func fd)
  | .multiAccFd _ _ receiverAt _ _ _ => (receiverAt, .token { op := .multishotAcceptFdReceiver })
  | .multiAccTask _ _ _ taskAt func =>
    (taskAt, .multishotAcceptTaskToken .multishotAcceptTaskReceiver func)
  | .releaseNotice _ tokenAt _ => (tokenAt, .token { op := .mainRingCloseDirectSocket })
  | .quit _ tokenAt => (tokenAt, .token { op := .quit })
  | .operation tokenAt token _ _ => (tokenAt, .token token)

end Arrival

end CoNet.Context
