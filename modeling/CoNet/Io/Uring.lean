import Mathlib.Logic.Function.Basic
import CoNet.Io.Token
import CoNet.Net.Connection

/-!
# `Uring::handle_request` (`io/uring.hpp`, `net/tcp/connection.hpp`)

The part of a `Uring` that its completions read and write, and the function that handles one
completion. What handling does outside these fields (tasks queued, tokens written or freed, requests
submitted) is a list of effects, in the order of the source. `none` is undefined behaviour: a null
pointer followed, or an object read as another type.
-/

set_option autoImplicit false

namespace CoNet.Io

open CoNet.Net

/-- The fields of `Uring` that completions use. -/
structure Uring where
  stopped : Bool := false
  directMap : Int → Option Int := fun _ => none
  awaitingDirectFd : List Int := []

/-- What handling a completion does outside the ring's own fields. -/
inductive Effect (τ φ χ κ : Type) where
  /-- `peer_task_loop_->enqueue` of a task received whole -/
  | enqueue (task : τ)
  /-- a task made by calling `func` with `conn`, and queued on `peer_task_loop_` -/
  | schedule (func : φ) (conn : TcpConnection)
  /-- `delete` of a heap object -/
  | delete (addr : κ)
  /-- `cqe_res_` and `cqe_flags_` of the token at an address -/
  | storeResult (addr : κ) (res : Int) (flags : BitVec 32)
  /-- `ScheduledTask::set_pending` -/
  | setPending (task : χ) (pending : Bool)
  /-- `close_direct_socket` on this ring -/
  | closeDirectSocket (directFd : Int)
  /-- `notify_main_ring_release_fd` -/
  | notifyMainRingReleaseFd (directFd : Int)
  deriving DecidableEq, Repr

/-- The connection `impl_handle_msg_conn` makes of the slot installed in its ring. -/
def msgConnConnection (connfd : Int) : TcpConnection :=
  (TcpConnection.ofDirectSocket (-1)).setSubringSocket connfd

/-- The connection `impl_handle_macc_task` makes of a slot installed in its ring. -/
def maccTaskConnection (fd : Int) : TcpConnection := .ofDirectSocket fd

namespace Uring

variable {τ φ χ κ : Type}

/-- The completion is a message of this type. -/
def isMessage (cqe : Cqe τ φ χ κ) (type : RingMsgType) : Bool :=
  cqe.res == type.value && cqe.flags &&& netIoringCqeFTask != 0

/-- `impl_handle_msg_conn`. `operator[]` on a missing key makes an entry 0, which is then erased. -/
def implHandleMsgConn (ring : Uring) (cqe : Cqe τ φ χ κ) : Option (Uring × List (Effect τ φ χ κ)) :=
  match cqe.userData with
  | some (addr, .ringMsgConnTaskHelper func sysConnFd) =>
    let connfd := (ring.directMap sysConnFd).getD 0
    some ({ ring with directMap := Function.update ring.directMap sysConnFd none },
      [.delete addr, .schedule func (msgConnConnection connfd), .notifyMainRingReleaseFd sysConnFd])
  | _ => none

/-- `impl_handle_macc_task`: a task for each descriptor of the list, which is left as it is. The closes of
descriptor -1 that its moved-from temporaries submit to the main ring are left out. -/
def implHandleMaccTask (ring : Uring) (cqe : Cqe τ φ χ κ) :
    Option (Uring × List (Effect τ φ χ κ)) :=
  match cqe.userData with
  | some (addr, .multishotAcceptTaskToken _ func) =>
    some (ring,
      .delete addr :: ring.awaitingDirectFd.map fun fd => .schedule func (maccTaskConnection fd))
  | _ => none

/-- `if (cqe->res >= 0) awaiting_direct_fd_.push_back(cqe->res)`. -/
def pushAwaiting (ring : Uring) (res : Int) : Uring :=
  if 0 ≤ res then { ring with awaitingDirectFd := ring.awaitingDirectFd ++ [res] } else ring

/-- The switch on `token->op_`. `multishotToken` is the static `multishot_token_`. -/
def handleToken (multishotToken : CompletionToken χ) (ring : Uring) (cqe : Cqe τ φ χ κ) (addr : κ)
    (token : CompletionToken χ) : Option (Uring × List (Effect τ φ χ κ)) :=
  match token.op with
  | .syncCloseDirect | .cancelAny | .ringTask | .ringFdSender => some (ring, [.delete addr])
  | .quit => some ({ ring with stopped := true }, [.delete addr])
  | .ringFdReceiver =>
    some ({ ring with directMap := Function.update ring.directMap token.cqeRes (some cqe.res) },
      [.delete addr])
  | .mainRingCloseDirectSocket => some (ring, [.closeDirectSocket cqe.res, .delete addr])
  | .multishotAccept =>
    match multishotToken.chainTask with
    | none => none
    | some task => some (ring.pushAwaiting cqe.res, [.setPending task false])
  | .multishotAcceptFdReceiver => some (ring.pushAwaiting cqe.res, [.delete addr])
  | _ =>
    match token.chainTask with
    | none => none
    | some task =>
      some (ring, [.storeResult addr cqe.res cqe.flags, .setPending task false])

/-- `handle_request`. -/
def handleRequest (multishotToken : CompletionToken χ) (ring : Uring) (cqe : Cqe τ φ χ κ) :
    Option (Uring × List (Effect τ φ χ κ)) :=
  if isMessage cqe .ringTask then
    match cqe.userData with
    | some (addr, .ringMsgTask task) => some (ring, [.enqueue task, .delete addr])
    | _ => none
  else if isMessage cqe .ringFuncTask then
    ring.implHandleMsgConn cqe
  else if isMessage cqe .multiAccTask then
    ring.implHandleMaccTask cqe
  else
    match cqe.userData with
    | none => some (ring, [])
    | some (addr, .token token) => ring.handleToken multishotToken cqe addr token
    | some _ => none

/-- The loop of `process_batch` over the completions it peeked: it stops at `stopped_`, and the
rest of the batch is consumed unhandled. -/
def processBatch (multishotToken : CompletionToken χ) (ring : Uring) :
    List (Cqe τ φ χ κ) → Option (Uring × List (Effect τ φ χ κ))
  | [] => some (ring, [])
  | cqe :: rest =>
    if ring.stopped then some (ring, [])
    else do
      let (ring', effects) ← ring.handleRequest multishotToken cqe
      let (ring'', effects') ← ring'.processBatch multishotToken rest
      some (ring'', effects ++ effects')

end Uring

end CoNet.Io
