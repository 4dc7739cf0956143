import CoNet.Context.Arrival
import CoNet.Context.ParallelSpawn
import CoNet.Laws.Io.Uring

/-!
# Six senders, one decoder

`branchOf` reads the branch of `handle_request` off a completion, and `Branch.run` is what the branch
does with it (`handleRequest_eq_run`); a branch reads `user_data` as one type of object. The task messages
carry a flag that neither the kernel nor another sender sets, so no completion is taken for one by its
result: every arrival gets the branch that its sender means, and the object is of the type that the
branch reads (`arrival_decoded`).
-/

set_option autoImplicit false

namespace CoNet.Context

open CoNet.Io CoNet.Net CoNet.Io.Uring

variable {τ φ χ κ : Type} {multishotToken : CompletionToken χ} {ring : Uring} {cqe : Cqe τ φ χ κ}

/-! ## The flag of a task message -/

theorem getLsbD_flagBit {n m : Nat} (set : Bool) (ne : n ≠ m) :
    (flagBit n set).getLsbD m = false := by
  cases set with
  | false => exact BitVec.getLsbD_zero
  | true =>
    show (BitVec.twoPow 32 n).getLsbD m = false
    rw [BitVec.getLsbD_twoPow, decide_eq_false ne, Bool.and_false]

/-- No documented flag and no buffer id has the bit of `NET_IORING_CQE_F_TASK`. -/
theorem word_and_task (flags : CqeFlags) : flags.word &&& netIoringCqeFTask = 0 := by
  have clear : flags.word.getLsbD 4 = false := by
    simp only [CqeFlags.word, BitVec.getLsbD_or, BitVec.getLsbD_shiftLeft]
    rw [getLsbD_flagBit _ (by decide), getLsbD_flagBit _ (by decide), getLsbD_flagBit _ (by decide),
      getLsbD_flagBit _ (by decide)]
    rfl
  show flags.word &&& BitVec.twoPow 32 4 = 0
  rw [BitVec.and_twoPow, clear]
  rfl

/-- A completion without the flag is no task message, whatever its result. -/
theorem isMessage_of_and_task (h : cqe.flags &&& netIoringCqeFTask = 0) (type : RingMsgType) :
    isMessage cqe type = false := by
  simp [isMessage, h]

/-! ## The branches -/

namespace Branch

/-- The type as which the branch reads an object. -/
def Reads : Branch → Object τ φ χ → Prop
  | .message .ringTask, .ringMsgTask _ => True
  | .message .ringFuncTask, .ringMsgConnTaskHelper _ _ => True
  | .message .multiAccTask, .multishotAcceptTaskToken _ _ => True
  | .token op, .token t => t.op = op
  | _, _ => False

/-- What a case of the switch does with a token, whatever the token's own `op_`. -/
def runCase (multishotToken : CompletionToken χ) (ring : Uring) (cqe : Cqe τ φ χ κ) (addr : κ)
    (token : CompletionToken χ) : Op → Option (Uring × List (Effect τ φ χ κ))
  | .syncCloseDirect | .cancelAny | .ringTask | .ringFdSender => some (ring, [.delete addr])
  | .quit => some ({ ring with stopped := true }, [.delete addr])
  | .ringFdReceiver =>
    some ({ ring with directMap := Function.update ring.directMap token.cqeRes (some cqe.res) },
      [.delete addr])
  | .mainRingCloseDirectSocket => some (ring, [.closeDirectSocket cqe.res, .delete addr])
  | .multishotAccept =>
    multishotToken.chainTask.map fun task => (ring.pushAwaiting cqe.res, [.setPending task false])
  | .multishotAcceptFdReceiver => some (ring.pushAwaiting cqe.res, [.delete addr])
  | _ =>
    token.chainTask.map fun task =>
      (ring, [.storeResult addr cqe.res cqe.flags, .setPending task false])

/-- What the branch does. -/
def run (multishotToken : CompletionToken χ) (ring : Uring) (cqe : Cqe τ φ χ κ) :
    Branch → Option (Uring × List (Effect τ φ χ κ))
  | .message .ringTask =>
    match cqe.userData with
    | some (addr, .ringMsgTask task) => some (ring, [.enqueue task, .delete addr])
    | _ => none
  | .message .ringFuncTask => ring.implHandleMsgConn cqe
  | .message .multiAccTask => ring.implHandleMaccTask cqe
  | .message .ringFd => none
  | .token op =>
    match cqe.userData with
    | some (addr, .token t) => runCase multishotToken ring cqe addr t op
    | _ => none
  | .nothing => some (ring, [])

/-- The switch runs the case of the token's `op_`. -/
theorem handleToken_eq_runCase (addr : κ) (token : CompletionToken χ) :
    ring.handleToken multishotToken cqe addr token =
      runCase multishotToken ring cqe addr token token.op := by
  unfold handleToken
  cases token.op <;> simp only [runCase]
  case multishotAccept => cases multishotToken.chainTask <;> rfl
  all_goals cases token.chainTask <;> rfl

end Branch

/-- The branch of a completion. It is undefined when the switch reads an object that is no token. -/
def branchOf (cqe : Cqe τ φ χ κ) : Option Branch :=
  if isMessage cqe .ringTask then some (.message .ringTask)
  else if isMessage cqe .ringFuncTask then some (.message .ringFuncTask)
  else if isMessage cqe .multiAccTask then some (.message .multiAccTask)
  else
    match cqe.userData with
    | none => some .nothing
    | some (_, .token token) => some (.token token.op)
    | some _ => none

/-- **`handle_request` goes by the branch.** -/
theorem handleRequest_eq_run :
    handleRequest multishotToken ring cqe =
      (branchOf cqe).bind (Branch.run multishotToken ring cqe) := by
  unfold handleRequest branchOf
  split
  · rfl
  · split
    · rfl
    · split
      · rfl
      · cases hu : cqe.userData with
        | none => rfl
        | some data =>
          obtain ⟨addr, object⟩ := data
          cases object <;> simp [Branch.run, Branch.handleToken_eq_runCase, hu]

theorem branchOf_of_isMessage {type : RingMsgType} (message : isMessage cqe type = true)
    (sent : type ≠ .ringFd) : branchOf cqe = some (.message type) := by
  unfold branchOf
  cases type with
  | ringTask => rw [if_pos message]
  | ringFuncTask => rw [if_neg (by simp [isMessage_eq_false message]), if_pos message]
  | multiAccTask =>
    rw [if_neg (by simp [isMessage_eq_false message]), if_neg (by simp [isMessage_eq_false message]),
      if_pos message]
  | ringFd => exact absurd rfl sent

theorem branchOf_token {addr : κ} {token : CompletionToken χ}
    (plain : cqe.flags &&& netIoringCqeFTask = 0) (data : cqe.userData = some (addr, .token token)) :
    branchOf cqe = some (.token token.op) := by
  have none_of : ∀ type, ¬ isMessage cqe type = true := fun type => by
    rw [isMessage_of_and_task plain type]
    exact Bool.false_ne_true
  rw [branchOf, if_neg (none_of _), if_neg (none_of _), if_neg (none_of _), data]

/-! ## The senders -/

/-- `parallel_spawn` sends `taskSqe`. -/
theorem parallelSpawnTask_eq (workers : List Int) (current : Int) (messageAt tokenAt : κ) (task : τ) :
    (parallelSpawnTask workers current messageAt tokenAt task : Option (Int × Sqe τ φ χ κ)) =
      (pickWorker workers current).map fun (next, worker) =>
        (next, taskSqe worker messageAt tokenAt task) := by
  unfold parallelSpawnTask
  cases pickWorker workers current <;> rfl

/-- The notice of a spawn is one of these. -/
theorem noticeSqe_eq (mainRing : Int) (a : Nat) (fd : Int) :
    (noticeSqe mainRing a fd : Sqe Unit φ Unit Addr) = notifySqe mainRing ⟨.notice, a⟩ fd := rfl

/-- A completion gets the branch that is meant, which reads its object as what it is. -/
structure Decoded (arrival : Arrival τ φ χ κ) (cqe : Cqe τ (Option φ) χ κ) : Prop where
  branch : branchOf cqe = some arrival.kind
  object : cqe.userData = some arrival.object
  reads : arrival.kind.Reads arrival.object.2
  handled : ∀ (multishotToken : CompletionToken χ) (ring : Uring),
    ring.handleRequest multishotToken cqe = arrival.kind.run multishotToken ring cqe

theorem Decoded.of_branch {arrival : Arrival τ φ χ κ} {cqe : Cqe τ (Option φ) χ κ}
    (branch : branchOf cqe = some arrival.kind) (object : cqe.userData = some arrival.object)
    (reads : arrival.kind.Reads arrival.object.2) : Decoded arrival cqe where
  branch := branch
  object := object
  reads := reads
  handled multishotToken ring := by rw [handleRequest_eq_run, branch, Option.bind_some]

/-- A task message. -/
theorem Decoded.of_message {arrival : Arrival τ φ χ κ} {type : RingMsgType}
    (kind : arrival.kind = .message type) (sent : type ≠ .ringFd)
    (reads : arrival.kind.Reads arrival.object.2) :
    Decoded arrival ⟨type.value, netIoringCqeFTask, some arrival.object⟩ := by
  refine .of_branch ?_ rfl reads
  rw [kind]
  apply branchOf_of_isMessage _ sent
  simp [isMessage, netIoringCqeFTask]

/-- A completion of a token, with any result. -/
theorem Decoded.of_token {arrival : Arrival τ φ χ κ} {addr : κ} {token : CompletionToken χ} {res : Int}
    {flags : BitVec 32} (kind : arrival.kind = .token token.op)
    (object : arrival.object = (addr, .token token)) (plain : flags &&& netIoringCqeFTask = 0) :
    Decoded arrival ⟨res, flags, some arrival.object⟩ := by
  refine .of_branch ?_ rfl ?_
  · rw [kind]
    exact branchOf_token plain (congrArg some object)
  · rw [kind, object]
    rfl

/-- **Every arrival is decoded as what was sent.** -/
theorem arrival_decoded (arrival : Arrival τ φ χ κ) :
    ∃ cqe, arrival.cqe = some cqe ∧ Decoded arrival cqe := by
  cases arrival with
  | ringTask worker messageAt tokenAt task =>
    exact ⟨_, rfl, .of_message rfl (by decide) trivial⟩
  | ringFuncTask worker fd at_ func => exact ⟨_, rfl, .of_message rfl (by decide) trivial⟩
  | multiAccTask worker fd receiverAt taskAt func =>
    exact ⟨_, rfl, .of_message rfl (by decide) trivial⟩
  | ringFd worker fd at_ func slot => exact ⟨_, rfl, .of_token rfl rfl (by decide)⟩
  | multiAccFd worker fd receiverAt taskAt func slot => exact ⟨_, rfl, .of_token rfl rfl (by decide)⟩
  | releaseNotice mainRing tokenAt directFd => exact ⟨_, rfl, .of_token rfl rfl (by decide)⟩
  | quit ring tokenAt => exact ⟨_, rfl, .of_token rfl rfl (by decide)⟩
  | operation tokenAt token res flags => exact ⟨_, rfl, .of_token rfl rfl (word_and_task flags)⟩

/-- A slot with the number of a task message is not taken for one. -/
example (ring : Uring) : handleRequest ({} : CompletionToken Unit) ring
    (⟨RingMsgType.ringTask.value, 0, some (0, .token { op := .multishotAcceptFdReceiver })⟩ :
      Cqe Unit Unit Unit Nat) = some (ring.pushAwaiting 0x7a51, [.delete 0]) := rfl

end CoNet.Context
