import CoNet.Io.Uring

/-!
# What handling one completion does

`tokenOp` reads the branch of `handle_request` off a completion: no branch of the token switch for a
message. The lemmas say what each branch leaves in the ring; a caller cites them and does not unfold
`handleRequest`.
-/

set_option autoImplicit false

namespace CoNet.Io.Uring

variable {τ φ χ κ : Type} {multishotToken : CompletionToken χ} {ring ring' : Uring}
  {cqe : Cqe τ φ χ κ} {effects : List (Effect τ φ χ κ)}

/-- The completion is one of the three task messages. -/
def isTaskMessage (cqe : Cqe τ φ χ κ) : Bool :=
  isMessage cqe .ringTask || isMessage cqe .ringFuncTask || isMessage cqe .multiAccTask

/-- The `op_` that the token switch reads, for a completion that reaches the switch. -/
def tokenOp (cqe : Cqe τ φ χ κ) : Option Op :=
  if isTaskMessage cqe then none
  else
    match cqe.userData with
    | some (_, .token token) => some token.op
    | _ => none

/-- A completion is one message at most. -/
theorem isMessage_unique {type type' : RingMsgType} (h : isMessage cqe type = true)
    (h' : isMessage cqe type' = true) : type = type' := by
  simp only [isMessage, Bool.and_eq_true, beq_iff_eq] at h h'
  have hv : type.value = type'.value := h.1.symm.trans h'.1
  cases type <;> cases type' <;> first | rfl | exact absurd hv (by decide)

theorem isMessage_eq_false {type type' : RingMsgType} (h : isMessage cqe type = true)
    (ne : type' ≠ type) : isMessage cqe type' = false := by
  cases h' : isMessage cqe type' with
  | false => rfl
  | true => exact absurd (isMessage_unique h' h) ne

/-- What handling a completion appends to `awaiting_direct_fd_`. -/
def pushed (cqe : Cqe τ φ χ κ) : List Int :=
  if (tokenOp cqe = some .multishotAccept ∨ tokenOp cqe = some .multishotAcceptFdReceiver) ∧
      0 ≤ cqe.res then [cqe.res] else []

theorem pushAwaiting_of_nonneg {res : Int} (h : 0 ≤ res) :
    ring.pushAwaiting res = { ring with awaitingDirectFd := ring.awaitingDirectFd ++ [res] } :=
  if_pos h

theorem pushAwaiting_awaiting (res : Int) :
    (ring.pushAwaiting res).awaitingDirectFd =
      ring.awaitingDirectFd ++ if 0 ≤ res then [res] else [] := by
  unfold pushAwaiting
  split
  · rfl
  · exact (List.append_nil _).symm

/-- A completion that reaches the token switch is handled by its token's branch. -/
theorem handleRequest_token {addr : κ} {token : CompletionToken χ}
    (hm : isTaskMessage cqe = false) (hu : cqe.userData = some (addr, .token token)) :
    handleRequest multishotToken ring cqe = handleToken multishotToken ring cqe addr token := by
  simp only [isTaskMessage, Bool.or_eq_false_iff] at hm
  simp only [handleRequest, hm.1.1, hm.1.2, hm.2, Bool.false_eq_true, if_false, hu]

theorem handleRequest_ringFuncTask (hm : isMessage cqe .ringFuncTask = true) :
    handleRequest multishotToken ring cqe = ring.implHandleMsgConn cqe := by
  simp only [handleRequest, isMessage_eq_false hm (show RingMsgType.ringTask ≠ _ by decide), hm,
    Bool.false_eq_true, if_false, if_true]

theorem handleRequest_multiAccTask (hm : isMessage cqe .multiAccTask = true) :
    handleRequest multishotToken ring cqe = ring.implHandleMaccTask cqe := by
  simp only [handleRequest, isMessage_eq_false hm (show RingMsgType.ringTask ≠ _ by decide),
    isMessage_eq_false hm (show RingMsgType.ringFuncTask ≠ _ by decide), hm,
    Bool.false_eq_true, if_false, if_true]

/-- A completion whose object is a token is handled by its token's branch, if it is handled: a
message with such an object would be read as another type. -/
theorem handleToken_of_handleRequest {addr : κ} {token : CompletionToken χ}
    (hu : cqe.userData = some (addr, .token token))
    (h : handleRequest multishotToken ring cqe = some (ring', effects)) :
    handleToken multishotToken ring cqe addr token = some (ring', effects) := by
  cases hm : isTaskMessage cqe with
  | false => rwa [handleRequest_token hm hu] at h
  | true =>
    simp only [isTaskMessage, Bool.or_eq_true] at hm
    rcases hm with (hm | hm) | hm
    · simp only [handleRequest, hm, if_true, hu, reduceCtorEq] at h
    · simp only [handleRequest_ringFuncTask hm, implHandleMsgConn, hu, reduceCtorEq] at h
    · simp only [handleRequest_multiAccTask hm, implHandleMaccTask, hu, reduceCtorEq] at h

theorem implHandleMsgConn_awaiting (h : ring.implHandleMsgConn cqe = some (ring', effects)) :
    ring'.awaitingDirectFd = ring.awaitingDirectFd := by
  unfold implHandleMsgConn at h
  split at h
  · cases h
    rfl
  · cases h

/-- `impl_handle_macc_task` leaves the ring as it is and schedules its handler once for each slot of
the list. -/
theorem implHandleMaccTask_eq (h : ring.implHandleMaccTask cqe = some (ring', effects)) :
    ring' = ring ∧ ∃ addr op func, cqe.userData = some (addr, .multishotAcceptTaskToken op func) ∧
      effects = .delete addr ::
        ring.awaitingDirectFd.map fun fd => .schedule func (maccTaskConnection fd) := by
  unfold implHandleMaccTask at h
  split at h
  · rename_i addr op func hu
    cases h
    exact ⟨rfl, addr, op, func, hu, rfl⟩
  · cases h

theorem handleToken_awaiting {addr : κ} {token : CompletionToken χ}
    (h : handleToken multishotToken ring cqe addr token = some (ring', effects)) :
    ring'.awaitingDirectFd = ring.awaitingDirectFd ++
      if (token.op = .multishotAccept ∨ token.op = .multishotAcceptFdReceiver) ∧ 0 ≤ cqe.res then
        [cqe.res] else [] := by
  unfold handleToken at h
  cases hop : token.op <;> simp only [hop] at h
  case multishotAccept =>
    split at h
    · cases h
    · cases h
      simp only [pushAwaiting_awaiting, true_or, true_and]
  case multishotAcceptFdReceiver =>
    cases h
    simp only [pushAwaiting_awaiting, or_true, true_and]
  all_goals first
    | (cases h; simp)
    | (split at h
       · cases h
       · cases h
         simp)

/-- **The list of awaiting slots only grows.** Handling a completion appends what it pushes. -/
theorem handleRequest_awaiting (h : handleRequest multishotToken ring cqe = some (ring', effects)) :
    ring'.awaitingDirectFd = ring.awaitingDirectFd ++ pushed cqe := by
  cases hm : isTaskMessage cqe with
  | true =>
    have hp : pushed cqe = [] := by simp [pushed, tokenOp, hm]
    rw [hp, List.append_nil]
    simp only [isTaskMessage, Bool.or_eq_true] at hm
    rcases hm with (hm | hm) | hm
    · simp only [handleRequest, hm, if_true] at h
      split at h
      · cases h
        rfl
      · cases h
    · rw [handleRequest_ringFuncTask hm] at h
      exact implHandleMsgConn_awaiting h
    · rw [handleRequest_multiAccTask hm] at h
      rw [(implHandleMaccTask_eq h).1]
  | false =>
    rcases hu : cqe.userData with _ | ⟨addr, obj⟩
    · have hp : pushed cqe = [] := by simp [pushed, tokenOp, hm, hu]
      simp only [isTaskMessage, Bool.or_eq_false_iff] at hm
      simp only [handleRequest, hm.1.1, hm.1.2, hm.2, hu, Bool.false_eq_true, if_false] at h
      cases h
      rw [hp, List.append_nil]
    · cases obj with
      | token token =>
        rw [handleRequest_token hm hu] at h
        have hp : tokenOp cqe = some token.op := by simp [tokenOp, hm, hu]
        simp only [handleToken_awaiting h, pushed, hp, Option.some.injEq]
      | _ =>
        simp only [isTaskMessage, Bool.or_eq_false_iff] at hm
        simp only [handleRequest, hm.1.1, hm.1.2, hm.2, hu, Bool.false_eq_true, if_false,
          reduceCtorEq] at h

/-- The token switch makes tasks ready, and none pending. -/
theorem handleToken_setPending {addr : κ} {token : CompletionToken χ} {task : χ} {pending : Bool}
    (h : handleToken multishotToken ring cqe addr token = some (ring', effects))
    (mem : .setPending task pending ∈ effects) : pending = false := by
  unfold handleToken at h
  cases hop : token.op <;> simp only [hop] at h
  all_goals first
    | (cases h
       simp at mem)
    | (split at h
       · cases h
       · cases h
         simp only [List.mem_cons, List.not_mem_nil, or_false, Effect.setPending.injEq,
           reduceCtorEq, false_or] at mem
         exact mem.2)

/-- A completion makes tasks ready, and none pending. -/
theorem handleRequest_setPending {task : χ} {pending : Bool}
    (h : handleRequest multishotToken ring cqe = some (ring', effects))
    (mem : .setPending task pending ∈ effects) : pending = false := by
  unfold handleRequest at h
  split at h
  · split at h
    · cases h
      simp at mem
    · cases h
  · split at h
    · unfold implHandleMsgConn at h
      split at h
      · cases h
        simp at mem
      · cases h
    · split at h
      · obtain ⟨-, addr, op, func, -, rfl⟩ := implHandleMaccTask_eq h
        simp at mem
      · split at h
        · cases h
          cases mem
        · exact handleToken_setPending h mem
        · cases h

/-! ## The tasks a completion makes runnable -/

/-- An effect that can make a task runnable. -/
def wakes : Effect τ φ χ κ → Bool
  | .setPending _ _ | .enqueue _ | .schedule _ _ => true
  | _ => false

theorem handleToken_wakes {addr : κ} {token : CompletionToken χ}
    (h : handleToken multishotToken ring cqe addr token = some (ring', effects)) :
    effects.countP wakes ≤ 1 := by
  unfold handleToken at h
  cases hop : token.op <;> simp only [hop] at h
  all_goals first
    | (cases h
       simp [wakes])
    | (split at h
       · cases h
       · cases h
         simp [List.countP_cons, wakes])

/-- **A completion makes at most one task runnable**, unless it is the task message of a multishot
accept. -/
theorem handleRequest_wakes (h : handleRequest multishotToken ring cqe = some (ring', effects))
    (single : isMessage cqe .multiAccTask = false) : effects.countP wakes ≤ 1 := by
  unfold handleRequest at h
  split at h
  · split at h
    · cases h
      simp [List.countP_cons, wakes]
    · cases h
  · split at h
    · unfold implHandleMsgConn at h
      split at h
      · cases h
        simp [List.countP_cons, wakes]
      · cases h
    · rw [if_neg (by simp [single])] at h
      split at h
      · cases h
        exact Nat.zero_le _
      · exact handleToken_wakes h
      · cases h

/-! ## The object a completion is done with -/

/-- The address that an effect frees, or that it stores a result at. -/
def endsAt : Effect τ φ χ κ → Option κ
  | .delete addr => some addr
  | .storeResult addr _ _ => some addr
  | _ => none

theorem handleToken_ends {addr : κ} {token : CompletionToken χ}
    (h : handleToken multishotToken ring cqe addr token = some (ring', effects)) :
    List.Sublist (effects.filterMap endsAt) [addr] := by
  unfold handleToken at h
  cases hop : token.op <;> simp only [hop] at h
  all_goals first
    | (cases h
       simp [List.filterMap_cons, endsAt])
    | (split at h
       · cases h
       · cases h
         simp [List.filterMap_cons, endsAt])

/-- **A completion frees the object of its `user_data`, or stores its result there, once at most**, and
nothing else. -/
theorem handleRequest_ends (h : handleRequest multishotToken ring cqe = some (ring', effects)) :
    List.Sublist (effects.filterMap endsAt) (cqe.userData.map Prod.fst).toList := by
  unfold handleRequest at h
  split at h
  · split at h
    · rename_i hu
      cases h
      simp [List.filterMap_cons, endsAt, hu]
    · cases h
  · split at h
    · unfold implHandleMsgConn at h
      split at h
      · rename_i hu
        cases h
        simp [List.filterMap_cons, endsAt, hu]
      · cases h
    · split at h
      · obtain ⟨-, addr, op, func, hu, rfl⟩ := implHandleMaccTask_eq h
        simp [endsAt, hu]
      · split at h
        · cases h
          exact List.nil_sublist _
        · rename_i hu
          rw [hu]
          exact handleToken_ends h
        · cases h

end CoNet.Io.Uring
