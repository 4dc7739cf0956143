import Mathlib.Data.List.Count
import Mathlib.Data.List.Perm.Basic
import CoNet.Net.MultishotWorker

/-!
# A slot and its invocation

`ExactlyOnce` is what one state of a worker should satisfy: no received slot is passed to more
handler invocations than it was received, and once every task message has been handled the slots
passed are the slots received. `impl_handle_macc_task` goes over the whole list of slots and leaves
it as it is, so a second task message passes again what the first one passed.
`exactlyOnce_iff_first`: a run has the property in all its states exactly when it handles no task
message after the first.
-/

set_option autoImplicit false

namespace CoNet.Net.MultishotWorker

open CoNet.Io Transition

variable {τ φ χ κ : Type} {multishotToken : CompletionToken χ} {s s' : MultishotWorker}
  {cqe : Cqe τ φ χ κ}

/-- Every received slot is passed to exactly one invocation. -/
structure ExactlyOnce (s : MultishotWorker) : Prop where
  /-- No slot is passed to a second invocation. -/
  atMost : ∀ slot, s.invoked.count slot ≤ s.received.count slot
  /-- None is left once every hand-off's task message has been handled. -/
  settled : s.tasks = s.received.length → s.invoked.Perm s.received

/-- The completion is not a task message after the first one. -/
def First (s : MultishotWorker) (cqe : Cqe τ φ χ κ) : Prop :=
  s.ring.stopped = false → isMaccTask cqe → s.tasks = 0

/-- What a run that handles one task message at most keeps. -/
structure Inv (s : MultishotWorker) : Prop where
  awaiting : s.ring.awaitingDirectFd = s.received
  tasks_le : s.tasks ≤ s.received.length
  none_yet : s.tasks = 0 → s.invoked = []
  one : s.tasks ≤ 1
  passed : s.tasks = 1 → s.invoked <+: s.received ∧ s.invoked ≠ []

theorem inv_init : Inv {} where
  awaiting := rfl
  tasks_le := Nat.le_refl _
  none_yet _ := rfl
  one := Nat.zero_le _
  passed h := absurd h (by decide)

/-- The connections of `impl_handle_macc_task` carry the slots of the list. -/
theorem invocations_maccTask (addr : κ) (func : φ) (fds : List Int) :
    invocations (.delete addr :: fds.map fun fd =>
      (Effect.schedule func (maccTaskConnection fd) : Effect τ φ χ κ)) = fds := by
  unfold invocations
  rw [List.filterMap_cons_none rfl, List.filterMap_map]
  exact List.filterMap_some

/-- A task message reaches no token branch. -/
theorem tokenOp_maccTask (h : isMaccTask cqe = true) : Uring.tokenOp cqe = none := by
  unfold isMaccTask at h
  simp only [Uring.tokenOp, Uring.isTaskMessage, h, Bool.or_true, if_true]

/-- On a worker ring the list of awaiting slots grows by the slots received. -/
theorem pushed_of_delivered (h : Delivered s cqe) :
    Uring.pushed cqe = if isReceiver cqe then [cqe.res] else [] := by
  obtain ⟨hpos, -, hacc⟩ := h
  unfold Uring.pushed
  by_cases hr : isReceiver cqe = true
  · have hop : Uring.tokenOp cqe = some .multishotAcceptFdReceiver := by
      simpa only [isReceiver, beq_iff_eq] using hr
    rw [if_pos ⟨.inr hop, hpos hr⟩, if_pos hr]
  · have hop : Uring.tokenOp cqe ≠ some .multishotAcceptFdReceiver := by
      simpa only [isReceiver, beq_iff_eq] using hr
    rw [if_neg (fun h => h.1.elim hacc hop), if_neg hr]

/-- **The three things a completion can do**: nothing after `Quit`; pass the whole list of slots, for
a task message; or append a received slot and pass nothing. -/
theorem step_cases (h : s.step multishotToken cqe = some s') :
    (s.ring.stopped = true ∧ s' = s) ∨
    (s.ring.stopped = false ∧ isMaccTask cqe = true ∧ s.tasks < s.received.length ∧
      s'.ring = s.ring ∧ s'.received = s.received ∧ s'.tasks = s.tasks + 1 ∧
      s'.invoked = s.invoked ++ s.ring.awaitingDirectFd) ∨
    (s.ring.stopped = false ∧ isMaccTask cqe = false ∧ s'.tasks = s.tasks ∧
      s'.invoked = s.invoked ∧ ∃ slots, s'.received = s.received ++ slots ∧
        s'.ring.awaitingDirectFd = s.ring.awaitingDirectFd ++ slots) := by
  unfold step at h
  split at h
  · rename_i stopped
    exact .inl ⟨stopped, (Option.some.inj h).symm⟩
  · rename_i running
    have running : s.ring.stopped = false := by simpa using running
    split at h
    · cases h
    · rename_i delivered
      have delivered : Delivered s cqe := not_not.mp delivered
      split at h
      · cases h
      · rename_i ring effects handled
        cases h
        by_cases hm : isMaccTask cqe = true
        · have hr : isReceiver cqe = false := by simp [isReceiver, tokenOp_maccTask hm]
          rw [Uring.handleRequest_multiAccTask hm] at handled
          obtain ⟨rfl, addr, op, func, -, rfl⟩ := Uring.implHandleMaccTask_eq handled
          refine .inr (.inl ⟨running, hm, delivered.2.1 hm, rfl, ?_, ?_, ?_⟩)
          · simp [hr]
          · simp [hm]
          · simp only [hm, if_true, invocations_maccTask]
        · have hm' : isMaccTask cqe = false := by simpa using hm
          refine .inr (.inr ⟨running, hm', ?_, ?_, _, rfl, ?_⟩)
          · simp [hm']
          · simp [hm']
          · rw [Uring.handleRequest_awaiting handled, pushed_of_delivered delivered]

/-- **What a completion keeps**, unless it is a second task message. -/
theorem inv_step (inv : Inv s) (first : First s cqe) (h : s.step multishotToken cqe = some s') :
    Inv s' := by
  rcases step_cases h with ⟨-, rfl⟩ | ⟨hs, hm, hlt, hring, hrec, htasks, hinv⟩ |
    ⟨hs, hm, htasks, hinv, slots, hrec, haw⟩
  · exact inv
  · have h0 := first hs hm
    have hpassed : s'.invoked = s.received := by
      rw [hinv, inv.none_yet h0, inv.awaiting, List.nil_append]
    refine ⟨by rw [hring, hrec, inv.awaiting], by rw [htasks, hrec]; omega,
      fun hz => absurd hz (by omega), by omega, fun _ => ⟨by rw [hpassed, hrec], ?_⟩⟩
    rw [hpassed]
    exact List.ne_nil_of_length_pos (by omega)
  · refine ⟨by rw [haw, hrec, inv.awaiting], ?_, ?_, by rw [htasks]; exact inv.one, ?_⟩
    · rw [htasks, hrec, List.length_append]
      exact Nat.le_trans inv.tasks_le (Nat.le_add_right _ _)
    · rw [htasks, hinv]
      exact inv.none_yet
    · intro h1
      rw [htasks] at h1
      obtain ⟨hp, hne⟩ := inv.passed h1
      rw [hinv, hrec]
      exact ⟨hp.trans (List.prefix_append _ _), hne⟩

theorem exactlyOnce_of_inv (inv : Inv s) : ExactlyOnce s := by
  rcases Nat.le_one_iff_eq_zero_or_eq_one.mp inv.one with h0 | h1
  · have hi := inv.none_yet h0
    refine ⟨fun slot => by rw [hi]; exact Nat.zero_le _, fun hall => ?_⟩
    rw [hi, List.eq_nil_of_length_eq_zero (hall.symm.trans h0)]
  · obtain ⟨hp, hne⟩ := inv.passed h1
    refine ⟨fun slot => hp.sublist.count_le slot, fun hall => ?_⟩
    -- one slot received and a non-empty prefix of it passed: they are equal
    have hlen : s.received.length ≤ s.invoked.length := by
      have := List.length_pos_of_ne_nil hne
      omega
    rw [hp.eq_of_length_le hlen]

/-- **A second task message passes a slot again.** -/
theorem not_exactlyOnce_of_second (inv : Inv s) (second : ¬ First s cqe)
    (h : s.step multishotToken cqe = some s') : ¬ ExactlyOnce s' := by
  intro once
  rcases step_cases h with ⟨hs, -⟩ | ⟨hs, hm, -, -, hrec, -, hinv⟩ | ⟨hs, hm, -⟩
  · exact second fun hs' => absurd hs (by simp [hs'])
  · have h1 : s.tasks = 1 := by
      have hne : s.tasks ≠ 0 := fun h0 => second fun _ _ => h0
      have := inv.one
      omega
    obtain ⟨hp, hne⟩ := inv.passed h1
    obtain ⟨slot, rest, hcons⟩ := List.exists_cons_of_ne_nil hne
    have hmem : slot ∈ s.invoked := by rw [hcons]; exact List.mem_cons_self
    have hpos := List.count_pos_iff.mpr hmem
    have hcount := once.atMost slot
    rw [hinv, hrec, inv.awaiting, List.count_append] at hcount
    omega
  · exact second fun _ hm' => absurd hm' (by simp [hm])

/-- **Every received slot is passed to exactly one invocation exactly in the runs that handle one
task message at most.** -/
theorem exactlyOnce_iff_first (multishotToken : CompletionToken χ) (cqes : List (Cqe τ φ χ κ)) :
    Always (step multishotToken) ExactlyOnce {} cqes ↔ Meets (step multishotToken) First {} cqes :=
  always_iff_meets (fun _ _ _ => inv_step) (fun _ => exactlyOnce_of_inv)
    (fun _ _ _ => not_exactlyOnce_of_second) inv_init

/-- A hand-off of a slot: its descriptor's completion and its task's. -/
def handOff (slot : Int) : List (Cqe Unit Unit Unit Unit) :=
  [⟨slot, 0, some ((), .token { op := .multishotAcceptFdReceiver })⟩,
   ⟨RingMsgType.multiAccTask.value, netIoringCqeFTask,
    some ((), .multishotAcceptTaskToken .multishotAcceptTaskReceiver ())⟩]

/-- After hand-offs of slots 0 and 1, slot 0 has been passed to two invocations. -/
theorem not_exactlyOnce_two_handOffs :
    ∃ s, exec (step {}) {} (handOff 0 ++ handOff 1) = some s ∧ s.received = [0, 1] ∧
      s.invoked = [0, 0, 1] ∧ ¬ ExactlyOnce s :=
  ⟨_, rfl, by decide, by decide, fun h => absurd (h.atMost 0) (by decide)⟩

end CoNet.Net.MultishotWorker
