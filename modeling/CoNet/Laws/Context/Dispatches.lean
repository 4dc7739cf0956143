import CoNet.Context.Deliveries
import CoNet.Laws.Context.Kernel

/-!
# Dispatches whose requests succeed

A dispatched connection's chain has its three requests, its last two or its last one; a connection
that was installed on its worker is on its way to its task there, and is scheduled by it (`Progress`).
An event executes one request or handles one completion, and what it takes away from one part of the
state it puts in the next (`inv_step`). Once no request and no completion is left, everything that was
sent has arrived (`delivered_of_inv`).
-/

set_option autoImplicit false

namespace CoNet.Context

open CoNet.Io CoNet.Net

variable {φ : Type}

theorem postTo_self {γ : Type} (cq : Int → List γ) (ring : Int) (cqes : List γ) :
    postTo cq ring cqes ring = cq ring ++ cqes := Function.update_self ..

theorem postTo_of_ne {γ : Type} (cq : Int → List γ) {ring ring' : Int} (cqes : List γ)
    (h : ring' ≠ ring) : postTo cq ring cqes ring' = cq ring' := Function.update_of_ne h ..

/-- Another queue is as it was, and the one posted to is longer. -/
theorem postTo_eq {γ : Type} (cq : Int → List γ) (ring ring' : Int) (cqes : List γ) :
    ∃ more, postTo cq ring cqes ring' = cq ring' ++ more := by
  by_cases h : ring' = ring
  · exact ⟨cqes, by rw [h, postTo_self]⟩
  · exact ⟨[], by rw [postTo_of_ne cq cqes h, List.append_nil]⟩

theorem mem_postTo {γ : Type} {cq : Int → List γ} {ring ring' : Int} {x y : γ}
    (h : x ∈ postTo cq ring [y] ring') : x ∈ cq ring' ∨ ring' = ring ∧ x = y := by
  by_cases hr : ring' = ring
  · subst hr
    rw [postTo_self] at h
    exact (List.mem_append.mp h).imp_right fun mem => ⟨rfl, List.mem_singleton.mp mem⟩
  · rw [postTo_of_ne _ _ hr] at h
    exact .inl h

theorem perm_eraseIdx {α : Type} {l : List α} {k : Nat} {x : α} (h : l[k]? = some x) :
    (x :: l.eraseIdx k).Perm l := by
  obtain ⟨hk, rfl⟩ := List.getElem?_eq_some_iff.mp h
  exact List.getElem_cons_eraseIdx_perm hk

theorem mem_eraseIdx_of_ne {α : Type} {l : List α} {k : Nat} {x y : α} (h : l[k]? = some x)
    (mem : y ∈ l) (ne : y ≠ x) : y ∈ l.eraseIdx k :=
  (List.mem_cons.mp ((perm_eraseIdx h).mem_iff.mpr mem)).resolve_left ne

namespace Dispatches

variable {rings : Rings} {s s' : Dispatches φ} {a b : Nat} {w : Int} {f : φ} {slot fd : Int}

/-! ## Requests and completions of a connection -/

def chainOf (w fd : Int) (a : Nat) (f : φ) : List (DispatchSqe φ) :=
  let h : Handoff Empty φ Unit Nat := handoff w fd (2 * a + 1) (2 * a + 2) (some f)
  [h.sendFd, h.sendTask, h.closeFd]

def fdPosting (a : Nat) (slot : Int) : Posting φ :=
  { cqe := ⟨slot, 0, some (2 * a + 1, .token { op := .multishotAcceptFdReceiver })⟩ }

def taskPosting (a : Nat) (f : φ) : Posting φ :=
  { cqe := ⟨RingMsgType.multiAccTask.value, netIoringCqeFTask,
      some (2 * a + 2, .multishotAcceptTaskToken .multishotAcceptTaskReceiver (some f))⟩ }

def acceptPosting (slot : Int) : Posting φ := { cqe := acceptCqe slot }

theorem connAt_task (a : Nat) : connAt (2 * a + 2) = a := by
  unfold connAt
  omega

/-! ## What is promised -/

/-- Each dispatched task was scheduled with its connection, on one worker, or its failure acted upon;
its main slot is closed; and no slot awaits a task on a worker that was not scheduled with it. -/
structure Delivered (rings : Rings) (s : Dispatches φ) : Prop where
  task : ∀ a w f, s.sent[a]? = some (w, f) →
    ((∃ slot, .installed a w slot ∈ s.log ∧
        .scheduled a w (some f) (maccTaskConnection slot) ∈ s.log ∧
        ∀ w' f' object, .scheduled a w' f' object ∈ s.log → w' = w) ∨ a ∈ s.acted) ∧
      ∃ fd, s.accepted[a]? = some fd ∧ .closed a rings.main fd ∈ s.log
  awaiting : ∀ w ∈ rings.workers, ∀ slot ∈ (s.uring w).awaitingDirectFd,
    ∃ a f, s.sent[a]? = some (w, f) ∧ .installed a w slot ∈ s.log ∧
      .scheduled a w (some f) (maccTaskConnection slot) ∈ s.log

/-! ## The invariant -/

/-- The slot awaits the connection's task on its worker, or its completion is in this queue. -/
def Ready (s : Dispatches φ) (a : Nat) (w slot : Int) (queue : List (Posting φ)) : Prop :=
  slot ∈ (s.uring w).awaitingDirectFd ∨ fdPosting a slot ∈ queue

/-- What is left to do for a connection that was installed on its worker. -/
inductive Progress (s : Dispatches φ) (a : Nat) (w : Int) (f : φ) (slot : Int) : Prop where
  | requested {c : Chain φ} (mem : c ∈ s.sq) (conn : c.conn = a) (two : c.sqes.length = 2)
      (ready : s.Ready a w slot (s.cq w))
  | posted (before after : List (Posting φ)) (queue : s.cq w = before ++ taskPosting a f :: after)
      (ready : s.Ready a w slot before)
  | scheduled (mem : .scheduled a w (some f) (maccTaskConnection slot) ∈ s.log)

structure Inv (rings : Rings) (s : Dispatches φ) : Prop where
  heap : s.heap = 2 * s.sent.length + 1
  sent_le : s.sent.length ≤ s.accepted.length
  workers : ∀ p ∈ s.sent, p.1 ∈ rings.workers
  /-- The connections that were not dispatched are in the list of the main ring, or to be put there. -/
  queued : (s.uring rings.main).awaitingDirectFd ++ (s.cq rings.main).map (·.cqe.res) =
    s.accepted.drop s.sent.length
  waiting : ∀ a fd, s.sent.length ≤ a → s.accepted[a]? = some fd →
    s.table rings.main fd = some a
  main_cq : ∀ p ∈ s.cq rings.main, ∃ slot, 0 ≤ slot ∧ p = acceptPosting slot
  worker_cq : ∀ ring, ring ≠ rings.main → ∀ p ∈ s.cq ring,
    (∃ a slot, p = fdPosting a slot ∧ 0 ≤ slot ∧ .installed a ring slot ∈ s.log) ∨
      ∃ a f, p = taskPosting a f ∧ s.sent[a]? = some (ring, f)
  distinct : (s.sq.map Chain.conn).Nodup
  chains : ∀ c ∈ s.sq, ∃ w f fd, s.sent[c.conn]? = some (w, f) ∧ s.accepted[c.conn]? = some fd ∧
    s.table rings.main fd = some c.conn ∧ ∃ n < 3, c.sqes = (chainOf w fd c.conn f).drop n
  installed : ∀ a w f, s.sent[a]? = some (w, f) →
    (∃ c ∈ s.sq, c.conn = a ∧ c.sqes.length = 3) ∨ ∃ slot, .installed a w slot ∈ s.log
  progress : ∀ a w slot, .installed a w slot ∈ s.log →
    ∃ f, s.sent[a]? = some (w, f) ∧ s.Progress a w f slot
  closing : ∀ a fd, a < s.sent.length → s.accepted[a]? = some fd →
    (∃ c ∈ s.sq, c.conn = a) ∨ .closed a rings.main fd ∈ s.log
  scheduled : ∀ a w f object, .scheduled a w f object ∈ s.log → ∃ f', s.sent[a]? = some (w, f')
  awaiting : ∀ w, w ≠ rings.main → ∀ slot ∈ (s.uring w).awaitingDirectFd,
    ∃ a, .installed a w slot ∈ s.log

theorem inv_init : Inv rings ({} : Dispatches φ) where
  heap := rfl
  sent_le := Nat.le_refl _
  workers _ h := nomatch h
  queued := rfl
  waiting _ _ _ h := nomatch h
  main_cq _ h := nomatch h
  worker_cq _ _ _ h := nomatch h
  distinct := List.nodup_nil
  chains _ h := nomatch h
  installed _ _ _ h := nomatch h
  progress _ _ _ h := nomatch h
  closing _ _ h := nomatch h
  scheduled _ _ _ _ h := nomatch h
  awaiting _ _ _ h := nomatch h

/-- A connection's progress is kept where nothing of it is taken away. -/
theorem Progress.mono (h : s.Progress a w f slot)
    (sq : ∀ c ∈ s.sq, c.conn = a → c.sqes.length = 2 → c ∈ s'.sq)
    (awaiting : ∀ x ∈ (s.uring w).awaitingDirectFd, x ∈ (s'.uring w).awaitingDirectFd)
    (cq : ∃ more, s'.cq w = s.cq w ++ more) (log : ∀ n ∈ s.log, n ∈ s'.log) :
    s'.Progress a w f slot := by
  obtain ⟨more, cq⟩ := cq
  have ready : ∀ {q q' : List (Posting φ)}, s.Ready a w slot q → (∀ p ∈ q, p ∈ q') →
      s'.Ready a w slot q' := by
    intro q q' h hq
    rcases h with h | h
    · exact .inl (awaiting slot h)
    · exact .inr (hq _ h)
  cases h with
  | requested mem conn two h =>
    refine .requested (sq _ mem conn two) conn two (ready h ?_)
    intro p hp
    rw [cq]
    exact List.mem_append_left _ hp
  | posted before after queue h =>
    refine .posted before (after ++ more) ?_ (ready h fun _ hp => hp)
    rw [cq, queue, List.append_assoc, List.cons_append]
  | scheduled mem => exact .scheduled (log _ mem)

theorem Inv.worker_ne (inv : Inv rings s) (h : s.sent[a]? = some (w, f)) : w ≠ rings.main := by
  have hw := inv.workers _ (List.mem_of_getElem? h)
  exact fun hm => rings.main_not_mem (hm ▸ hw)

/-- Different connections that are not closed have different slots. -/
theorem Inv.conn_ne (inv : Inv rings s) {k : Nat} {c d : Chain φ} (hk : s.sq[k]? = some c)
    (hd : d ∈ s.sq.eraseIdx k) : d.conn ≠ c.conn := by
  have nodup : ((c :: s.sq.eraseIdx k).map Chain.conn).Nodup :=
    ((perm_eraseIdx hk).map Chain.conn).nodup_iff.mpr inv.distinct
  rw [List.map_cons, List.nodup_cons] at nodup
  exact fun h => nodup.1 (h ▸ List.mem_map_of_mem hd)

/-! ## Accepts -/

theorem inv_accept (inv : Inv rings s) (h : s.accept rings slot = some s') : Inv rings s' := by
  unfold accept at h
  split at h
  · rename_i guard
    obtain ⟨pos, free⟩ := guard
    obtain rfl := Option.some.inj h
    -- the slots of the connections there are stay as they are
    have kept : ∀ {fd : Int} {b : Nat}, s.table rings.main fd = some b →
        System.setSlot s.table rings.main slot (some s.accepted.length) rings.main fd = some b :=
      fun h => System.setSlot_kept h (by rw [free]; exact fun h => nomatch h)
    refine { inv with
      sent_le := ?_, queued := ?_, waiting := ?_, main_cq := ?_, worker_cq := ?_, chains := ?_
      progress := ?_, closing := ?_ }
    · rw [List.length_append]
      exact Nat.le_add_right_of_le inv.sent_le
    · dsimp only
      rw [postTo_self, List.map_append, ← List.append_assoc, inv.queued,
        List.drop_append_of_le_length inv.sent_le]
      rfl
    · intro b fd hb hfd
      rcases Nat.lt_or_ge b s.accepted.length with lt | ge
      · dsimp only at hfd
        rw [List.getElem?_append_left lt] at hfd
        exact kept (inv.waiting b fd hb hfd)
      · obtain rfl : b = s.accepted.length := by
          have := (List.getElem?_eq_some_iff.mp hfd).1
          simp only [List.length_append, List.length_singleton] at this
          omega
        simp only [List.getElem?_concat_length, Option.some.injEq] at hfd
        subst hfd
        exact System.setSlot_self ..
    · intro p hp
      dsimp only at hp
      rw [postTo_self] at hp
      rcases List.mem_append.mp hp with hp | hp
      · exact inv.main_cq p hp
      · exact ⟨slot, pos, List.mem_singleton.mp hp⟩
    · intro ring ne p hp
      dsimp only at hp
      rw [postTo_of_ne _ _ ne] at hp
      exact inv.worker_cq ring ne p hp
    · intro c hc
      obtain ⟨w, f, fd, hsent, hfd, holds, shape⟩ := inv.chains c hc
      have lt := (List.getElem?_eq_some_iff.mp hfd).1
      exact ⟨w, f, fd, hsent, (List.getElem?_append_left lt).trans hfd, kept holds, shape⟩
    · intro b w slot' hb
      obtain ⟨f, hsent, progress⟩ := inv.progress b w slot' hb
      refine ⟨f, hsent, progress.mono (fun c hc _ _ => hc) (fun _ hx => hx) ?_ fun _ hn => hn⟩
      exact postTo_eq ..
    · intro b fd hb hfd
      have lt := Nat.lt_of_lt_of_le hb inv.sent_le
      dsimp only at hfd
      rw [List.getElem?_append_left lt] at hfd
      exact inv.closing b fd hb hfd
  · cases h

/-! ## Loops -/

theorem handleRequest_accept (ring : Uring) (pos : 0 ≤ slot) :
    ring.handleRequest multishotToken (acceptPosting slot : Posting φ).cqe =
      some ({ ring with awaitingDirectFd := ring.awaitingDirectFd ++ [slot] },
        [.setPending () false]) := by
  refine (Uring.handleRequest_token ?_ rfl).trans ?_
  · simp [Uring.isTaskMessage, Uring.isMessage, acceptPosting, acceptCqe, ioringCqeFMore,
      netIoringCqeFTask]
  · show some (ring.pushAwaiting slot, [Effect.setPending () false]) = _
    rw [Uring.pushAwaiting_of_nonneg pos]

theorem handleRequest_receiver (ring : Uring) (a : Nat) (pos : 0 ≤ slot) :
    ring.handleRequest multishotToken (fdPosting a slot : Posting φ).cqe =
      some ({ ring with awaitingDirectFd := ring.awaitingDirectFd ++ [slot] },
        [.delete (2 * a + 1)]) := by
  refine (Uring.handleRequest_token ?_ rfl).trans ?_
  · simp [Uring.isTaskMessage, Uring.isMessage, fdPosting]
  · show some (ring.pushAwaiting slot, [Effect.delete (2 * a + 1)]) = _
    rw [Uring.pushAwaiting_of_nonneg pos]

theorem handleRequest_macc (ring : Uring) (a : Nat) (f : φ) :
    ring.handleRequest multishotToken (taskPosting a f).cqe =
      some (ring, .delete (2 * a + 2) ::
        ring.awaitingDirectFd.map fun fd => .schedule (some f) (maccTaskConnection fd)) := by
  refine (Uring.handleRequest_multiAccTask ?_).trans rfl
  simp only [Uring.isMessage, taskPosting, beq_self_eq_true, Bool.true_and]
  decide

/-- A loop takes the first completion off its queue. -/
theorem handleStep_eq {ring : Int} {p : Posting φ} {rest : List (Posting φ)} {uring : Uring}
    {effects : List (Effect Empty (Option φ) Unit Nat)} (hcq : s.cq ring = p :: rest)
    (hh : (s.uring ring).handleRequest multishotToken p.cqe = some (uring, effects))
    (acts : actsOnFailure p.cqe effects = false) (h : s.handleStep ring = some s') :
    s' = { s with
      cq := Function.update s.cq ring rest, uring := Function.update s.uring ring uring
      log := s.log ++ effects.flatMap (effectNotes ring p.cqe) } := by
  simp only [handleStep, hcq, hh, acts, Option.bind_eq_bind, Option.bind_some, Bool.false_eq_true,
    if_false, List.append_nil, Option.some.injEq] at h
  exact h.symm

/-- **A worker handles a completion.** A slot that was posted awaits its task then, and a task that was
posted behind its slot is scheduled with it. -/
theorem Progress.popped {p : Posting φ} {rest : List (Posting φ)} (h : s.Progress a w f slot)
    (hcq : s.cq w = p :: rest) (sq : s'.sq = s.sq) (cq : s'.cq w = rest)
    (awaiting : ∀ x ∈ (s.uring w).awaitingDirectFd, x ∈ (s'.uring w).awaitingDirectFd)
    (log : ∀ n ∈ s.log, n ∈ s'.log)
    (fd : p = fdPosting a slot → slot ∈ (s'.uring w).awaitingDirectFd)
    (task : p = taskPosting a f → slot ∈ (s.uring w).awaitingDirectFd →
      .scheduled a w (some f) (maccTaskConnection slot) ∈ s'.log) : s'.Progress a w f slot := by
  have ready : ∀ {q : List (Posting φ)}, s.Ready a w slot (p :: q) → s'.Ready a w slot q := by
    intro q h
    rcases h with h | h
    · exact .inl (awaiting slot h)
    · rcases List.mem_cons.mp h with h | h
      · exact .inl (fd h.symm)
      · exact .inr h
  cases h with
  | requested mem conn two h =>
    rw [hcq] at h
    exact .requested (sq ▸ mem) conn two (cq ▸ ready h)
  | posted before after queue h =>
    rw [hcq] at queue
    cases before with
    | nil =>
      obtain ⟨hp, -⟩ := List.cons.inj queue
      rcases h with h | h
      · exact .scheduled (task hp h)
      · cases h
    | cons q before =>
      obtain ⟨rfl, hrest⟩ := List.cons.inj queue
      exact .posted before after (cq.trans hrest) (ready h)
  | scheduled mem => exact .scheduled (log _ mem)

/-- The main loop puts an accepted connection's slot in its list. -/
theorem inv_handle_main (inv : Inv rings s) (h : s.handleStep rings.main = some s') :
    Inv rings s' := by
  cases hcq : s.cq rings.main with
  | nil =>
    simp only [handleStep, hcq] at h
    cases h
  | cons p rest =>
    obtain ⟨slot, pos, rfl⟩ := inv.main_cq p (hcq ▸ List.mem_cons_self)
    have acts : actsOnFailure (acceptPosting slot : Posting φ).cqe
        ([.setPending () false] : List (Effect Empty (Option φ) Unit Nat)) = false := by
      simp [actsOnFailure, acceptPosting, acceptCqe, not_lt.mpr pos]
    obtain rfl := handleStep_eq hcq (handleRequest_accept _ pos) acts h
    have log : s.log ++ ([.setPending () false] : List (Effect Empty (Option φ) Unit Nat)).flatMap
        (effectNotes rings.main (acceptPosting slot : Posting φ).cqe) = s.log := List.append_nil _
    rw [log]
    refine { inv with
      queued := ?_, main_cq := ?_, worker_cq := ?_, progress := ?_, awaiting := ?_ }
    · have := inv.queued
      simp only [hcq, List.map_cons] at this
      simp only [Function.update_self, List.append_assoc]
      exact this
    · exact fun p hp => inv.main_cq p (System.mem_of_taken hcq hp)
    · exact fun ring ne p hp => inv.worker_cq ring ne p (System.mem_of_taken hcq hp)
    · intro b w slot' hb
      obtain ⟨f, hsent, progress⟩ := inv.progress b w slot' hb
      have ne := inv.worker_ne hsent
      refine ⟨f, hsent, progress.mono (fun c hc _ _ => hc) ?_ ⟨[], ?_⟩ fun _ hn => hn⟩
      · simp only [Function.update_of_ne ne]
        exact fun _ hx => hx
      · simp only [Function.update_of_ne ne, List.append_nil]
    · intro w ne slot' hslot
      simp only [Function.update_of_ne ne] at hslot
      exact inv.awaiting w ne slot' hslot

section Worker

variable {ring : Int} {rest : List (Posting φ)}

/-- A worker's loop puts a slot in its list. -/
theorem Inv.handled_fd (inv : Inv rings s) (ne : ring ≠ rings.main)
    (hcq : s.cq ring = fdPosting a slot :: rest) (installed : .installed a ring slot ∈ s.log) :
    Inv rings { s with
      cq := Function.update s.cq ring rest
      uring := Function.update s.uring ring { s.uring ring with
        awaitingDirectFd := (s.uring ring).awaitingDirectFd ++ [slot] } } := by
  refine { inv with
    queued := ?_, main_cq := ?_, worker_cq := ?_, progress := ?_, awaiting := ?_ }
  · simp only [Function.update_of_ne ne.symm]
    exact inv.queued
  · exact fun q hq => inv.main_cq q (System.mem_of_taken hcq hq)
  · exact fun w hw q hq => inv.worker_cq w hw q (System.mem_of_taken hcq hq)
  · intro b w slot' hb
    obtain ⟨f, hsent, progress⟩ := inv.progress b w slot' hb
    refine ⟨f, hsent, ?_⟩
    by_cases hw : w = ring
    · subst hw
      refine progress.popped hcq rfl (Function.update_self ..) ?_ (fun _ hn => hn) ?_ ?_
      · simp only [Function.update_self]
        exact fun _ hx => List.mem_append_left _ hx
      · intro hp
        simp only [fdPosting, Posting.mk.injEq, Cqe.mk.injEq, true_and] at hp
        simp only [Function.update_self, hp.1]
        exact List.mem_append_right _ (List.mem_singleton_self _)
      · intro hp
        simp [fdPosting, taskPosting] at hp
    · refine progress.mono (fun c hc _ _ => hc) ?_ ⟨[], ?_⟩ fun _ hn => hn
      · simp only [Function.update_of_ne hw]
        exact fun _ hx => hx
      · simp only [Function.update_of_ne hw, List.append_nil]
  · intro w hw slot' hslot
    by_cases hr : w = ring
    · subst hr
      simp only [Function.update_self] at hslot
      rcases List.mem_append.mp hslot with hslot | hslot
      · exact inv.awaiting w hw slot' hslot
      · obtain rfl := List.mem_singleton.mp hslot
        exact ⟨a, installed⟩
    · simp only [Function.update_of_ne hr] at hslot
      exact inv.awaiting w hw slot' hslot

/-- A worker's loop schedules a task with each slot of its list. -/
theorem Inv.handled_task {notes : List (DispatchNote φ)} (inv : Inv rings s)
    (ne : ring ≠ rings.main) (hcq : s.cq ring = taskPosting a f :: rest)
    (hsent : s.sent[a]? = some (ring, f))
    (hnotes : ∀ n, n ∈ notes ↔ ∃ fd ∈ (s.uring ring).awaitingDirectFd,
      n = .scheduled a ring (some f) (maccTaskConnection fd)) :
    Inv rings { s with cq := Function.update s.cq ring rest, log := s.log ++ notes } := by
  refine { inv with
    queued := ?_, main_cq := ?_, worker_cq := ?_, installed := ?_, progress := ?_
    closing := ?_, scheduled := ?_, awaiting := ?_ }
  · simp only [Function.update_of_ne ne.symm]
    exact inv.queued
  · exact fun q hq => inv.main_cq q (System.mem_of_taken hcq hq)
  · intro w hw q hq
    rcases inv.worker_cq w hw q (System.mem_of_taken hcq hq) with ⟨b, slot, rfl, pos, hb⟩ | h
    · exact .inl ⟨b, slot, rfl, pos, List.mem_append_left _ hb⟩
    · exact .inr h
  · intro b w g hb
    rcases inv.installed b w g hb with h | ⟨slot, hslot⟩
    · exact .inl h
    · exact .inr ⟨slot, List.mem_append_left _ hslot⟩
  · intro b w slot hb
    have hb : .installed b w slot ∈ s.log := by
      rcases List.mem_append.mp hb with hb | hb
      · exact hb
      · obtain ⟨fd, -, hn⟩ := (hnotes _).mp hb
        cases hn
    obtain ⟨g, hg, progress⟩ := inv.progress b w slot hb
    refine ⟨g, hg, ?_⟩
    by_cases hw : w = ring
    · subst hw
      refine progress.popped hcq rfl (Function.update_self ..) (fun _ hx => hx)
        (fun _ hn => List.mem_append_left _ hn) ?_ ?_
      · intro hp
        simp [fdPosting, taskPosting] at hp
      · intro hp hslot
        simp only [taskPosting, Posting.mk.injEq, Cqe.mk.injEq, Option.some.injEq,
          Prod.mk.injEq, Object.multishotAcceptTaskToken.injEq, true_and] at hp
        obtain ⟨ha, rfl⟩ := hp
        obtain rfl : a = b := by omega
        exact List.mem_append_right _ ((hnotes _).mpr ⟨slot, hslot, rfl⟩)
    · refine progress.mono (fun c hc _ _ => hc) (fun _ hx => hx) ⟨[], ?_⟩
        fun _ hn => List.mem_append_left _ hn
      simp only [Function.update_of_ne hw, List.append_nil]
  · intro b fd hb hfd
    rcases inv.closing b fd hb hfd with h | h
    · exact .inl h
    · exact .inr (List.mem_append_left _ h)
  · intro b w g object hb
    rcases List.mem_append.mp hb with hb | hb
    · exact inv.scheduled b w g object hb
    · obtain ⟨fd, -, hn⟩ := (hnotes _).mp hb
      cases hn
      exact ⟨f, hsent⟩
  · intro w hw slot hslot
    obtain ⟨b, hb⟩ := inv.awaiting w hw slot hslot
    exact ⟨b, List.mem_append_left _ hb⟩

/-- **A worker's loop handles a slot or a task.** -/
theorem inv_handle_worker (inv : Inv rings s) (ne : ring ≠ rings.main)
    (h : s.handleStep ring = some s') : Inv rings s' := by
  cases hcq : s.cq ring with
  | nil =>
    simp only [handleStep, hcq] at h
    cases h
  | cons p rest =>
    rcases inv.worker_cq ring ne p (hcq ▸ List.mem_cons_self) with
      ⟨a, slot, rfl, pos, hinstalled⟩ | ⟨a, f, rfl, hsent⟩
    · have acts : actsOnFailure (fdPosting a slot : Posting φ).cqe
          ([.delete (2 * a + 1)] : List (Effect Empty (Option φ) Unit Nat)) = false := by
        simp [actsOnFailure]
      obtain rfl := handleStep_eq hcq (handleRequest_receiver _ a pos) acts h
      have log : s.log ++ ([.delete (2 * a + 1)] : List (Effect Empty (Option φ) Unit Nat)).flatMap
          (effectNotes ring (fdPosting a slot : Posting φ).cqe) = s.log := List.append_nil _
      rw [log]
      exact inv.handled_fd ne hcq hinstalled
    · have acts : actsOnFailure (taskPosting a f).cqe
          ((.delete (2 * a + 2) :: (s.uring ring).awaitingDirectFd.map fun fd =>
            .schedule (some f) (maccTaskConnection fd)) :
            List (Effect Empty (Option φ) Unit Nat)) = false := by
        simp [actsOnFailure, taskPosting, RingMsgType.value]
      obtain rfl := handleStep_eq hcq (handleRequest_macc _ a f) acts h
      rw [Function.update_eq_self]
      refine inv.handled_task ne hcq hsent fun n => ?_
      -- the notes are of the connection that the task was sent with
      simp only [List.flatMap_cons, List.flatMap_map, effectNotes, taskPosting, Option.map_some,
        connAt_task, Option.toList_some, List.nil_append, List.mem_flatMap, List.mem_singleton]

end Worker

/-! ## Dispatches -/

theorem getElem?_concat_some {α : Type} {l : List α} {x y : α} {i : Nat}
    (h : (l ++ [x])[i]? = some y) : l[i]? = some y ∨ i = l.length ∧ y = x := by
  rcases Nat.lt_or_ge i l.length with lt | ge
  · exact .inl ((List.getElem?_append_left lt).symm.trans h)
  · obtain rfl : i = l.length := by
      have := (List.getElem?_eq_some_iff.mp h).1
      simp only [List.length_append, List.length_singleton] at this
      omega
    rw [List.getElem?_concat_length] at h
    exact .inr ⟨rfl, (Option.some.inj h).symm⟩

theorem getElem?_append_of_some {α : Type} {l l' : List α} {y : α} {i : Nat}
    (h : l[i]? = some y) : (l ++ l')[i]? = some y :=
  (List.getElem?_append_left (List.getElem?_eq_some_iff.mp h).1).trans h

/-- A dispatch sends no connection, or the one that waits. -/
theorem dispatch_eq {current current' : Int} {func : φ}
    (one : (s.uring rings.main).awaitingDirectFd.length ≤ 1)
    (h : s.dispatch rings current func = some (current', s')) :
    s' = s ∨ ∃ fd, ∃ w ∈ rings.workers, (s.uring rings.main).awaitingDirectFd = [fd] ∧ s' = { s with
      heap := s.heap + 2
      uring := Function.update s.uring rings.main
        { s.uring rings.main with awaitingDirectFd := [] }
      sq := s.sq ++ [⟨s.sent.length,
        let h : Handoff Empty φ Unit Nat := handoff w fd s.heap (s.heap + 1) (some func)
        [h.sendFd, h.sendTask, h.closeFd]⟩]
      sent := s.sent ++ [(w, func)] } := by
  simp only [dispatch, Option.bind_eq_bind, Option.bind_eq_some_iff] at h
  obtain ⟨⟨uring, current'', heap, handoffs⟩, hsend, heq⟩ := h
  obtain ⟨rfl, hsent⟩ := mshotAcceptSend_eq hsend
  obtain rfl := (Prod.mk.inj (Option.some.inj heq)).2
  cases hfds : (s.uring rings.main).awaitingDirectFd with
  | nil =>
    rw [hfds] at hsent
    cases hsent
    refine .inl ?_
    have same : ({ s.uring rings.main with awaitingDirectFd := [] } : Uring) =
        s.uring rings.main := by
      rw [← hfds]
    simp only [same, Function.update_eq_self, List.zipIdx_nil, List.map_nil, List.filterMap_nil,
      List.append_nil]
  | cons fd fds =>
    obtain rfl : fds = [] := by
      rw [hfds, List.length_cons] at one
      exact List.eq_nil_of_length_eq_zero (by omega)
    rw [hfds] at hsent
    simp only [sendAwaitingFds, Option.bind_eq_bind, Option.bind_eq_some_iff] at hsent
    obtain ⟨⟨next, w⟩, hw, ⟨last, lastHeap, rest⟩, hrest, heq⟩ := hsent
    cases hrest
    cases heq
    exact .inr ⟨fd, w, pickWorker_mem hw, rfl, rfl⟩

/-- **One connection is dispatched.** Its chain is submitted with the function. -/
theorem inv_dispatch {current current' : Int} {func : φ} (inv : Inv rings s)
    (one : (s.uring rings.main).awaitingDirectFd.length ≤ 1)
    (h : s.dispatch rings current func = some (current', s')) : Inv rings s' := by
  rcases dispatch_eq one h with rfl | ⟨fd, w, hw, hfds, rfl⟩
  · exact inv
  -- the connection is the next of the ones accepted
  have queued := inv.queued
  rw [hfds, List.singleton_append] at queued
  have hfd : s.accepted[s.sent.length]? = some fd := by
    have := congrArg List.head? queued
    rw [List.head?_cons, List.head?_drop] at this
    exact this.symm
  have lt := (List.getElem?_eq_some_iff.mp hfd).1
  have waits := inv.waiting _ fd (Nat.le_refl _) hfd
  refine { inv with
    heap := ?_, sent_le := ?_, workers := ?_, queued := ?_, waiting := ?_, worker_cq := ?_
    distinct := ?_, chains := ?_, installed := ?_, progress := ?_, closing := ?_, scheduled := ?_
    awaiting := ?_ }
  · dsimp only
    rw [inv.heap, List.length_append, List.length_singleton]
    omega
  · dsimp only
    rw [List.length_append, List.length_singleton]
    exact lt
  · intro p hp
    rcases List.mem_append.mp hp with hp | hp
    · exact inv.workers p hp
    · obtain rfl := List.mem_singleton.mp hp
      exact hw
  · dsimp only
    rw [Function.update_self, List.nil_append, List.length_append, List.length_singleton]
    have := congrArg List.tail queued
    rwa [List.tail_cons, List.tail_drop] at this
  · intro b fd' hb hfd'
    dsimp only at hb
    rw [List.length_append] at hb
    exact inv.waiting b fd' (by omega) hfd'
  · intro ring ne p hp
    rcases inv.worker_cq ring ne p hp with h | ⟨b, g, rfl, hb⟩
    · exact .inl h
    · exact .inr ⟨b, g, rfl, getElem?_append_of_some hb⟩
  · have fresh : s.sent.length ∉ s.sq.map Chain.conn := by
      intro h
      obtain ⟨c, hc, hconn⟩ := List.mem_map.mp h
      obtain ⟨w', g, fd', hsent, -⟩ := inv.chains c hc
      have := (List.getElem?_eq_some_iff.mp hsent).1
      omega
    dsimp only
    rw [List.map_append, List.map_singleton]
    exact List.nodup_append'.mpr ⟨inv.distinct, List.nodup_singleton _,
      List.disjoint_singleton.mpr fresh⟩
  · intro c hc
    rcases List.mem_append.mp hc with hc | hc
    · obtain ⟨w', g, fd', hsent, rest⟩ := inv.chains c hc
      exact ⟨w', g, fd', getElem?_append_of_some hsent, rest⟩
    · obtain rfl := List.mem_singleton.mp hc
      refine ⟨w, func, fd, List.getElem?_concat_length, hfd, waits, 0, by omega, ?_⟩
      simp only [inv.heap]
      rfl
  · intro b w' g hb
    rcases getElem?_concat_some hb with hb | ⟨rfl, -⟩
    · rcases inv.installed b w' g hb with ⟨c, hc, h⟩ | h
      · exact .inl ⟨c, List.mem_append_left _ hc, h⟩
      · exact .inr h
    · exact .inl ⟨_, List.mem_append_right _ (List.mem_singleton_self _), rfl, rfl⟩
  · intro b w' slot hb
    obtain ⟨g, hsent, progress⟩ := inv.progress b w' slot hb
    have ne := inv.worker_ne hsent
    refine ⟨g, getElem?_append_of_some hsent, progress.mono ?_ ?_ ⟨[], ?_⟩ fun _ hn => hn⟩
    · exact fun c hc _ _ => List.mem_append_left _ hc
    · dsimp only
      rw [Function.update_of_ne ne]
      exact fun _ hx => hx
    · exact (List.append_nil _).symm
  · intro b fd' hb hfd'
    dsimp only at hb
    rw [List.length_append, List.length_singleton] at hb
    rcases Nat.lt_succ_iff_lt_or_eq.mp hb with hb | rfl
    · rcases inv.closing b fd' hb hfd' with ⟨c, hc, h⟩ | h
      · exact .inl ⟨c, List.mem_append_left _ hc, h⟩
      · exact .inr h
    · exact .inl ⟨_, List.mem_append_right _ (List.mem_singleton_self _), rfl⟩
  · intro b w' g object hb
    obtain ⟨g', hg⟩ := inv.scheduled b w' g object hb
    exact ⟨g', getElem?_append_of_some hg⟩
  · intro w' ne slot hslot
    dsimp only at hslot
    rw [Function.update_of_ne ne] at hslot
    exact inv.awaiting w' ne slot hslot

/-! ## The kernel -/

section Kernel

variable {k : Nat} {c d : Chain φ} {rest : List (DispatchSqe φ)}

/-- The other chains stay. -/
theorem mem_of_remaining (hk : s.sq[k]? = some c) (hd : d ∈ s.sq) (ne : d ≠ c) :
    d ∈ s.sq.eraseIdx k ++ remaining c rest :=
  List.mem_append_left _ (mem_eraseIdx_of_ne hk hd ne)

theorem remaining_cons {sqe : DispatchSqe φ} :
    remaining c (sqe :: rest) = [{ c with sqes := sqe :: rest }] := rfl

theorem Inv.distinct_remaining (inv : Inv rings s) (hk : s.sq[k]? = some c) :
    ((s.sq.eraseIdx k ++ remaining c rest).map Chain.conn).Nodup := by
  have nodup : ((c :: s.sq.eraseIdx k).map Chain.conn).Nodup :=
    ((perm_eraseIdx hk).map Chain.conn).nodup_iff.mpr inv.distinct
  rw [List.map_cons, List.nodup_cons] at nodup
  cases rest with
  | nil =>
    rw [show remaining c [] = [] from rfl, List.append_nil]
    exact nodup.2
  | cons sqe rest =>
    rw [remaining_cons, List.map_append, List.map_singleton]
    exact List.nodup_append'.mpr ⟨nodup.2, List.nodup_singleton _,
      List.disjoint_singleton.mpr nodup.1⟩

/-- A connection with a chain has one, or it was its last request that was executed. -/
theorem closing_remaining (hk : s.sq[k]? = some c) (h : ∃ d ∈ s.sq, d.conn = b) :
    (∃ d ∈ s.sq.eraseIdx k ++ remaining c rest, d.conn = b) ∨ b = c.conn ∧ rest = [] := by
  obtain ⟨d, hd, rfl⟩ := h
  by_cases ne : d = c
  · subst ne
    cases rest with
    | nil => exact .inr ⟨rfl, rfl⟩
    | cons sqe rest =>
      exact .inl ⟨_, List.mem_append_right _ (List.mem_singleton_self _), rfl⟩
  · exact .inl ⟨d, mem_of_remaining hk hd ne, rfl⟩

/-- **The kernel installs the connection on its worker.** -/
theorem Inv.executed_fd (inv : Inv rings s) (hk : s.sq[k]? = some c) (hc : c.conn = a)
    (shape : c.sqes = chainOf w fd a f) (hsent : s.sent[a]? = some (w, f))
    (hfd : s.accepted[a]? = some fd) (holds : s.table rings.main fd = some a) (pos : 0 ≤ slot) :
    Inv rings { s with
      sq := s.sq.eraseIdx k ++ remaining c ((chainOf w fd a f).drop 1)
      table := System.setSlot s.table w slot (some a)
      cq := postTo s.cq w [fdPosting a slot]
      log := s.log ++ [.installed a w slot] } := by
  have ne := inv.worker_ne hsent
  have main_cq : postTo s.cq w [fdPosting a slot] rings.main = s.cq rings.main :=
    postTo_of_ne _ _ ne.symm
  have main_table : ∀ fd', System.setSlot s.table w slot (some a) rings.main fd' =
      s.table rings.main fd' := fun fd' => System.setSlot_other (.inl ne.symm)
  have two : { c with sqes := (chainOf w fd a f).drop 1 } ∈
      s.sq.eraseIdx k ++ remaining c ((chainOf w fd a f).drop 1) :=
    List.mem_append_right _ (List.mem_singleton_self _)
  refine { inv with
    queued := ?_, waiting := ?_, main_cq := ?_, worker_cq := ?_
    distinct := inv.distinct_remaining hk, chains := ?_, installed := ?_, progress := ?_
    closing := ?_, scheduled := ?_, awaiting := ?_ }
  · dsimp only
    rw [main_cq]
    exact inv.queued
  · intro b fd' hb hfd'
    exact (main_table fd').trans (inv.waiting b fd' hb hfd')
  · dsimp only
    rw [main_cq]
    exact inv.main_cq
  · intro ring hring p hp
    have before : ∀ p ∈ s.cq ring, (∃ a' slot', p = fdPosting a' slot' ∧ 0 ≤ slot' ∧
        .installed a' ring slot' ∈ s.log ++ [.installed a w slot]) ∨
        ∃ a' f', p = taskPosting a' f' ∧ s.sent[a']? = some (ring, f') := by
      intro p hp
      rcases inv.worker_cq ring hring p hp with ⟨b, slot', rfl, pos', hb⟩ | h
      · exact .inl ⟨b, slot', rfl, pos', List.mem_append_left _ hb⟩
      · exact .inr h
    rcases mem_postTo hp with hp | ⟨rfl, rfl⟩
    · exact before p hp
    · exact .inl ⟨a, slot, rfl, pos, List.mem_append_right _ (List.mem_singleton_self _)⟩
  · intro d hd
    rcases List.mem_append.mp hd with hd | hd
    · obtain ⟨w', g, fd', hsent', hfd', holds', shape'⟩ := inv.chains d (List.mem_of_mem_eraseIdx hd)
      exact ⟨w', g, fd', hsent', hfd', (main_table fd').trans holds', shape'⟩
    · obtain rfl := List.mem_singleton.mp hd
      subst hc
      exact ⟨w, f, fd, hsent, hfd, (main_table fd).trans holds, 1, by omega, rfl⟩
  · intro b w' g hb
    rcases inv.installed b w' g hb with ⟨d, hd, hconn, hlen⟩ | ⟨slot', h⟩
    · by_cases hdc : d = c
      · obtain rfl : b = a := by rw [← hconn, hdc, hc]
        obtain rfl : w' = w := (Prod.mk.inj (Option.some.inj (hb.symm.trans hsent))).1
        exact .inr ⟨slot, List.mem_append_right _ (List.mem_singleton_self _)⟩
      · exact .inl ⟨d, mem_of_remaining hk hd hdc, hconn, hlen⟩
    · exact .inr ⟨slot', List.mem_append_left _ h⟩
  · intro b w' slot' hb
    rcases List.mem_append.mp hb with hb | hb
    · obtain ⟨g, hg, progress⟩ := inv.progress b w' slot' hb
      refine ⟨g, hg, progress.mono ?_ (fun _ hx => hx) (postTo_eq ..)
        fun _ hn => List.mem_append_left _ hn⟩
      intro d hd _ hlen
      refine mem_of_remaining hk hd fun h => ?_
      rw [h, shape] at hlen
      cases hlen
    · obtain ⟨rfl, rfl, rfl⟩ := DispatchNote.installed.inj (List.mem_singleton.mp hb)
      refine ⟨f, hsent, .requested two hc rfl (.inr ?_)⟩
      dsimp only
      rw [postTo_self]
      exact List.mem_append_right _ (List.mem_singleton_self _)
  · intro b fd' hb hfd'
    rcases inv.closing b fd' hb hfd' with h | h
    · rcases closing_remaining hk h with h | ⟨-, h⟩
      · exact .inl h
      · cases h
    · exact .inr (List.mem_append_left _ h)
  · intro b w' g object hb
    rcases List.mem_append.mp hb with hb | hb
    · exact inv.scheduled b w' g object hb
    · cases List.mem_singleton.mp hb
  · intro w' hw' slot' hslot
    obtain ⟨b, hb⟩ := inv.awaiting w' hw' slot' hslot
    exact ⟨b, List.mem_append_left _ hb⟩

/-- **The kernel posts the task, behind the slot.** -/
theorem Inv.executed_task (inv : Inv rings s) (hk : s.sq[k]? = some c) (hc : c.conn = a)
    (shape : c.sqes = (chainOf w fd a f).drop 1) (hsent : s.sent[a]? = some (w, f))
    (hfd : s.accepted[a]? = some fd) (holds : s.table rings.main fd = some a) :
    Inv rings { s with
      sq := s.sq.eraseIdx k ++ remaining c ((chainOf w fd a f).drop 2)
      cq := postTo s.cq w [taskPosting a f] } := by
  have ne := inv.worker_ne hsent
  have main_cq : postTo s.cq w [taskPosting a f] rings.main = s.cq rings.main :=
    postTo_of_ne _ _ ne.symm
  refine { inv with
    queued := ?_, main_cq := ?_, worker_cq := ?_, distinct := inv.distinct_remaining hk
    chains := ?_, installed := ?_, progress := ?_, closing := ?_ }
  · dsimp only
    rw [main_cq]
    exact inv.queued
  · dsimp only
    rw [main_cq]
    exact inv.main_cq
  · intro ring hring p hp
    rcases mem_postTo hp with hp | ⟨rfl, rfl⟩
    · exact inv.worker_cq ring hring p hp
    · exact .inr ⟨a, f, rfl, hsent⟩
  · intro d hd
    rcases List.mem_append.mp hd with hd | hd
    · exact inv.chains d (List.mem_of_mem_eraseIdx hd)
    · obtain rfl := List.mem_singleton.mp hd
      subst hc
      exact ⟨w, f, fd, hsent, hfd, holds, 2, by omega, rfl⟩
  · intro b w' g hb
    rcases inv.installed b w' g hb with ⟨d, hd, hconn, hlen⟩ | h
    · refine .inl ⟨d, mem_of_remaining hk hd fun h => ?_, hconn, hlen⟩
      rw [h, shape] at hlen
      cases hlen
    · exact .inr h
  · intro b w' slot' hb
    obtain ⟨g, hg, progress⟩ := inv.progress b w' slot' hb
    refine ⟨g, hg, ?_⟩
    have other : b ≠ a → Progress { s with
        sq := s.sq.eraseIdx k ++ remaining c ((chainOf w fd a f).drop 2)
        cq := postTo s.cq w [taskPosting a f] } b w' g slot' := by
      intro hba
      refine progress.mono ?_ (fun _ hx => hx) (postTo_eq ..) fun _ hn => hn
      intro d hd hconn _
      exact mem_of_remaining hk hd fun h => hba (by rw [← hconn, h, hc])
    by_cases hba : b = a
    · subst hba
      obtain ⟨rfl, rfl⟩ := Prod.mk.inj (Option.some.inj (hg.symm.trans hsent))
      cases progress with
      | requested mem conn two ready =>
        exact .posted (s.cq w') [] (postTo_self ..) ready
      | posted before after queue ready =>
        refine .posted before (after ++ [taskPosting b g]) ?_ ready
        dsimp only
        rw [postTo_self, queue, List.append_assoc, List.cons_append]
      | scheduled mem => exact .scheduled mem
    · exact other hba
  · intro b fd' hb hfd'
    rcases inv.closing b fd' hb hfd' with h | h
    · rcases closing_remaining hk h with h | ⟨-, h⟩
      · exact .inl h
      · cases h
    · exact .inr h

/-- **The kernel closes the connection's slot of the main ring.** -/
theorem Inv.executed_close (inv : Inv rings s) (hk : s.sq[k]? = some c) (hc : c.conn = a)
    (shape : c.sqes = (chainOf w fd a f).drop 2) (hsent : s.sent[a]? = some (w, f))
    (hfd : s.accepted[a]? = some fd) (holds : s.table rings.main fd = some a) :
    Inv rings { s with
      sq := s.sq.eraseIdx k ++ remaining c []
      table := System.setSlot s.table rings.main fd none
      log := s.log ++ [.closed a rings.main fd] } := by
  have kept : ∀ {fd' : Int} {b : Nat}, b ≠ a → s.table rings.main fd' = some b →
      System.setSlot s.table rings.main fd none rings.main fd' = some b := by
    intro fd' b hba h
    apply System.setSlot_kept h
    rw [holds]
    exact fun h => hba (Option.some.inj h).symm
  refine { inv with
    waiting := ?_, worker_cq := ?_, distinct := inv.distinct_remaining hk, chains := ?_
    installed := ?_, progress := ?_, closing := ?_, scheduled := ?_, awaiting := ?_ }
  · intro b fd' hb hfd'
    refine kept ?_ (inv.waiting b fd' hb hfd')
    have := (List.getElem?_eq_some_iff.mp hsent).1
    dsimp only at hb
    omega
  · intro ring hring p hp
    rcases inv.worker_cq ring hring p hp with ⟨b, slot', rfl, pos, hb⟩ | h
    · exact .inl ⟨b, slot', rfl, pos, List.mem_append_left _ hb⟩
    · exact .inr h
  · intro d hd
    have hd : d ∈ s.sq.eraseIdx k := by
      rcases List.mem_append.mp hd with hd | hd
      · exact hd
      · cases hd
    obtain ⟨w', g, fd', hsent', hfd', holds', shape'⟩ := inv.chains d (List.mem_of_mem_eraseIdx hd)
    exact ⟨w', g, fd', hsent', hfd', kept (hc ▸ inv.conn_ne hk hd) holds', shape'⟩
  · intro b w' g hb
    rcases inv.installed b w' g hb with ⟨d, hd, hconn, hlen⟩ | ⟨slot', h⟩
    · refine .inl ⟨d, mem_of_remaining hk hd fun h => ?_, hconn, hlen⟩
      rw [h, shape] at hlen
      cases hlen
    · exact .inr ⟨slot', List.mem_append_left _ h⟩
  · intro b w' slot' hb
    rcases List.mem_append.mp hb with hb | hb
    · obtain ⟨g, hg, progress⟩ := inv.progress b w' slot' hb
      refine ⟨g, hg, progress.mono ?_ (fun _ hx => hx) ⟨[], (List.append_nil _).symm⟩
        fun _ hn => List.mem_append_left _ hn⟩
      intro d hd _ hlen
      refine mem_of_remaining hk hd fun h => ?_
      rw [h, shape] at hlen
      cases hlen
    · cases List.mem_singleton.mp hb
  · intro b fd' hb hfd'
    rcases inv.closing b fd' hb hfd' with h | h
    · rcases closing_remaining hk h with h | ⟨rfl, -⟩
      · exact .inl h
      · rw [hc] at hfd'
        obtain rfl := Option.some.inj (hfd'.symm.trans hfd)
        exact .inr (List.mem_append_right _ (List.mem_singleton.mpr (by rw [hc])))
    · exact .inr (List.mem_append_left _ h)
  · intro b w' g object hb
    rcases List.mem_append.mp hb with hb | hb
    · exact inv.scheduled b w' g object hb
    · cases List.mem_singleton.mp hb
  · intro w' hw' slot' hslot
    obtain ⟨b, hb⟩ := inv.awaiting w' hw' slot' hslot
    exact ⟨b, List.mem_append_left _ hb⟩

/-- **The kernel executes the next request of a chain.** -/
theorem inv_kernel (inv : Inv rings s) (h : s.kernelStep rings k slot = some s') :
    Inv rings s' := by
  simp only [kernelStep, Option.bind_eq_bind, Option.bind_eq_some_iff] at h
  obtain ⟨c, hk, h⟩ := h
  obtain ⟨w, f, fd, hsent, hfd, holds, n, hn, shape⟩ := inv.chains c (List.mem_of_getElem? hk)
  rw [shape] at h
  obtain rfl | rfl | rfl : n = 0 ∨ n = 1 ∨ n = 2 := by omega
  · simp only [execute, chainOf, handoff, List.drop_zero, holds] at h
    split at h
    · rename_i b holder free
      obtain rfl := Option.some.inj holder
      split at h
      · rename_i pos
        obtain rfl := Option.some.inj h
        exact inv.executed_fd hk rfl shape hsent hfd holds pos
      · cases h
    · cases h
  · obtain rfl := Option.some.inj h
    exact inv.executed_task hk rfl shape hsent hfd holds
  · simp only [execute, chainOf, handoff, List.drop_succ_cons, List.drop_zero, holds] at h
    obtain rfl := Option.some.inj h
    exact inv.executed_close hk rfl shape hsent hfd holds

end Kernel

end Dispatches

end CoNet.Context
