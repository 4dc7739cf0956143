import CoNet.Context.Batches
import CoNet.Laws.Io.Uring

/-!
# Batches are not seen

However the completions of a ring arrive and fall into batches, what was handled is a first part of them, in
the order of posting, and the ring and all else are as `Uring.processBatch` leaves them in one go over that part.
Only a ring that has stopped consumes a completion unhandled, and then the same holds of all
completions: nothing behind the first `Quit` message matters (`agrees_always`).
-/

set_option autoImplicit false

namespace CoNet.Io.Uring

variable {τ φ χ κ : Type} {multishotToken : CompletionToken χ} {ring ring' : Uring}
  {cqe : Cqe τ φ χ κ} {cqes cqes' : List (Cqe τ φ χ κ)} {effects effects' : List (Effect τ φ χ κ)}

/-- A ring that has stopped handles nothing. -/
theorem processBatch_stopped (stopped : ring.stopped = true) (cqes : List (Cqe τ φ χ κ)) :
    ring.processBatch multishotToken cqes = some (ring, []) := by
  cases cqes with
  | nil => rfl
  | cons cqe rest => rw [processBatch, if_pos stopped]

/-- **Two batches are one.** -/
theorem processBatch_append (first : ring.processBatch multishotToken cqes = some (ring', effects)) :
    ring.processBatch multishotToken (cqes ++ cqes') =
      (ring'.processBatch multishotToken cqes').map fun last => (last.1, effects ++ last.2) := by
  induction cqes generalizing ring effects with
  | nil =>
    cases first
    simp
  | cons cqe rest ih =>
    rw [List.cons_append]
    by_cases stopped : ring.stopped = true
    · rw [processBatch, if_pos stopped] at first ⊢
      cases first
      rw [processBatch_stopped stopped]
      rfl
    · rw [processBatch, if_neg stopped] at first ⊢
      simp only [Option.bind_eq_bind, Option.bind_eq_some_iff] at first
      obtain ⟨⟨ring₁, one⟩, handled, ⟨ring₂, more⟩, rest', last⟩ := first
      cases last
      simp only [handled, Option.bind_eq_bind, Option.bind_some, ih rest', Option.map_eq_bind]
      simp only [Option.bind_assoc, Option.bind_some, Function.comp, List.append_assoc]

/-- One more completion. -/
theorem processBatch_snoc (first : ring.processBatch multishotToken cqes = some (ring', effects))
    (running : ring'.stopped = false) {ring₁ : Uring}
    (handled : ring'.handleRequest multishotToken cqe = some (ring₁, effects')) :
    ring.processBatch multishotToken (cqes ++ [cqe]) = some (ring₁, effects ++ effects') := by
  have one : ring'.processBatch multishotToken [cqe] = some (ring₁, effects') := by
    rw [processBatch, if_neg (by simp [running])]
    simp only [handled, Option.bind_eq_bind, Option.bind_some, processBatch, List.append_nil]
  rw [processBatch_append first, one, Option.map_some]

/-- What comes after a stop does not matter. -/
theorem processBatch_append_stopped
    (first : ring.processBatch multishotToken cqes = some (ring', effects))
    (stopped : ring'.stopped = true) (cqes' : List (Cqe τ φ χ κ)) :
    ring.processBatch multishotToken (cqes ++ cqes') = some (ring', effects) := by
  rw [processBatch_append first, processBatch_stopped stopped, Option.map_some, List.append_nil]

end CoNet.Io.Uring

namespace CoNet.Context.Batches

open CoNet.Io Transition

variable {τ φ χ κ : Type} {cfg : Config} {multishotToken : CompletionToken χ}
  {s s' : Batches τ φ χ κ} {e : BatchEvent τ φ χ κ}

/-- **The batches agree with one go over the completions.** -/
structure Agrees (multishotToken : CompletionToken χ) (s : Batches τ φ χ κ) : Prop where
  inOrder : s.queue.handled = List.range s.queue.handled.length
  handled : Uring.processBatch multishotToken {} (s.queue.posted.take s.queue.handled.length) =
    some (s.queue.ring, s.effects)
  /-- Nothing is consumed unhandled unless the ring has stopped. -/
  consumed : ∀ place < s.queue.head, place ∈ s.queue.handled ∨ s.queue.ring.stopped = true
  stopped : s.queue.ring.stopped = true →
    Uring.processBatch multishotToken {} s.queue.posted = some (s.queue.ring, s.effects)

/-- Where a ring that has not stopped is, when the first `count` completions are handled. -/
def Going (count head : Nat) : BatchPoint → Prop
  | .batch first size done => first = head ∧ done ≤ size ∧ head + done = count
  | .outside | .consumed => head = count
  | .counted _ _ | .cancelled => False

structure Inv (multishotToken : CompletionToken χ) (s : Batches τ φ χ κ) : Prop
    extends Agrees multishotToken s where
  quiet : s.queue.handler = none
  posted : s.queue.handled.length ≤ s.queue.posted.length
  going : s.queue.ring.stopped = false →
    Going s.queue.handled.length s.queue.head s.queue.point

theorem inv_init : Inv multishotToken ({} : Batches τ φ χ κ) where
  inOrder := rfl
  handled := rfl
  consumed _ h := absurd h (Nat.not_lt_zero _)
  stopped h := by cases h
  quiet := rfl
  posted := Nat.le_refl _
  going _ := rfl

theorem inv_post (inv : Inv multishotToken s) (cqe : Cqe τ φ χ κ) :
    Inv multishotToken { s with queue := { s.queue with posted := s.queue.posted ++ [cqe] } } where
  inOrder := inv.inOrder
  handled := by
    show Uring.processBatch multishotToken {} ((s.queue.posted ++ [cqe]).take _) = _
    rw [List.take_append_of_le_length inv.posted]
    exact inv.handled
  consumed := inv.consumed
  stopped h := Uring.processBatch_append_stopped (inv.stopped h) h [cqe]
  quiet := inv.quiet
  posted := by
    show _ ≤ (s.queue.posted ++ [cqe]).length
    rw [List.length_append]
    exact Nat.le_add_right_of_le inv.posted
  going := inv.going

theorem Inv.goingAt (inv : Inv multishotToken s) {point : BatchPoint} (at_point : s.queue.point = point)
    (running : s.queue.ring.stopped = false) :
    Going s.queue.handled.length s.queue.head point :=
  at_point ▸ inv.going running

/-- The thread goes on in `process_batch`. -/
theorem Inv.goOn (inv : Inv multishotToken s) {head : Nat} {point : BatchPoint}
    (going : s.queue.ring.stopped = false →
      Going s.queue.handled.length head point ∧ head ≤ s.queue.handled.length) :
    Inv multishotToken { s with queue := { s.queue with head, point, handler := none } } where
  inOrder := inv.inOrder
  handled := inv.handled
  consumed place below := by
    cases running : s.queue.ring.stopped with
    | true => exact .inr rfl
    | false =>
      have before : place < s.queue.handled.length := Nat.lt_of_lt_of_le below (going running).2
      exact .inl (inv.inOrder ▸ List.mem_range.mpr before)
  stopped := inv.stopped
  quiet := rfl
  posted := inv.posted
  going running := (going running).1

/-- The next completion of a batch is handled. -/
theorem inv_handle (inv : Inv multishotToken s) {first size done : Nat}
    (point : s.queue.point = .batch first size done) (more : done < size)
    (running : s.queue.ring.stopped = false) {m : MainQueue τ φ χ κ}
    (h : s.queue.handleAt multishotToken (first + done) = some m) :
    Inv multishotToken
      { queue := { m with point := .batch first size (done + 1) }
        effects := s.effects ++ s.next multishotToken } := by
  simp only [MainQueue.handleAt, Option.bind_eq_bind, Option.bind_eq_some_iff] at h
  obtain ⟨cqe, there, ⟨ring, effects⟩, request, made⟩ := h
  cases made
  have going := inv.goingAt point running
  obtain ⟨rfl, le, count⟩ := going
  rw [count] at there
  have next : s.next multishotToken = effects := by
    simp only [Batches.next, point, count, there, Option.bind_some, request, Option.elim_some]
  have below : s.queue.handled.length < s.queue.posted.length :=
    (List.getElem?_eq_some_iff.mp there).1
  have taken : s.queue.posted.take (s.queue.handled.length + 1) =
      s.queue.posted.take s.queue.handled.length ++ [cqe] := by
    rw [List.take_add_one, there, Option.toList_some]
  have all : Uring.processBatch multishotToken {}
      (s.queue.posted.take (s.queue.handled.length + 1)) = some (ring, s.effects ++ effects) := by
    rw [taken]
    exact Uring.processBatch_snoc inv.handled running request
  refine { inOrder := ?_, handled := ?_, consumed := ?_, stopped := ?_, quiet := inv.quiet,
           posted := ?_, going := ?_ }
  · show s.queue.handled ++ [_] = List.range (s.queue.handled ++ [_]).length
    rw [List.length_append, List.length_singleton, List.range_succ, ← inv.inOrder, count]
  · show Uring.processBatch multishotToken {}
      (s.queue.posted.take (s.queue.handled ++ [_]).length) = some (ring, _)
    rw [next, List.length_append]
    exact all
  · intro place below
    cases inv.consumed place below with
    | inl mem => exact .inl (List.mem_append_left _ mem)
    | inr stopped => exact absurd stopped (by simp [running])
  · intro stopped
    show Uring.processBatch multishotToken {} s.queue.posted = some (ring, _)
    rw [next, ← List.take_append_drop (s.queue.handled.length + 1) s.queue.posted]
    exact Uring.processBatch_append_stopped all stopped _
  · show (s.queue.handled ++ [_]).length ≤ _
    rw [List.length_append]
    exact below
  · intro _
    show Going (s.queue.handled ++ [_]).length s.queue.head _
    rw [List.length_append]
    exact ⟨rfl, more, by rw [List.length_singleton, ← count, Nat.add_assoc]⟩

theorem inv_step (inv : Inv multishotToken s) (h : s.step cfg multishotToken e = some s') :
    Inv multishotToken s' := by
  have quiet := inv.quiet
  simp only [Batches.step, Option.bind_eq_bind, Option.bind_eq_some_iff] at h
  obtain ⟨queue, h, made⟩ := h
  cases e with
  | post cqe =>
    cases h
    cases made
    exact inv_post inv cqe
  | peek =>
    cases made
    cases point : s.queue.point <;>
      simp only [BatchEvent.queueEvent, MainQueue.step, quiet, point, reduceCtorEq] at h
    cases h
    refine inv.goOn fun running => ?_
    have going := inv.goingAt point running
    exact ⟨⟨rfl, Nat.zero_le _, going⟩, Nat.le_of_eq going⟩
  | handle =>
    cases made
    cases point : s.queue.point <;>
      simp only [BatchEvent.queueEvent, MainQueue.step, quiet, point, reduceCtorEq] at h
    rename_i first size done
    split at h
    · rename_i more
      obtain ⟨m, handled, rfl⟩ := Option.map_eq_some_iff.mp h
      exact inv_handle inv point more.1 more.2 handled
    · cases h
  | consume =>
    cases made
    cases point : s.queue.point <;>
      simp only [BatchEvent.queueEvent, MainQueue.step, MainQueue.advance, quiet, point,
        reduceCtorEq] at h
    rename_i first size done
    split at h
    · cases h
    · rename_i atEnd
      cases h
      refine inv.goOn fun running => ?_
      have going := inv.goingAt point running
      obtain ⟨-, le, count⟩ := going
      have whole : done = size := by
        by_contra ne
        exact atEnd ⟨Nat.lt_of_le_of_ne le ne, running⟩
      subst whole
      exact ⟨count, Nat.le_of_eq count⟩
  | finish =>
    cases made
    cases point : s.queue.point <;>
      simp only [BatchEvent.queueEvent, MainQueue.step, quiet, point, reduceCtorEq] at h
    · split at h
      · rename_i stopped
        cases h
        exact inv.goOn fun running => absurd stopped (by simp [running])
      · cases h
        refine inv.goOn fun running => ?_
        have going := inv.goingAt point running
        exact ⟨going, Nat.le_of_eq going⟩
    · cases h
      refine inv.goOn fun running => ?_
      have going := inv.goingAt point running
      exact going.elim
  | consumeAll =>
    cases made
    cases point : s.queue.point <;>
      simp only [BatchEvent.queueEvent, MainQueue.step, MainQueue.advance, quiet, point,
        reduceCtorEq] at h
    cases h
    refine inv.goOn fun running => ?_
    have going := inv.goingAt point running
    exact going.elim

/-- **Batches are not seen**, at any point of any run of a ring that no handler interrupts. -/
theorem agrees_always (cfg : Config) (multishotToken : CompletionToken χ)
    (es : List (BatchEvent τ φ χ κ)) :
    Always (Batches.step cfg multishotToken) (Agrees multishotToken) {} es :=
  always_of_keep (fun _ _ _ => inv_step) (fun _ => Inv.toAgrees) inv_init

end CoNet.Context.Batches
