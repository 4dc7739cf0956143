/-!
# The submission queue of a ring

`io_uring_get_sqe` hands out the slots of an array one after the other, and returns null when all of
them are handed out and not yet submitted. The head and the tail count on without wrapping: a slot's
index is its count modulo the length of the array. `io_uring_submit` consumes every queued request.
-/

set_option autoImplicit false

namespace CoNet.Io

structure SubmissionQueue (entries : Nat) where
  sqHead : Nat := 0
  sqeTail : Nat := 0
  head_le : sqHead ≤ sqeTail := by decide
  tail_le : sqeTail ≤ sqHead + entries := by omega

namespace SubmissionQueue

variable {entries : Nat} {q q' : SubmissionQueue entries} {slot : Nat}

/-- Nothing handed out. -/
def empty : SubmissionQueue entries := {}

/-- The requests that are not yet submitted. -/
def queued (q : SubmissionQueue entries) : Nat := q.sqeTail - q.sqHead

/-- `io_uring_get_sqe`: the index of the slot. -/
def getSqe (q : SubmissionQueue entries) : Option (Nat × SubmissionQueue entries) :=
  if h : q.sqeTail + 1 - q.sqHead ≤ entries then
    some (q.sqeTail % entries,
      { sqHead := q.sqHead
        sqeTail := q.sqeTail + 1
        head_le := Nat.le_succ_of_le q.head_le
        tail_le := by omega })
  else none

/-- Several slots, one after the other. -/
def getSqes : Nat → SubmissionQueue entries → Option (SubmissionQueue entries)
  | 0, q => some q
  | n + 1, q => q.getSqe.bind fun (_, q) => q.getSqes n

/-- `io_uring_submit`. -/
def submit (q : SubmissionQueue entries) : SubmissionQueue entries where
  sqHead := q.sqeTail
  sqeTail := q.sqeTail
  head_le := Nat.le_refl _
  tail_le := Nat.le_add_right _ _

@[simp] theorem submit_queued (q : SubmissionQueue entries) : q.submit.queued = 0 :=
  Nat.sub_self _

theorem queued_le (q : SubmissionQueue entries) : q.queued ≤ entries := by
  have := q.tail_le
  unfold queued
  omega

/-- A slot is found as long as fewer requests are queued than there are slots. -/
theorem getSqe_eq_some_iff :
    (∃ slot q', q.getSqe = some (slot, q')) ↔ q.queued < entries := by
  have := q.head_le
  unfold getSqe queued
  split <;> simp <;> omega

theorem getSqe_queued (h : q.getSqe = some (slot, q')) : q'.queued = q.queued + 1 := by
  have := q.head_le
  unfold getSqe at h
  split at h
  · cases h
    simp only [queued]
    omega
  · cases h

/-- The slots are found if they fit beside what is queued. -/
theorem getSqes_isSome_iff {n : Nat} :
    (q.getSqes n).isSome ↔ q.queued + n ≤ entries := by
  induction n generalizing q with
  | zero => simpa [getSqes] using q.queued_le
  | succ n ih =>
    cases h : q.getSqe with
    | none =>
      have full : ¬ q.queued < entries := by
        rw [← getSqe_eq_some_iff, h]
        nofun
      simp only [getSqes, h, Option.bind_none, Option.isSome_none, Bool.false_eq_true, false_iff]
      omega
    | some got =>
      obtain ⟨slot, q'⟩ := got
      have one := getSqe_queued h
      simp only [getSqes, h, Option.bind_some, ih]
      omega

theorem getSqes_queued {n : Nat} (h : q.getSqes n = some q') : q'.queued = q.queued + n := by
  induction n generalizing q with
  | zero =>
    cases h
    rfl
  | succ n ih =>
    obtain ⟨⟨slot, m⟩, hm, h⟩ := Option.bind_eq_some_iff.mp h
    have one := getSqe_queued hm
    have rest := ih h
    omega

theorem getSqes_eq_none_iff {n : Nat} : q.getSqes n = none ↔ entries < q.queued + n := by
  rw [← Option.not_isSome_iff_eq_none, getSqes_isSome_iff, Nat.not_le]

end SubmissionQueue

end CoNet.Io
