import Mathlib.Algebra.Order.Ring.Int

/-!
# Picking in turn

An index goes round `n` places. `Level` says that every place up to the index was picked once more than the
places behind it, as after any number of picks from -1 on: no place is ahead of another by more than one pick
(`Level.le`).
-/

set_option autoImplicit false

namespace RoundRobin

variable {n : Nat} {current : Int} {count count' : Nat → Nat}

/-- The index after a pick, which is the place that is picked. -/
def next (n : Nat) (current : Int) : Int := (current + 1) % n

structure Level (n : Nat) (current : Int) (count : Nat → Nat) : Prop where
  lower : -1 ≤ current
  upper : current < n
  level : ∃ rounds, ∀ i < n, count i = if (i : Int) ≤ current then rounds + 1 else rounds

/-- Before the first pick. -/
theorem Level.start (n : Nat) : Level n (-1) fun _ => 0 where
  lower := Int.le_refl _
  upper := by omega
  level := ⟨0, fun i _ => (if_neg (by omega)).symm⟩

theorem Level.congr (h : Level n current count) (same : ∀ i < n, count' i = count i) :
    Level n current count' where
  lower := h.lower
  upper := h.upper
  level := by
    obtain ⟨rounds, level⟩ := h.level
    exact ⟨rounds, fun i lt => (same i lt).trans (level i lt)⟩

/-- The index is not at the last place, or goes back to the first. -/
theorem next_cases (lower : -1 ≤ current) (upper : current < n) :
    (next n current = current + 1 ∧ current + 1 < n) ∨ (next n current = 0 ∧ current + 1 = n) := by
  unfold next
  by_cases last : current + 1 < n
  · exact .inl ⟨Int.emod_eq_of_lt (by omega) last, last⟩
  · have eq : current + 1 = n := by omega
    refine .inr ⟨?_, eq⟩
    rw [eq, Int.emod_self]

/-- **A pick.** -/
theorem Level.pick (h : Level n current count) (pos : 0 < n)
    (one : ∀ i < n, count' i = count i + if (i : Int) = next n current then 1 else 0) :
    Level n (next n current) count' := by
  obtain ⟨rounds, level⟩ := h.level
  rcases next_cases h.lower h.upper with ⟨next_eq, lt⟩ | ⟨next_eq, last⟩
  · refine ⟨by have := h.lower; omega, by omega, rounds, fun i i_lt => ?_⟩
    rw [one i i_lt, level i i_lt, next_eq]
    split <;> split <;> split <;> omega
  · -- a round is over: every place was picked once more
    have upper : next n current < n := next_eq ▸ Int.natCast_pos.mpr pos
    refine ⟨by omega, upper, rounds + 1, fun i i_lt => ?_⟩
    rw [one i i_lt, level i i_lt, next_eq]
    split <;> split <;> split <;> omega

/-- **No place is ahead of another by more than one pick.** -/
theorem Level.le (h : Level n current count) {i j : Nat} (hi : i < n) (hj : j < n) :
    count i ≤ count j + 1 := by
  obtain ⟨rounds, level⟩ := h.level
  rw [level i hi, level j hj]
  split <;> split <;> omega

end RoundRobin
