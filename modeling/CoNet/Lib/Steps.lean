import Mathlib.Logic.Function.Basic

/-!
# Deterministic machines

A deterministic machine is a partial function `step : σ → Option σ`; it halts where `step` is
`none`. `iter step n s` is the state after `n` steps, if the machine does not halt before.
A `Simulation` of two machines takes runs of each to runs of the other (`forth`, `back`), and a
halted state to a halted one.
-/

set_option autoImplicit false

namespace Steps

variable {σ τ : Type*}

def iter (step : σ → Option σ) : Nat → σ → Option σ
  | 0, s => some s
  | n + 1, s => (step s).bind (iter step n)

variable {step : σ → Option σ} {s s₁ s₂ : σ} {m n : Nat}

@[simp] theorem iter_zero : iter step 0 s = some s := rfl

theorem iter_succ : iter step (n + 1) s = (step s).bind (iter step n) := rfl

theorem iter_one (h : step s = some s₁) : iter step 1 s = some s₁ := by
  rw [iter_succ, h, Option.bind_some, iter_zero]

theorem iter_add (m n : Nat) (s : σ) :
    iter step (m + n) s = (iter step m s).bind (iter step n) := by
  induction m generalizing s with
  | zero => rw [Nat.zero_add, iter_zero, Option.bind_some]
  | succ m ih =>
    rw [Nat.succ_add, iter_succ, iter_succ, Option.bind_assoc]
    exact congrArg _ (funext ih)

theorem iter_trans (h₁ : iter step m s = some s₁) (h₂ : iter step n s₁ = some s₂) :
    iter step (m + n) s = some s₂ := by
  rw [iter_add, h₁, Option.bind_some, h₂]

/-- The later of two states of a run is reached from the earlier one. -/
theorem iter_of_le (h₁ : iter step m s = some s₁) (h₂ : iter step n s = some s₂) (le : m ≤ n) :
    iter step (n - m) s₁ = some s₂ := by
  have h : iter step (m + (n - m)) s = some s₂ := by rwa [Nat.add_sub_cancel' le]
  rwa [iter_add, h₁, Option.bind_some] at h

/-- A machine that has halted has no later states. -/
theorem iter_of_halted (halted : step s = none) (h : iter step n s = some s₁) : n = 0 := by
  cases n with
  | zero => rfl
  | succ n =>
    rw [iter_succ, halted] at h
    cases h

theorem le_of_halted (halted : step s₁ = none) (h₁ : iter step m s = some s₁)
    (h₂ : iter step n s = some s₂) : n ≤ m := by
  by_contra lt
  have h := iter_of_halted halted (iter_of_le h₁ h₂ (by omega))
  omega

/-- What every step keeps or extends, every run does. -/
theorem iter_induct (P : σ → σ → Prop) (refl : ∀ s, P s s)
    (trans : ∀ s s₁ s₂, step s = some s₁ → P s₁ s₂ → P s s₂) (h : iter step n s = some s₁) :
    P s s₁ := by
  induction n generalizing s with
  | zero =>
    cases h
    exact refl _
  | succ n ih =>
    obtain ⟨m, hm, hrest⟩ := Option.bind_eq_some_iff.mp h
    exact trans s m s₁ hm (ih hrest)

/-! ## Two machines in step -/

/-- Related states step together, or the first machine catches up by itself, which it cannot do
forever, or both have halted. -/
structure Simulation (step : σ → Option σ) (step' : τ → Option τ) (R : σ → τ → Prop)
    (rank : σ → Nat) : Prop where
  progress : ∀ s t, R s t →
    (∃ s' t', step s = some s' ∧ step' t = some t' ∧ R s' t') ∨
    (∃ s', step s = some s' ∧ R s' t ∧ rank s' < rank s) ∨
    (step s = none ∧ step' t = none)

namespace Simulation

variable {step' : τ → Option τ} {R : σ → τ → Prop} {rank : σ → Nat} {t t' : τ}

/-- Whatever the first machine reaches, the second reaches in a related state. -/
theorem forth (simulation : Simulation step step' R rank) (related : R s t)
    (h : iter step n s = some s₁) : ∃ k t', iter step' k t = some t' ∧ R s₁ t' := by
  induction n generalizing s t with
  | zero =>
    cases h
    exact ⟨0, t, rfl, related⟩
  | succ n ih =>
    obtain ⟨m, hm, hrest⟩ := Option.bind_eq_some_iff.mp h
    rcases simulation.progress s t related with
      ⟨s', t', hs, ht, related'⟩ | ⟨s', hs, related', -⟩ | ⟨hs, -⟩
    · cases hs.symm.trans hm
      obtain ⟨k, t'', ht'', related''⟩ := ih related' hrest
      exact ⟨1 + k, t'', iter_trans (iter_one ht) ht'', related''⟩
    · cases hs.symm.trans hm
      exact ih related' hrest
    · cases hs.symm.trans hm

/-- The first machine catches up until both step together or have halted. -/
theorem catchUp (simulation : Simulation step step' R rank) (related : R s t) :
    ∃ k s', iter step k s = some s' ∧ R s' t ∧
      ((∃ s'' t', step s' = some s'' ∧ step' t = some t' ∧ R s'' t') ∨
        (step s' = none ∧ step' t = none)) := by
  induction h : rank s using Nat.strongRecOn generalizing s with
  | ind r ih =>
    subst h
    rcases simulation.progress s t related with both | ⟨s', hs, related', smaller⟩ | halted
    · exact ⟨0, s, rfl, related, .inl both⟩
    · obtain ⟨k, s'', hs'', rest⟩ := ih _ smaller related' rfl
      exact ⟨1 + k, s'', iter_trans (iter_one hs) hs'', rest⟩
    · exact ⟨0, s, rfl, related, .inr halted⟩

/-- Whatever the second machine reaches, the first reaches in a related state. -/
theorem back (simulation : Simulation step step' R rank) (related : R s t)
    (h : iter step' n t = some t') : ∃ k s', iter step k s = some s' ∧ R s' t' := by
  induction n generalizing s t with
  | zero =>
    cases h
    exact ⟨0, s, rfl, related⟩
  | succ n ih =>
    obtain ⟨m, hm, hrest⟩ := Option.bind_eq_some_iff.mp h
    obtain ⟨k, s₁, hs₁, -, ⟨s₂, t₂, hs₂, ht₂, related₂⟩ | ⟨-, ht⟩⟩ := simulation.catchUp related
    · cases ht₂.symm.trans hm
      obtain ⟨k', s₃, hs₃, related₃⟩ := ih related₂ hrest
      exact ⟨k + (1 + k'), s₃, iter_trans hs₁ (iter_trans (iter_one hs₂) hs₃), related₃⟩
    · cases ht.symm.trans hm

/-- Where the first machine has halted, so has the second. -/
theorem halted (simulation : Simulation step step' R rank) (related : R s t) (h : step s = none) :
    step' t = none := by
  rcases simulation.progress s t related with ⟨s', t', hs, -⟩ | ⟨s', hs, -⟩ | ⟨-, ht⟩
  · cases hs.symm.trans h
  · cases hs.symm.trans h
  · exact ht

end Simulation

end Steps
