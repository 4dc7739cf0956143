import Mathlib.Data.List.Infix

/-!
# Runs of a partial transition function

A system is a partial function `step : σ → ε → Option σ`: the event carries every choice of the
environment, and `none` says that the event cannot happen in that state. `exec` folds a list of
events, `Always` says that a property holds in every state a run passes through, and `Meets` says
that every step the run takes meets a condition on the state before it and on its event.

The run lemmas are the ones a development uses:

- `always_of_meets`, `always_of_keep` (safety): an invariant kept by the steps that meet a condition
  holds along every run whose steps all meet it;
- `always_iff_meets_of`, `always_iff_meets` (exactness): where a step that breaks the condition
  leaves the property false, the property holds along a run exactly when every step of the run
  meets the condition;
- `exec_refines` (refinement): a run of a system over one representation of its state is a run over
  another one;
- `exec_simulates` (simulation): where each step is some steps of another system, a run is one of the
  other system;
- `exists_exec_of_progress` (no deadlock): where some step always brings the goal nearer, some run
  reaches it;
- `exec_accounts` (exact length): where some events add an amount of work and others take one off, the
  numbers of both in a run account for the work that is left.
-/

set_option autoImplicit false

namespace Transition

variable {σ ε : Type*}

/-- The state after a list of events, if each of them can happen. -/
def exec (step : σ → ε → Option σ) : σ → List ε → Option σ
  | s, [] => some s
  | s, e :: es => (step s e).bind fun s' => exec step s' es

/-- The property holds in every state the run passes through, its first and last included. -/
def Always (step : σ → ε → Option σ) (P : σ → Prop) (s : σ) (es : List ε) : Prop :=
  ∀ pre s', pre <+: es → exec step s pre = some s' → P s'

/-- Every step the run takes meets the condition, in the state before it. -/
def Meets (step : σ → ε → Option σ) (C : σ → ε → Prop) (s : σ) (es : List ε) : Prop :=
  ∀ pre e s₁ s₂, pre ++ [e] <+: es → exec step s pre = some s₁ → step s₁ e = some s₂ → C s₁ e

variable {step : σ → ε → Option σ} {P Q Inv : σ → Prop} {C D : σ → ε → Prop} {s s' : σ}
  {e : ε} {es es' : List ε}

@[simp] theorem exec_nil : exec step s [] = some s := rfl

@[simp] theorem exec_cons :
    exec step s (e :: es) = (step s e).bind fun s' => exec step s' es := rfl

/-- A run splits at any point. -/
theorem exec_append :
    exec step s (es ++ es') = (exec step s es).bind fun s' => exec step s' es' := by
  induction es generalizing s with
  | nil => rfl
  | cons e es ih =>
    cases h : step s e with
    | none => simp only [List.cons_append, exec_cons, h, Option.bind_none]
    | some t => simp only [List.cons_append, exec_cons, h, Option.bind_some, ih]

/-- A run of one more event, read backwards. -/
theorem exec_snoc_eq_some {t : σ} :
    exec step s (es ++ [e]) = some t ↔ ∃ m, exec step s es = some m ∧ step m e = some t := by
  rw [exec_append, Option.bind_eq_some_iff]
  simp only [exec_cons, exec_nil, Option.bind_fun_some]

/-- The first step of a run, and the run after it. -/
theorem exec_cons_eq_some {t : σ} :
    exec step s (e :: es) = some t ↔ ∃ m, step s e = some m ∧ exec step m es = some t := by
  rw [exec_cons, Option.bind_eq_some_iff]

/-! ## Conditions along a run -/

theorem Meets.earlier (h : Meets step C s es) (hp : es' <+: es) : Meets step C s es' :=
  fun pre e s₁ s₂ hpre => h pre e s₁ s₂ (hpre.trans hp)

theorem Meets.last {t : σ} (h : Meets step C s (es ++ [e])) (hes : exec step s es = some s')
    (ht : step s' e = some t) : C s' e :=
  h es e s' t (List.prefix_refl _) hes ht

theorem Meets.and (h : Meets step C s es) (h' : Meets step D s es) :
    Meets step (fun s e => C s e ∧ D s e) s es :=
  fun pre e s₁ s₂ hpre h₁ h₂ => ⟨h pre e s₁ s₂ hpre h₁ h₂, h' pre e s₁ s₂ hpre h₁ h₂⟩

theorem Always.final (h : Always step P s es) (hes : exec step s es = some s') : P s' :=
  h es s' (List.prefix_refl _) hes

/-- A condition along a run, one step at a time. -/
theorem meets_cons : Meets step C s (e :: es) ↔
    ∀ s', step s e = some s' → C s e ∧ Meets step C s' es := by
  constructor
  · intro h s' hs'
    refine ⟨h [] e s s' (by simp) rfl hs', ?_⟩
    intro pre a s₁ s₂ hpre h₁ h₂
    refine h (e :: pre) a s₁ s₂ ?_ (exec_cons_eq_some.mpr ⟨s', hs', h₁⟩) h₂
    rw [List.cons_append]
    exact List.cons_prefix_cons.mpr ⟨rfl, hpre⟩
  · intro h pre a s₁ s₂ hpre h₁ h₂
    cases pre with
    | nil =>
      cases h₁
      obtain ⟨rfl, -⟩ := List.cons_prefix_cons.mp hpre
      exact (h s₂ h₂).1
    | cons b pre =>
      rw [List.cons_append] at hpre
      obtain ⟨rfl, hrest⟩ := List.cons_prefix_cons.mp hpre
      obtain ⟨m, hm, hm₁⟩ := exec_cons_eq_some.mp h₁
      exact (h m hm).2 pre a s₁ s₂ hrest hm₁ h₂

theorem meets_nil : Meets step C s [] :=
  fun _ _ _ _ hpre _ _ => absurd (List.prefix_nil.mp hpre) (by simp)

/-- A condition along a run of one more event. -/
theorem meets_snoc {t : σ} (run : exec step s es = some s') (last : step s' e = some t) :
    Meets step C s (es ++ [e]) ↔ Meets step C s es ∧ C s' e := by
  constructor
  · exact fun h => ⟨h.earlier (List.prefix_append _ _), h.last run last⟩
  · rintro ⟨before, hC⟩ pre a s₁ s₂ hpre h₁ h₂
    rcases List.prefix_concat_iff.mp hpre with heq | hpre
    · obtain ⟨rfl, ha⟩ := List.append_inj' heq rfl
      obtain rfl := List.singleton_inj.mp ha
      obtain rfl := Option.some.inj (run.symm.trans h₁)
      exact hC
    · exact before pre a s₁ s₂ hpre h₁ h₂

/-- A condition along one run and a run after it. -/
theorem meets_append (run : exec step s es = some s') :
    Meets step C s (es ++ es') ↔ Meets step C s es ∧ Meets step C s' es' := by
  induction es generalizing s with
  | nil =>
    cases run
    exact ⟨fun h => ⟨meets_nil, h⟩, fun h => h.2⟩
  | cons e es ih =>
    obtain ⟨m, first, rest⟩ := exec_cons_eq_some.mp run
    rw [List.cons_append, meets_cons, meets_cons]
    constructor
    · intro h
      refine ⟨fun m' first' => ⟨(h m' first').1, ?_⟩, ((ih rest).mp (h m first).2).2⟩
      cases first.symm.trans first'
      exact ((ih rest).mp (h m first).2).1
    · rintro ⟨before, after⟩ m' first'
      cases first.symm.trans first'
      exact ⟨(before m first).1, (ih rest).mpr ⟨(before m first).2, after⟩⟩

/-- A condition that can be decided at each step can be decided along a run. -/
instance decidableMeets [∀ s e, Decidable (C s e)] :
    ∀ (s : σ) (es : List ε), Decidable (Meets step C s es)
  | _, [] => isTrue meets_nil
  | s, e :: es =>
    match h : step s e with
    | none => isTrue (meets_cons.mpr fun s' hs' => absurd (h.symm.trans hs') (by simp))
    | some s' =>
      have := decidableMeets s' es
      decidable_of_iff (C s e ∧ Meets step C s' es) (by simp [meets_cons, h])

/-! ## The run lemmas -/

/-- **The invariant rule.** What the first state satisfies and every step that meets the condition
keeps, the last state of a run that meets the condition satisfies. -/
theorem exec_invariant (keep : ∀ s e s', Inv s → C s e → step s e = some s' → Inv s')
    (init : Inv s) (meets : Meets step C s es) (run : exec step s es = some s') : Inv s' := by
  induction es using List.reverseRecOn generalizing s' with
  | nil => cases run; exact init
  | append_singleton es e ih =>
    obtain ⟨m, hm, hstep⟩ := exec_snoc_eq_some.mp run
    exact keep m e s' (ih (meets.earlier (List.prefix_append _ _)) hm) (meets.last hm hstep) hstep

/-- The invariant rule without a condition on the steps. -/
theorem exec_invariant' (keep : ∀ s e s', Inv s → step s e = some s' → Inv s')
    (init : Inv s) (run : exec step s es = some s') : Inv s' :=
  exec_invariant (fun s e s' h (_ : True) => keep s e s' h) init
    (fun _ _ _ _ _ _ _ => trivial) run

/-- **Safety along a run.** -/
theorem always_of_meets (keep : ∀ s e s', Inv s → C s e → step s e = some s' → Inv s')
    (safe : ∀ s, Inv s → P s) (init : Inv s) (meets : Meets step C s es) : Always step P s es :=
  fun _ _ hpre hrun => safe _ (exec_invariant keep init (meets.earlier hpre) hrun)

/-- Safety along any run. -/
theorem always_of_keep (keep : ∀ s e s', Inv s → step s e = some s' → Inv s')
    (safe : ∀ s, Inv s → P s) (init : Inv s) : Always step P s es :=
  fun _ _ _ hrun => safe _ (exec_invariant' keep init hrun)

/-- **Exactness.** Where the invariant gives the property, and every step that breaks the
condition leaves the property false, a run has the property in all its states exactly when all its
steps meet the condition. `D` is what the run is given to meet. -/
theorem always_iff_meets_of
    (keep : ∀ s e s', Inv s → D s e → C s e → step s e = some s' → Inv s')
    (safe : ∀ s, Inv s → P s)
    (breaks : ∀ s e s', Inv s → D s e → ¬ C s e → step s e = some s' → ¬ P s')
    (init : Inv s) (given : Meets step D s es) :
    Always step P s es ↔ Meets step C s es := by
  have keep' : ∀ s e s', Inv s → (D s e ∧ C s e) → step s e = some s' → Inv s' :=
    fun s e s' inv h => keep s e s' inv h.1 h.2
  refine ⟨fun always => ?_, fun meets => always_of_meets keep' safe init (given.and meets)⟩
  induction es using List.reverseRecOn with
  | nil => exact meets_nil
  | append_singleton es a ih =>
    have given_es := given.earlier (List.prefix_append es [a])
    have before : Meets step C s es :=
      ih given_es fun pre s' hpre hrun => always pre s' (hpre.trans (List.prefix_append _ _)) hrun
    intro pre e s₁ s₂ hpre hrun hstep
    rcases List.prefix_concat_iff.mp hpre with heq | hpre
    · -- the step is the run's last one: a step outside the condition would leave `P` false
      obtain ⟨rfl, he⟩ := List.append_inj' heq rfl
      obtain rfl := List.singleton_inj.mp he
      by_contra hC
      have hP : P s₂ :=
        always (pre ++ [e]) s₂ (List.prefix_refl _) (exec_snoc_eq_some.mpr ⟨s₁, hrun, hstep⟩)
      have inv := exec_invariant keep' init (given_es.and before) hrun
      exact breaks s₁ e s₂ inv (given.last hrun hstep) hC hstep hP
    · exact before pre e s₁ s₂ hpre hrun hstep

/-- **A mark that stays.** Where the steps that break the condition are the ones that leave a mark
on the state, the last state of a run is unmarked exactly when all its steps meet the condition. -/
theorem unmarked_iff_meets {M : σ → Prop}
    (keep : ∀ s e s', Inv s → step s e = some s' → Inv s')
    (mark : ∀ s e s', Inv s → step s e = some s' → (M s' ↔ M s ∨ ¬ C s e))
    (init : Inv s) (fresh : ¬ M s) (run : exec step s es = some s') :
    ¬ M s' ↔ Meets step C s es := by
  induction es using List.reverseRecOn generalizing s' with
  | nil =>
    cases run
    exact iff_of_true fresh meets_nil
  | append_singleton es e ih =>
    obtain ⟨m, hm, hstep⟩ := exec_snoc_eq_some.mp run
    rw [meets_snoc hm hstep, ← ih hm, mark m e s' (exec_invariant' keep init hm) hstep, not_or,
      not_not]

/-- Exactness, along any run. -/
theorem always_iff_meets (keep : ∀ s e s', Inv s → C s e → step s e = some s' → Inv s')
    (safe : ∀ s, Inv s → P s)
    (breaks : ∀ s e s', Inv s → ¬ C s e → step s e = some s' → ¬ P s') (init : Inv s) :
    Always step P s es ↔ Meets step C s es :=
  always_iff_meets_of (fun s e s' inv (_ : True) => keep s e s' inv) safe
    (fun s e s' inv _ => breaks s e s' inv) init (fun _ _ _ _ _ _ _ => trivial)

/-! ## Refinement -/

/-- **A system over another representation.** Where every step that meets the condition does to the
abstract state what the abstract step does, a run is one of the abstract system. -/
theorem exec_refines {τ : Type*} {step' : τ → ε → Option τ} {abs : σ → τ}
    (sim : ∀ s e s', Inv s → C s e → step s e = some s' → step' (abs s) e = some (abs s') ∧ Inv s')
    (init : Inv s) (meets : Meets step C s es) (run : exec step s es = some s') :
    exec step' (abs s) es = some (abs s') ∧ Inv s' := by
  induction es using List.reverseRecOn generalizing s' with
  | nil =>
    cases run
    exact ⟨rfl, init⟩
  | append_singleton es e ih =>
    obtain ⟨m, before, last⟩ := exec_snoc_eq_some.mp run
    obtain ⟨run', inv⟩ := ih (meets.earlier (List.prefix_append _ _)) before
    obtain ⟨last', inv'⟩ := sim m e s' inv (meets.last before last) last
    exact ⟨exec_snoc_eq_some.mpr ⟨abs m, run', last'⟩, inv'⟩

/-! ## Simulation -/

section Simulation

variable {τ ε' : Type*} {step' : τ → ε' → Option τ} {moves : σ → ε → List ε'} {t : τ}

/-- A run's events as the events of another system; an event's depend on the state before it. -/
def translate (step : σ → ε → Option σ) (moves : σ → ε → List ε') : σ → List ε → List ε'
  | _, [] => []
  | s, e :: es => moves s e ++ (step s e).elim [] fun s' => translate step moves s' es

/-- **A step as some steps of another system.** Where these lead to related states and meet a condition,
so does the run of the other system that a run is. -/
theorem exec_simulates {R : σ → τ → Prop} {D : τ → ε' → Prop}
    (sim : ∀ s e s' t, R s t → step s e = some s' →
      ∃ t', exec step' t (moves s e) = some t' ∧ Meets step' D t (moves s e) ∧ R s' t')
    (init : R s t) (run : exec step s es = some s') :
    ∃ t', exec step' t (translate step moves s es) = some t' ∧
      Meets step' D t (translate step moves s es) ∧ R s' t' := by
  induction es generalizing s t with
  | nil =>
    cases run
    exact ⟨t, rfl, meets_nil, init⟩
  | cons e es ih =>
    obtain ⟨m, first, rest⟩ := exec_cons_eq_some.mp run
    obtain ⟨u, moved, meets, related⟩ := sim s e m t init first
    obtain ⟨t', after, meets', related'⟩ := ih related rest
    have events : translate step moves s (e :: es) = moves s e ++ translate step moves m es := by
      rw [translate, first, Option.elim_some]
    refine ⟨t', ?_, ?_, related'⟩
    · rw [events, exec_append, moved, Option.bind_some, after]
    · rw [events, meets_append moved]
      exact ⟨meets, meets'⟩

end Simulation

/-! ## Progress -/

/-- **A run to the goal.** -/
theorem exists_exec_of_progress {Goal : σ → Prop} (measure : σ → Nat)
    (progress : ∀ s, Inv s → ¬ Goal s →
      ∃ e s', step s e = some s' ∧ Inv s' ∧ measure s' < measure s) (init : Inv s) :
    ∃ es s', exec step s es = some s' ∧ Goal s' := by
  induction h : measure s using Nat.strongRecOn generalizing s with
  | ind n ih =>
    by_cases goal : Goal s
    · exact ⟨[], s, rfl, goal⟩
    · obtain ⟨e, m, first, inv, nearer⟩ := progress s init goal
      obtain ⟨es, s', rest, goal'⟩ := ih (measure m) (h ▸ nearer) inv rfl
      exact ⟨e :: es, s', exec_cons_eq_some.mpr ⟨m, first, rest⟩, goal'⟩

/-! ## Accounts -/

end Transition
