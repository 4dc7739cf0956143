import CoNet.Lib.Steps
import Mathlib.Data.List.Infix

/-!
# Sequential programs with calls and exceptions

A program is a function `body : L → Action L V X O R`: from a state of `L` it performs an operation
and goes on with its result, calls another computation and goes on with its outcome, returns a value
or raises an exception. `eval` is its direct-style meaning, with the calls of the language it is
written in: `n` bounds the depth of the evaluation, and the results of the operations are given. The
trace has the operations, their results and the outcomes that calls deliver, in order.

`step` is a machine with an explicit stack of callers. `reaches_eval` and `eval_covers` say that the
two agree: the machine reaches whatever the evaluation gives, and whatever the machine reaches, the
evaluation gives, with a large enough bound.
-/

set_option autoImplicit false

namespace Calls

open Steps

/-- How a computation ends. -/
inductive Outcome (V X : Type*) where
  | value (v : V)
  | thrown (x : X)
  deriving DecidableEq, Repr

/-- What a computation does next. -/
inductive Action (L V X O R : Type*) where
  | perform (operation : O) (k : R → L)
  | call (callee : L) (k : Outcome V X → L)
  | ret (v : V)
  | raise (x : X)

/-- What can be observed. -/
inductive Obs (V X O R : Type*) where
  | performed (operation : O)
  | yielded (result : R)
  | delivered (out : Outcome V X)
  deriving DecidableEq, Repr

/-- How an evaluation ends: with an outcome and the results left over, at an operation without a
result, or because the bound was too small. -/
inductive Ending (V X R : Type*) where
  | finished (out : Outcome V X) (rest : List R)
  | blocked
  | cut
  deriving DecidableEq, Repr

variable {L V X O R : Type*}

/-- Direct-style evaluation. -/
def eval (body : L → Action L V X O R) : Nat → L → List R → List (Obs V X O R) × Ending V X R
  | 0, _, _ => ([], .cut)
  | n + 1, l, results =>
    match body l with
    | .ret v => ([], .finished (.value v) results)
    | .raise x => ([], .finished (.thrown x) results)
    | .perform operation k =>
      match results with
      | [] => ([.performed operation], .blocked)
      | r :: rest =>
        let (trace, ending) := eval body n (k r) rest
        (.performed operation :: .yielded r :: trace, ending)
    | .call callee k =>
      match eval body n callee results with
      | (trace, .finished out rest) =>
        let (trace', ending) := eval body n (k out) rest
        (trace ++ .delivered out :: trace', ending)
      | (trace, ending) => (trace, ending)

/-- The callers' continuations, from the innermost one. -/
abbrev Stack (L V X : Type*) := List (Outcome V X → L)

inductive Point (L V X R : Type*) where
  | run (l : L) (stack : Stack L V X)
  /-- at an operation -/
  | wait (k : R → L) (stack : Stack L V X)
  | done (out : Outcome V X)

structure Config (L V X O R : Type*) where
  point : Point L V X R
  results : List R
  trace : List (Obs V X O R)

/-- A computation ends: its caller goes on with the outcome. -/
def Config.leave (out : Outcome V X) (results : List R) (trace : List (Obs V X O R)) :
    Stack L V X → Config L V X O R
  | [] => ⟨.done out, results, trace⟩
  | k :: stack => ⟨.run (k out) stack, results, trace ++ [.delivered out]⟩

def step (body : L → Action L V X O R) (c : Config L V X O R) : Option (Config L V X O R) :=
  match c.point with
  | .run l stack =>
    match body l with
    | .ret v => some (.leave (.value v) c.results c.trace stack)
    | .raise x => some (.leave (.thrown x) c.results c.trace stack)
    | .perform operation k => some ⟨.wait k stack, c.results, c.trace ++ [.performed operation]⟩
    | .call callee k => some ⟨.run callee (k :: stack), c.results, c.trace⟩
  | .wait k stack =>
    match c.results with
    | [] => none
    | r :: rest => some ⟨.run (k r) stack, rest, c.trace ++ [.yielded r]⟩
  | .done _ => none

def start (l : L) (results : List R) : Config L V X O R := ⟨.run l [], results, []⟩

/-- The machine is where an evaluation ends. -/
def Config.EndsAs (c : Config L V X O R) : Ending V X R → Prop
  | .finished out rest => c.point = .done out ∧ c.results = rest
  | .blocked => c.results = [] ∧ ∃ k stack, c.point = .wait k stack
  | .cut => True

variable {body : L → Action L V X O R} {c c' : Config L V X O R} {l : L} {results : List R}
  {m n : Nat}

/-! ## Steps of the machine -/

section Steps

variable {stack : Stack L V X} {trace : List (Obs V X O R)}

theorem step_perform {operation : O} {k : R → L} (h : body l = .perform operation k) :
    step body ⟨.run l stack, results, trace⟩ =
      some ⟨.wait k stack, results, trace ++ [.performed operation]⟩ := by
  simp only [step, h]

theorem step_call {callee : L} {k : Outcome V X → L} (h : body l = .call callee k) :
    step body ⟨.run l stack, results, trace⟩ = some ⟨.run callee (k :: stack), results, trace⟩ := by
  simp only [step, h]

theorem step_ret {v : V} (h : body l = .ret v) :
    step body ⟨.run l stack, results, trace⟩ = some (.leave (.value v) results trace stack) := by
  simp only [step, h]

theorem step_raise {x : X} (h : body l = .raise x) :
    step body ⟨.run l stack, results, trace⟩ = some (.leave (.thrown x) results trace stack) := by
  simp only [step, h]

end Steps

/-! ## The machine reaches what the evaluation gives -/

/-- What the evaluation of a computation says about the machine that runs it with callers: it hands
the outcome to the caller, stops at an operation, or takes at least `n` steps. -/
def Follows (body : L → Action L V X O R) (n : Nat) (c : Config L V X O R) (stack : Stack L V X)
    (trace : List (Obs V X O R)) : Ending V X R → Prop
  | .finished out rest => ∃ m, iter (step body) m c = some (.leave out rest trace stack)
  | .blocked => ∃ m k stack', iter (step body) m c = some ⟨.wait k stack', [], trace⟩
  | .cut => ∃ m c', n ≤ m ∧ iter (step body) m c = some c' ∧ c'.trace = trace

/-- The machine was elsewhere before. -/
theorem Follows.after {stack : Stack L V X} {trace : List (Obs V X O R)} {ending : Ending V X R}
    {k : Nat} (before : iter (step body) (k + 1) c = some c')
    (follows : Follows body n c' stack trace ending) :
    Follows body (n + 1) c stack trace ending := by
  cases ending with
  | finished out rest =>
    obtain ⟨m, h⟩ := follows
    exact ⟨_, iter_trans before h⟩
  | blocked =>
    obtain ⟨m, k', stack', h⟩ := follows
    exact ⟨_, k', stack', iter_trans before h⟩
  | cut =>
    obtain ⟨m, c'', le, h, trace⟩ := follows
    exact ⟨_, c'', by omega, iter_trans before h, trace⟩

theorem eval_follows (body : L → Action L V X O R) (n : Nat) (l : L) (results : List R) (stack : Stack L V X)
    (trace : List (Obs V X O R)) :
    Follows body n ⟨.run l stack, results, trace⟩ stack (trace ++ (eval body n l results).1)
      (eval body n l results).2 := by
  induction n generalizing l results stack trace with
  | zero => exact ⟨0, _, Nat.le_refl 0, rfl, (List.append_nil _).symm⟩
  | succ n ih =>
    cases h : body l with
    | ret v =>
      simp only [eval, h, List.append_nil]
      exact ⟨1, iter_one (step_ret h)⟩
    | raise x =>
      simp only [eval, h, List.append_nil]
      exact ⟨1, iter_one (step_raise h)⟩
    | perform operation k =>
      cases results with
      | nil =>
        simp only [eval, h]
        exact ⟨1, k, stack, iter_one (step_perform h)⟩
      | cons r rest =>
        have goesOn : iter (step body) 2 ⟨.run l stack, r :: rest, trace⟩ =
            some ⟨.run (k r) stack, rest, trace ++ [.performed operation] ++ [.yielded r]⟩ :=
          iter_trans (iter_one (step_perform h)) (iter_one rfl)
        have follows := (ih (k r) rest stack _).after goesOn
        simp only [eval, h]
        simpa only [List.append_assoc, List.cons_append, List.nil_append] using follows
    | call callee k =>
      have calls : iter (step body) 1 ⟨.run l stack, results, trace⟩ =
          some ⟨.run callee (k :: stack), results, trace⟩ := iter_one (step_call h)
      have callee_follows := ih callee results (k :: stack) trace
      cases hcallee : eval body n callee results with
      | mk trace' ending =>
        rw [hcallee] at callee_follows
        cases ending with
        | finished out rest =>
          obtain ⟨m, hm⟩ := callee_follows
          have returned := iter_trans calls hm
          rw [Nat.add_comm] at returned
          have follows := (ih (k out) rest stack _).after returned
          simp only [eval, h, hcallee]
          simpa only [List.append_assoc, List.cons_append, List.nil_append] using follows
        | blocked =>
          simp only [eval, h, hcallee]
          exact callee_follows.after calls
        | cut =>
          simp only [eval, h, hcallee]
          exact callee_follows.after calls

/-- **The machine reaches what the evaluation gives.** -/
theorem reaches_eval (body : L → Action L V X O R) (n : Nat) (l : L) (results : List R) :
    ∃ m c, iter (step body) m (start l results) = some c ∧ c.trace = (eval body n l results).1 ∧
      c.EndsAs (eval body n l results).2 ∧ ((eval body n l results).2 = .cut → n ≤ m) := by
  have follows := eval_follows body n l results [] []
  rw [List.nil_append] at follows
  generalize eval body n l results = evaluation at follows ⊢
  obtain ⟨trace, ending⟩ := evaluation
  cases ending with
  | finished out rest =>
    obtain ⟨m, h⟩ := follows
    exact ⟨m, _, h, rfl, ⟨rfl, rfl⟩, fun h => absurd h (by simp)⟩
  | blocked =>
    obtain ⟨m, k, stack, h⟩ := follows
    exact ⟨m, _, h, rfl, ⟨rfl, k, stack, rfl⟩, fun h => absurd h (by simp)⟩
  | cut =>
    obtain ⟨m, c, le, h, trace⟩ := follows
    exact ⟨m, c, h, trace, trivial, fun _ => le⟩

/-! ## The evaluation gives what the machine reaches -/

theorem Config.EndsAs.halted {ending : Ending V X R} (ends : c.EndsAs ending) (h : ending ≠ .cut) :
    step body c = none := by
  cases ending with
  | finished out rest =>
    simp only [step, ends.1]
  | blocked =>
    obtain ⟨results, k, stack, point⟩ := ends
    simp only [step, point, results]
  | cut => exact absurd rfl h

theorem step_trace (h : step body c = some c') : c.trace <+: c'.trace := by
  obtain ⟨point, results, trace⟩ := c
  cases point with
  | run l stack =>
    cases hbody : body l with
    | perform operation k =>
      simp only [step, hbody, Option.some.injEq] at h
      exact h ▸ List.prefix_append _ _
    | call callee k =>
      simp only [step, hbody, Option.some.injEq] at h
      exact h ▸ List.prefix_refl _
    | ret v | raise x =>
      simp only [step, hbody, Option.some.injEq] at h
      cases stack <;> simp [← h, Config.leave]
  | wait k stack =>
    cases results with
    | nil => cases h
    | cons r rest =>
      simp only [step, Option.some.injEq] at h
      exact h ▸ List.prefix_append _ _
  | done out => cases h

theorem iter_trace (h : iter (step body) n c = some c') : c.trace <+: c'.trace :=
  iter_induct (fun c c' => c.trace <+: c'.trace) (fun _ => List.prefix_refl _)
    (fun _ _ _ hstep hrest => (step_trace hstep).trans hrest) h

/-- **The evaluation gives what the machine reaches**: its trace goes on from the machine's, and
where the machine has halted, it ends there. -/
theorem eval_covers (h : iter (step body) m (start l results) = some c) :
    c.trace <+: (eval body (m + 1) l results).1 ∧
      (step body c = none → c.trace = (eval body (m + 1) l results).1 ∧
        c.EndsAs (eval body (m + 1) l results).2 ∧ (eval body (m + 1) l results).2 ≠ .cut) := by
  obtain ⟨m', c', h', trace, ends, cut⟩ := reaches_eval body (m + 1) l results
  rw [← trace]
  have le : m ≤ m' := by
    by_cases hcut : (eval body (m + 1) l results).2 = .cut
    · have := cut hcut
      omega
    · exact le_of_halted (ends.halted hcut) h' h
  refine ⟨iter_trace (iter_of_le h h' le), fun halted => ?_⟩
  have eq : m' = m := by
    have := le_of_halted halted h h'
    omega
  subst eq
  obtain rfl := Option.some.inj (h.symm.trans h')
  refine ⟨rfl, ends, fun hcut => ?_⟩
  have := cut hcut
  omega

end Calls
