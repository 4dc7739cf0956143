import Mathlib.Logic.Function.Basic
import Mathlib.Logic.Relation

/-!
# Chains of a partial successor function

`Follows next a b` says that `b` is reached from `a` through successors. A root is what nothing has as
its successor. Where no two have the same successor, chains from different roots do not meet
(`root_unique`). The other lemmas say what a change of the function leaves of a chain: an end gets a
successor, an end is cut off, or a set is taken out that has with each member its successor.
-/

set_option autoImplicit false

namespace Successors

variable {ι : Type*}

/-- What is reached through successors. -/
def Follows (next : ι → Option ι) : ι → ι → Prop :=
  Relation.ReflTransGen fun a b => next a = some b

/-- Nothing has it as its successor. -/
def Root (next : ι → Option ι) (r : ι) : Prop := ∀ a, next a ≠ some r

/-- No two have the same successor. -/
def Injective (next : ι → Option ι) : Prop :=
  ∀ a b c, next a = some c → next b = some c → a = b

variable {next next' : ι → Option ι} {a b r r' x : ι}

theorem Follows.refl (next : ι → Option ι) (a : ι) : Follows next a a := Relation.ReflTransGen.refl

theorem Follows.tail (h : Follows next a b) (last : next b = some x) : Follows next a x :=
  Relation.ReflTransGen.tail h last

theorem Follows.head (first : next a = some b) (h : Follows next b x) : Follows next a x :=
  Relation.ReflTransGen.head first h

theorem Follows.cases_head (h : Follows next a x) :
    a = x ∨ ∃ b, next a = some b ∧ Follows next b x :=
  Relation.ReflTransGen.cases_head h

theorem Follows.cases_tail (h : Follows next a x) :
    x = a ∨ ∃ b, Follows next a b ∧ next b = some x :=
  Relation.ReflTransGen.cases_tail h

/-- A root is reached from itself only. -/
theorem Root.eq_of_follows (root : Root next r) (h : Follows next a r) : a = r := by
  rcases h.cases_tail with rfl | ⟨b, -, last⟩
  · rfl
  · exact absurd last (root b)

/-- **What two roots reach, they reach on one chain.** -/
theorem root_unique (inj : Injective next) (root : Root next r) (root' : Root next r')
    (h : Follows next r x) (h' : Follows next r' x) : r = r' := by
  induction h with
  | refl => exact (root.eq_of_follows h').symm
  | @tail b c _ last ih =>
    rcases h'.cases_tail with rfl | ⟨b', chain', last'⟩
    · exact absurd last (root' b)
    · exact ih (inj b' b c last' last ▸ chain')

/-- A successor function that has more gives the same chains and more. -/
theorem Follows.mono (h : Follows next a x)
    (keep : ∀ b c, next b = some c → next' b = some c) : Follows next' a x :=
  Relation.ReflTransGen.mono (fun b c hbc => keep b c hbc) a x h

/-- A chain to `x` needs the successors on the way to it only. -/
theorem Follows.congr (h : Follows next a x) (P : ι → Prop) (hx : P x)
    (back : ∀ b c, P c → next b = some c → P b ∧ next' b = some c) : Follows next' a x := by
  induction h with
  | refl => exact .refl next' a
  | @tail b c _ last ih =>
    obtain ⟨hb, last'⟩ := back b c hx last
    exact (ih hb).tail last'

/-- Everything comes from a root, where successors are further up a well-founded order. -/
theorem exists_root {rel : ι → ι → Prop} (wf : WellFounded rel)
    (up : ∀ a b, next a = some b → rel a b) (x : ι) : ∃ r, Root next r ∧ Follows next r x := by
  induction x using wf.induction with
  | h x ih =>
    by_cases root : Root next x
    · exact ⟨x, root, .refl next x⟩
    · obtain ⟨a, ha⟩ := not_forall_not.mp root
      obtain ⟨r, hr, chain⟩ := ih a (up a x ha)
      exact ⟨r, hr, chain.tail ha⟩

/-- What is reached is no lower, where successors are higher. -/
theorem le_of_follows {next : Nat → Option Nat} (up : ∀ a b, next a = some b → a < b) {a x : Nat}
    (h : Follows next a x) : a ≤ x := by
  induction h with
  | refl => exact Nat.le_refl a
  | tail _ last ih => exact Nat.le_trans ih (Nat.le_of_lt (up _ _ last))

section Update

variable [DecidableEq ι]

/-- An end gets a successor. -/
theorem Follows.extend {f c : ι} (h : Follows next a x) (isEnd : next f = none) :
    Follows (Function.update next f (some c)) a x :=
  h.mono fun b d hbd => by
    have ne : b ≠ f := by
      rintro rfl
      cases isEnd.symm.trans hbd
    rwa [Function.update_of_ne ne]

/-- An end `f` is cut off: the chains to everything else stay. -/
theorem Follows.cut {f g : ι} (h : Follows next a x) (isEnd : next f = none)
    (last : next g = some f) (ne : x ≠ f) : Follows (Function.update next g none) a x := by
  refine h.congr (· ≠ f) ne fun b c hc hbc => ⟨?_, ?_⟩
  · rintro rfl
    cases isEnd.symm.trans hbc
  · have hb : b ≠ g := by
      rintro rfl
      exact hc (Option.some.inj (hbc.symm.trans last))
    rwa [Function.update_of_ne hb]

end Update

end Successors
