import Mathlib.Data.List.Nodup
import Mathlib.Data.List.Count
import Mathlib.Logic.Function.Basic

/-!
# A ledger of owned resources

Resources are numbered in the order in which they are acquired. A holder has at most one; it can
pass it on, release it to somebody outside the ledger, or close it. The ledger says who holds what
and what became of every resource that nobody holds any more.

`Balanced` is the safety half: a resource has one holder at most, and one that was released or
closed has none and is not given up again. Every operation keeps it. `Covered` is the other half:
no resource is lost. An operation that overwrites a holder's resource breaks it, so `acquire` and
`transfer` keep it only onto a holder with nothing. `closed_once` is what the two give once no
holder has anything: each resource never released was closed exactly once.
-/

set_option autoImplicit false

/-- What became of a resource that its holder gave up. -/
inductive Ledger.Fate where
  | released
  | closed
  deriving DecidableEq, Repr

/-- Who holds which resource, and what became of the others. -/
@[ext]
structure Ledger (κ : Type*) where
  holds : κ → Option Nat
  acquired : Nat
  gone : List (Nat × Ledger.Fate)

namespace Ledger

variable {κ : Type*}

/-- Nothing acquired yet. -/
def empty : Ledger κ := ⟨fun _ => none, 0, []⟩

/-- The resources given up with a fate, in order. -/
def met (L : Ledger κ) (fate : Fate) : List Nat := (L.gone.filter (·.2 = fate)).map (·.1)

/-- Each resource has one holder at most, and none once it was given up. -/
structure Balanced (L : Ledger κ) : Prop where
  injective : ∀ k k' a, L.holds k = some a → L.holds k' = some a → k = k'
  held_lt : ∀ k a, L.holds k = some a → a < L.acquired
  held_live : ∀ k a, L.holds k = some a → a ∉ L.gone.map (·.1)
  gone_lt : ∀ a ∈ L.gone.map (·.1), a < L.acquired
  gone_nodup : (L.gone.map (·.1)).Nodup

/-- No resource is lost: each is held or was given up. -/
def Covered (L : Ledger κ) : Prop :=
  ∀ a < L.acquired, a ∈ L.gone.map (·.1) ∨ ∃ k, L.holds k = some a

variable {L : Ledger κ}

theorem balanced_empty : (empty : Ledger κ).Balanced where
  injective _ _ _ h := nomatch h
  held_lt _ _ h := nomatch h
  held_live _ _ h := nomatch h
  gone_lt _ h := nomatch h
  gone_nodup := List.nodup_nil

theorem covered_empty : (empty : Ledger κ).Covered :=
  fun a h => absurd h (Nat.not_lt_zero a)

theorem mem_met {a : Nat} {fate : Fate} : a ∈ L.met fate ↔ (a, fate) ∈ L.gone := by
  simp only [met, List.mem_map, List.mem_filter, decide_eq_true_eq]
  constructor
  · rintro ⟨⟨b, f⟩, ⟨hmem, rfl⟩, rfl⟩
    exact hmem
  · exact fun h => ⟨(a, fate), ⟨h, rfl⟩, rfl⟩

theorem gone_of_met {a : Nat} {fate : Fate} (h : a ∈ L.met fate) : a ∈ L.gone.map (·.1) :=
  List.mem_map.mpr ⟨(a, fate), mem_met.mp h, rfl⟩

/-- A resource given up met one of the two fates. -/
theorem met_of_gone {a : Nat} (h : a ∈ L.gone.map (·.1)) :
    a ∈ L.met .released ∨ a ∈ L.met .closed := by
  obtain ⟨⟨b, fate⟩, hmem, rfl⟩ := List.mem_map.mp h
  cases fate with
  | released => exact .inl (mem_met.mpr hmem)
  | closed => exact .inr (mem_met.mpr hmem)

theorem Balanced.met_nodup (h : L.Balanced) (fate : Fate) : (L.met fate).Nodup :=
  h.gone_nodup.sublist (List.filter_sublist.map _)

/-- No resource is both released and closed. -/
theorem Balanced.not_both (h : L.Balanced) {a : Nat} (hr : a ∈ L.met .released) :
    a ∉ L.met .closed := by
  intro hc
  have := List.inj_on_of_nodup_map h.gone_nodup (mem_met.mp hr) (mem_met.mp hc) rfl
  cases this

/-- **Exactly once.** In a balanced ledger that lost nothing, once no holder has anything, each
resource that was never released was closed exactly once. -/
theorem closed_once (balanced : L.Balanced) (covered : L.Covered)
    (nobody : ∀ k, L.holds k = none) {a : Nat} (ha : a < L.acquired)
    (hr : a ∉ L.met .released) : (L.met .closed).count a = 1 := by
  rcases covered a ha with h | ⟨k, h⟩
  · rcases met_of_gone h with h | h
    · exact absurd h hr
    · exact List.count_eq_one_of_mem (balanced.met_nodup _) h
  · rw [nobody k] at h
    cases h

section Operations

variable [DecidableEq κ]

/-- `k` takes the next resource. -/
def acquire (L : Ledger κ) (k : κ) : Ledger κ :=
  { L with holds := Function.update L.holds k (some L.acquired), acquired := L.acquired + 1 }

/-- `dst` takes over what `src` holds. -/
def transfer (L : Ledger κ) (dst src : κ) : Ledger κ :=
  { L with holds := Function.update (Function.update L.holds dst (L.holds src)) src none }

/-- `k` gives up what it holds. -/
def giveUp (L : Ledger κ) (k : κ) (fate : Fate) : Ledger κ :=
  { L with holds := Function.update L.holds k none
           gone := L.gone ++ (L.holds k).toList.map (·, fate) }

theorem acquire_holds_self (k : κ) : (L.acquire k).holds k = some L.acquired :=
  Function.update_self ..

theorem acquire_holds_of_ne {k k' : κ} (h : k' ≠ k) : (L.acquire k).holds k' = L.holds k' :=
  Function.update_of_ne h ..

theorem transfer_holds_src (dst src : κ) : (L.transfer dst src).holds src = none :=
  Function.update_self ..

theorem transfer_holds_dst {dst src : κ} (h : dst ≠ src) :
    (L.transfer dst src).holds dst = L.holds src := by
  simp only [transfer, Function.update_of_ne h, Function.update_self]

theorem transfer_holds_of_ne {dst src k : κ} (hd : k ≠ dst) (hs : k ≠ src) :
    (L.transfer dst src).holds k = L.holds k := by
  simp only [transfer, Function.update_of_ne hs, Function.update_of_ne hd]

theorem giveUp_holds_self (k : κ) (fate : Fate) : (L.giveUp k fate).holds k = none :=
  Function.update_self ..

theorem giveUp_holds_of_ne {k k' : κ} (fate : Fate) (h : k' ≠ k) :
    (L.giveUp k fate).holds k' = L.holds k' :=
  Function.update_of_ne h ..

/-- What a holder has after another one gave up its own, it had before. -/
theorem holds_of_giveUp {k k' : κ} {fate : Fate} {a : Nat}
    (h : (L.giveUp k fate).holds k' = some a) : k' ≠ k ∧ L.holds k' = some a := by
  by_cases hk : k' = k
  · subst hk
    rw [giveUp_holds_self] at h
    cases h
  · exact ⟨hk, by rwa [giveUp_holds_of_ne fate hk] at h⟩

/-- What a holder has after an acquisition is the new resource, or what it had before. -/
theorem holds_of_acquire {k k' : κ} {a : Nat} (h : (L.acquire k).holds k' = some a) :
    (k' = k ∧ a = L.acquired) ∨ (k' ≠ k ∧ L.holds k' = some a) := by
  by_cases hk : k' = k
  · subst hk
    rw [acquire_holds_self] at h
    exact .inl ⟨rfl, (Option.some.inj h).symm⟩
  · rw [acquire_holds_of_ne hk] at h
    exact .inr ⟨hk, h⟩

/-- What a holder has after a transfer it had before, unless it is the one that took over. -/
theorem holds_of_transfer {dst src k : κ} {a : Nat} (h : (L.transfer dst src).holds k = some a) :
    k ≠ src ∧ ((k = dst ∧ L.holds src = some a) ∨ (k ≠ dst ∧ L.holds k = some a)) := by
  by_cases hs : k = src
  · subst hs
    rw [transfer_holds_src] at h
    cases h
  · refine ⟨hs, ?_⟩
    by_cases hd : k = dst
    · subst hd
      exact .inl ⟨rfl, by rwa [transfer_holds_dst hs] at h⟩
    · exact .inr ⟨hd, by rwa [transfer_holds_of_ne hd hs] at h⟩

theorem Balanced.acquire (h : L.Balanced) (k : κ) : (L.acquire k).Balanced := by
  refine ⟨?_, ?_, ?_, fun a ha => Nat.lt_succ_of_lt (h.gone_lt a ha), h.gone_nodup⟩
  · intro k₁ k₂ a h₁ h₂
    rcases holds_of_acquire h₁ with ⟨e₁, ha⟩ | ⟨-, h₁⟩ <;>
      rcases holds_of_acquire h₂ with ⟨e₂, ha'⟩ | ⟨-, h₂⟩
    · rw [e₁, e₂]
    · exact absurd (h.held_lt k₂ a h₂) (by omega)
    · exact absurd (h.held_lt k₁ a h₁) (by omega)
    · exact h.injective k₁ k₂ a h₁ h₂
  · intro k' a hk'
    show a < L.acquired + 1
    rcases holds_of_acquire hk' with ⟨-, rfl⟩ | ⟨-, hk'⟩
    · exact Nat.lt_succ_self _
    · exact Nat.lt_succ_of_lt (h.held_lt k' a hk')
  · intro k' a hk'
    rcases holds_of_acquire hk' with ⟨-, rfl⟩ | ⟨-, hk'⟩
    · exact fun hg => absurd (h.gone_lt _ hg) (Nat.lt_irrefl _)
    · exact h.held_live k' a hk'

theorem Balanced.transfer (h : L.Balanced) (dst src : κ) : (L.transfer dst src).Balanced := by
  -- what is held after a transfer was held before, by `src` or by the same holder
  have before : ∀ k a, (L.transfer dst src).holds k = some a → ∃ k', L.holds k' = some a := by
    intro k a hk
    obtain ⟨-, ⟨-, hk⟩ | ⟨-, hk⟩⟩ := holds_of_transfer hk
    · exact ⟨src, hk⟩
    · exact ⟨k, hk⟩
  refine ⟨?_, ?_, ?_, h.gone_lt, h.gone_nodup⟩
  · intro k₁ k₂ a h₁ h₂
    obtain ⟨s₁, ⟨e₁, h₁⟩ | ⟨-, h₁⟩⟩ := holds_of_transfer h₁ <;>
      obtain ⟨s₂, ⟨e₂, h₂⟩ | ⟨-, h₂⟩⟩ := holds_of_transfer h₂
    · rw [e₁, e₂]
    · exact absurd (h.injective k₂ src a h₂ h₁) s₂
    · exact absurd (h.injective k₁ src a h₁ h₂) s₁
    · exact h.injective k₁ k₂ a h₁ h₂
  · intro k a hk
    obtain ⟨k', hk'⟩ := before k a hk
    exact h.held_lt k' a hk'
  · intro k a hk
    obtain ⟨k', hk'⟩ := before k a hk
    exact h.held_live k' a hk'

theorem giveUp_gone_none {k : κ} {fate : Fate} (hk : L.holds k = none) :
    (L.giveUp k fate).gone = L.gone := by
  simp only [giveUp, hk, Option.toList_none, List.map_nil, List.append_nil]

theorem giveUp_gone_some {k : κ} {fate : Fate} {a : Nat} (hk : L.holds k = some a) :
    (L.giveUp k fate).gone = L.gone ++ [(a, fate)] := by
  simp only [giveUp, hk, Option.toList_some, List.map_cons, List.map_nil]

/-- What met a fate after one more holder gave up its resource. -/
theorem met_giveUp (k : κ) (fate fate' : Fate) :
    (L.giveUp k fate).met fate' =
      L.met fate' ++ if fate = fate' then (L.holds k).toList else [] := by
  cases hk : L.holds k with
  | none =>
    simp only [met, giveUp_gone_none hk, Option.toList_none, ite_self, List.append_nil]
  | some a =>
    simp only [met, giveUp_gone_some hk, List.filter_append, List.map_append]
    by_cases hf : fate = fate'
    · simp [hf]
    · simp [hf]

theorem Balanced.giveUp (h : L.Balanced) (k : κ) (fate : Fate) : (L.giveUp k fate).Balanced := by
  have before : ∀ k' a, (L.giveUp k fate).holds k' = some a → L.holds k' = some a :=
    fun _ _ hk' => (holds_of_giveUp hk').2
  have injective := fun k₁ k₂ a h₁ h₂ => h.injective k₁ k₂ a (before k₁ a h₁) (before k₂ a h₂)
  have held_lt := fun k' a hk' => h.held_lt k' a (before k' a hk')
  cases hk : L.holds k with
  | none =>
    have same : (L.giveUp k fate).gone = L.gone := giveUp_gone_none hk
    refine ⟨injective, held_lt, ?_, ?_, ?_⟩
    · exact fun k' a hk' => same ▸ h.held_live k' a (before k' a hk')
    · exact same ▸ h.gone_lt
    · exact same ▸ h.gone_nodup
  | some b =>
    have more : (L.giveUp k fate).gone.map (·.1) = L.gone.map (·.1) ++ [b] := by
      rw [giveUp_gone_some hk, List.map_append, List.map_cons, List.map_nil]
    refine ⟨injective, held_lt, ?_, ?_, ?_⟩
    · intro k' a hk'
      obtain ⟨hne, hk'⟩ := holds_of_giveUp hk'
      rw [more, List.mem_append, List.mem_singleton, not_or]
      exact ⟨h.held_live k' a hk', fun hab => hne (h.injective k' k b (hab ▸ hk') hk)⟩
    · intro a ha
      rw [more, List.mem_append, List.mem_singleton] at ha
      rcases ha with ha | rfl
      · exact h.gone_lt a ha
      · exact h.held_lt k a hk
    · rw [more]
      exact List.nodup_append'.mpr ⟨h.gone_nodup, List.nodup_singleton b,
        List.disjoint_singleton.mpr (h.held_live k b hk)⟩

theorem Covered.acquire (h : L.Covered) {k : κ} (hk : L.holds k = none) :
    (L.acquire k).Covered := by
  intro a ha
  rcases Nat.lt_succ_iff_lt_or_eq.mp ha with ha | rfl
  · rcases h a ha with hg | ⟨k', hk'⟩
    · exact .inl hg
    · have hne : k' ≠ k := fun e => by rw [e, hk] at hk'; cases hk'
      exact .inr ⟨k', by rw [acquire_holds_of_ne hne, hk']⟩
  · exact .inr ⟨k, acquire_holds_self k⟩

theorem Covered.transfer (h : L.Covered) {dst src : κ} (hne : dst ≠ src)
    (hd : L.holds dst = none) : (L.transfer dst src).Covered := by
  intro a ha
  rcases h a ha with hg | ⟨k, hk⟩
  · exact .inl hg
  · by_cases hs : k = src
    · exact .inr ⟨dst, by rw [transfer_holds_dst hne, ← hs, hk]⟩
    · have hkd : k ≠ dst := fun e => by rw [e, hd] at hk; cases hk
      exact .inr ⟨k, by rw [transfer_holds_of_ne hkd hs, hk]⟩

/-- **A transfer onto a holder loses what it had**, also when it is one from the holder to itself. -/
theorem Balanced.not_covered_transfer (h : L.Balanced) {dst src : κ} {a : Nat}
    (hd : L.holds dst = some a) : ¬ (L.transfer dst src).Covered := by
  intro covered
  rcases covered a (h.held_lt dst a hd) with hg | ⟨k, hk⟩
  · exact h.held_live dst a hd hg
  · obtain ⟨hs, ⟨hkd, hk⟩ | ⟨hkd, hk⟩⟩ := holds_of_transfer hk
    · exact hs (hkd.trans (h.injective dst src a hd hk))
    · exact hkd (h.injective k dst a hk hd)

theorem Covered.giveUp (h : L.Covered) (k : κ) (fate : Fate) : (L.giveUp k fate).Covered := by
  intro a ha
  rcases h a ha with hg | ⟨k', hk'⟩
  · refine .inl ?_
    rw [Ledger.giveUp, List.map_append]
    exact List.mem_append_left _ hg
  · by_cases hk : k' = k
    · refine .inl ?_
      rw [giveUp_gone_some (hk ▸ hk'), List.map_append]
      exact List.mem_append_right _ List.mem_cons_self
    · exact .inr ⟨k', by rw [giveUp_holds_of_ne fate hk, hk']⟩

end Operations

section Several

variable {K : κ → Prop} [DecidablePred K] {l : List Nat}

/-- Some holders give up what they hold, which is `l`. -/
def giveUpAll (L : Ledger κ) (K : κ → Prop) [DecidablePred K] (l : List Nat) (fate : Fate) :
    Ledger κ :=
  { L with holds := fun k => if K k then none else L.holds k, gone := L.gone ++ l.map (·, fate) }

theorem holds_of_giveUpAll {k : κ} {a : Nat} {fate : Fate}
    (h : (L.giveUpAll K l fate).holds k = some a) : ¬ K k ∧ L.holds k = some a := by
  by_cases hk : K k
  · simp only [giveUpAll, if_pos hk, reduceCtorEq] at h
  · simp only [giveUpAll, if_neg hk] at h
    exact ⟨hk, h⟩

theorem Balanced.giveUpAll (h : L.Balanced) (fate : Fate) (nodup : l.Nodup)
    (held : ∀ a ∈ l, ∃ k, K k ∧ L.holds k = some a) : (L.giveUpAll K l fate).Balanced := by
  have more : (L.giveUpAll K l fate).gone.map (·.1) = L.gone.map (·.1) ++ l := by
    simp [Ledger.giveUpAll, Function.comp_def]
  refine ⟨fun k k' a hk hk' => ?_, fun k a hk => ?_, fun k a hk => ?_, fun a ha => ?_, ?_⟩
  · exact h.injective k k' a (holds_of_giveUpAll hk).2 (holds_of_giveUpAll hk').2
  · exact h.held_lt k a (holds_of_giveUpAll hk).2
  · obtain ⟨keeps, hk⟩ := holds_of_giveUpAll hk
    rw [more, List.mem_append, not_or]
    refine ⟨h.held_live k a hk, fun ha => ?_⟩
    obtain ⟨k', given, hk'⟩ := held a ha
    exact keeps (h.injective k k' a hk hk' ▸ given)
  · rw [more] at ha
    rcases List.mem_append.mp ha with ha | ha
    · exact h.gone_lt a ha
    · obtain ⟨k, -, hk⟩ := held a ha
      exact h.held_lt k a hk
  · rw [more]
    refine List.nodup_append'.mpr ⟨h.gone_nodup, nodup, fun a gone ha => ?_⟩
    obtain ⟨k, -, hk⟩ := held a ha
    exact h.held_live k a hk gone

theorem Covered.giveUpAll (h : L.Covered) (fate : Fate)
    (only : ∀ k a, K k → L.holds k = some a → a ∈ l) : (L.giveUpAll K l fate).Covered := by
  intro a ha
  have more : (L.giveUpAll K l fate).gone.map (·.1) = L.gone.map (·.1) ++ l := by
    simp [Ledger.giveUpAll, Function.comp_def]
  rw [more, List.mem_append]
  rcases h a ha with hg | ⟨k, hk⟩
  · exact .inl (.inl hg)
  · by_cases given : K k
    · exact .inl (.inr (only k a given hk))
    · exact .inr ⟨k, by rw [← hk]; exact if_neg given⟩

end Several

end Ledger
