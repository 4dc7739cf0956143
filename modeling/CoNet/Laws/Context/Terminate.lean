import CoNet.Context.Terminate

/-!
# Each completion is handled once

`HandledOnce` is what a state of the main queue should satisfy: no completion was handled twice, and
the head is not past the tail. `process_all` starts at the head, so it handles what an unconsumed
batch has handled already, and consumes what the batch will consume again. A run in which the handler
finds no peeked completion keeps `HandledOnce` (`handledOnce_of_unpeeked`); one that interrupts a
batch after its first completion can lose it (`not_handledOnce_interrupted`).
-/

set_option autoImplicit false

namespace CoNet.Context.MainQueue

open CoNet.Io Transition

variable {τ φ χ κ : Type} {cfg : Config} {multishotToken : CompletionToken χ}
  {s s' : MainQueue τ φ χ κ} {ev : QueueEvent τ φ χ κ}

/-- No completion is handled twice, and none is consumed that was not posted. -/
structure HandledOnce (s : MainQueue τ φ χ κ) : Prop where
  once : s.handled.Nodup
  head_le : s.head ≤ s.tail

/-- The handler of SIGINT finds no completion that is peeked, or counted, and not consumed. -/
def Unpeeked (s : MainQueue τ φ χ κ) : QueueEvent τ φ χ κ → Prop
  | .interrupt => s.loopStopped = true ∨ s.peeked = 0
  | _ => True

instance (s : MainQueue τ φ χ κ) (ev : QueueEvent τ φ χ κ) : Decidable (Unpeeked s ev) := by
  unfold Unpeeked
  split <;> exact inferInstance

/-- The place of the next completion that is to be handled. -/
def frontier : Option Nat → Nat → BatchPoint → Nat
  | some place, _, _ => place
  | none, head, .batch _ _ done => head + done
  | none, head, _ => head

structure Inv (s : MainQueue τ φ χ κ) : Prop extends HandledOnce s where
  below : ∀ place ∈ s.handled, place < frontier s.handler s.head s.point
  /-- `process_all` runs while no completion is peeked. -/
  handler : ∀ place, s.handler = some place → s.peeked = 0 ∧ s.head ≤ place ∧ place ≤ s.tail
  batch : ∀ first size done, s.point = .batch first size done →
    done ≤ size ∧ (0 < size → first = s.head)
  peeked_le : s.head + s.peeked ≤ s.tail

theorem inv_init : Inv ({} : MainQueue τ φ χ κ) where
  once := List.nodup_nil
  head_le := Nat.le_refl _
  below _ h := nomatch h
  handler _ h := nomatch h
  batch _ _ _ h := nomatch h
  peeked_le := Nat.le_refl _

theorem nodup_snoc_of_below {handled : List Nat} {place : Nat} (once : handled.Nodup)
    (below : ∀ p ∈ handled, p < place) : (handled ++ [place]).Nodup := by
  refine List.nodup_append'.mpr ⟨once, List.nodup_singleton _, ?_⟩
  refine List.disjoint_singleton.mpr fun h => ?_
  exact absurd (below place h) (Nat.lt_irrefl _)

theorem below_snoc {handled : List Nat} {place : Nat} (below : ∀ p ∈ handled, p < place) :
    ∀ p ∈ handled ++ [place], p < place + 1 := by
  intro p hp
  rcases List.mem_append.mp hp with hp | hp
  · exact Nat.lt_succ_of_lt (below p hp)
  · exact List.mem_singleton.mp hp ▸ Nat.lt_succ_self _

/-- What handling a completion changes. -/
theorem handleAt_eq {place : Nat} (h : s.handleAt multishotToken place = some s') :
    ∃ ring, s' = { s with ring, handled := s.handled ++ [place] } ∧ place < s.tail := by
  simp only [handleAt, Option.bind_eq_bind, Option.bind_eq_some_iff] at h
  obtain ⟨cqe, hcqe, ⟨ring, effects⟩, -, heq⟩ := h
  exact ⟨ring, (Option.some.inj heq).symm, (List.getElem?_eq_some_iff.mp hcqe).1⟩

theorem inv_post (inv : Inv s) (cqe : Cqe τ φ χ κ) :
    Inv { s with posted := s.posted ++ [cqe] } := by
  have longer : s.tail ≤ ({ s with posted := s.posted ++ [cqe] } : MainQueue τ φ χ κ).tail := by
    simp only [tail, List.length_append]
    omega
  exact {
    once := inv.once
    head_le := inv.head_le.trans longer
    below := inv.below
    handler := fun place h =>
      have ⟨quiet, lo, hi⟩ := inv.handler place h
      ⟨quiet, lo, hi.trans longer⟩
    batch := inv.batch
    peeked_le := inv.peeked_le.trans longer }

/-- The main thread goes on in `process_batch`, with what it has peeked or counted now. -/
theorem inv_goOn (inv : Inv s) (hn : s.handler = none) (point : BatchPoint)
    (below : ∀ place ∈ s.handled, place < frontier none s.head point)
    (batch : ∀ first size done, point = .batch first size done → done ≤ size ∧ first = s.head)
    (peeked_le : s.head + ({ s with point } : MainQueue τ φ χ κ).peeked ≤ s.tail) :
    Inv { s with point } where
  once := inv.once
  head_le := inv.head_le
  below place h := by
    simpa only [hn] using below place h
  handler place h := by
    rw [hn] at h
    cases h
  batch first size done h := ⟨(batch first size done h).1, fun _ => (batch first size done h).2⟩
  peeked_le := peeked_le

theorem inv_peek (inv : Inv s) (hn : s.handler = none) (hp : s.point = .outside) :
    Inv { s with point := .batch s.head (min cfg.uringPeekCqesBatch (s.tail - s.head)) 0 } := by
  have hle := inv.head_le
  refine inv_goOn inv hn _ ?_ ?_ ?_
  · intro place h
    simpa only [hn, hp, frontier, Nat.add_zero] using inv.below place h
  · intro first size done h
    cases h
    exact ⟨Nat.zero_le _, rfl⟩
  · change s.head + min _ _ ≤ s.tail
    omega

/-- `consume_all` counts from the head up to the tail. -/
theorem inv_count (inv : Inv s) (hn : s.handler = none) (last : Bool)
    (below : ∀ place ∈ s.handled, place < s.head) :
    Inv { s with point := .counted (s.tail - s.head) last } := by
  have hle := inv.head_le
  refine inv_goOn inv hn _ below (fun _ _ _ h => (nomatch h)) ?_
  change s.head + (s.tail - s.head) ≤ s.tail
  omega

theorem inv_handle (inv : Inv s) {first size done : Nat} (hn : s.handler = none)
    (hp : s.point = .batch first size done) (more : done < size) {m : MainQueue τ φ χ κ}
    (hm : s.handleAt multishotToken (first + done) = some m) :
    Inv { m with point := .batch first size (done + 1) } := by
  obtain rfl := (inv.batch first size done hp).2 (by omega)
  obtain ⟨ring, rfl, -⟩ := handleAt_eq hm
  have below : ∀ place ∈ s.handled, place < s.head + done := by
    intro place h
    simpa only [hn, hp, frontier] using inv.below place h
  refine ⟨⟨nodup_snoc_of_below inv.once below, inv.head_le⟩, ?_, ?_, ?_, ?_⟩
  · intro place h
    simpa only [hn, frontier, ← Nat.add_assoc] using below_snoc below place h
  · intro place h
    rw [hn] at h
    cases h
  · intro first' size' done' h
    cases h
    exact ⟨more, fun _ => rfl⟩
  · have hle := inv.peeked_le
    simp only [peeked, hp] at hle
    exact hle

/-- What is consumed was peeked or counted, and everything handled is before the new head. -/
theorem inv_advance (inv : Inv s) (hn : s.handler = none) {count : Nat} (point : BatchPoint)
    (counted : s.peeked = count) (quiet : ({ s with point } : MainQueue τ φ χ κ).peeked = 0)
    (below : ∀ place ∈ s.handled, place < frontier none (s.head + count) point)
    (batch : ∀ first size done, point ≠ .batch first size done) :
    Inv { s.advance count with point } where
  once := inv.once
  head_le := by
    have hle := inv.peeked_le
    rw [counted] at hle
    exact hle
  below place h := by
    simpa only [advance, hn] using below place h
  handler place h := by
    rw [show (s.advance count).handler = none from hn] at h
    cases h
  batch first size done h := absurd h (batch first size done)
  peeked_le := by
    have hle := inv.peeked_le
    rw [counted] at hle
    change (s.head + count) + ({ s with point } : MainQueue τ φ χ κ).peeked ≤ s.tail
    rw [quiet]
    exact hle

theorem inv_consume (inv : Inv s) {first size done : Nat} (hn : s.handler = none)
    (hp : s.point = .batch first size done) :
    Inv { s.advance size with point := .consumed } := by
  refine inv_advance inv hn .consumed (by simp only [peeked, hp]) rfl ?_ nofun
  intro place h
  have hbelow := inv.below place h
  have hbatch := (inv.batch first size done hp).1
  simp only [hn, hp, frontier] at hbelow ⊢
  omega

theorem inv_consumeAll (inv : Inv s) {count : Nat} {last : Bool} (hn : s.handler = none)
    (hp : s.point = .counted count last) :
    Inv { s.advance count with point := if last then .outside else .cancelled } := by
  have below : ∀ place ∈ s.handled, place < s.head + count := by
    intro place h
    have hbelow := inv.below place h
    simp only [hn, hp, frontier] at hbelow
    omega
  have counted : s.peeked = count := by simp only [peeked, hp]
  cases last with
  | false => exact inv_advance inv hn .cancelled counted rfl below nofun
  | true => exact inv_advance inv hn .outside counted rfl below nofun

/-- Without a peeked completion, what was handled is consumed. -/
theorem below_head (inv : Inv s) (hn : s.handler = none) (quiet : s.peeked = 0) :
    ∀ place ∈ s.handled, place < s.head := by
  intro place h
  have hbelow := inv.below place h
  cases hp : s.point with
  | batch first size done =>
    have hdone := (inv.batch first size done hp).1
    simp only [peeked, hp] at quiet
    simp only [hn, hp, frontier] at hbelow
    omega
  | outside | consumed | counted | cancelled => simpa only [hn, hp, frontier] using hbelow

theorem inv_interrupt (inv : Inv s) (hn : s.handler = none) (quiet : s.peeked = 0) :
    Inv { s with loopStopped := true, handler := some s.head } where
  once := inv.once
  head_le := inv.head_le
  below place h := below_head inv hn quiet place h
  handler place h := by
    obtain rfl := Option.some.inj h
    exact ⟨quiet, Nat.le_refl _, inv.head_le⟩
  batch := inv.batch
  peeked_le := inv.peeked_le

theorem inv_processAll (inv : Inv s) {place : Nat} (hs : s.handler = some place)
    (h : s.processAll multishotToken place = some s') : Inv s' := by
  obtain ⟨quiet, lo, hi⟩ := inv.handler place hs
  have below : ∀ p ∈ s.handled, p < place := by
    intro p hp
    simpa only [hs, frontier] using inv.below p hp
  unfold processAll at h
  split at h
  · -- the head goes up to the place of the loop
    rename_i last
    obtain rfl := Option.some.inj h
    have head : s.head + (place - s.head) = place := by omega
    refine ⟨⟨inv.once, head.trans_le hi⟩, ?_, fun p hp => (nomatch hp), ?_, ?_⟩
    · intro p hp
      have hlt := below p hp
      cases hpoint : s.point <;> simp only [advance, hpoint, frontier] <;> omega
    · intro first size done hpoint
      have hpoint' : s.point = .batch first size done := hpoint
      simp only [peeked, hpoint'] at quiet
      exact ⟨(inv.batch first size done hpoint').1, fun pos => absurd quiet (by omega)⟩
    · change s.head + (place - s.head) + s.peeked ≤ s.tail
      omega
  · rename_i more
    obtain ⟨m, hm, rfl⟩ := Option.map_eq_some_iff.mp h
    obtain ⟨ring, rfl, hlt⟩ := handleAt_eq hm
    refine ⟨⟨nodup_snoc_of_below inv.once below, inv.head_le⟩, below_snoc below, ?_, inv.batch,
      inv.peeked_le⟩
    intro p hp
    obtain rfl := Option.some.inj hp
    exact ⟨quiet, Nat.le_succ_of_le lo, hlt⟩

/-- **Every step keeps the invariant**, if the handler of SIGINT finds no peeked completion. -/
theorem inv_step (inv : Inv s) (unpeeked : Unpeeked s ev)
    (h : s.step cfg multishotToken ev = some s') : Inv s' := by
  cases ev with
  | post cqe =>
    obtain rfl := Option.some.inj h
    exact inv_post inv cqe
  | peek =>
    simp only [step] at h
    split at h
    · cases h
      exact inv_peek inv ‹_› ‹_›
    · cases h
  | handle =>
    simp only [step] at h
    split at h
    · split at h
      · rename_i guard
        obtain ⟨m, hm, rfl⟩ := Option.map_eq_some_iff.mp h
        exact inv_handle inv ‹_› ‹_› guard.1 hm
      · cases h
    · cases h
  | consume =>
    simp only [step] at h
    split at h
    · split at h
      · cases h
      · cases h
        exact inv_consume inv ‹_› ‹_›
    · cases h
  | finish =>
    simp only [step] at h
    split at h
    · rename_i hn hp
      have below := below_head inv hn (by simp only [peeked, hp])
      split at h
      · cases h
        exact inv_count inv hn false below
      · cases h
        exact inv_goOn inv hn _ below (fun _ _ _ h => (nomatch h)) inv.head_le
    · rename_i hn hp
      cases h
      exact inv_count inv hn true (below_head inv hn (by simp only [peeked, hp]))
    · cases h
  | consumeAll =>
    simp only [step] at h
    split at h
    · cases h
      exact inv_consumeAll inv ‹_› ‹_›
    · cases h
  | interrupt =>
    simp only [step] at h
    split at h
    · cases h
    · split at h
      · cases h
        exact inv
      · rename_i running
        cases h
        exact inv_interrupt inv ‹_› (unpeeked.resolve_left running)
  | processAll =>
    simp only [step] at h
    split at h
    · cases h
    · exact inv_processAll inv ‹_› h

/-- **Each completion is handled once**, in every run in which the handler of SIGINT finds nothing
that is peeked, or counted, and not consumed. -/
theorem handledOnce_of_unpeeked (cfg : Config) (multishotToken : CompletionToken χ)
    (es : List (QueueEvent τ φ χ κ)) (unpeeked : Meets (step cfg multishotToken) Unpeeked {} es) :
    Always (step cfg multishotToken) HandledOnce {} es :=
  always_of_meets (fun _ _ _ => inv_step) (fun _ inv => inv.toHandledOnce) inv_init unpeeked

/-- A completion without a token. -/
def plainCqe : Cqe Unit Unit Unit Unit := { res := 0, flags := 0, userData := none }

/-- The `Quit` message that the main ring sends itself. -/
def quitCqe : Cqe Unit Unit Unit Unit where
  res := 0
  flags := 0
  userData := some ((), .token { op := .quit })

/-- The handler runs between two batches. `terminate` sends `Quit`, whose request also completes. -/
def betweenBatches : List (QueueEvent Unit Unit Unit Unit) :=
  [.post plainCqe, .peek, .handle, .consume, .finish, .post plainCqe, .interrupt, .post quitCqe,
    .post plainCqe, .processAll, .processAll, .processAll, .processAll]

theorem handledOnce_of_unpeeked_between :
    ∃ s, exec (step {} { op := .multishotAccept }) {} betweenBatches = some s ∧
      s.handled = [0, 1, 2, 3] ∧ s.head = s.tail ∧
      Always (step {} { op := .multishotAccept }) HandledOnce {} betweenBatches :=
  ⟨_, rfl, rfl, rfl, handledOnce_of_unpeeked {} { op := .multishotAccept } _ (by decide)⟩

/-- The handler runs after the first of two completions of a batch: `process_all` handles and consumes these
two and what `Quit` adds, and the batch consumes its two again. -/
theorem not_handledOnce_interrupted :
    ∃ s, exec (step {} { op := .multishotAccept }) {}
        [.post plainCqe, .post plainCqe, .peek, .handle, .interrupt, .post quitCqe, .post plainCqe,
          .processAll, .processAll, .processAll, .processAll, .processAll, .consume] = some s ∧
      s.handled = [0, 0, 1, 2, 3] ∧ s.tail < s.head ∧ ¬ HandledOnce s :=
  ⟨_, rfl, rfl, by decide, fun h => absurd h.once (by decide)⟩

end CoNet.Context.MainQueue
