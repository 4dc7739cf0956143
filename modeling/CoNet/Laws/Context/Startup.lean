import CoNet.Context.Startup
import Mathlib.Data.List.Nodup

/-!
# What the latch counts

`LatchCounts` is what a state of the start-up should satisfy: once the latch is constructed, its counter
is the number of workers less those that have counted down. The workers are started before the latch is
constructed, and its constructor does not see who has counted down before; `counts_iff_early` says that
a run has `LatchCounts` in all its states exactly when no worker was that fast. In
`not_counts_fastWorker` one was, and the constructor waits forever.
-/

set_option autoImplicit false

namespace CoNet.Context

namespace InitPoint

/-- The threads started, of `n` in all. -/
def started (n : Nat) : InitPoint → Nat
  | .mainTaskQueue | .mainUring | .ioBuffer => 0
  | .workers k => k
  | _ => n

def latchBuilt : InitPoint → Bool
  | .stopped | .currentWorkerUringIdx | .wait | .ready => true
  | _ => false

theorem started_of_latchBuilt {point : InitPoint} (h : point.latchBuilt = true) (n : Nat) :
    point.started n = n := by
  cases point <;> first | rfl | cases h

end InitPoint

namespace WorkerPoint

/-- The worker's ring is in `uring_fds_`. -/
def registered : WorkerPoint → Bool
  | .countDown | .looping => true
  | _ => false

/-- The worker has locked `mtx_`. -/
def holds : WorkerPoint → Bool
  | .pushBack | .countDown => true
  | _ => false

end WorkerPoint

namespace Startup

open Transition

variable {host : Host} {s s' : Startup} {e : StartupEvent} {i : Nat} {p p' : WorkerPoint}

/-- `uring_fds_` holds the rings of all workers. -/
def HoldsAll (host : Host) (s : Startup) : Prop :=
  s.uringFds.Perm ((List.range host.howMany).map host.ringFd)

structure LatchCounts (host : Host) (s : Startup) : Prop where
  counter : s.built = true → s.counter = host.howMany - s.counted
  /-- `wait()` passes when all rings are in `uring_fds_` and no worker is still under `mtx_`. -/
  passes : s.built = true → (s.counter = 0 ↔ HoldsAll host s ∧ s.locked = false)
  /-- The counter is not left above zero. -/
  falls : s.built = true → (∀ p ∈ s.threads, p = .looping) → s.counter = 0

/-- No worker has counted down when the latch is constructed. -/
def Early (s : Startup) : StartupEvent → Prop
  | .init => s.point = .initLatch → s.counted = 0
  | .worker _ => True

theorem expected_eq (host : Host) : host.expected = host.howMany := by
  unfold Host.expected Host.howMany
  split <;> simp_all

/-- The rings in `uring_fds_` are those of the workers that have put theirs there, each once. -/
def Rings (host : Host) (threads : List WorkerPoint) (uringFds : List Int) : Prop :=
  ∃ order : List Nat, order.Nodup ∧ uringFds = order.map host.ringFd ∧
    ∀ i, i ∈ order ↔ ∃ p, threads[i]? = some p ∧ p.registered = true

structure Inv (host : Host) (s : Startup) : Prop where
  le : ∀ k, s.point = .workers k → k ≤ host.howMany
  threads : s.threads.length = s.point.started host.howMany
  built : s.built = s.point.latchBuilt
  rings : Rings host s.threads s.uringFds
  size : s.uringFds.length = s.threads.countP WorkerPoint.registered
  mutex : s.locked.toNat = s.threads.countP WorkerPoint.holds
  latch : s.built = true → s.counter = host.howMany - s.counted

theorem inv_start (host : Host) : Inv host (start host) where
  le k h := by cases h
  threads := rfl
  built := rfl
  rings := ⟨[], List.nodup_nil, rfl, by simp [start]⟩
  size := rfl
  mutex := rfl
  latch h := by cases h

/-- A count over the workers, when one of them moves on. -/
theorem countP_moved (q : WorkerPoint → Bool) (here : s.threads[i]? = some p) (p' : WorkerPoint) :
    (s.threads.set i p').countP q + (q p).toNat = s.threads.countP q + (q p').toNat := by
  obtain ⟨hi, hp⟩ := List.getElem?_eq_some_iff.mp here
  rw [List.countP_set hi, hp]
  cases hq : q p with
  | false => cases q p' <;> simp
  | true =>
    have pos : 0 < s.threads.countP q := List.countP_pos_iff.mpr ⟨p, hp ▸ List.getElem_mem hi, hq⟩
    cases q p' <;> simp <;> omega

/-- A worker whose ring is in `uring_fds_` already, or still not, moves on. -/
theorem rings_same (rings : Rings host s.threads s.uringFds) (here : s.threads[i]? = some p)
    (same : p'.registered = p.registered) : Rings host (s.threads.set i p') s.uringFds := by
  obtain ⟨order, nodup, fds, mem⟩ := rings
  refine ⟨order, nodup, fds, fun j => (mem j).trans ?_⟩
  obtain ⟨hi, -⟩ := List.getElem?_eq_some_iff.mp here
  by_cases hj : i = j
  · subst hj
    simp only [here, List.getElem?_set_self hi, Option.some.injEq, exists_eq_left', same]
  · rw [List.getElem?_set_ne hj]

/-- A worker puts its ring into `uring_fds_`. -/
theorem rings_pushBack (rings : Rings host s.threads s.uringFds)
    (here : s.threads[i]? = some .pushBack) :
    Rings host (s.threads.set i .countDown) (s.uringFds ++ [host.ringFd i]) := by
  obtain ⟨order, nodup, fds, mem⟩ := rings
  obtain ⟨hi, -⟩ := List.getElem?_eq_some_iff.mp here
  have fresh : i ∉ order := fun h => by
    obtain ⟨p, hp, registered⟩ := (mem i).mp h
    rw [here] at hp
    cases hp
    cases registered
  refine ⟨order ++ [i], ?_, by simp [fds], fun j => ?_⟩
  · exact List.nodup_append'.mpr
      ⟨nodup, List.nodup_singleton i, List.disjoint_singleton.mpr fresh⟩
  · rw [List.mem_append, List.mem_singleton, mem j]
    by_cases hj : i = j
    · subst hj
      simp [List.getElem?_set_self hi, WorkerPoint.registered]
    · rw [List.getElem?_set_ne hj, or_iff_left (Ne.symm hj)]

/-- **A worker moves on.** -/
theorem Inv.moved (inv : Inv host s) (here : s.threads[i]? = some p) {uringFds : List Int}
    {locked : Bool} {counter : Int} (rings : Rings host (s.threads.set i p') uringFds)
    (size : uringFds.length + p.registered.toNat = s.uringFds.length + p'.registered.toNat)
    (mutex : locked.toNat + p.holds.toNat = s.locked.toNat + p'.holds.toNat)
    (latch : counter + (p' == .looping).toNat = s.counter + (p == .looping).toNat) :
    Inv host { s with threads := s.threads.set i p', uringFds, locked, counter } where
  le := inv.le
  threads := (List.length_set ..).trans inv.threads
  built := inv.built
  rings := rings
  size := by
    have counts := countP_moved WorkerPoint.registered here p'
    have := inv.size
    show uringFds.length = (s.threads.set i p').countP _
    omega
  mutex := by
    have counts := countP_moved WorkerPoint.holds here p'
    have := inv.mutex
    show locked.toNat = (s.threads.set i p').countP _
    omega
  latch h := by
    have counts := countP_moved (· == .looping) here p'
    have := inv.latch h
    show counter = host.howMany - ((s.threads.set i p').count .looping : Nat)
    simp only [counted, List.count] at this ⊢
    omega

theorem inv_worker (inv : Inv host s) (h : s.workerStep host i = some s') : Inv host s' := by
  unfold workerStep at h
  split at h
  · rename_i here
    obtain rfl := Option.some.inj h
    exact inv.moved here (rings_same inv.rings here rfl) rfl rfl rfl
  · rename_i here
    split at h
    · cases h
    · rename_i free
      obtain rfl := Option.some.inj h
      have free : s.locked = false := by simpa using free
      exact inv.moved here (rings_same inv.rings here rfl) rfl (by rw [free]; rfl) rfl
  · rename_i here
    obtain rfl := Option.some.inj h
    exact inv.moved here (rings_pushBack inv.rings here) (by simp [WorkerPoint.registered]) rfl rfl
  · rename_i here
    obtain rfl := Option.some.inj h
    have held : s.locked = true := by
      have counts := countP_moved WorkerPoint.holds here .looping
      have mutex := inv.mutex
      cases locked : s.locked with
      | true => rfl
      | false =>
        rw [locked] at mutex
        simp only [WorkerPoint.holds, Bool.toNat_true, Bool.toNat_false] at counts mutex
        omega
    refine inv.moved here (rings_same inv.rings here rfl) rfl (by rw [held]; rfl) ?_
    show s.counter - 1 + 1 = s.counter + 0
    omega
  · cases h
  · cases h

/-- The constructor goes on to a member that is no matter of the workers. -/
theorem Inv.goOn (inv : Inv host s) {point : InitPoint}
    (started : point.started host.howMany = s.point.started host.howMany)
    (built : point.latchBuilt = s.point.latchBuilt) (le : ∀ k, point = .workers k → k ≤ host.howMany) :
    Inv host { s with point } :=
  { inv with le, threads := inv.threads.trans started.symm, built := inv.built.trans built.symm }

theorem Inv.spawn (inv : Inv host s) {started : Nat} (point : s.point = .workers started)
    (more : started < host.howMany) :
    Inv host { s with threads := s.threads ++ [.setup], point := .workers (started + 1) } where
  le k h := by
    cases h
    exact more
  threads := by
    have := inv.threads
    rw [point] at this
    rw [List.length_append, this]
    rfl
  built := by
    have := inv.built
    rw [point] at this
    exact this
  rings := by
    obtain ⟨order, nodup, fds, mem⟩ := inv.rings
    refine ⟨order, nodup, fds, fun j => (mem j).trans ?_⟩
    rw [List.getElem?_append]
    split
    · rfl
    · rename_i past
      rw [List.getElem?_eq_none (Nat.not_lt.mp past), List.getElem?_singleton]
      split <;> simp [WorkerPoint.registered]
  size := by
    rw [List.countP_append]
    exact inv.size
  mutex := by
    rw [List.countP_append]
    exact inv.mutex
  latch h := by
    have := inv.latch h
    simpa [counted, List.count_append] using this

theorem inv_init (inv : Inv host s) (early : Early s .init) (h : s.initStep host = some s') :
    Inv host s' := by
  unfold initStep at h
  split at h
  case h_4 started point =>
    split at h
    · rename_i more
      obtain rfl := Option.some.inj h
      exact inv.spawn point more
    · rename_i done
      obtain rfl := Option.some.inj h
      have le := inv.le started point
      refine inv.goOn ?_ (by rw [point]; rfl) (fun k h => by cases h)
      rw [point]
      show host.howMany = started
      omega
  case h_5 point =>
    obtain rfl := Option.some.inj h
    have none_yet : s.counted = 0 := early point
    refine { inv with le := fun k h => ?_, threads := ?_, built := rfl, latch := fun _ => ?_ }
    · cases h
    · rw [inv.threads, point]
      rfl
    · show (host.expected : Int) = host.howMany - (s.counted : Nat)
      rw [none_yet, expected_eq]
      simp
  case h_8 point =>
    split at h
    · obtain rfl := Option.some.inj h
      exact inv.goOn (by rw [point]; rfl) (by rw [point]; rfl) (fun k h => by cases h)
    · cases h
  case h_3 point =>
    obtain rfl := Option.some.inj h
    refine inv.goOn (by rw [point]; rfl) (by rw [point]; rfl) (fun k h => ?_)
    cases h
    exact Nat.zero_le _
  all_goals first
    | (rename_i point
       obtain rfl := Option.some.inj h
       exact inv.goOn (by rw [point]; rfl) (by rw [point]; rfl) (fun k h => by cases h))
    | cases h

theorem inv_step (inv : Inv host s) (early : Early s e) (h : s.step host e = some s') :
    Inv host s' := by
  cases e with
  | init => exact inv_init inv early h
  | worker i => exact inv_worker inv h

/-- With every worker started, the rings are all there once each worker has put its own there. -/
theorem Inv.holdsAll (inv : Inv host s) (started : s.threads.length = host.howMany)
    (all : ∀ p ∈ s.threads, p.registered = true) : HoldsAll host s := by
  obtain ⟨order, nodup, fds, mem⟩ := inv.rings
  have perm : order.Perm (List.range host.howMany) := by
    refine (List.perm_ext_iff_of_nodup nodup List.nodup_range).mpr fun j => ?_
    rw [mem j, List.mem_range, ← started]
    constructor
    · rintro ⟨p, hp, -⟩
      exact (List.getElem?_eq_some_iff.mp hp).1
    · intro hj
      exact ⟨_, List.getElem?_eq_getElem hj, all _ (List.getElem_mem hj)⟩
  rw [HoldsAll, fds]
  exact perm.map _

/-- Once all rings are there and `mtx_` is free, every worker has counted down. -/
theorem Inv.all_looping (inv : Inv host s) (started : s.threads.length = host.howMany)
    (holds : HoldsAll host s) (free : s.locked = false) : ∀ p ∈ s.threads, p = .looping := by
  have size : s.threads.countP WorkerPoint.registered = s.threads.length := by
    rw [← inv.size, holds.length_eq, started]
    simp
  have none_holds : s.threads.countP WorkerPoint.holds = 0 := by
    rw [← inv.mutex, free]
    rfl
  intro p hp
  have registered := List.countP_eq_length.mp size p hp
  have unlocked : ¬ p.holds = true := fun h => by
    have := List.countP_eq_zero.mp none_holds p hp
    exact this h
  cases p <;> first | rfl | exact absurd rfl unlocked | cases registered

theorem Inv.latchCounts (inv : Inv host s) : LatchCounts host s := by
  have started : s.built = true → s.threads.length = host.howMany := fun h =>
    inv.threads.trans (InitPoint.started_of_latchBuilt (inv.built ▸ h) _)
  have falls : s.built = true → (∀ p ∈ s.threads, p = .looping) → s.counter = 0 := by
    intro h all
    have counted : s.counted = s.threads.length :=
      List.count_eq_length.mpr fun p hp => (all p hp).symm
    rw [inv.latch h, counted, started h]
    omega
  refine ⟨inv.latch, fun h => ⟨fun zero => ?_, fun ⟨holds, free⟩ => ?_⟩, falls⟩
  · have counted : s.counted = s.threads.length := by
      have := inv.latch h
      have := started h
      omega
    have all := List.count_eq_length.mp counted
    refine ⟨inv.holdsAll (started h) fun p hp => by rw [← all p hp]; rfl, ?_⟩
    have none_holds : s.threads.countP WorkerPoint.holds = 0 :=
      List.countP_eq_zero.mpr fun p hp => by rw [← all p hp]; simp [WorkerPoint.holds]
    have mutex := inv.mutex
    rw [none_holds] at mutex
    cases locked : s.locked with
    | false => rfl
    | true =>
      rw [locked] at mutex
      cases mutex
  · exact falls h (inv.all_looping (started h) holds free)

/-- The constructor of the latch does not see a worker that has counted down before. -/
theorem counts_lost (late : ¬ Early s e) (h : s.step host e = some s') : ¬ LatchCounts host s' := by
  cases e with
  | worker i => exact absurd trivial late
  | init =>
    simp only [Early, Classical.not_imp] at late
    obtain ⟨point, some_counted⟩ := late
    simp only [step, initStep, point] at h
    obtain rfl := Option.some.inj h
    intro counts
    have counter : (host.expected : Int) = host.howMany - (s.counted : Nat) := counts.counter rfl
    rw [expected_eq] at counter
    omega

/-- **The latch counts exactly in the runs in which it is there before a worker counts down.** -/
theorem counts_iff_early (host : Host) (es : List StartupEvent) :
    Always (step host) (LatchCounts host) (start host) es ↔
      Meets (step host) Early (start host) es :=
  always_iff_meets (fun _ _ _ inv early h => inv_step inv early h) (fun _ inv => inv.latchCounts)
    (fun _ _ _ _ late h => counts_lost late h) (inv_start host)

/-! ## A fast worker -/

/-- One worker. -/
def oneCore : Host := { hardwareConcurrency := 1, ringFd := fun _ => 5 }

/-- The worker starts up while the constructor of `workers_` runs, and then the latch is constructed. -/
def fastWorker : List StartupEvent :=
  [.init, .init, .init, .init, .worker 0, .worker 0, .worker 0, .worker 0, .init, .init]

theorem not_counts_fastWorker :
    ¬ Always (step oneCore) (LatchCounts oneCore) (start oneCore) fastWorker := by
  intro always
  have run : exec (step oneCore) (start oneCore) fastWorker =
      some ⟨.stopped, [.looping], [5], false, true, 1⟩ := by decide
  have falls := (always.final run).falls rfl (by simp)
  cases falls

end Startup

end CoNet.Context
