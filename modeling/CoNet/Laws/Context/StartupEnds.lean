import CoNet.Laws.Context.Startup
import Mathlib.Algebra.Order.BigOperators.Group.List
import Mathlib.Algebra.Order.Ring.Nat
import Mathlib.Algebra.Group.Action.Defs

/-!
# How the start-up ends

With `n` workers the start-up takes at most `5 * n + 8` steps. When none can be taken any more, all rings are
in `uring_fds_`, and the constructor of `SystemLoop` has returned or waits for good: it has returned exactly
if no worker had counted down when the latch was constructed (`ends_exact`). The workers that had are missing
from the latch's counter, which never comes to 0; without them it counts as it should.
-/

set_option autoImplicit false

namespace CoNet.Context

/-- The steps of the constructor before this point. -/
def InitPoint.place (n : Nat) : InitPoint → Nat
  | .mainTaskQueue => 0
  | .mainUring => 1
  | .ioBuffer => 2
  | .workers k => k + 3
  | .initLatch => n + 4
  | .stopped => n + 5
  | .currentWorkerUringIdx => n + 6
  | .wait => n + 7
  | .ready => n + 8

/-- The steps of a worker before this point. -/
def WorkerPoint.place : WorkerPoint → Nat
  | .setup => 0
  | .lock => 1
  | .pushBack => 2
  | .countDown => 3
  | .looping => 4

namespace Startup

open Transition

variable {host : Host} {s s' : Startup} {e : StartupEvent} {es : List StartupEvent} {i late : Nat}
  {p p' : WorkerPoint}

def taken (host : Host) (s : Startup) : Nat :=
  s.point.place host.howMany + (s.threads.map WorkerPoint.place).sum

/-- The start-up without the workers that the latch's constructor did not see. -/
def without (s : Startup) (late : Nat) : Startup := { s with counter := s.counter - late }

/-- What a run to this state says of it. -/
structure Reached (host : Host) (es : List StartupEvent) (s : Startup) (late : Nat) : Prop where
  inv : Inv host (s.without late)
  taken : es.length = s.taken host
  early : late = 0 ↔ Meets (step host) Early (start host) es
  before : s.built = false → late = 0
  ready : s.point = .ready → late = 0

theorem reached_start (host : Host) : Reached host [] (start host) 0 where
  inv := by simpa [without] using inv_start host
  taken := rfl
  early := ⟨fun _ => meets_nil, fun _ => rfl⟩
  before _ := rfl
  ready _ := rfl

theorem sum_moved (here : s.threads[i]? = some p) (p' : WorkerPoint) :
    ((s.threads.set i p').map WorkerPoint.place).sum + p.place =
      (s.threads.map WorkerPoint.place).sum + p'.place := by
  obtain ⟨lt, rfl⟩ := List.getElem?_eq_some_iff.mp here
  have split : (s.threads.map WorkerPoint.place).sum =
      ((s.threads.take i).map WorkerPoint.place).sum +
        (s.threads[i].place + ((s.threads.drop (i + 1)).map WorkerPoint.place).sum) := by
    conv_lhs => rw [← List.take_append_drop i s.threads, List.drop_eq_getElem_cons lt,
      List.map_append, List.sum_append, List.map_cons, List.sum_cons]
  rw [split, List.set_eq_take_append_cons_drop, if_pos lt, List.map_append, List.sum_append,
    List.map_cons, List.sum_cons]
  omega

/-- A worker at its next point has taken one step more. -/
theorem taken_moved (here : s.threads[i]? = some p) (next : p'.place = p.place + 1)
    (threads : s'.threads = s.threads.set i p') (point : s'.point = s.point) :
    s'.taken host = s.taken host + 1 := by
  have sum := sum_moved here p'
  unfold taken
  rw [threads, point]
  omega

/-- A worker takes one step, and does not see what the counter is. -/
theorem workerStep_without (late : Nat) (h : s.workerStep host i = some s') :
    (s.without late).workerStep host i = some (s'.without late) ∧ s'.point = s.point ∧
      s'.built = s.built ∧ s'.taken host = s.taken host + 1 := by
  unfold workerStep at h
  cases here : s.threads[i]? with
  | none =>
    simp only [here] at h
    cases h
  | some p =>
    cases p <;> simp only [here] at h
    case setup =>
      cases h
      refine ⟨?_, rfl, rfl, taken_moved here rfl rfl rfl⟩
      simp only [workerStep, without, here]
    case lock =>
      split at h
      · cases h
      · rename_i free
        cases h
        refine ⟨?_, rfl, rfl, taken_moved here rfl rfl rfl⟩
        simp only [workerStep, without, here]
        exact if_neg free
    case pushBack =>
      cases h
      refine ⟨?_, rfl, rfl, taken_moved here rfl rfl rfl⟩
      simp only [workerStep, without, here]
    case countDown =>
      cases h
      refine ⟨?_, rfl, rfl, taken_moved here rfl rfl rfl⟩
      have swap : s.counter - late - 1 = s.counter - 1 - late := by omega
      simp only [workerStep, without, here, swap]
    case looping => cases h

/-- The constructor takes one step. -/
theorem initStep_taken (inv : Inv host (s.without late)) (h : s.initStep host = some s') :
    s'.taken host = s.taken host + 1 := by
  unfold initStep at h
  cases point : s.point <;> simp only [point] at h
  case workers started =>
    have le : started ≤ host.howMany := inv.le started point
    split at h
    · cases h
      simp only [taken, point, InitPoint.place, List.map_append, List.sum_append, List.map_cons,
        List.map_nil, List.sum_singleton, WorkerPoint.place]
      omega
    · cases h
      simp only [taken, point, InitPoint.place]
      omega
  case wait =>
    split at h
    · cases h
      simp only [taken, point, InitPoint.place]
      omega
    · cases h
  case ready => cases h
  all_goals
    cases h
    simp only [taken, point, InitPoint.place]
    omega

/-- A wait that passes passes on the counter alone: no worker is missing from it. -/
theorem late_of_passes (inv : Inv host (s.without late)) (point : s.point = .wait)
    (zero : s.counter = 0) : late = 0 := by
  have built : s.built = true := by
    have := inv.built
    rw [show (s.without late).point = .wait from point] at this
    exact this
  have latch : s.counter - late = host.howMany - (s.counted : Nat) := inv.latch built
  have threads : s.threads.length = s.point.started host.howMany := inv.threads
  have counted : s.counted ≤ s.threads.length := List.count_le_length
  rw [point] at threads
  simp only [InitPoint.started] at threads
  omega

/-- Away from the latch, the constructor does not see what the counter is. -/
theorem initStep_without (late : Nat) (h : s.initStep host = some s') (point : s.point ≠ .initLatch)
    (passes : s.point = .wait → late = 0) :
    (s.without late).initStep host = some (s'.without late) ∧
      s'.built = s.built ∧ (s'.point = .ready → s.point = .wait) := by
  unfold initStep at h
  cases here : s.point <;> simp only [here] at h
  case initLatch => exact absurd here point
  case workers started =>
    split at h
    · rename_i more
      cases h
      refine ⟨?_, rfl, fun ready => by cases ready⟩
      simp only [initStep, without, here]
      exact if_pos more
    · rename_i done
      cases h
      refine ⟨?_, rfl, fun ready => by cases ready⟩
      simp only [initStep, without, here]
      exact if_neg done
  case wait =>
    obtain rfl := passes here
    split at h
    · rename_i zero
      cases h
      refine ⟨?_, rfl, fun _ => rfl⟩
      simp only [initStep, without, here, zero]
      rfl
    · cases h
  case ready => cases h
  all_goals
    cases h
    refine ⟨?_, rfl, fun ready => by cases ready⟩
    simp only [initStep, without, here]

/-- The latch is constructed, with the workers in it that have counted down before. -/
theorem Inv.latchBuilt (inv : Inv host s) (point : s.point = .initLatch) :
    Inv host { s with counter := host.expected - s.counted, built := true, point := .stopped } where
  le k h := by cases h
  threads := by
    rw [inv.threads, point]
    rfl
  built := rfl
  rings := inv.rings
  size := inv.size
  mutex := inv.mutex
  latch _ := by
    show (host.expected : Int) - (s.counted : Nat) = host.howMany - (s.counted : Nat)
    rw [expected_eq]

theorem Reached.worker (reached : Reached host es s late) (run : exec (step host) (start host) es = some s)
    (h : s.workerStep host i = some s') : Reached host (es ++ [.worker i]) s' late := by
  obtain ⟨moves, point, built, taken⟩ := workerStep_without late h
  refine ⟨inv_worker reached.inv moves, ?_, ?_, ?_, ?_⟩
  · rw [List.length_append, List.length_singleton, reached.taken, taken]
  · rw [meets_snoc run (show step host s (.worker i) = some s' from h), reached.early]
    exact ⟨fun early => ⟨early, trivial⟩, fun early => early.1⟩
  · exact fun unbuilt => reached.before (built ▸ unbuilt)
  · exact fun ready => reached.ready (point ▸ ready)

theorem Reached.init (reached : Reached host es s late) (run : exec (step host) (start host) es = some s)
    (h : s.initStep host = some s') : ∃ late', Reached host (es ++ [.init]) s' late' := by
  have taken : (es ++ [StartupEvent.init]).length = s'.taken host := by
    rw [List.length_append, List.length_singleton, reached.taken, initStep_taken reached.inv h]
  have early := meets_snoc (C := Early) run (show step host s .init = some s' from h)
  by_cases latch : s.point = .initLatch
  · -- the latch's constructor: the workers that have counted down are late from now on
    have unbuilt : s.built = false := by
      have := reached.inv.built
      rw [show (s.without late).point = .initLatch from latch] at this
      exact this
    obtain rfl := reached.before unbuilt
    have inv : Inv host s := by simpa [without] using reached.inv
    simp only [initStep, latch] at h
    cases h
    refine ⟨s.counted, inv.latchBuilt latch, taken, ?_, (by cases ·), (by cases ·)⟩
    rw [early, ← reached.early]
    exact ⟨fun none_yet => ⟨rfl, fun _ => none_yet⟩, fun early => early.2 latch⟩
  · have passes : s.point = .wait → late = 0 := by
      intro point
      refine late_of_passes reached.inv point ?_
      simp only [initStep, point] at h
      split at h
      · assumption
      · cases h
    obtain ⟨moves, built, ready⟩ := initStep_without late h latch passes
    refine ⟨late, inv_init reached.inv (fun point => absurd point latch) moves, taken, ?_, ?_, ?_⟩
    · rw [early, reached.early]
      exact ⟨fun early => ⟨early, fun point => absurd point latch⟩, fun early => early.1⟩
    · exact fun unbuilt => reached.before (built ▸ unbuilt)
    · exact fun h => passes (ready h)

/-- **A run of the start-up.** -/
theorem reached (run : exec (step host) (start host) es = some s) : ∃ late, Reached host es s late := by
  induction es using List.reverseRecOn generalizing s with
  | nil =>
    cases run
    exact ⟨0, reached_start host⟩
  | append_singleton es e ih =>
    obtain ⟨m, before, last⟩ := exec_snoc_eq_some.mp run
    obtain ⟨late, reached⟩ := ih before
    cases e with
    | init => exact reached.init before last
    | worker i => exact ⟨late, reached.worker before last⟩

/-! ## The end -/

/-- No step can be taken. -/
def Ended (host : Host) (s : Startup) : Prop := ∀ e, s.step host e = none

/-- When no worker can take a step, each runs its loop: one that waits for `mtx_` waits for a worker that
does not. -/
theorem all_looping_of_ended (inv : Inv host (s.without late)) (ended : ∀ i, s.workerStep host i = none) :
    ∀ p ∈ s.threads, p = .looping := by
  have stuck : ∀ p ∈ s.threads, p = .looping ∨ p = .lock ∧ s.locked = true := by
    intro p mem
    obtain ⟨i, here⟩ := List.mem_iff_getElem?.mp mem
    have none_left := ended i
    unfold workerStep at none_left
    cases p <;> simp only [here] at none_left
    case lock =>
      split at none_left
      · rename_i locked
        exact .inr ⟨rfl, locked⟩
      · cases none_left
    case looping => exact .inl rfl
    all_goals cases none_left
  have free : s.threads.countP WorkerPoint.holds = 0 := by
    refine List.countP_eq_zero.mpr fun p mem => ?_
    rcases stuck p mem with rfl | ⟨rfl, -⟩ <;> simp [WorkerPoint.holds]
  intro p mem
  rcases stuck p mem with looping | ⟨-, locked⟩
  · exact looping
  · have mutex : s.locked.toNat = s.threads.countP WorkerPoint.holds := inv.mutex
    rw [free, locked] at mutex
    cases mutex

/-- The constructor is at the wait or after it when it can go no further. -/
theorem point_of_ended (ended : s.initStep host = none) :
    s.point = .ready ∨ s.point = .wait ∧ s.counter ≠ 0 := by
  unfold initStep at ended
  cases point : s.point <;> simp only [point] at ended
  case workers => split at ended <;> cases ended
  case wait =>
    split at ended
    · cases ended
    · rename_i above
      exact .inr ⟨rfl, above⟩
  case ready => exact .inl rfl
  all_goals cases ended

theorem Inv.taken_le (inv : Inv host s) : s.taken host ≤ 5 * host.howMany + 8 := by
  have each : ∀ n ∈ s.threads.map WorkerPoint.place, n ≤ 4 := by
    intro n mem
    obtain ⟨p, -, rfl⟩ := List.mem_map.mp mem
    cases p <;> simp [WorkerPoint.place]
  have threads := List.sum_le_card_nsmul _ _ each
  rw [List.length_map, smul_eq_mul, inv.threads] at threads
  have le := inv.le
  unfold taken
  cases point : s.point <;> simp only [point, InitPoint.place, InitPoint.started] at threads le ⊢
  case workers started =>
    have := le started rfl
    omega
  all_goals omega

/-- **How the start-up ends.** A run takes at most `5 * n + 8` steps. When no step can be taken, all rings are
in `uring_fds_`, and the constructor has returned, if no worker was faster than the latch, or waits. -/
theorem ends_exact (run : exec (step host) (start host) es = some s) :
    es.length ≤ 5 * host.howMany + 8 ∧
      (Ended host s → HoldsAll host s ∧ (s.point = .ready ∨ s.point = .wait) ∧
        (s.point = .ready ↔ Meets (step host) Early (start host) es)) := by
  obtain ⟨late, reached⟩ := reached run
  have inv := reached.inv
  constructor
  · rw [reached.taken]
    exact inv.taken_le
  · intro ended
    have all := all_looping_of_ended inv fun i => ended (.worker i)
    have threads : s.threads.length = s.point.started host.howMany := inv.threads
    have built : s.built = s.point.latchBuilt := inv.built
    have registered : ∀ p ∈ s.threads, p.registered = true := by
      intro p mem
      rw [all p mem]
      rfl
    rw [← reached.early]
    rcases point_of_ended (ended .init) with ready | ⟨wait, above⟩
    · rw [ready] at threads
      exact ⟨inv.holdsAll threads registered, .inl ready, iff_of_true ready (reached.ready ready)⟩
    · rw [wait] at threads built
      refine ⟨inv.holdsAll threads registered, .inr wait, iff_of_false ?_ ?_⟩
      · rw [wait]
        exact InitPoint.noConfusion
      · -- the counter is what the late workers leave of it
        have zero : s.counter - late = 0 := inv.latchCounts.falls built all
        omega

/-- Two workers. -/
def twoCores : Host := { hardwareConcurrency := 2, ringFd := fun i => i + 5 }

/-- The first worker counts down while the second is started. -/
def oneLate : List StartupEvent :=
  [.init, .init, .init, .init, .worker 0, .worker 0, .worker 0, .worker 0, .init, .init, .init, .worker 1,
    .worker 1, .init, .init, .worker 1, .worker 1]

theorem ends_exact_oneLate :
    ¬ Meets (step twoCores) Early (start twoCores) oneLate := by
  have run : exec (step twoCores) (start twoCores) oneLate =
      some ⟨.wait, [.looping, .looping], [5, 6], false, true, 1⟩ := by decide
  have ended : Ended twoCores ⟨.wait, [.looping, .looping], [5, 6], false, true, 1⟩ := by
    intro e
    cases e with
    | init => rfl
    | worker i => rcases i with _ | _ | i <;> rfl
  obtain ⟨-, -, returned⟩ := (ends_exact run).2 ended
  rw [← returned]
  exact InitPoint.noConfusion

end Startup

end CoNet.Context
