import CoNet.Context.Stop
import CoNet.Lib.Transition
import Mathlib.Algebra.Order.BigOperators.Group.Finset

/-!
# Every thread stops, and none too early

In whatever order the threads take their steps and wherever SIGINT interrupts the main one: a worker
returns only if it was told to, begins at most one more pass then, and none once its ring has handled a
`Quit` message; the main thread leaves its loop only after SIGINT, begins at most one more pass, and is
gone only after the workers (`orderly_always`). A worker that was told to stop takes the steps that are
left of its iteration, and has then returned (`steps_left`). And from wherever the threads are, SIGINT can
end them all (`can_end`).
-/

set_option autoImplicit false

namespace CoNet.Context

open CoNet.Net Transition

/-! ## One worker -/

namespace WorkerLoop

variable {w w' : WorkerLoop} {quit : Bool}

/-- What a worker does was asked of it. -/
structure Told (w : WorkerLoop) : Prop where
  quits : 0 < w.quits → w.stopRequested = true
  ring : w.ringStopped = true → w.stopRequested = true ∧ (w.point = .testStop ∨ w.point = .returned)
  late_le : w.late ≤ 1
  late : 0 < w.late → w.stopRequested = true ∧ w.point ≠ .run
  returned : w.point = .returned → w.stopRequested = true

theorem told_init : Told {} := by
  constructor <;> simp

/-- The stop token is set. -/
theorem Told.requestStop (told : w.Told) : Told { w with stopRequested := true } where
  quits _ := rfl
  ring stopped := ⟨rfl, (told.ring stopped).2⟩
  late_le := told.late_le
  late pos := ⟨rfl, (told.late pos).2⟩
  returned _ := rfl

/-- `Quit` messages arrive. -/
theorem Told.deliver (told : w.Told) {more : Nat} (asked : 0 < more → w.stopRequested = true) :
    Told { w with quits := w.quits + more } where
  quits pos := by
    rcases Nat.add_pos_iff_pos_or_pos.mp pos with before | now
    · exact told.quits before
    · exact asked now
  ring := told.ring
  late_le := told.late_le
  late := told.late
  returned := told.returned

/-- How many steps are left of the iteration. -/
def left (w : WorkerLoop) : Nat :=
  match w.point with
  | .run => 5
  | .submitAll => 4
  | .waitCqe => 3
  | .processBatch => 2
  | .testStop => 1
  | .returned => 0

/-- A worker that is not before a pass goes on with its iteration. -/
theorem Told.goOn (told : w.Told) {point : WorkerNext} (run : point ≠ .run)
    (returned : point ≠ .returned) (fresh : w.ringStopped = true → point = .testStop) :
    Told { w with point } where
  quits := told.quits
  ring stopped := ⟨(told.ring stopped).1, .inl (fresh stopped)⟩
  late_le := told.late_le
  late pos := ⟨(told.late pos).1, run⟩
  returned eq := absurd eq returned

/-- The ring of a worker that is before its batch, or earlier, has not stopped. -/
theorem Told.fresh (told : w.Told) (test : w.point ≠ .testStop) (returned : w.point ≠ .returned) :
    w.ringStopped = false := by
  by_contra stopped
  rcases (told.ring (Bool.not_eq_false _ ▸ stopped)).2 with eq | eq
  · exact test eq
  · exact returned eq

theorem told_step (told : w.Told) (h : w.step quit = some w') : w'.Told := by
  cases point : w.point with
  | run =>
    have fresh := told.fresh (by simp [point]) (by simp [point])
    simp only [step, point, Option.some.injEq] at h
    subst h
    have none_late : w.late = 0 := by
      by_contra pos
      exact (told.late (Nat.pos_of_ne_zero pos)).2 point
    refine ⟨told.quits, fun stopped => absurd stopped (by simp [fresh]), ?_, ?_, by simp⟩
    · rw [none_late, Nat.zero_add]
      exact Bool.toNat_le _
    · intro pos
      refine ⟨?_, by simp⟩
      rw [none_late, Nat.zero_add] at pos
      cases stop : w.stopRequested with
      | true => rfl
      | false => simp [stop] at pos
  | submitAll =>
    have fresh := told.fresh (by simp [point]) (by simp [point])
    simp only [step, point, Option.some.injEq] at h
    subst h
    exact told.goOn (by simp) (by simp) (by simp [fresh])
  | waitCqe =>
    have fresh := told.fresh (by simp [point]) (by simp [point])
    simp only [step, point, Option.some.injEq] at h
    subst h
    exact told.goOn (by simp) (by simp) (by simp [fresh])
  | processBatch =>
    have fresh := told.fresh (by simp [point]) (by simp [point])
    simp only [step, point] at h
    rw [if_neg (by simp [fresh])] at h
    split at h
    · split at h
      · rename_i pos
        cases h
        have asked := told.quits pos
        exact ⟨by simp, fun _ => ⟨asked, .inl rfl⟩, told.late_le, fun late => ⟨asked, by simp⟩, by simp⟩
      · cases h
    · cases h
      exact told.goOn (by simp) (by simp) fun _ => rfl
  | testStop =>
    simp only [step, point, Option.some.injEq] at h
    by_cases stop : w.stopRequested = true
    · rw [if_pos stop] at h
      subst h
      exact ⟨fun _ => stop, fun _ => ⟨stop, .inr rfl⟩, told.late_le, fun _ => ⟨stop, by simp⟩,
        fun _ => stop⟩
    · rw [if_neg stop] at h
      subst h
      refine ⟨told.quits, fun stopped => ?_, told.late_le, fun pos => ?_, by simp⟩
      · exact absurd (told.ring stopped).1 stop
      · exact absurd (told.late pos).1 stop
  | returned => simp only [step, point, reduceCtorEq] at h

theorem step_stopRequested (h : w.step quit = some w') : w'.stopRequested = w.stopRequested := by
  cases point : w.point with
  | processBatch =>
    simp only [step, point] at h
    split at h
    · cases h
      rfl
    · split at h
      · split at h
        · cases h
          rfl
        · cases h
      · cases h
        rfl
  | returned => simp only [step, point, reduceCtorEq] at h
  | _ =>
    simp only [step, point, Option.some.injEq] at h
    rw [← h]

/-- **A step of a worker that was told to stop is one of those left.** -/
theorem left_step (stop : w.stopRequested = true) (h : w.step quit = some w') :
    w'.left + 1 = w.left := by
  cases point : w.point with
  | processBatch =>
    simp only [step, point] at h
    split at h
    · cases h
      simp [left, point]
    · split at h
      · split at h
        · cases h
          simp [left, point]
        · cases h
      · cases h
        simp [left, point]
  | returned => simp only [step, point, reduceCtorEq] at h
  | _ =>
    simp only [step, point, stop, if_true, Option.some.injEq] at h
    subst h
    simp [left, point]

/-- A worker that has not returned can go on, with no `Quit` message in its batch. -/
theorem exists_step (running : w.point ≠ .returned) : ∃ w', w.step false = some w' := by
  cases point : w.point with
  | processBatch =>
    cases stopped : w.ringStopped with
    | true => exact ⟨_, by simp only [step, point, stopped, if_true]; rfl⟩
    | false => exact ⟨_, by simp only [step, point, stopped, Bool.false_eq_true, if_false]; rfl⟩
  | returned => exact absurd point running
  | _ => exact ⟨_, by simp only [step, point]; rfl⟩

end WorkerLoop

/-! ## `terminate` -/

/-- The worker's stop token is set. -/
abbrev Stop.Requested (s : Stop) (w : Nat) : Prop := (s.workers w).stopRequested = true

def Stop.AllRequested (count : Nat) (s : Stop) : Prop := ∀ w < count, s.Requested w

/-- What a call of `terminate` has done before this point. -/
def TerminateNext.Reached (count : Nat) (s : Stop) : TerminateNext → Prop
  | .test | .setStopped => True
  | .requestStop n => s.loopStopped = true ∧ ∀ w < n, s.Requested w
  | .notifyWorker _ | .notifySelf | .submitAll | .waitCqe | .processAll =>
    s.loopStopped = true ∧ s.AllRequested count

def MainNext.Reached (count : Nat) (s : Stop) : MainNext → Prop
  | .destructor p => p.Reached count s
  | .members | .gone => s.AllRequested count
  | _ => True

/-- The main thread has left its loop. -/
def MainNext.HasLeft : MainNext → Prop
  | .destructor _ | .members | .gone => True
  | _ => False

/-- The call has set `stopped_`. -/
def TerminateNext.Started : TerminateNext → Prop
  | .test | .setStopped => False
  | _ => True

namespace Stop

variable {count : Nat} {s s' : Stop} {e : StopEvent} {p p' : TerminateNext} {w : Nat}

/-- Who was told is told for good. -/
structure Grows (s s' : Stop) : Prop where
  stopped : s.loopStopped = true → s'.loopStopped = true
  requested : ∀ w, s.Requested w → s'.Requested w

theorem Grows.refl (s : Stop) : Grows s s := ⟨id, fun _ => id⟩

theorem Grows.all (grows : Grows s s') (all : s.AllRequested count) : s'.AllRequested count :=
  fun w hw => grows.requested w (all w hw)

theorem Grows.reached (grows : Grows s s') (reached : p.Reached count s) : p.Reached count s' := by
  cases p with
  | test | setStopped => trivial
  | requestStop n =>
    exact ⟨grows.stopped reached.1, fun w hw => grows.requested w (reached.2 w hw)⟩
  | _ => exact ⟨grows.stopped reached.1, grows.all reached.2⟩

/-- What is kept whoever takes a step. -/
structure Core (s : Stop) : Prop where
  told : ∀ w, (s.workers w).Told
  stopped : ∀ w, s.Requested w → s.loopStopped = true
  prepared : ∀ w, .worker w ∈ s.prepared → s.Requested w

/-- What a step of `terminate` does not touch. -/
structure Keeps (s s' : Stop) : Prop where
  main : s'.main = s.main
  tasks : s'.tasks = s.tasks
  handler : s'.handler = s.handler
  late : s'.late = s.late
  points : ∀ w, (s'.workers w).point = (s.workers w).point

theorem Keeps.refl (s : Stop) : Keeps s s := ⟨rfl, rfl, rfl, rfl, fun _ => rfl⟩

/-- What a step of `terminate` leads to. -/
structure Terminated (count : Nat) (s : Stop) (p : TerminateNext) (s' : Stop)
    (next : Option TerminateNext) : Prop where
  core : Core s'
  reached : ∀ p' ∈ next, p'.Reached count s'
  outcome : (∃ p' ∈ next, p'.Started) ∨ s'.AllRequested count ∨
    p = .test ∧ s' = s ∧ (next = none ↔ s.loopStopped = true)

/-- The messages that are prepared are delivered. -/
theorem Core.submitAll (core : Core s) : Core s.submitAll where
  told w := (core.told w).deliver fun pos => core.prepared w (List.count_pos_iff.mp pos)
  stopped w := core.stopped w
  prepared _ mem := absurd mem List.not_mem_nil

theorem Core.setWorker (core : Core s) {loop : WorkerLoop} (told : loop.Told)
    (stopped : loop.stopRequested = true → s.loopStopped = true)
    (same : s.Requested w → loop.stopRequested = true) : Core (s.setWorker w loop) where
  told v := by
    show (Function.update s.workers w loop v).Told
    by_cases eq : v = w
    · rw [eq, Function.update_self]
      exact told
    · rw [Function.update_of_ne eq]
      exact core.told v
  stopped v := by
    show (Function.update s.workers w loop v).stopRequested = true → _
    by_cases eq : v = w
    · rw [eq, Function.update_self]
      exact stopped
    · rw [Function.update_of_ne eq]
      exact core.stopped v
  prepared v mem := by
    show (Function.update s.workers w loop v).stopRequested = true
    by_cases eq : v = w
    · rw [eq, Function.update_self]
      exact same (eq ▸ core.prepared v mem)
    · rw [Function.update_of_ne eq]
      exact core.prepared v mem

theorem grows_setWorker {loop : WorkerLoop} (same : s.Requested w → loop.stopRequested = true) :
    Grows s (s.setWorker w loop) := by
  refine ⟨id, fun v requested => ?_⟩
  show (Function.update s.workers w loop v).stopRequested = true
  by_cases eq : v = w
  · rw [eq, Function.update_self]
    exact same (eq ▸ requested)
  · rw [Function.update_of_ne eq]
    exact requested

/-- A message is prepared. -/
theorem Core.prepare (core : Core s) {target : Thread}
    (requested : ∀ w, target = .worker w → s.Requested w) :
    Core { s with prepared := s.prepared ++ [target] } where
  told := core.told
  stopped := core.stopped
  prepared w mem := by
    rcases List.mem_append.mp mem with before | now
    · exact core.prepared w before
    · exact requested w (List.mem_singleton.mp now).symm

theorem terminate_keeps (count : Nat) (s : Stop) (p : TerminateNext) :
    Keeps s (s.terminate count p).1 ∧ Grows s (s.terminate count p).1 := by
  cases p with
  | requestStop n =>
    by_cases more : n < count
    · simp only [terminate, if_pos more]
      refine ⟨⟨rfl, rfl, rfl, rfl, fun w => ?_⟩, grows_setWorker fun _ => rfl⟩
      show (Function.update s.workers n _ w).point = _
      by_cases eq : w = n
      · rw [eq, Function.update_self]
      · rw [Function.update_of_ne eq]
    · simp only [terminate, if_neg more]
      exact ⟨.refl s, .refl s⟩
  | notifyWorker n =>
    by_cases more : n < count
    · simp only [terminate, if_pos more]
      exact ⟨⟨rfl, rfl, rfl, rfl, fun _ => rfl⟩, id, fun _ => id⟩
    · simp only [terminate, if_neg more]
      exact ⟨.refl s, .refl s⟩
  | setStopped => exact ⟨⟨rfl, rfl, rfl, rfl, fun _ => rfl⟩, fun _ => rfl, fun _ => id⟩
  | _ => exact ⟨⟨rfl, rfl, rfl, rfl, fun _ => rfl⟩, id, fun _ => id⟩

theorem terminate_spec (core : Core s) (reached : p.Reached count s) :
    Terminated count s p (s.terminate count p).1 (s.terminate count p).2 := by
  cases p with
  | test =>
    refine ⟨core, fun p' mem => ?_, .inr (.inr ⟨rfl, rfl, by simp [terminate]⟩)⟩
    simp only [terminate] at mem
    split at mem
    · cases mem
    · cases mem
      trivial
  | setStopped =>
    have stopped : Core { s with loopStopped := true } := ⟨core.told, fun _ _ => rfl, core.prepared⟩
    refine ⟨stopped, ?_, .inl ⟨_, rfl, trivial⟩⟩
    rintro p' ⟨⟩
    exact ⟨rfl, fun w hw => absurd hw (Nat.not_lt_zero w)⟩
  | requestStop n =>
    obtain ⟨stopped, before⟩ := reached
    have grows := (terminate_keeps count s (.requestStop n)).2
    by_cases more : n < count
    · simp only [terminate, if_pos more] at grows ⊢
      refine ⟨core.setWorker (core.told n).requestStop (fun _ => stopped) fun _ => rfl, ?_,
        .inl ⟨_, rfl, trivial⟩⟩
      rintro p' ⟨⟩
      refine ⟨stopped, fun w hw => ?_⟩
      rcases Nat.lt_succ_iff_lt_or_eq.mp hw with lt | rfl
      · exact grows.requested w (before w lt)
      · show (Function.update s.workers w _ w).stopRequested = true
        rw [Function.update_self]
    · simp only [terminate, if_neg more]
      have all : s.AllRequested count := fun w hw => before w (by omega)
      refine ⟨core, ?_, .inr (.inl all)⟩
      rintro p' ⟨⟩
      exact ⟨stopped, all⟩
  | notifyWorker n =>
    obtain ⟨stopped, all⟩ := reached
    by_cases more : n < count
    · simp only [terminate, if_pos more]
      have told : Core { s with prepared := s.prepared ++ [.worker n] } := by
        apply core.prepare
        rintro _ ⟨⟩
        exact all n more
      refine ⟨told, ?_, .inr (.inl all)⟩
      rintro p' ⟨⟩
      exact ⟨stopped, all⟩
    · simp only [terminate, if_neg more]
      refine ⟨core, ?_, .inr (.inl all)⟩
      rintro p' ⟨⟩
      exact ⟨stopped, all⟩
  | notifySelf =>
    have told : Core { s with prepared := s.prepared ++ [.main] } := core.prepare (by nofun)
    refine ⟨told, ?_, .inr (.inl reached.2)⟩
    rintro p' ⟨⟩
    exact reached
  | submitAll =>
    refine ⟨core.submitAll, ?_, .inr (.inl reached.2)⟩
    rintro p' ⟨⟩
    exact reached
  | waitCqe =>
    refine ⟨core, ?_, .inr (.inl reached.2)⟩
    rintro p' ⟨⟩
    exact reached
  | processAll =>
    refine ⟨⟨core.told, core.stopped, core.prepared⟩, ?_, .inr (.inl reached.2)⟩
    rintro p' ⟨⟩

/-! ## Runs -/

structure Inv (count : Nat) (s : Stop) : Prop where
  core : Core s
  handler : ∀ p ∈ s.handler, p.Reached count s
  main : s.main.Reached count s
  /-- `stopped_` is set by a call that is under way, or by one that has told every worker. -/
  settled : s.loopStopped = true →
    (∃ p ∈ s.handler, p.Started) ∨ (∃ p, s.main = .destructor p ∧ p.Started) ∨ s.AllRequested count
  late_le : s.late ≤ 1
  late : 0 < s.late → s.loopStopped = true ∧ s.main ≠ .run
  gone : s.main = .gone → ∀ w < count, (s.workers w).point = .returned
  /-- `run` erases nothing, and `main_task_queue_` is never empty. -/
  tasks : 0 < s.tasks
  hasLeft : s.main.HasLeft → s.loopStopped = true

theorem inv_init : Inv count {} where
  core := ⟨fun _ => WorkerLoop.told_init, fun _ h => by simp [Requested] at h, fun _ h => by simp at h⟩
  handler _ h := by cases h
  main := trivial
  settled h := by cases h
  late_le := Nat.zero_le 1
  late h := absurd h (Nat.lt_irrefl 0)
  gone h := by cases h
  tasks := Nat.one_pos
  hasLeft := False.elim

theorem Grows.main (grows : Grows s s') {m : MainNext} (reached : m.Reached count s) :
    m.Reached count s' := by
  cases m with
  | destructor p => exact grows.reached reached
  | members | gone => exact grows.all reached
  | _ => trivial

theorem inv_worker (inv : Inv count s) {quit : Bool} {loop : WorkerLoop} (hw : w < count)
    (h : (s.workers w).step quit = some loop) : Inv count (s.setWorker w loop) := by
  have same := WorkerLoop.step_stopRequested h
  have grows : Grows s (s.setWorker w loop) := grows_setWorker fun requested => same.trans requested
  have told := WorkerLoop.told_step (inv.core.told w) h
  refine ⟨inv.core.setWorker told (fun stop => inv.core.stopped w (same.symm.trans stop))
    (fun requested => same.trans requested), fun p mem => grows.reached (inv.handler p mem),
    grows.main inv.main, fun stopped => ?_, inv.late_le, inv.late, fun gone => ?_, inv.tasks,
    inv.hasLeft⟩
  · rcases inv.settled stopped with handler | main | all
    · exact .inl handler
    · exact .inr (.inl main)
    · exact .inr (.inr (grows.all all))
  · have returned := inv.gone gone w hw
    simp only [WorkerLoop.step, returned, reduceCtorEq] at h

/-- A step of the handler. -/
theorem inv_handler (inv : Inv count s) (running : s.handler = some p) :
    Inv count { (s.terminate count p).1 with handler := (s.terminate count p).2 } := by
  obtain ⟨keeps, grows⟩ := terminate_keeps count s p
  obtain ⟨core, reached, outcome⟩ := terminate_spec inv.core (inv.handler p running)
  generalize (s.terminate count p).1 = s' at *
  generalize (s.terminate count p).2 = next at *
  refine ⟨⟨core.told, core.stopped, core.prepared⟩, reached, ?_, fun stopped => ?_, ?_, ?_, ?_, ?_, ?_⟩
  · show MainNext.Reached count s' s'.main
    rw [keeps.main]
    exact grows.main inv.main
  · rcases outcome with started | all | ⟨rfl, rfl, -⟩
    · exact .inl started
    · exact .inr (.inr all)
    · rcases inv.settled stopped with ⟨p', mem, started⟩ | others
      · rw [running] at mem
        cases mem
        exact started.elim
      · exact .inr others
  · show s'.late ≤ 1
    rw [keeps.late]
    exact inv.late_le
  · show 0 < s'.late → s'.loopStopped = true ∧ s'.main ≠ .run
    rw [keeps.late, keeps.main]
    exact fun pos => ⟨grows.stopped (inv.late pos).1, (inv.late pos).2⟩
  · show s'.main = .gone → ∀ w < count, (s'.workers w).point = .returned
    intro gone w hw
    rw [keeps.points]
    exact inv.gone (keeps.main.symm.trans gone) w hw
  · show 0 < s'.tasks
    rw [keeps.tasks]
    exact inv.tasks
  · show s'.main.HasLeft → s'.loopStopped = true
    rw [keeps.main]
    exact fun hasLeft => grows.stopped (inv.hasLeft hasLeft)

/-- The main thread goes on from a point that is not in the destructor. -/
theorem Inv.setMain (inv : Inv count s) {main : MainNext} (outside : main.Reached count s)
    (notDestructor : ∀ p, s.main = .destructor p → ¬ p.Started) (fresh : 0 < s.late → main ≠ .run)
    (gone : main = .gone → ∀ w < count, (s.workers w).point = .returned)
    (hasLeft : main.HasLeft → s.loopStopped = true) : Inv count { s with main } where
  core := ⟨inv.core.told, inv.core.stopped, inv.core.prepared⟩
  handler := inv.handler
  main := outside
  settled stopped := by
    rcases inv.settled stopped with handler | ⟨p, eq, started⟩ | all
    · exact .inl handler
    · exact absurd started (notDestructor p eq)
    · exact .inr (.inr all)
  late_le := inv.late_le
  late pos := ⟨(inv.late pos).1, fresh pos⟩
  gone := gone
  tasks := inv.tasks
  hasLeft := hasLeft

/-- It goes on to another point of its loop. -/
theorem Inv.toLoop (inv : Inv count s) {main : MainNext} (before : ∀ p, s.main ≠ .destructor p)
    (inLoop : ¬ main.HasLeft) (fresh : 0 < s.late → main ≠ .run) : Inv count { s with main } := by
  refine inv.setMain ?_ (fun p here => absurd here (before p)) fresh ?_ fun left => absurd left inLoop
  · cases main <;> first | trivial | exact absurd trivial inLoop
  · rintro rfl
    exact absurd trivial inLoop

/-- A submit of the main ring. -/
theorem Inv.submitAll (inv : Inv count s) : Inv count s.submitAll := by
  have grows : Grows s s.submitAll := ⟨id, fun _ => id⟩
  refine ⟨inv.core.submitAll, fun p mem => grows.reached (inv.handler p mem), grows.main inv.main,
    fun stopped => ?_, inv.late_le, inv.late, inv.gone, inv.tasks, inv.hasLeft⟩
  rcases inv.settled stopped with handler | main | all
  · exact .inl handler
  · exact .inr (.inl main)
  · exact .inr (.inr (grows.all all))

/-- The main ring handles or consumes completions. -/
theorem Inv.processBatch (inv : Inv count s) {choice : Bool} (h : s.processBatch choice = some s') :
    Inv count s' ∧ s'.main = s.main := by
  have ring : ∀ ringStopped quits, Inv count { s with ringStopped, quits } := fun _ _ =>
    ⟨⟨inv.core.told, inv.core.stopped, inv.core.prepared⟩, inv.handler, inv.main, inv.settled,
      inv.late_le, inv.late, inv.gone, inv.tasks, inv.hasLeft⟩
  simp only [Stop.processBatch] at h
  split at h
  · cases h
    exact ⟨ring _ 0, rfl⟩
  · split at h
    · split at h
      · cases h
        exact ⟨ring true 0, rfl⟩
      · cases h
    · cases h
      exact ⟨inv, rfl⟩

/-- A step of the destructor's call. -/
theorem inv_destructor (inv : Inv count s) (outside : s.handler = none)
    (main : s.main = .destructor p) :
    Inv count { (s.terminate count p).1 with
      main := ((s.terminate count p).2.map MainNext.destructor).getD .members } := by
  have here : p.Reached count s := by
    have reached := inv.main
    rwa [main] at reached
  have none_handler : ∀ p' ∈ s.handler, ¬ p'.Started := by simp [outside]
  obtain ⟨keeps, grows⟩ := terminate_keeps count s p
  obtain ⟨core, reached, outcome⟩ := terminate_spec inv.core here
  have ended : (s.terminate count p).2 = none → (s.terminate count p).1.AllRequested count := by
    intro none
    rcases outcome with ⟨p', mem, -⟩ | all | ⟨rfl, same, stopped⟩
    · rw [none] at mem
      cases mem
    · exact all
    · -- `stopped_` was set by the handler, which has told every worker
      rw [same]
      rcases inv.settled (stopped.mp none) with ⟨p', mem, started⟩ | ⟨p', eq, started⟩ | all
      · exact absurd started (none_handler p' mem)
      · cases main.symm.trans eq
        exact started.elim
      · exact all
  generalize (s.terminate count p).1 = s' at *
  generalize (s.terminate count p).2 = next at *
  have stopped : s'.loopStopped = true := grows.stopped (inv.hasLeft (main ▸ trivial))
  refine ⟨⟨core.told, core.stopped, core.prepared⟩, ?_, ?_, fun stopped => ?_, ?_, ?_, ?_,
    keeps.tasks.symm ▸ inv.tasks, fun _ => stopped⟩
  · intro p' mem
    rw [show s'.handler = none from keeps.handler.trans outside] at mem
    cases mem
  · cases next with
    | none => exact ended rfl
    | some p' => exact reached p' rfl
  · rcases outcome with ⟨p', mem, started⟩ | all | ⟨-, rfl, ends⟩
    · cases mem
      exact .inr (.inl ⟨p', rfl, started⟩)
    · exact .inr (.inr all)
    · exact .inr (.inr (ended (ends.mpr stopped)))
  · show s'.late ≤ 1
    rw [keeps.late]
    exact inv.late_le
  · intro pos
    have before : 0 < s.late := keeps.late ▸ pos
    refine ⟨grows.stopped (inv.late before).1, ?_⟩
    cases next with
    | none => exact MainNext.noConfusion
    | some p' => exact MainNext.noConfusion
  · cases next with
    | none => exact fun gone => MainNext.noConfusion gone
    | some p' => exact fun gone => MainNext.noConfusion gone

theorem inv_main (inv : Inv count s) (outside : s.handler = none) {choice : Bool}
    (h : s.mainStep count choice = some s') : Inv count s' := by
  cases main : s.main with
  | test =>
    simp only [mainStep, main, Option.some.injEq] at h
    subst h
    by_cases stopped : s.loopStopped = true
    · simp only [if_pos stopped]
      exact inv.setMain trivial (by simp [main]) (by simp) (by simp) fun _ => stopped
    · simp only [if_neg stopped]
      exact inv.toLoop (by simp [main]) id fun pos => absurd (inv.late pos).1 stopped
  | run =>
    simp only [mainStep, main, Option.some.injEq] at h
    subst h
    have none_late : s.late = 0 := by
      by_contra pos
      exact (inv.late (Nat.pos_of_ne_zero pos)).2 main
    have begun : Inv count { s with main := .testEmpty } := inv.toLoop (by simp [main]) id (by simp)
    refine ⟨⟨inv.core.told, inv.core.stopped, inv.core.prepared⟩, begun.handler, trivial, begun.settled,
      ?_, ?_, by simp, inv.tasks, False.elim⟩
    · rw [none_late, Nat.zero_add]
      exact Bool.toNat_le _
    · intro pos
      refine ⟨?_, by simp⟩
      cases stopped : s.loopStopped with
      | true => rfl
      | false => simp [none_late, stopped] at pos
  | testEmpty =>
    simp only [mainStep, main, if_neg (Nat.ne_of_gt inv.tasks), Option.some.injEq] at h
    subst h
    exact inv.toLoop (by simp [main]) id (by simp)
  | submitAll =>
    simp only [mainStep, main, Option.some.injEq] at h
    subst h
    have same : s.submitAll.main = .submitAll := main
    exact inv.submitAll.toLoop (by simp [same]) id (by simp)
  | waitCqe =>
    simp only [mainStep, main, Option.some.injEq] at h
    subst h
    cases choice with
    | true => exact inv.toLoop (by simp [main]) id (by simp)
    | false => exact inv.toLoop (by simp [main]) id (by simp)
  | processBatch =>
    simp only [mainStep, main] at h
    obtain ⟨m, batch, rfl⟩ := Option.map_eq_some_iff.mp h
    obtain ⟨inv', same⟩ := inv.processBatch batch
    exact inv'.toLoop (by simp [same, main]) id (by simp)
  | destructor p =>
    simp only [mainStep, main, Option.some.injEq] at h
    subst h
    exact inv_destructor inv outside main
  | members =>
    simp only [mainStep, main] at h
    split at h
    · rename_i joined
      cases h
      have all : s.AllRequested count := by
        have reached := inv.main
        rwa [main] at reached
      refine inv.setMain all (by simp [main]) (by simp) (fun _ w hw => ?_) fun _ => ?_
      · exact eq_of_beq (List.all_eq_true.mp joined w (List.mem_range.mpr hw))
      · exact inv.hasLeft (main ▸ trivial)
    · cases h
  | gone => simp only [mainStep, main, reduceCtorEq] at h

theorem inv_step (inv : Inv count s) (h : s.step count e = some s') : Inv count s' := by
  cases e with
  | worker w quit =>
    simp only [step] at h
    split at h
    · rename_i hw
      obtain ⟨loop, stepped, rfl⟩ := Option.map_eq_some_iff.mp h
      exact inv_worker inv hw stepped
    · cases h
  | main choice =>
    cases handler : s.handler with
    | none =>
      simp only [step, handler] at h
      exact inv_main inv handler h
    | some p =>
      simp only [step, handler, Option.some.injEq] at h
      subst h
      exact inv_handler inv handler
  | coSpawn =>
    simp only [step] at h
    split at h
    · cases h
      exact ⟨⟨inv.core.told, inv.core.stopped, inv.core.prepared⟩, inv.handler, inv.main, inv.settled,
        inv.late_le, inv.late, inv.gone, Nat.succ_pos _, inv.hasLeft⟩
    · cases h
  | interrupt =>
    simp only [step] at h
    split at h
    · cases h
    · cases h
    · rename_i outside running
      cases h
      refine ⟨⟨inv.core.told, inv.core.stopped, inv.core.prepared⟩, ?_, inv.main, fun stopped => ?_,
        inv.late_le, inv.late, inv.gone, inv.tasks, inv.hasLeft⟩
      · rintro p ⟨⟩
        trivial
      · rcases inv.settled stopped with ⟨p, mem, -⟩ | others
        · rw [outside] at mem
          cases mem
        · exact .inr others

/-- **What the shutdown keeps.** -/
structure Orderly (count : Nat) (s : Stop) : Prop where
  /-- A worker whose ring has handled a `Quit` message begins no other pass. -/
  ring : ∀ w, (s.workers w).ringStopped = true →
    (s.workers w).point = .testStop ∨ (s.workers w).point = .returned
  /-- A thread that was told to stop begins at most one more. -/
  late : ∀ w, (s.workers w).late ≤ 1
  mainLate : s.late ≤ 1
  /-- A worker does not return by itself. -/
  returned : ∀ w, (s.workers w).point = .returned → s.Requested w ∧ s.loopStopped = true
  /-- The main thread does not leave its loop by itself. -/
  loop : s.main.HasLeft → s.loopStopped = true
  /-- The main thread does not go before a worker. -/
  gone : s.main = .gone → ∀ w < count, (s.workers w).point = .returned

theorem Inv.orderly (inv : Inv count s) : Orderly count s where
  ring w stopped := ((inv.core.told w).ring stopped).2
  late w := (inv.core.told w).late_le
  mainLate := inv.late_le
  returned w returned := by
    have requested := (inv.core.told w).returned returned
    exact ⟨requested, inv.core.stopped w requested⟩
  loop := inv.hasLeft
  gone := inv.gone

/-- **No thread stops too early, and none begins more than one pass after it was told to**, in every run. -/
theorem orderly_always (count : Nat) (es : List StopEvent) :
    Always (step count) (Orderly count) {} es :=
  always_of_keep (fun _ _ _ => inv_step) (fun _ => Inv.orderly) inv_init

/-! ## A worker's last steps -/

/-- What the others' steps are to a worker. -/
structure Leaves (s s' : Stop) (w : Nat) : Prop where
  point : (s'.workers w).point = (s.workers w).point
  requested : s.Requested w → s'.Requested w

theorem leaves_terminate (count : Nat) (s : Stop) (p : TerminateNext) (w : Nat) :
    Leaves s (s.terminate count p).1 w := by
  obtain ⟨keeps, grows⟩ := terminate_keeps count s p
  exact ⟨keeps.points w, grows.requested w⟩

theorem leaves_mainStep {choice : Bool} (h : s.mainStep count choice = some s') (w : Nat) :
    Leaves s s' w := by
  cases main : s.main with
  | processBatch =>
    simp only [mainStep, main, Stop.processBatch] at h
    obtain ⟨m, batch, rfl⟩ := Option.map_eq_some_iff.mp h
    split at batch
    · cases batch
      exact ⟨rfl, id⟩
    · split at batch
      · split at batch
        · cases batch
          exact ⟨rfl, id⟩
        · cases batch
      · cases batch
        exact ⟨rfl, id⟩
  | destructor p =>
    simp only [mainStep, main, Option.some.injEq] at h
    subst h
    have leaves := leaves_terminate count s p w
    exact ⟨leaves.point, leaves.requested⟩
  | members =>
    simp only [mainStep, main] at h
    split at h
    · cases h
      exact ⟨rfl, id⟩
    · cases h
  | gone => simp only [mainStep, main, reduceCtorEq] at h
  | _ =>
    simp only [mainStep, main, Option.some.injEq] at h
    subst h
    exact ⟨rfl, id⟩

theorem leaves_step (h : s.step count e = some s') (other : ∀ quit, e ≠ .worker w quit) :
    Leaves s s' w := by
  cases e with
  | worker v quit =>
    have ne : w ≠ v := fun eq => other quit (by rw [eq])
    simp only [step] at h
    split at h
    · obtain ⟨loop, -, rfl⟩ := Option.map_eq_some_iff.mp h
      have same : (s.setWorker v loop).workers w = s.workers w := Function.update_of_ne ne ..
      exact ⟨by rw [same], fun requested => by rwa [Requested, same]⟩
    · cases h
  | main choice =>
    cases handler : s.handler with
    | none =>
      simp only [step, handler] at h
      exact leaves_mainStep h w
    | some p =>
      simp only [step, handler, Option.some.injEq] at h
      subst h
      have leaves := leaves_terminate count s p w
      exact ⟨leaves.point, leaves.requested⟩
  | coSpawn =>
    simp only [step] at h
    split at h
    · cases h
      exact ⟨rfl, id⟩
    · cases h
  | interrupt =>
    simp only [step] at h
    split at h
    · cases h
    · cases h
    · cases h
      exact ⟨rfl, id⟩

end Stop

/-- The event is a step of this worker. -/
def StopEvent.isStepOf (w : Nat) : StopEvent → Bool
  | .worker v _ => v == w
  | _ => false

namespace Stop

variable {count : Nat} {s s' : Stop} {e : StopEvent} {w : Nat} {es : List StopEvent}

/-- One event, as a worker that was told to stop sees it. -/
theorem left_step (requested : s.Requested w) (h : s.step count e = some s') :
    (s'.workers w).left + (e.isStepOf w).toNat = (s.workers w).left ∧ s'.Requested w := by
  by_cases own : e.isStepOf w = true
  · cases e with
    | worker v quit =>
      obtain rfl : v = w := eq_of_beq own
      simp only [step] at h
      split at h
      · obtain ⟨loop, stepped, rfl⟩ := Option.map_eq_some_iff.mp h
        have self : (s.setWorker v loop).workers v = loop := Function.update_self ..
        rw [Requested, self, own, Bool.toNat_true]
        exact ⟨WorkerLoop.left_step requested stepped,
          (WorkerLoop.step_stopRequested stepped).trans requested⟩
      · cases h
    | main choice => cases own
    | coSpawn => cases own
    | interrupt => cases own
  · have leaves : Leaves s s' w := by
      apply leaves_step h
      rintro quit rfl
      exact own (beq_self_eq_true w)
    rw [Bool.not_eq_true] at own
    rw [own, Bool.toNat_false, Nat.add_zero, WorkerLoop.left, WorkerLoop.left, leaves.point]
    exact ⟨rfl, leaves.requested requested⟩

/-- **A worker that was told to stop takes the steps that are left of its iteration**, whatever the others do:
after five of them, at most, it has returned. -/
theorem steps_left (requested : s.Requested w) (run : exec (step count) s es = some s') :
    (s'.workers w).left + es.countP (·.isStepOf w) = (s.workers w).left := by
  induction es generalizing s with
  | nil =>
    cases run
    rfl
  | cons e es ih =>
    obtain ⟨m, first, rest⟩ := exec_cons_eq_some.mp run
    obtain ⟨one, requested⟩ := left_step requested first
    have more := ih requested rest
    rw [List.countP_cons]
    cases own : e.isStepOf w with
    | true =>
      rw [own, Bool.toNat_true] at one
      rw [if_pos rfl]
      omega
    | false =>
      rw [own, Bool.toNat_false] at one
      rw [if_neg (by simp)]
      omega

/-- SIGINT interrupts the main thread, and the handler has told the first of two workers to stop. -/
def interruptedRun : List StopEvent :=
  [.worker 0 false, .main true, .interrupt, .main true, .main true, .main true]

/-- The worker goes on, while the handler does. -/
def lastIteration : List StopEvent :=
  [.worker 0 false, .main true, .worker 0 false, .worker 0 false, .worker 1 false, .worker 0 false]

theorem steps_left_interrupted :
    ∃ s s', exec (step 2) {} interruptedRun = some s ∧ exec (step 2) s lastIteration = some s' ∧
      (s'.workers 0).left + lastIteration.countP (·.isStepOf 0) = (s.workers 0).left :=
  ⟨_, _, rfl, rfl, steps_left rfl (rfl : exec (step 2) _ lastIteration = some _)⟩

end Stop

/-! ## The way to the end -/

/-- The steps that are left of a call of `terminate`. -/
def TerminateNext.left (count : Nat) : TerminateNext → Nat
  | .processAll => 1
  | .waitCqe => 2
  | .submitAll => 3
  | .notifySelf => 4
  | .notifyWorker w => 5 + (count - w)
  | .requestStop w => 6 + count + (count - w)
  | .setStopped => 7 + 2 * count
  | .test => 8 + 2 * count

/-- The steps that are left of the main thread once `stopped_` is set. -/
def MainNext.left (count : Nat) : MainNext → Nat
  | .gone => 0
  | .members => 1
  | .destructor p => 1 + p.left count
  | .test => 10 + 2 * count
  | .processBatch => 11 + 2 * count
  | .waitCqe => 12 + 2 * count
  | .submitAll => 13 + 2 * count
  | .testEmpty => 14 + 2 * count
  | .run => 15 + 2 * count

namespace Stop

variable {count : Nat} {s s' : Stop} {p : TerminateNext} {w : Nat} {es : List StopEvent}

/-- SIGINT, and the steps of its handler, when there was none. -/
def untold (count : Nat) (s : Stop) : Nat :=
  if s.handler = none ∧ s.loopStopped = false then 9 + 2 * count else 0

def left (count : Nat) (s : Stop) : Nat :=
  s.untold count + (s.handler.map (·.left count)).getD 0 + s.main.left count +
    ∑ w ∈ Finset.range count, (s.workers w).left

theorem untold_of_stopped (stopped : s.loopStopped = true) : s.untold count = 0 :=
  if_neg (by simp [stopped])

theorem terminate_left (count : Nat) (s : Stop) (p : TerminateNext) :
    ((s.terminate count p).2.map (·.left count)).getD 0 < p.left count := by
  cases p with
  | test =>
    simp only [terminate]
    split <;> simp [TerminateNext.left]
  | requestStop n =>
    simp only [terminate]
    split <;> simp [TerminateNext.left] <;> omega
  | notifyWorker n =>
    simp only [terminate]
    split <;> simp [TerminateNext.left] <;> omega
  | setStopped =>
    simp only [terminate, Option.map_some, Option.getD_some, TerminateNext.left]
    omega
  | _ => simp [terminate, TerminateNext.left]

/-- A call of `terminate` that ends has set `stopped_`, or found it set. -/
theorem terminate_none (reached : p.Reached count s) (ended : (s.terminate count p).2 = none) :
    (s.terminate count p).1.loopStopped = true := by
  cases p with
  | test => simpa [terminate] using ended
  | requestStop n =>
    simp only [terminate] at ended
    split at ended <;> cases ended
  | notifyWorker n =>
    simp only [terminate] at ended
    split at ended <;> cases ended
  | processAll => exact reached.1
  | _ => cases ended

/-- Once `stopped_` is set, the main thread can come nearer to its end, unless it waits for a worker. -/
theorem mainStep_left (stopped : s.loopStopped = true) (tasks : 0 < s.tasks) (running : s.main ≠ .gone)
    (joined : s.main = .members → s.joined count = true) :
    ∃ choice s', s.mainStep count choice = some s' ∧ s'.handler = s.handler ∧
      s'.loopStopped = true ∧ s'.main.left count < s.main.left count := by
  cases main : s.main with
  | test =>
    simp only [mainStep, main, if_pos stopped]
    refine ⟨true, _, rfl, rfl, stopped, ?_⟩
    simp only [MainNext.left, TerminateNext.left]
    omega
  | run =>
    simp only [mainStep, main]
    refine ⟨true, _, rfl, rfl, stopped, ?_⟩
    simp only [MainNext.left]
    omega
  | testEmpty =>
    simp only [mainStep, main, if_neg (Nat.ne_of_gt tasks)]
    refine ⟨true, _, rfl, rfl, stopped, ?_⟩
    simp only [MainNext.left]
    omega
  | submitAll =>
    simp only [mainStep, main]
    refine ⟨true, _, rfl, rfl, stopped, ?_⟩
    simp only [MainNext.left]
    omega
  | waitCqe =>
    simp only [mainStep, main]
    refine ⟨true, _, rfl, rfl, stopped, ?_⟩
    simp only [if_true, MainNext.left]
    omega
  | processBatch =>
    have nearer : MainNext.left count .test < MainNext.left count .processBatch := by
      simp only [MainNext.left]
      omega
    by_cases ring : s.ringStopped = true
    · have batch : s.processBatch false = some { s with quits := 0 } := if_pos ring
      simp only [mainStep, main]
      exact ⟨false, _, congrArg (Option.map _) batch, rfl, stopped, nearer⟩
    · have batch : s.processBatch false = some s := if_neg ring
      simp only [mainStep, main]
      exact ⟨false, _, congrArg (Option.map _) batch, rfl, stopped, nearer⟩
  | destructor p =>
    simp only [mainStep, main]
    obtain ⟨keeps, grows⟩ := terminate_keeps count s p
    refine ⟨true, _, rfl, keeps.handler, grows.stopped stopped, ?_⟩
    have fewer := terminate_left count s p
    generalize (s.terminate count p).2 = next at *
    cases next with
    | none =>
      simp only [Option.map_none, Option.getD_none, MainNext.left] at fewer ⊢
      omega
    | some p' =>
      simp only [Option.map_some, Option.getD_some, MainNext.left] at fewer ⊢
      omega
  | members =>
    simp only [mainStep, main]
    exact ⟨true, _, if_pos (joined main), rfl, stopped, Nat.zero_lt_one⟩
  | gone => exact absurd main running

/-- The workers have as far to go as before. -/
theorem sum_left (count : Nat) (same : ∀ w, (s'.workers w).point = (s.workers w).point) :
    ∑ w ∈ Finset.range count, (s'.workers w).left = ∑ w ∈ Finset.range count, (s.workers w).left := by
  apply Finset.sum_congr rfl
  intro w _
  rw [WorkerLoop.left, WorkerLoop.left, same w]

/-- One worker has gone on. -/
theorem sum_left_lt {loop : WorkerLoop} (hw : w < count) (one : loop.left + 1 = (s.workers w).left) :
    ∑ v ∈ Finset.range count, ((s.setWorker w loop).workers v).left <
      ∑ v ∈ Finset.range count, (s.workers v).left := by
  have self : ((s.setWorker w loop).workers w).left = loop.left :=
    congrArg WorkerLoop.left (Function.update_self ..)
  apply Finset.sum_lt_sum
  · intro v _
    by_cases eq : v = w
    · rw [eq, self]
      omega
    · exact Nat.le_of_eq (congrArg WorkerLoop.left (Function.update_of_ne eq ..))
  · exact ⟨w, Finset.mem_range.mpr hw, by rw [self]; omega⟩

/-- SIGINT's handler comes nearer to its end. -/
theorem handler_left (inv : Inv count s) (handler : s.handler = some p) :
    ({ (s.terminate count p).1 with handler := (s.terminate count p).2 } : Stop).left count <
      s.left count := by
  have fewer := terminate_left count s p
  have keeps := (terminate_keeps count s p).1
  have workers := sum_left count keeps.points
  have none_untold : ({ (s.terminate count p).1 with handler := (s.terminate count p).2 } : Stop).untold
      count = 0 := by
    cases next : (s.terminate count p).2 with
    | none => exact untold_of_stopped (terminate_none (inv.handler p handler) next)
    | some p' => exact if_neg (by simp)
  rw [left, none_untold]
  simp only [left, handler, Option.map_some, Option.getD_some, keeps.main, workers]
  omega

/-- **SIGINT or some thread's step always comes nearer to the end.** -/
theorem progress (inv : Inv count s) (running : s.main ≠ .gone) :
    ∃ e s', s.step count e = some s' ∧ Inv count s' ∧ s'.left count < s.left count := by
  cases handler : s.handler with
  | some p =>
    have stepped : s.step count (.main true) =
        some { (s.terminate count p).1 with handler := (s.terminate count p).2 } := by
      simp only [step, handler]
    exact ⟨_, _, stepped, inv_step inv stepped, handler_left inv handler⟩
  | none =>
    cases stopped : s.loopStopped with
    | false =>
      -- only SIGINT ends the loop: the queue is not empty
      have signal : s.step count .interrupt = some { s with handler := some .test } := by
        simp only [step, handler]
      refine ⟨_, _, signal, inv_step inv signal, ?_⟩
      simp only [left, untold, handler, stopped, Option.map_some, Option.map_none, Option.getD_some,
        Option.getD_none, TerminateNext.left, reduceCtorEq, false_and, and_self, if_true, if_false]
      omega
    | true =>
      have none_untold : s.untold count = 0 := untold_of_stopped stopped
      by_cases waits : s.main = .members ∧ s.joined count = false
      · obtain ⟨members, alive⟩ := waits
        obtain ⟨w, hw, notReturned⟩ : ∃ w < count, (s.workers w).point ≠ .returned := by
          simpa [joined] using alive
        obtain ⟨loop, stepped⟩ := WorkerLoop.exists_step notReturned
        have requested : s.AllRequested count := by
          have reached := inv.main
          rwa [members] at reached
        have there : s.step count (.worker w false) = some (s.setWorker w loop) := by
          simp only [step, if_pos hw, stepped, Option.map_some]
        refine ⟨_, _, there, inv_step inv there, ?_⟩
        exact Nat.add_lt_add_left (sum_left_lt hw (WorkerLoop.left_step (requested w hw) stepped)) _
      · have joined : s.main = .members → s.joined count = true := by
          intro members
          by_contra alive
          exact waits ⟨members, Bool.not_eq_true _ ▸ alive⟩
        obtain ⟨choice, s', stepped, same, stopped', nearer⟩ :=
          mainStep_left stopped inv.tasks running joined
        have there : s.step count (.main choice) = some s' := by simp only [step, handler, stepped]
        refine ⟨_, _, there, inv_step inv there, ?_⟩
        have workers := sum_left count fun w => (leaves_mainStep stepped w).point
        simp only [left, none_untold, untold_of_stopped stopped', same, workers]
        omega

/-- **SIGINT can end the threads**: from every state of a run, another run leads to the end of the main thread,
which is after the end of every worker. -/
theorem can_end (run : exec (step count) {} es = some s) :
    ∃ es' s', exec (step count) s es' = some s' ∧ s'.main = .gone := by
  have inv : Inv count s := exec_invariant' (fun _ _ _ => inv_step) inv_init run
  exact exists_exec_of_progress (left count) (fun _ => progress) inv

/-- The main loop has begun its first pass, and its task has spawned another. -/
def spawningRun : List StopEvent := [.worker 0 false, .main false, .coSpawn]

theorem can_end_spawning :
    ∃ s, exec (step 2) {} spawningRun = some s ∧
      ∃ es' s', exec (step 2) s es' = some s' ∧ s'.main = .gone :=
  ⟨_, rfl, can_end (rfl : exec (step 2) {} spawningRun = some _)⟩

end Stop

end CoNet.Context
