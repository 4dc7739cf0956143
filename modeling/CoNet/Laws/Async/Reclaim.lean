import CoNet.Laws.Async.Invariant

/-!
# Finished tasks

`Reclaimed` is what a pass that takes finished tasks out of the queue leaves: no finished root is in
the queue, the queue is empty exactly when every task ever queued has finished, and the frames of
finished roots are gone. The statement of `TaskLoop::run` that erases the nodes is commented out, so
`reclaimed_iff_unfinished`: a pass leaves this exactly when no root coroutine has returned yet.
-/

set_option autoImplicit false

namespace CoNet.Async.Machine

open CoNet.Io Transition

variable {L V X O : Type} {s s' : Machine L V X O} {e : Event L V X O} {es : List (Event L V X O)}

structure Reclaimed (s : Machine L V X O) : Prop where
  removed : ∀ n root, .finished n root ∈ s.log → ∀ t ∈ s.queue, t.task ≠ root
  exits : s.empty = true ↔ ∀ n root, .queued n root ∈ s.log → .finished n root ∈ s.log
  destroyed : ∀ n root, .finished n root ∈ s.log → s.frames root = none

/-- The event is the `co_return` of a coroutine without a caller. -/
def rootReturns (s : Machine L V X O) : Event L V X O → Bool
  | .exec (.coReturn _) =>
    match s.control with
    | .running _ f _ => (s.frames f).any (·.promise.caller.isNone)
    | _ => false
  | _ => false

/-- A root coroutine has returned. -/
def Finished (s : Machine L V X O) : Prop := ∃ n root, .finished n root ∈ s.log

/-! ## The queue keeps every node -/

/-- The roots of the nodes in the queue. -/
def roots (s : Machine L V X O) : List FrameId := s.queue.map (·.task)

/-- The root of a node that is queued. -/
def Entry.queuedRoot : Entry V X O → Option FrameId
  | .queued _ root => some root
  | _ => none

/-- The queue has every node ever queued. -/
def Kept (s : Machine L V X O) : Prop :=
  s.log.filterMap Entry.queuedRoot = s.roots ∧ ∀ n root, .finished n root ∈ s.log → root ∈ s.roots

theorem roots_emplaceBack (body : L) : (s.emplaceBack body).roots = s.roots ++ [s.nextFrame] := by
  rw [roots, emplaceBack, List.map_append]
  rfl

theorem roots_modifyTask {n : TaskId} {g : ScheduledTask → ScheduledTask}
    (keep : ∀ t, (g t).task = t.task) : (s.modifyTask n g).roots = s.roots := by
  apply List.ext_getElem?
  intro i
  simp only [roots, modifyTask, List.getElem?_map, List.getElem?_modify]
  cases s.queue[i]? with
  | none => rfl
  | some t => by_cases h : n = i <;> simp [h, keep]

/-- An event that queues no task. -/
theorem Kept.record (kept : s.Kept) {entries : List (Entry V X O)} (queue : s'.roots = s.roots)
    (log : s'.log = s.log ++ entries) (none : entries.filterMap Entry.queuedRoot = [])
    (finished : ∀ n root, .finished n root ∈ entries → root ∈ s.roots) : s'.Kept := by
  refine ⟨?_, ?_⟩
  · rw [log, List.filterMap_append, none, List.append_nil, kept.1, queue]
  · intro n root h
    rw [log, List.mem_append] at h
    rw [queue]
    exact h.elim (kept.2 n root) (finished n root)

theorem Kept.emplaceBack (kept : s.Kept) (body : L) : (s.emplaceBack body).Kept := by
  refine ⟨?_, ?_⟩
  · rw [roots_emplaceBack, ← kept.1]
    exact List.filterMap_append
  · intro n root h
    rw [roots_emplaceBack]
    have h : .finished n root ∈ s.log := by simpa [Machine.emplaceBack] using h
    exact List.mem_append_left _ (kept.2 n root h)

theorem kept_of_does (kept : s.Kept) (does : Does s e s') : s'.Kept := by
  cases does with
  | enqueue control => exact kept.emplaceBack _
  | startPass control => exact kept
  | endPass control node => exact kept
  | skip control node skipped => exact kept
  | @start n t body fr control node => exact kept.record rfl rfl rfl (by simp)
  | goOn control node valid ready callers nodup frame point landed =>
    exact kept.record rfl rfl rfl (by simp)
  | @suspend n t f body fr st op arg k control node executing frame awaiter =>
    exact kept.record (roots_modifyTask fun _ => rfl) rfl rfl (by simp)
  | call control node executing frame => exact kept
  | @spawn n t f body task => exact kept.emplaceBack task
  | @ret n t f g body gr st k out control node executing caller =>
    cases out <;> exact kept.record rfl rfl rfl (by simp [endEntries])
  | @rootReturn n t body fr v control node executing frame =>
    refine kept.record (roots_modifyTask fun _ => rfl) rfl rfl fun m root h => ?_
    obtain ⟨-, rfl⟩ : m = n ∧ root = t.task := by simpa using h
    exact List.mem_map_of_mem (List.mem_of_getElem? node)
  | rootThrow control node executing frame => exact kept
  | complete control flying node pending awaiting frame point named issued =>
    exact kept.record (roots_modifyTask fun _ => rfl) rfl rfl (by simp)

/-! ## Which events finish a task -/

theorem finished_iff_of_log {entries : List (Entry V X O)} (log : s'.log = s.log ++ entries) :
    s'.Finished ↔ s.Finished ∨ ∃ n root, .finished n root ∈ entries := by
  simp only [Finished, log, List.mem_append, exists_or]

/-- An event that does not end a body leaves the finished tasks as they were. -/
theorem finished_iff_of_quiet {entries : List (Entry V X O)} (log : s'.log = s.log ++ entries)
    (none : ∀ n root, .finished n root ∉ entries) (h : s.rootReturns e = false) :
    s'.Finished ↔ s.Finished ∨ s.rootReturns e = true := by
  rw [finished_iff_of_log log, h]
  simp [none]

theorem finished_of_does (does : Does s e s') :
    s'.Finished ↔ s.Finished ∨ s.rootReturns e = true := by
  cases does with
  | enqueue control => exact finished_iff_of_quiet rfl (by simp) rfl
  | startPass control => exact finished_iff_of_quiet (List.append_nil _).symm (by simp) rfl
  | endPass control node => exact finished_iff_of_quiet (List.append_nil _).symm (by simp) rfl
  | skip control node skipped => exact finished_iff_of_quiet (List.append_nil _).symm (by simp) rfl
  | start control node => exact finished_iff_of_quiet rfl (by simp) rfl
  | goOn control node => exact finished_iff_of_quiet rfl (by simp) rfl
  | suspend control node => exact finished_iff_of_quiet rfl (by simp) rfl
  | call control node => exact finished_iff_of_quiet (List.append_nil _).symm (by simp) rfl
  | spawn control node => exact finished_iff_of_quiet rfl (by simp) rfl
  | @ret n t f g body gr st k out control node executing caller =>
    -- the frame has a caller
    obtain ⟨fr, frame, hin⟩ := executing.callers.inner
    cases out with
    | value v =>
      have h : s.rootReturns (.exec (endsWith (.value v))) = false := by
        simp [rootReturns, endsWith, control, frame, hin.caller_eq]
      exact finished_iff_of_quiet rfl (by simp [endEntries]) h
    | thrown x => exact finished_iff_of_quiet rfl (by simp [endEntries]) rfl
  | @rootReturn n t body fr v control node executing frame =>
    obtain ⟨fr', frame', hin⟩ := executing.callers.inner
    obtain rfl := Option.some.inj (frame.symm.trans frame')
    have h : s.rootReturns (.exec (.coReturn v)) = true := by
      simp [rootReturns, control, frame, hin.caller_eq]
    have finished : ∃ m root, .finished m root ∈
        ([.constructed t.task, .finished n t.task] : List (Entry V X O)) := ⟨n, t.task, by simp⟩
    refine (finished_iff_of_log rfl).trans ?_
    exact iff_of_true (.inr finished) (.inr h)
  | rootThrow control node => exact finished_iff_of_quiet (List.append_nil _).symm (by simp) rfl
  | complete control flying => exact finished_iff_of_quiet rfl (by simp) rfl

/-! ## Along every run -/

/-- With every node kept, the queue is what reclamation leaves while there is nothing to reclaim. -/
theorem reclaimed_iff (kept : s.Kept) : s.Reclaimed ↔ ¬ s.Finished := by
  constructor
  · rintro reclaimed ⟨n, root, h⟩
    obtain ⟨t, ht, rfl⟩ := List.mem_map.mp (kept.2 n root h)
    exact reclaimed.removed n _ h t ht rfl
  · intro unfinished
    have none : ∀ n root, .finished n root ∉ s.log := fun n root h => unfinished ⟨n, root, h⟩
    refine ⟨fun n root h => absurd h (none n root), ?_, fun n root h => absurd h (none n root)⟩
    have hroots : s.empty = true ↔ s.log.filterMap Entry.queuedRoot = [] := by
      rw [kept.1, roots, List.map_eq_nil_iff, empty, List.isEmpty_iff]
    rw [hroots, List.filterMap_eq_nil_iff]
    constructor
    · exact fun h n root queued => absurd (h _ queued) (by simp [Entry.queuedRoot])
    · intro h entry hentry
      cases entry with
      | queued n root => exact absurd (h n root hentry) (none n root)
      | _ => rfl

theorem keptInv_step (inv : Sane s ∧ s.Kept) (h : s.step e = some s') : Sane s' ∧ s'.Kept := by
  refine ⟨sane_step inv.1 h, ?_⟩
  rcases inv.1 with terminated | linked
  · cases e <;> simp only [step, terminated, reduceCtorEq] at h
  · exact kept_of_does inv.2 (does_of_step linked h)

theorem finished_step (sane : Sane s) (h : s.step e = some s') :
    s'.Finished ↔ s.Finished ∨ ¬ s.rootReturns e = false := by
  rw [Bool.not_eq_false]
  rcases sane with terminated | linked
  · cases e <;> simp only [step, terminated, reduceCtorEq] at h
  · exact finished_of_does (does_of_step linked h)

/-- **When no finished task is left behind**, in any state and so after any pass: as long as no root
coroutine has returned. -/
theorem reclaimed_iff_unfinished (es : List (Event L V X O))
    (run : Transition.exec step {} es = some s) :
    s.Reclaimed ↔ Meets step (fun s e => s.rootReturns e = false) {} es := by
  have init : Sane ({} : Machine L V X O) ∧ ({} : Machine L V X O).Kept :=
    ⟨.inr linked_init, rfl, by simp⟩
  have inv := exec_invariant' (fun _ _ _ inv h => keptInv_step inv h) init run
  rw [reclaimed_iff inv.2]
  exact unmarked_iff_meets (fun _ _ _ inv h => keptInv_step inv h)
    (fun _ _ _ inv h => finished_step inv.1 h) init (by simp [Finished]) run

/-- A task that waits for an operation. -/
def waitingRun : List (Event Unit Unit Unit Unit) :=
  [.enqueue (), .startPass, .visit, .exec (.awaitOperation .timeout () fun _ _ => ()), .visit]

theorem reclaimed_iff_unfinished_waiting :
    ∃ s, Transition.exec step {} waitingRun = some s ∧ s.control = .idle ∧ s.Reclaimed :=
  ⟨_, rfl, rfl, (reclaimed_iff_unfinished waitingRun rfl).mpr (by decide)⟩

/-- A task that returns. -/
def returningRun : List (Event Unit Unit Unit Unit) :=
  [.enqueue (), .startPass, .visit, .exec (.coReturn ()), .visit]

/-- The task that returned is in the queue when the pass has ended. -/
theorem not_reclaimed_returned :
    ∃ s, Transition.exec step {} returningRun = some s ∧ s.control = .idle ∧ ¬ s.Reclaimed := by
  refine ⟨_, rfl, rfl, fun reclaimed => ?_⟩
  exact reclaimed.removed 0 0 (by decide) _ List.mem_cons_self rfl

end CoNet.Async.Machine
