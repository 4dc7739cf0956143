import CoNet.Laws.Async.Invariant

/-!
# Exceptions that no frame catches

An exception that leaves a coroutine's body is stored in its promise, and the `await_resume` of its
caller rethrows it there. A root coroutine has no caller: `FinalTaskAwaiter::await_suspend` rethrows
the exception of its promise, for the caller of `TaskLoop::run` to catch, but is itself `noexcept`,
so the program is terminated. A run therefore survives exactly as long as no exception leaves a
root's body (`survives_iff_caught`).
-/

set_option autoImplicit false

namespace CoNet.Async.Machine

open CoNet.Io Transition

variable {L V X O : Type} {s s' : Machine L V X O} {e : Event L V X O} {es : List (Event L V X O)}

/-- `std::terminate` was not called: an exception so far was caught, or reached a caller that can. -/
def Survives (s : Machine L V X O) : Prop := s.control ≠ .terminated

/-- An exception leaves the body of a coroutine without a caller. -/
def rootThrows (s : Machine L V X O) : Event L V X O → Bool
  | .exec (.throw _) =>
    match s.control with
    | .running _ f _ => (s.frames f).any (·.promise.caller.isNone)
    | _ => false
  | _ => false

/-- A body that ends and goes on in a caller is not a root's. -/
theorem rootThrows_ret {n : TaskId} {t : ScheduledTask} {f g : FrameId} {body : L}
    {k : Outcome V X → L} {st : Stack L V X} (out : Outcome V X)
    (control : s.control = .running n f body) (executing : Executing s.frames n t f ((g, k) :: st)) :
    s.rootThrows (.exec (endsWith out)) = false := by
  obtain ⟨fr, frame, inner⟩ := executing.callers.inner
  cases out with
  | value v => rfl
  | thrown x =>
    have caller : fr.promise.caller = some g := inner.caller_eq
    simp [rootThrows, endsWith, control, frame, caller]

theorem rootThrows_root {n : TaskId} {t : ScheduledTask} {body : L} (x : X)
    (control : s.control = .running n t.task body) (executing : Executing s.frames n t t.task []) :
    s.rootThrows (.exec (.throw x)) = true := by
  obtain ⟨fr, frame, inner⟩ := executing.callers.inner
  have caller : fr.promise.caller = none := inner.caller_eq
  simp [rootThrows, control, frame, caller]

/-- **Only an exception that leaves a root's body terminates the program.** -/
theorem survives_step_iff (linked : Linked s) (h : s.step e = some s') :
    s'.Survives ↔ s.rootThrows e = false := by
  unfold Survives
  cases does_of_step linked h with
  | enqueue control => simp [rootThrows, emplaceBack, control]
  | startPass | endPass | skip | start | goOn | suspend | call | spawn | rootReturn =>
    simp [rootThrows]
  | ret control node executing caller => simp [rootThrows_ret _ control executing]
  | rootThrow control node executing frame => simp [rootThrows_root _ control executing]
  | complete control => simp [rootThrows, modifyTask, setPoint, setFrame, control]

theorem linked_of_survives (sane : Sane s) (survives : s.Survives) : Linked s :=
  sane.resolve_left survives

/-- **A run survives exactly as long as no exception leaves a root coroutine's body.** -/
theorem survives_iff_caught (es : List (Event L V X O)) :
    Always step Survives {} es ↔ Meets step (fun s e => s.rootThrows e = false) {} es := by
  have keep : ∀ (s : Machine L V X O) e s', Linked s ∧ s.Survives → s.rootThrows e = false →
      s.step e = some s' → Linked s' ∧ s'.Survives := by
    intro s e s' inv caught h
    have survives := (survives_step_iff inv.1 h).mpr caught
    exact ⟨linked_of_survives (linked_step inv.1 h) survives, survives⟩
  have breaks : ∀ (s : Machine L V X O) e s', Linked s ∧ s.Survives → ¬ s.rootThrows e = false →
      s.step e = some s' → ¬ s'.Survives :=
    fun s e s' inv uncaught h survives => uncaught ((survives_step_iff inv.1 h).mp survives)
  exact always_iff_meets keep (fun _ inv => inv.2) breaks ⟨linked_init, nofun⟩

/-- A read fails two calls deep and nothing catches what its coroutine throws; the other task of the
loop is lost with the program. -/
def uncaughtRun : List (Event Unit Unit String Unit) :=
  [.enqueue (), .enqueue (), .startPass, .visit, .exec (.awaitTask () fun _ => ()),
    .exec (.awaitTask () fun _ => ()), .exec (.awaitOperation .receive () fun _ _ => ()),
    .visit, .exec (.awaitOperation .timeout () fun _ _ => ()), .visit,
    .complete (0, 3) (-104) 0, .startPass, .visit,
    .exec (.throw "io_uring prep read failed."), .exec (.throw "io_uring prep read failed."),
    .exec (.throw "io_uring prep read failed.")]

theorem not_survives_uncaught :
    ∃ s, Transition.exec step {} uncaughtRun = some s ∧ ¬ s.Survives ∧
      ∀ e, s.step e = none := by
  refine ⟨_, rfl, fun survives => survives rfl, fun e => ?_⟩
  cases e <;> rfl

end CoNet.Async.Machine
