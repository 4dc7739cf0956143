import CoNet.Laws.Async.Invariant
import CoNet.Laws.Async.TaskObjects

/-!
# The task loop's objects

`TaskLoop` makes each `ScheduledTask` in place at the end of its list and never moves one, and it makes no
`Task` but the ones its nodes and its coroutines hold. So a run of the loop is a run of task objects whose
operations are all careful (`objects_owned`), and if the list is destroyed after it, every coroutine frame has
been destroyed exactly once (`destroyed_once`).
-/

set_option autoImplicit false

namespace CoNet.Async

open CoNet.Io Transition

variable {L V X O : Type}

/-- Where a coroutine is, without what it goes on with. -/
def Point.site : Point L V X → Site
  | .initial _ => .initial
  | .executing => .executing
  | .atOperation id token _ => .atOperation id token
  | .atTask callee _ => .atTask callee
  | .final => .final

def Frame.coroutine (fr : Frame L V X) : Coroutine V X := ⟨fr.promise, fr.point.site⟩

def ScheduledTask.object (t : ScheduledTask) : ScheduledTaskObject where
  task := ⟨some t.task⟩
  awaitingHandle := some t.awaitingHandle
  valid := t.valid
  pending := t.pending

namespace TaskHeap

variable {h h' : TaskHeap V X} {n : TaskId} {x : Nat}

/-! ## A node is made -/

/-- A coroutine is called, its `Task` is moved into a node, and what is left of it is destroyed. -/
def enqueueEvents (x : Nat) (n : TaskId) : List (HeapEvent V X) :=
  [.call x, .schedule n x, .destroyTask x]

theorem step_running (running : h.status = .running) (e : HeapEvent V X) : h.step e = h.act e := by
  rw [step, running]

theorem act_call (free : h.tasks x = none) :
    h.act (.call x) = some ((h.newFrame {} .initial).setTask x (some ⟨some h.nextFrame⟩)) := by
  simp only [act, free]

theorem act_schedule {root : FrameId} {c : Coroutine V X} (free : h.scheduled n = none)
    (task : h.tasks x = some ⟨some root⟩) (frame : h.frames root = some c) :
    h.act (.schedule n x) = some (h.rooted n x root c) := by
  simp only [act, free, task, Task.moveConstruct, setChainTaskRoot_eq frame, orUndefined]

theorem act_destroy (task : h.tasks x = some ⟨none⟩) :
    h.act (.destroyTask x) = some (h.setTask x none) := by
  simp only [act, task, Option.any_none, Bool.false_eq_true, if_false, destroy, Option.map_some,
    orUndefined]

/-- The node that is made in place. -/
def emplaced (h : TaskHeap V X) (n : TaskId) : TaskHeap V X :=
  (h.newFrame { thisChainTask := some n } .initial).setScheduled n (some (.ofTask ⟨some h.nextFrame⟩))

theorem act_emplace (free : h.scheduled n = none) :
    h.act (.emplace n) = some (h.emplaced n) := by
  simp only [emplaced, act, free, setChainTaskRoot, setScheduled, newFrame, setFrame, Option.bind_eq_bind,
    Function.update_self, Option.bind_some, Function.update_idem, Option.pure_def, orUndefined]

/-- **Both ways to make a node agree**, and both are careful. -/
theorem exec_enqueue (running : h.status = .running) (task : h.tasks x = none)
    (free : h.scheduled n = none) :
    exec step h (enqueueEvents x n) = some (h.emplaced n) ∧ Meets step Careful h (enqueueEvents x n) := by
  let h₁ : TaskHeap V X := (h.newFrame {} .initial).setTask x (some ⟨some h.nextFrame⟩)
  let h₂ : TaskHeap V X := h₁.rooted n x h.nextFrame ⟨{}, .initial⟩
  have called : h.step (.call x) = some h₁ := (step_running running _).trans (act_call task)
  have moved : h₁.tasks x = some ⟨some h.nextFrame⟩ := Function.update_self ..
  have frame : h₁.frames h.nextFrame = some ⟨{}, .initial⟩ := Function.update_self ..
  have scheduled : h₁.step (.schedule n x) = some h₂ :=
    (step_running (h := h₁) running _).trans (act_schedule free moved frame)
  have left : h₂.tasks x = some ⟨none⟩ := Function.update_self ..
  have destroyed : h₂.step (.destroyTask x) = some (h₂.setTask x none) :=
    (step_running (h := h₂) running _).trans (act_destroy left)
  have made : h₂.setTask x none = h.emplaced n := by
    have tasks : Function.update h.tasks x none = h.tasks := by
      rw [← task, Function.update_eq_self]
    simp only [h₂, h₁, rooted, setTask, setScheduled, setFrame, newFrame, Function.update_idem, tasks,
      emplaced]
  constructor
  · simp only [enqueueEvents, exec_cons, called, scheduled, destroyed, Option.bind_some, exec_nil, made]
  · have alone : h₁.Careful (.schedule n x) := by
      have held : h₁.holds (.task x) = some h.nextFrame := by rw [holds, moved]; rfl
      show (h₁.holds (.task x)).bind _ = none
      rw [held, Option.bind_some, holds, frame]
      rfl
    refine meets_cons.mpr fun _ first => ⟨trivial, ?_⟩
    cases called.symm.trans first
    refine meets_cons.mpr fun _ second => ⟨alone, ?_⟩
    exact meets_cons.mpr fun _ _ => ⟨trivial, meets_nil⟩

/-! ## The end of the list -/

/-- What `~ScheduledTask()` leaves as it is. -/
theorem destroyScheduled_frame {t : ScheduledTaskObject}
    (h₁ : (h.destroy t.task).map (·.setScheduled n none) = some h') :
    h'.scheduled = Function.update h.scheduled n none ∧ h'.tasks = h.tasks ∧ h'.stack = h.stack ∧
      h'.status = h.status ∧ h'.nextFrame = h.nextFrame := by
  obtain ⟨g, destroyed, rfl⟩ := Option.map_eq_some_iff.mp h₁
  cases handle : t.task.handle with
  | none =>
    simp only [destroy, handle, Option.some.injEq] at destroyed
    subst destroyed
    exact ⟨rfl, rfl, rfl, rfl, rfl⟩
  | some root =>
    simp only [destroy, handle, Option.bind_eq_bind, Option.pure_def] at destroyed
    obtain ⟨left, -, made⟩ := Option.bind_eq_some_iff.mp destroyed
    cases made
    exact ⟨rfl, rfl, rfl, rfl, rfl⟩

/-- **The objects are destroyed, and with them every frame, once.** -/
theorem destroyAll (l : List TaskId) (nodup : l.Nodup) (inv : h.Inv) (running : h.status = .running)
    (idle : h.stack = []) (tasks : ∀ x, h.tasks x = none)
    (nodes : ∀ n, n ∈ l ↔ h.scheduled n ≠ none) :
    ∃ h', exec step h (l.map .destroyScheduled) = some h' ∧
      ∀ f < h.nextFrame, h'.destroyed.count f = 1 := by
  induction l generalizing h with
  | nil =>
    refine ⟨h, rfl, (owned_of_inv inv).settled fun k object => ?_⟩
    cases k with
    | task x => rw [holds, tasks x, Option.bind_none]
    | scheduled n =>
      have gone : h.scheduled n = none := by
        by_contra there
        exact List.not_mem_nil ((nodes n).mpr there)
      rw [holds, gone, Option.bind_none]
    | frame g => exact absurd rfl (object g)
  | cons n l ih =>
    obtain ⟨other, nodup⟩ := List.nodup_cons.mp nodup
    obtain ⟨t, node⟩ := Option.ne_none_iff_exists'.mp ((nodes n).mp List.mem_cons_self)
    have rests : ¬ t.task.handle.any h.runs = true := by
      cases t.task.handle with
      | none => simp
      | some root => simp [runs, idle]
    obtain ⟨h₁, destroyed, core, live⟩ := destroyScheduled_spec inv.core (inv.live running) node rests
    obtain ⟨scheduled, tasks₁, stack₁, status₁, next₁⟩ := destroyScheduled_frame destroyed
    have first : h.step (.destroyScheduled n) = some h₁ := by
      rw [step_running running]
      simp only [act, node, if_neg rests, destroyed, orUndefined]
    obtain ⟨h', run, once⟩ := ih nodup (h := h₁) ⟨core, fun _ => live⟩ (status₁.trans running)
      (stack₁.trans idle) (fun x => by rw [tasks₁, tasks x]) fun m => by
        rw [scheduled]
        by_cases same : m = n
        · rw [same, Function.update_self]
          exact iff_of_false other fun absent => absent rfl
        · rw [Function.update_of_ne same, ← nodes m, List.mem_cons, or_iff_right same]
    refine ⟨h', ?_, fun f hf => once f (next₁ ▸ hf)⟩
    rw [List.map_cons, exec_cons, first, Option.bind_some, run]

end TaskHeap

namespace Machine

/-- The nodes of the loop and the frames, with these resumptions in progress. -/
def heap (s : Machine L V X O) (stack : List Activation) (status : Status)
    (destroyed : List FrameId) : TaskHeap V X where
  frames := Option.map Frame.coroutine ∘ s.frames
  nextFrame := s.nextFrame
  scheduled n := s.queue[n]?.map ScheduledTask.object
  stack
  inflight := s.inflight
  nextOperation := s.nextOp
  status
  destroyed

/-- The resumptions in progress: the loop resumes one task at a time. -/
inductive Resumes (s : Machine L V X O) : List Activation → Status → Prop where
  | outside (idle : s.control = .idle) : Resumes s [] .running
  | between {n : TaskId} (pass : s.control = .pass n) : Resumes s [] .running
  | inside {n : TaskId} {t : ScheduledTask} {f : FrameId} {body : L}
    (control : s.control = .running n f body) (node : s.queue[n]? = some t) :
    Resumes s [⟨.scheduledTask n, t.task, f⟩] .running
  | terminated {stack : List Activation} (control : s.control = .terminated) :
    Resumes s stack .terminated

/-- The heap has the loop's objects and frames, and no others. -/
inductive Shows (s : Machine L V X O) : TaskHeap V X → Prop where
  | intro {stack : List Activation} {status : Status} {destroyed : List FrameId}
    (resumes : s.Resumes stack status) : Shows s (s.heap stack status destroyed)

/-- What an event of the loop does with its objects. -/
def moves (s : Machine L V X O) : Event L V X O → List (HeapEvent V X)
  | .enqueue _ => TaskHeap.enqueueEvents 0 s.queue.length
  | .startPass => []
  | .visit =>
    match s.control with
    | .pass n => if s.queue[n]?.any (fun t => t.valid && !t.pending) then [.resumeScheduled n] else []
    | _ => []
  | .exec (.awaitOperation op _ _) => [.suspend (.operation op)]
  | .exec (.awaitTask _ _) => [.awaitTask]
  | .exec (.coSpawn _ _) => [.emplace s.queue.length]
  | .exec (.coReturn v) => [.coReturn v]
  | .exec (.throw x) => [.throw x]
  | .complete operation res flags => [.complete operation.1 operation.2 res flags]

variable {s s' : Machine L V X O} {e : Event L V X O} {n : TaskId} {t : ScheduledTask} {f g : FrameId}
  {fr gr : Frame L V X} {st : Stack L V X} {stack rest : List Activation} {status : Status}
  {destroyed : List FrameId} {h h' : TaskHeap V X}

/-! ## Objects of the loop -/

theorem frames_heap (frame : s.frames f = some fr) :
    (s.heap stack status destroyed).frames f = some fr.coroutine :=
  congrArg (Option.map Frame.coroutine) frame

theorem scheduled_heap (node : s.queue[n]? = some t) :
    (s.heap stack status destroyed).scheduled n = some t.object :=
  congrArg (Option.map ScheduledTask.object) node

theorem scheduled_length : (s.heap stack status destroyed).scheduled s.queue.length = none :=
  congrArg (Option.map ScheduledTask.object) (List.getElem?_eq_none (Nat.le_refl _))

theorem heap_setFrame (fr : Frame L V X) :
    (s.heap stack status destroyed).setFrame f fr.coroutine =
      (s.setFrame f fr).heap stack status destroyed := by
  simp only [TaskHeap.setFrame, heap, setFrame, Function.comp_update, Option.map_some]

theorem heap_modifyTask (node : s.queue[n]? = some t) (change : ScheduledTask → ScheduledTask) :
    (s.heap stack status destroyed).setScheduled n (some (change t).object) =
      (s.modifyTask n change).heap stack status destroyed := by
  have nodes : Function.update (s.heap stack status destroyed).scheduled n (some (change t).object) =
      ((s.modifyTask n change).heap stack status destroyed).scheduled := by
    funext m
    by_cases same : m = n
    · subst same
      rw [Function.update_self, scheduled_heap (modifyTask_self node change)]
    · rw [Function.update_of_ne same]
      exact congrArg (Option.map ScheduledTask.object) (modifyTask_other same change).symm
  rw [TaskHeap.setScheduled, nodes]
  rfl

/-- A node at the end of the list, with its coroutine. -/
theorem heap_emplaceBack (body : L) :
    (s.heap stack status destroyed).emplaced s.queue.length =
      (s.emplaceBack body).heap stack status destroyed := by
  let h := s.heap stack status destroyed
  have nodes : Function.update h.scheduled s.queue.length (some (.ofTask ⟨some h.nextFrame⟩)) =
      ((s.emplaceBack body).heap stack status destroyed).scheduled := by
    funext m
    show _ = (s.queue ++ [_])[m]?.map ScheduledTask.object
    by_cases same : m = s.queue.length
    · rw [same, Function.update_self, List.getElem?_concat_length]
      rfl
    · rw [Function.update_of_ne same]
      rcases Nat.lt_or_gt_of_ne same with before | after
      · rw [List.getElem?_append_left before]
        rfl
      · rw [List.getElem?_eq_none (by rw [List.length_append, List.length_singleton]; omega)]
        exact congrArg (Option.map ScheduledTask.object) (List.getElem?_eq_none (Nat.le_of_lt after))
  rw [TaskHeap.emplaced, TaskHeap.setScheduled]
  refine (congrArg (fun scheduled => ({ h.newFrame _ _ with scheduled } : TaskHeap V X)) nodes).trans ?_
  simp only [h, TaskHeap.newFrame, heap, emplaceBack, Function.comp_update, Option.map_some]
  rfl

/-! ## What an event does with the objects -/

theorem step_heap (e : HeapEvent V X) :
    (s.heap stack .running destroyed).step e = (s.heap stack .running destroyed).act e := rfl

/-- A node is made at the end of the list. -/
theorem step_emplace (body : L) :
    (s.heap stack .running destroyed).step (.emplace s.queue.length) =
      some ((s.emplaceBack body).heap stack .running destroyed) := by
  rw [step_heap, TaskHeap.act_emplace scheduled_length, ← heap_emplaceBack]

/-- A node is resumed where it is suspended. -/
theorem step_resume (node : s.queue[n]? = some t) (frame : s.frames t.awaitingHandle = some fr)
    (resumable : fr.point.site.resumable = true)
    (unfinished : (s.heap [] .running destroyed).done t.task = false) :
    (s.heap [] .running destroyed).step (.resumeScheduled n) =
      some ((s.setPoint t.awaitingHandle fr .executing).heap
        [⟨.scheduledTask n, t.task, t.awaitingHandle⟩] .running destroyed) := by
  have idle : (s.heap [] .running destroyed).runs t.task = false := rfl
  have runs : fr.coroutine.site.resumable = true := resumable
  rw [step_heap]
  simp only [TaskHeap.act, scheduled_heap node, ScheduledTask.object, idle, unfinished, Bool.or_self,
    Bool.false_eq_true, if_false, TaskHeap.resume, Option.bind_eq_bind, Option.bind_some,
    frames_heap frame, runs, if_true, Option.pure_def, TaskHeap.orUndefined]
  exact congrArg (fun h => some (TaskHeap.setStack h _)) (heap_setFrame { fr with point := .executing })

/-- The end of a `resume` of a task that has not finished. -/
theorem afterResume_heap (node : s.queue[n]? = some t) (frame : s.frames t.task = some fr)
    (point : fr.point ≠ .final) :
    (s.heap stack status destroyed).afterResume (.scheduledTask n) =
      some (s.heap stack status destroyed) := by
  have unfinished : fr.coroutine.site.done = false := by
    obtain ⟨promise, place⟩ := fr
    cases place with
    | final => exact absurd rfl point
    | _ => rfl
  simp only [TaskHeap.afterResume, scheduled_heap node, ScheduledTask.object, Option.bind_eq_bind,
    Option.bind_some, frames_heap frame, unfinished, Bool.false_eq_true, if_false, Option.pure_def]

theorem afterResume_heap_final (node : s.queue[n]? = some t) (frame : s.frames t.task = some fr)
    (point : fr.point = .final) :
    (s.heap stack status destroyed).afterResume (.scheduledTask n) =
      some ((s.modifyTask n ({ · with valid := false })).heap stack status destroyed) := by
  have finished : fr.coroutine.site.done = true := by rw [Frame.coroutine, point]; rfl
  simp only [TaskHeap.afterResume, scheduled_heap node, Option.bind_eq_bind, Option.bind_some]
  rw [show t.object.task.handle = some t.task from rfl, Option.bind_some, frames_heap frame,
    Option.bind_some, finished, if_pos rfl]
  exact congrArg some (heap_modifyTask node ({ · with valid := false }))

/-- The machine when the running coroutine is suspended at an operation. -/
def suspended (s : Machine L V X O) (n : TaskId) (f : FrameId) (fr : Frame L V X) (op : Op)
    (k : Int → BitVec 32 → L) : Machine L V X O :=
  { (s.setPoint f fr (.atOperation s.nextOp { op, chainTask := some n } k)).modifyTask n
      ({ · with awaitingHandle := f, pending := true }) with
    inflight := s.inflight ++ [(s.nextOp, f)]
    nextOp := s.nextOp + 1 }

/-- The running coroutine is suspended at an operation. -/
theorem step_suspend {op : Op} (k : Int → BitVec 32 → L) (node : s.queue[n]? = some t)
    (executing : Executing s.frames n t f st) (frame : s.frames f = some fr)
    (awaiter : uringAwaiterOp op = true) :
    (s.heap [⟨.scheduledTask n, t.task, f⟩] .running destroyed).step (.suspend (.operation op)) =
      some ((s.suspended n f fr op k).heap [] .running destroyed) := by
  obtain ⟨fr', frame', here⟩ := executing.callers.inner
  obtain rfl := Option.some.inj (frame.symm.trans frame')
  let point : Point L V X := .atOperation s.nextOp { op, chainTask := some n } k
  let h := s.heap [⟨.scheduledTask n, t.task, f⟩] .running destroyed
  obtain ⟨root, root_frame, unfinished⟩ :=
    executing.root_unfinished (show point ≠ .final by simp [point]) fr
  have owner : fr.coroutine.promise.thisChainTask = some n := here.task_eq
  have made : (h.setFrame f (Frame.coroutine { fr with point })).setScheduled n
        (some (ScheduledTask.object { t with awaitingHandle := f, pending := true })) =
      ((s.setPoint f fr point).modifyTask n ({ · with awaitingHandle := f, pending := true })).heap
        [⟨.scheduledTask n, t.task, f⟩] .running destroyed := by
    rw [heap_setFrame]
    exact heap_modifyTask (s := s.setPoint f fr point) node
      ({ · with awaitingHandle := f, pending := true })
  have after : ((s.suspended n f fr op k).heap [] .running destroyed).afterResume (.scheduledTask n) =
      some ((s.suspended n f fr op k).heap [] .running destroyed) :=
    afterResume_heap (modifyTask_self node _) root_frame unfinished
  have body : h.suspend ⟨.scheduledTask n, t.task, f⟩ [] (.operation op) =
      some ((s.suspended n f fr op k).heap [] .running destroyed) := by
    simp only [h, TaskHeap.suspend, frames_heap frame, Option.bind_eq_bind, Option.bind_some, owner,
      scheduled_heap node]
    rw [← after]
    exact congrArg (fun h => ((TaskHeap.submit h f (.operation op)).setStack []).afterResume _) made
  have library : (Awaiting.operation op).ofLibrary = true := awaiter
  rw [step_heap]
  simp only [TaskHeap.act, library, if_true]
  exact congrArg (fun r => some (h.orUndefined r)) body

/-- The running coroutine calls another one. -/
theorem step_awaitTask (k : Outcome V X → L) (executing : Executing s.frames n t f st)
    (frame : s.frames f = some fr) :
    (s.heap [⟨.scheduledTask n, t.task, f⟩] .running destroyed).step .awaitTask =
      some (({ (s.setPoint f fr (.atTask s.nextFrame k)).setFrame s.nextFrame
            ⟨{ caller := some f, thisChainTask := some n }, .executing⟩ with
          nextFrame := s.nextFrame + 1 } : Machine L V X O).heap
        [⟨.scheduledTask n, t.task, s.nextFrame⟩] .running destroyed) := by
  obtain ⟨fr', frame', here⟩ := executing.callers.inner
  obtain rfl := Option.some.inj (frame.symm.trans frame')
  have owner : fr.coroutine.promise.thisChainTask = some n := here.task_eq
  let h := s.heap [⟨.scheduledTask n, t.task, f⟩] .running destroyed
  have body : h.awaitTask ⟨.scheduledTask n, t.task, f⟩ [] = some (h.awaited _ _ fr.coroutine) :=
    TaskHeap.awaitTask_eq (frames_heap frame)
  show some (h.orUndefined (h.awaitTask _ [])) = _
  rw [body, TaskHeap.awaited, owner]
  simp only [TaskHeap.orUndefined, TaskHeap.newFrame, TaskHeap.setFrame, TaskHeap.setStack, heap, h,
    setPoint, setFrame, Function.comp_update, Option.map_some]
  rfl

/-- A body ends, and its caller goes on. -/
theorem finish_caller {k : Outcome V X → L} (executing : Executing s.frames n t f ((g, k) :: st))
    (caller : s.frames g = some gr) (out : Outcome V X) :
    (s.heap [⟨.scheduledTask n, t.task, f⟩] .running destroyed).finish
        ⟨.scheduledTask n, t.task, f⟩ [] out =
      some (({ s with
          frames := Function.update (Function.update s.frames f none) g
            (some { gr with point := .executing }) } : Machine L V X O).heap
        [⟨.scheduledTask n, t.task, g⟩] .running (destroyed ++ [f])) := by
  obtain ⟨fr, frame, here⟩ := executing.callers.inner
  obtain ⟨gr', caller', point⟩ := executing.callers.2.1
  obtain rfl := Option.some.inj (caller.symm.trans caller')
  have ne : g ≠ f := by
    rintro rfl
    exact (List.nodup_cons.mp executing.nodup).1 List.mem_cons_self
  have callee : gr.coroutine.site.callee = some f := by rw [Frame.coroutine, point]; rfl
  have ends : (fr.coroutine.promise.finished out).caller = some g :=
    (Promise.finished_caller _ out).trans here.caller_eq
  obtain ⟨left, gives⟩ := Promise.result_finished here.toUnfinished out
  have result : (fr.coroutine.promise.finished out).result = some (out, left) := gives
  simp only [TaskHeap.finish, frames_heap frame, Option.bind_eq_bind, Option.bind_some, ends,
    TaskHeap.resumeCaller, TaskHeap.setFrame, Function.update_of_ne ne, frames_heap caller, callee,
    Function.update_self, result, Option.pure_def, TaskHeap.setStack, Function.update_idem]
  simp only [heap, Function.comp_update, Option.map_some, Option.map_none]
  rfl

/-- The body of a root coroutine returns, and its node is finished. -/
theorem finish_return (node : s.queue[n]? = some t) (executing : Executing s.frames n t t.task [])
    (frame : s.frames t.task = some fr) (v : V) :
    (s.heap [⟨.scheduledTask n, t.task, t.task⟩] .running destroyed).finish
        ⟨.scheduledTask n, t.task, t.task⟩ [] (.value v) =
      some (((s.setFrame t.task ⟨fr.promise.returnValue v, .final⟩).modifyTask n
          ({ · with valid := false })).heap [] .running destroyed) := by
  obtain ⟨fr', frame', here⟩ := executing.callers.inner
  obtain rfl := Option.some.inj (frame.symm.trans frame')
  have caller : (fr.coroutine.promise.finished (.value v)).caller = none :=
    (Promise.finished_caller fr.promise (.value v)).trans here.caller_eq
  have exp : (fr.coroutine.promise.finished (.value v)).exp = none := here.exp
  have after : ((s.setFrame t.task ⟨fr.promise.returnValue v, .final⟩).heap [] .running
        destroyed).afterResume (.scheduledTask n) =
      some (((s.setFrame t.task ⟨fr.promise.returnValue v, .final⟩).modifyTask n
        ({ · with valid := false })).heap [] .running destroyed) :=
    afterResume_heap_final node (Function.update_self ..) rfl
  simp only [TaskHeap.finish, frames_heap frame, Option.bind_eq_bind, Option.bind_some, caller, exp]
  rw [← after, ← heap_setFrame]
  rfl

/-- An exception leaves the body of a root coroutine. -/
theorem finish_terminates (executing : Executing s.frames n t t.task [])
    (frame : s.frames t.task = some fr) (x : X) :
    (s.heap [⟨.scheduledTask n, t.task, t.task⟩] .running destroyed).finish
        ⟨.scheduledTask n, t.task, t.task⟩ [] (.thrown x) =
      some ((s.setFrame t.task ⟨fr.promise.unhandledException x, .final⟩).heap
        [⟨.scheduledTask n, t.task, t.task⟩] .terminated destroyed) := by
  obtain ⟨fr', frame', here⟩ := executing.callers.inner
  obtain rfl := Option.some.inj (frame.symm.trans frame')
  have caller : (fr.coroutine.promise.finished (.thrown x)).caller = none :=
    (Promise.finished_caller fr.promise (.thrown x)).trans here.caller_eq
  have exp : (fr.coroutine.promise.finished (.thrown x)).exp = some x := rfl
  simp only [TaskHeap.finish, frames_heap frame, Option.bind_eq_bind, Option.bind_some, caller, exp]
  rw [← heap_setFrame]
  rfl

/-- A completion stores its result in the token of the coroutine that waits for it, and wakes its task. -/
theorem complete_heap {id : Nat} {token : CompletionToken TaskId} {k : Int → BitVec 32 → L}
    {flags : BitVec 32} (res : Int) (node : s.queue[n]? = some t) (frame : s.frames f = some fr)
    (point : fr.point = .atOperation id token k) (named : token.chainTask = some n)
    (awaiter : uringAwaiterOp token.op = true) (plain : flags &&& netIoringCqeFTask = 0) :
    (s.heap stack status destroyed).complete id f res flags =
      some (((s.setPoint f fr (.atOperation id { token with cqeRes := res, cqeFlags := flags } k)).modifyTask
        n ({ · with pending := false })).heap stack status destroyed) := by
  have site : fr.coroutine.site = .atOperation id token := by rw [Frame.coroutine, point]; rfl
  have nodes : (s.heap stack status destroyed).scheduled n = some t.object := scheduled_heap node
  simp only [TaskHeap.complete, frames_heap frame, Option.bind_eq_bind, Option.bind_some, site, if_true,
    handleRequest_awaiter awaiter named plain, List.foldlM_cons, List.foldlM_nil,
    TaskHeap.applyEffect, Option.pure_def, TaskHeap.setFrame, nodes]
  rw [← heap_modifyTask (s := s.setPoint f fr _) node, setPoint, ← heap_setFrame]
  rfl

theorem step_complete {id : Nat} {token : CompletionToken TaskId} {k : Int → BitVec 32 → L}
    {res : Int} {flags : BitVec 32} (flying : (id, f) ∈ s.inflight) (node : s.queue[n]? = some t)
    (frame : s.frames f = some fr) (point : fr.point = .atOperation id token k)
    (named : token.chainTask = some n) (awaiter : uringAwaiterOp token.op = true)
    (plain : flags &&& netIoringCqeFTask = 0) :
    (s.heap stack .running destroyed).step (.complete id f res flags) =
      some (({ (s.setPoint f fr (.atOperation id { token with cqeRes := res, cqeFlags := flags } k)).modifyTask
          n ({ · with pending := false }) with
        inflight := s.inflight.erase (id, f) } : Machine L V X O).heap stack .running destroyed) := by
  have guard : (s.heap stack .running destroyed).inflight.contains (id, f) ∧
      flags &&& netIoringCqeFTask = 0 := ⟨List.contains_iff_mem.mpr flying, plain⟩
  let s₁ : Machine L V X O := { s with inflight := s.inflight.erase (id, f) }
  have completed : (s₁.heap stack .running destroyed).complete id f res flags = _ :=
    complete_heap res node frame point named awaiter plain
  rw [step_heap]
  simp only [TaskHeap.act, if_pos guard]
  exact congrArg (fun r => some (TaskHeap.orUndefined _ r)) completed

/-! ## The loop's runs -/

theorem Resumes.eq_of_idle (resumes : s.Resumes stack status) (control : s.control = .idle) :
    stack = [] ∧ status = .running := by
  cases resumes with
  | outside | between => exact ⟨rfl, rfl⟩
  | inside running => cases control.symm.trans running
  | terminated ended => cases control.symm.trans ended

theorem Resumes.eq_of_pass (resumes : s.Resumes stack status) (control : s.control = .pass n) :
    stack = [] ∧ status = .running := by
  cases resumes with
  | outside | between => exact ⟨rfl, rfl⟩
  | inside running => cases control.symm.trans running
  | terminated ended => cases control.symm.trans ended

theorem Resumes.eq_of_running {body : L} (resumes : s.Resumes stack status)
    (control : s.control = .running n f body) (node : s.queue[n]? = some t) :
    stack = [⟨.scheduledTask n, t.task, f⟩] ∧ status = .running := by
  cases resumes with
  | outside idle => cases control.symm.trans idle
  | between pass => cases control.symm.trans pass
  | inside running node' =>
    cases control.symm.trans running
    cases node.symm.trans node'
    exact ⟨rfl, rfl⟩
  | terminated ended => cases control.symm.trans ended

/-- What an event of the loop has done with its objects. -/
def Moved (s : Machine L V X O) (e : Event L V X O) (s' : Machine L V X O) (h : TaskHeap V X) : Prop :=
  ∃ h', Transition.exec TaskHeap.step h (s.moves e) = some h' ∧
    Meets TaskHeap.step TaskHeap.Careful h (s.moves e) ∧ s'.Shows h'

theorem Moved.none (nothing : s.moves e = []) (shows' : s'.Shows h) : Moved s e s' h := by
  refine ⟨h, ?_, ?_, shows'⟩
  · rw [nothing, exec_nil]
  · rw [nothing]
    exact meets_nil

theorem Moved.one {move : HeapEvent V X} (one : s.moves e = [move]) (careful : h.Careful move)
    (step : h.step move = some h') (shows' : s'.Shows h') : Moved s e s' h := by
  refine ⟨h', ?_, ?_, shows'⟩
  · rw [one, exec_cons, step, Option.bind_some, exec_nil]
  · rw [one]
    exact meets_cons.mpr fun _ _ => ⟨careful, meets_nil⟩

/-- The root of a chain whose innermost frame waits for an operation has not finished. -/
theorem done_waiting {id : Nat} {token : CompletionToken TaskId} {k : Int → BitVec 32 → L}
    (callers : Callers s.frames n t.task f st) (frame : s.frames f = some fr)
    (point : fr.point = .atOperation id token k) :
    (s.heap stack status destroyed).done t.task = false := by
  rcases callers.root_cases with ⟨-, rfl⟩ | ⟨-, callee, k', gr, root, awaits⟩
  · rw [TaskHeap.done, frames_heap frame, Option.any_some, Frame.coroutine, point]
    rfl
  · rw [TaskHeap.done, frames_heap root, Option.any_some, Frame.coroutine, awaits]
    rfl

theorem plain_of_step {operation : Nat × FrameId} {res : Int} {flags : BitVec 32}
    (h : s.step (.complete operation res flags) = some s') : flags &&& netIoringCqeFTask = 0 := by
  simp only [step] at h
  split at h
  · split at h
    · rename_i guard
      exact guard.2
    · cases h
  · cases h

/-- The task that an operation in flight is awaited in. -/
theorem Linked.waiting (linked : Linked s) (control : s.control = .idle) {id : Nat}
    {token : CompletionToken TaskId} {k : Int → BitVec 32 → L} (node : s.queue[n]? = some t)
    (pending : t.pending = true) (frame : s.frames t.awaitingHandle = some fr)
    (point : fr.point = .atOperation id token k) : uringAwaiterOp token.op = true := by
  have idle : ¬ s.Running n := by
    rintro ⟨g, body, running⟩
    cases control.symm.trans running
  cases linked.suspended n t node idle with
  | ready body _ notPending => cases notPending.symm.trans pending
  | finished fr' _ notPending => cases notPending.symm.trans pending
  | waiting id' token' k' st valid callers nodup point' named awaiter flight issued landed =>
    cases point'.unique ⟨fr, frame, point⟩
    exact awaiter

/-- A body ends. -/
theorem Moved.ends {a : Activation} (out : Outcome V X)
    (finished : (s.heap [a] .running destroyed).finish a [] out = some h') (shows' : s'.Shows h') :
    Moved s (.exec (endsWith out)) s' (s.heap [a] .running destroyed) := by
  cases out with
  | value v =>
    exact .one rfl trivial (congrArg (fun r => some (TaskHeap.orUndefined _ r)) finished) shows'
  | thrown x =>
    exact .one rfl trivial (congrArg (fun r => some (TaskHeap.orUndefined _ r)) finished) shows'

/-- A node is resumed. -/
theorem Moved.resumes {body : L} {log : List (Entry V X O)} (control : s.control = .pass n)
    (node : s.queue[n]? = some t) (valid : t.valid = true) (ready : t.pending = false)
    (frame : s.frames t.awaitingHandle = some fr) (resumable : fr.point.site.resumable = true)
    (unfinished : (s.heap [] .running destroyed).done t.task = false) :
    Moved s .visit
      { s.setPoint t.awaitingHandle fr .executing with
        log, control := .running n t.awaitingHandle body }
      (s.heap [] .running destroyed) := by
  have careful : (s.heap [] .running destroyed).Careful (.resumeScheduled n) := trivial
  refine .one ?_ careful (step_resume node frame resumable unfinished) ⟨.inside rfl node⟩
  simp only [moves, control, node, Option.any_some, valid, ready, Bool.not_false, Bool.and_self, if_true]

/-- **What an event of the loop does with its objects is careful.** -/
theorem moved_of_step (linked : Linked s) (shows : s.Shows h) (hstep : s.step e = some s') :
    Moved s e s' h := by
  obtain @⟨stack, status, destroyed, resumes⟩ := shows
  cases does_of_step linked hstep with
  | enqueue control =>
    obtain ⟨rfl, rfl⟩ := resumes.eq_of_idle control
    obtain ⟨run, careful⟩ := TaskHeap.exec_enqueue (h := s.heap [] .running destroyed) (x := 0) rfl rfl
      scheduled_length
    exact ⟨_, run, careful, heap_emplaceBack _ ▸ ⟨.outside control⟩⟩
  | startPass control =>
    obtain ⟨rfl, rfl⟩ := resumes.eq_of_idle control
    exact .none rfl ⟨.between rfl⟩
  | endPass control node =>
    obtain ⟨rfl, rfl⟩ := resumes.eq_of_pass control
    refine .none ?_ ⟨.outside rfl⟩
    simp only [moves, control, node, Option.any_none, Bool.false_eq_true, if_false]
  | @skip n t control node skipped =>
    obtain ⟨rfl, rfl⟩ := resumes.eq_of_pass control
    refine .none ?_ ⟨.between rfl⟩
    have stays : (t.valid && !t.pending) = false := by simpa using skipped
    simp only [moves, control, node, Option.any_some, stays, Bool.false_eq_true, if_false]
  | start control node valid ready awaiting callers frame point =>
    obtain ⟨rfl, rfl⟩ := resumes.eq_of_pass control
    rw [← awaiting] at frame ⊢
    refine .resumes control node valid ready frame (by rw [point]; rfl) ?_
    rw [← awaiting, TaskHeap.done, frames_heap frame, Option.any_some, Frame.coroutine, point]
    rfl
  | goOn control node valid ready callers nodup frame point landed =>
    obtain ⟨rfl, rfl⟩ := resumes.eq_of_pass control
    exact .resumes control node valid ready frame (by rw [point]; rfl)
      (done_waiting callers frame point)
  | suspend control node executing frame awaiter =>
    obtain ⟨rfl, rfl⟩ := resumes.eq_of_running control node
    refine .one rfl ?_ (step_suspend _ node executing frame awaiter) ⟨.between rfl⟩
    rintro a ⟨⟩
    obtain ⟨fr', frame', here⟩ := executing.callers.inner
    rw [frames_heap frame', Option.bind_some, Frame.coroutine, here.task_eq]
    simp
  | call control node executing frame =>
    obtain ⟨rfl, rfl⟩ := resumes.eq_of_running control node
    exact .one rfl trivial (step_awaitTask _ executing frame) ⟨.inside rfl node⟩
  | spawn control node executing =>
    obtain ⟨rfl, rfl⟩ := resumes.eq_of_running control node
    refine .one rfl trivial (step_emplace _) ⟨.inside rfl ?_⟩
    obtain ⟨lt, -⟩ := List.getElem?_eq_some_iff.mp node
    exact (List.getElem?_append_left lt).trans node
  | ret control node executing caller =>
    obtain ⟨rfl, rfl⟩ := resumes.eq_of_running control node
    exact .ends _ (finish_caller executing caller _) ⟨.inside rfl node⟩
  | rootReturn control node executing frame =>
    obtain ⟨rfl, rfl⟩ := resumes.eq_of_running control node
    exact .ends (.value _) (finish_return node executing frame _) ⟨.between rfl⟩
  | rootThrow control node executing frame =>
    obtain ⟨rfl, rfl⟩ := resumes.eq_of_running control node
    exact .ends (.thrown _) (finish_terminates executing frame _) ⟨.terminated rfl⟩
  | complete control flying node pending awaiting frame point named issued =>
    obtain ⟨rfl, rfl⟩ := resumes.eq_of_idle control
    subst awaiting
    have awaiter := linked.waiting control node pending frame point
    refine .one rfl ?_ (step_complete flying node frame point named awaiter (plain_of_step hstep))
      ⟨.outside control⟩
    rw [TaskHeap.Careful, frames_heap frame, Option.bind_some, Frame.coroutine, point]
    rfl

/-- A loop, and the heap of its objects. -/
structure Simulated (s : Machine L V X O) (h : TaskHeap V X) : Prop where
  sane : Sane s
  inv : h.Inv
  shows : s.Shows h

theorem simulated_init : Simulated ({} : Machine L V X O) {} :=
  ⟨.inr linked_init, TaskHeap.inv_init, ⟨.outside rfl⟩⟩

theorem simulated_step (sim : Simulated s h) (hstep : s.step e = some s') :
    ∃ h', Transition.exec TaskHeap.step h (s.moves e) = some h' ∧
      Meets TaskHeap.step TaskHeap.Careful h (s.moves e) ∧ Simulated s' h' := by
  rcases sim.sane with terminated | linked
  · cases e <;> simp only [step, terminated, reduceCtorEq] at hstep
  · obtain ⟨h', run, careful, shows'⟩ := moved_of_step linked sim.shows hstep
    have inv : h'.Inv := exec_invariant (fun _ _ _ => TaskHeap.inv_step) sim.inv careful run
    exact ⟨h', run, careful, sane_step sim.sane hstep, inv, shows'⟩

/-- The events of the objects in a run of the loop. -/
abbrev objectEvents (es : List (Event L V X O)) : List (HeapEvent V X) :=
  translate step moves {} es

/-- **The loop never mishandles a task object.** A run of it is a run of its objects, and in every state
of that each frame has one owner, names the object that owns its chain and was destroyed once at most. -/
theorem objects_owned {es : List (Event L V X O)} (run : Transition.exec step {} es = some s) :
    ∃ h, Transition.exec TaskHeap.step {} (objectEvents es) = some h ∧ s.Shows h ∧
      Always TaskHeap.step TaskHeap.Owned {} (objectEvents es) := by
  obtain ⟨h, moved, careful, sim⟩ :=
    exec_simulates (fun _ _ _ _ => simulated_step) simulated_init run
  refine ⟨h, moved, sim.shows, ?_⟩
  exact always_of_meets (fun _ _ _ => TaskHeap.inv_step) (fun _ => TaskHeap.owned_of_inv)
    TaskHeap.inv_init careful

/-- A task makes another one and calls a coroutine, which waits for an operation; the other one returns. -/
def callingRun : List (Event Unit Unit Unit Unit) :=
  [.enqueue (), .startPass, .visit, .exec (.coSpawn () ()), .exec (.awaitTask () fun _ => ()),
    .exec (.awaitOperation .timeout () fun _ _ => ()), .visit, .exec (.coReturn ()), .visit]

theorem objects_owned_calling :
    ∃ s, Transition.exec step {} callingRun = some s ∧
      ∃ h, Transition.exec TaskHeap.step {} (objectEvents callingRun) = some h ∧ s.Shows h ∧
        Always TaskHeap.step TaskHeap.Owned {} (objectEvents callingRun) :=
  ⟨_, rfl, objects_owned rfl⟩

/-- `~TaskLoop()`: the list's nodes are destroyed, from its front. -/
def destruction (s : Machine L V X O) : List (HeapEvent V X) :=
  (List.range s.queue.length).map .destroyScheduled

/-- **A loop that is destroyed leaves no frame, and destroys none twice**, whatever its tasks wait for. -/
theorem destroyed_once {es : List (Event L V X O)} (run : Transition.exec step {} es = some s)
    (idle : s.control = .idle) :
    ∃ h, Transition.exec TaskHeap.step {} (objectEvents es ++ s.destruction) = some h ∧
      ∀ f < s.nextFrame, h.destroyed.count f = 1 := by
  obtain ⟨h, moved, -, -, inv, shows'⟩ :=
    exec_simulates (fun _ _ _ _ => simulated_step) simulated_init run
  obtain @⟨stack, status, destroyed, resumes⟩ := shows'
  obtain ⟨rfl, rfl⟩ := resumes.eq_of_idle idle
  have nodes : ∀ n, n ∈ List.range s.queue.length ↔
      (s.heap [] .running destroyed).scheduled n ≠ none := by
    intro n
    have absent : (s.heap [] .running destroyed).scheduled n = none ↔ s.queue.length ≤ n :=
      Option.map_eq_none_iff.trans List.getElem?_eq_none_iff
    rw [List.mem_range, ne_eq, absent, Nat.not_le]
  obtain ⟨h', ends, once⟩ :=
    TaskHeap.destroyAll _ List.nodup_range inv rfl rfl (fun _ => rfl) nodes
  refine ⟨h', ?_, once⟩
  rw [exec_append, moved, Option.bind_some, destruction, ends]

theorem destroyed_once_calling :
    ∃ s, Transition.exec step {} callingRun = some s ∧ s.control = .idle ∧ s.nextFrame = 3 ∧
      ∃ h, Transition.exec TaskHeap.step {} (objectEvents callingRun ++ s.destruction) = some h ∧
        ∀ f < s.nextFrame, h.destroyed.count f = 1 :=
  ⟨_, rfl, rfl, rfl, destroyed_once rfl rfl⟩

end Machine

end CoNet.Async
