import CoNet.Laws.Async.Chain
import CoNet.Laws.Io.Uring

/-!
# Tasks, their chains and the operations in flight

`Linked` is what every state but a terminated one satisfies: a task that is not running is at the
start of its coroutine, waits for an operation at the innermost frame of its chain, or has finished;
the running one executes its innermost frame; and an operation in flight is the one a pending task
waits for. `Does` lists what an event does to such a state, so no event leads to undefined
behaviour.
-/

set_option autoImplicit false

namespace CoNet.Async.Machine

open CoNet.Io

variable {L V X O : Type}

/-- The task is being resumed. -/
def Running (s : Machine L V X O) (n : TaskId) : Prop := ∃ f body, s.control = .running n f body

/-- A task that is not being resumed. The operation it waits for is one it issued, and once that one
is not in flight its completion woke the task and is what the token holds. -/
inductive Suspended (frames : FrameId → Option (Frame L V X)) (inflight : List (Nat × FrameId))
    (log : List (Entry V X O)) (n : TaskId) (t : ScheduledTask) : Prop where
  | ready (body : L) (valid : t.valid = true) (pending : t.pending = false)
    (awaiting : t.awaitingHandle = t.task) (callers : Callers frames n t.task t.task [])
    (point : At frames t.task (.initial body))
  | waiting (id : Nat) (token : CompletionToken TaskId) (k : Int → BitVec 32 → L) (st : Stack L V X)
    (valid : t.valid = true) (callers : Callers frames n t.task t.awaitingHandle st)
    (nodup : (members t.awaitingHandle st).Nodup)
    (point : At frames t.awaitingHandle (.atOperation id token k))
    (named : token.chainTask = some n) (awaiter : uringAwaiterOp token.op = true)
    (flight : t.pending = true ↔ (id, t.awaitingHandle) ∈ inflight)
    (issued : ∃ arg, .performed id n arg ∈ log)
    (landed : t.pending = false → .woken id n token.cqeRes token.cqeFlags ∈ log)
  | finished (fr : Frame L V X) (valid : t.valid = false) (pending : t.pending = false)
    (frame : frames t.task = some fr) (point : fr.point = .final)
    (task : fr.promise.thisChainTask = some n)

/-- The task that is being resumed, and its innermost frame. -/
structure Executing (frames : FrameId → Option (Frame L V X)) (n : TaskId) (t : ScheduledTask)
    (f : FrameId) (st : Stack L V X) : Prop where
  valid : t.valid = true
  pending : t.pending = false
  callers : Callers frames n t.task f st
  nodup : (members f st).Nodup
  point : At frames f .executing

structure Linked (s : Machine L V X O) : Prop where
  suspended : ∀ n t, s.queue[n]? = some t → ¬ s.Running n →
    Suspended s.frames s.inflight s.log n t
  executing : ∀ n f body, s.control = .running n f body →
    ∃ t st, s.queue[n]? = some t ∧ Executing s.frames n t f st
  flight : ∀ id f, (id, f) ∈ s.inflight → ∃ (n : TaskId) (t : ScheduledTask), s.queue[n]? = some t ∧
    t.pending = true ∧ t.awaitingHandle = f ∧ ∃ token k, At s.frames f (.atOperation id token k)
  flight_nodup : s.inflight.Nodup
  flight_lt : ∀ id f, (id, f) ∈ s.inflight → id < s.nextOp
  fresh : ∀ f, s.nextFrame ≤ f → s.frames f = none
  defined : s.control ≠ .undefined

variable {s s' : Machine L V X O} {e : Event L V X O} {n : TaskId} {t : ScheduledTask}
  {f g : FrameId} {body : L} {st : Stack L V X} {fr : Frame L V X}

theorem linked_init : Linked ({} : Machine L V X O) where
  suspended n t h := absurd h (by simp)
  executing n f body h := absurd h (by simp)
  flight id f h := absurd h (by simp)
  flight_nodup := List.nodup_nil
  flight_lt id f h := absurd h (by simp)
  fresh _ _ := rfl
  defined h := absurd h (by simp)

/-- A frame that exists is below the next one. -/
theorem Linked.lt_nextFrame (linked : Linked s) (h : s.frames f = some fr) : f < s.nextFrame := by
  by_contra hle
  rw [linked.fresh f (Nat.not_lt.mp hle)] at h
  cases h

/-- A task that is not being resumed depends on its own frames, and on the operations these frames
wait for. -/
theorem Suspended.congr {frames frames' : FrameId → Option (Frame L V X)}
    {inflight inflight' : List (Nat × FrameId)} {log log' : List (Entry V X O)} {m : TaskId}
    {u : ScheduledTask} (h : Suspended frames inflight log m u)
    (same : ∀ x fr, frames x = some fr → fr.promise.thisChainTask = some m → frames' x = some fr)
    (flight : ∀ id x fr, frames x = some fr → fr.promise.thisChainTask = some m →
      ((id, x) ∈ inflight' ↔ (id, x) ∈ inflight))
    (grows : log ⊆ log') : Suspended frames' inflight' log' m u := by
  have keep : ∀ {x st}, Callers frames m u.task x st → ∀ y ∈ members x st, frames' y = frames y := by
    intro x st hc y hy
    obtain ⟨fr, hfr, htask⟩ := hc.task y hy
    rw [same y fr hfr htask, hfr]
  cases h with
  | ready body valid pending awaiting callers point =>
    obtain ⟨fr, hfr, hpoint⟩ := point
    refine .ready body valid pending awaiting (callers.congr (keep callers)) ⟨fr, ?_, hpoint⟩
    rw [keep callers _ List.mem_cons_self, hfr]
  | waiting id token k st valid callers nodup point named awaiter pending issued landed =>
    obtain ⟨fr, hfr, hpoint⟩ := point
    obtain ⟨fr', hfr', htask⟩ := callers.task _ List.mem_cons_self
    obtain ⟨arg, issued⟩ := issued
    refine .waiting id token k st valid (callers.congr (keep callers)) nodup ⟨fr, ?_, hpoint⟩ named
      awaiter (pending.trans (flight id _ fr' hfr' htask).symm) ⟨arg, grows issued⟩
      fun h => grows (landed h)
    rw [keep callers _ List.mem_cons_self, hfr]
  | finished fr valid pending frame point task =>
    exact .finished fr valid pending (same _ fr frame task) point task

/-- A suspended frame executes again. -/
theorem Executing.resume {frames : FrameId → Option (Frame L V X)} (valid : t.valid = true)
    (ready : t.pending = false) (callers : Callers frames n t.task f st)
    (nodup : (members f st).Nodup) (frame : frames f = some fr) :
    Executing (Function.update frames f (some { fr with point := .executing })) n t f st :=
  ⟨valid, ready, callers.update_inner nodup frame _, nodup, at_update_self _⟩

/-- The innermost frame calls a coroutine. -/
theorem Executing.call {frames : FrameId → Option (Frame L V X)} {c : FrameId}
    (executing : Executing frames n t f st) (frame : frames f = some fr) (fresh : c ∉ members f st)
    (k : Outcome V X → L) :
    Executing
      (Function.update (Function.update frames f (some { fr with point := .atTask c k })) c
        (some ⟨{ caller := some f, thisChainTask := some n }, .executing⟩)) n t c ((f, k) :: st) where
  valid := executing.valid
  pending := executing.pending
  callers := executing.callers.push executing.nodup frame fresh k .executing
  nodup := List.nodup_cons.mpr ⟨fresh, executing.nodup⟩
  point := at_update_self _

/-- The innermost frame ends, and its caller executes. -/
theorem Executing.ret {frames : FrameId → Option (Frame L V X)} {gr : Frame L V X}
    {k : Outcome V X → L} (executing : Executing frames n t f ((g, k) :: st))
    (caller : frames g = some gr) :
    Executing
      (Function.update (Function.update frames f none) g (some { gr with point := .executing })) n t
      g st where
  valid := executing.valid
  pending := executing.pending
  callers := executing.callers.pop executing.nodup caller .executing
  nodup := (List.nodup_cons.mp executing.nodup).2
  point := at_update_self _

/-- A new frame is not on a chain. -/
theorem Linked.fresh_members (linked : Linked s) {t : ScheduledTask}
    (executing : Executing s.frames n t f st) : s.nextFrame ∉ members f st := by
  intro hmem
  obtain ⟨fr, frame, -⟩ := executing.callers.task _ hmem
  exact Nat.lt_irrefl _ (linked.lt_nextFrame frame)

/-! ## What an event does -/

/-- The instruction a body ends with. -/
def endsWith : Outcome V X → Instr L V X O
  | .value v => .coReturn v
  | .thrown x => .throw x

/-- What is recorded of a callee's end. -/
def endEntries (f : FrameId) : Outcome V X → List (Entry V X O)
  | .value v => [.constructed f, .movedOut f, .delivered f (.value v)]
  | .thrown x => [.delivered f (.thrown x)]

inductive Does (s : Machine L V X O) : Event L V X O → Machine L V X O → Prop where
  | enqueue {task : L} (control : s.control = .idle) : Does s (.enqueue task) (s.emplaceBack task)
  | startPass (control : s.control = .idle) : Does s .startPass { s with control := .pass 0 }
  | endPass {n : TaskId} (control : s.control = .pass n) (node : s.queue[n]? = none) :
    Does s .visit { s with control := .idle }
  | skip {n : TaskId} {t : ScheduledTask} (control : s.control = .pass n)
    (node : s.queue[n]? = some t) (skipped : ¬ (t.valid = true ∧ t.pending = false)) :
    Does s .visit { s with control := .pass (n + 1) }
  | start {n : TaskId} {t : ScheduledTask} {body : L} {fr : Frame L V X}
    (control : s.control = .pass n) (node : s.queue[n]? = some t) (valid : t.valid = true)
    (ready : t.pending = false) (awaiting : t.awaitingHandle = t.task)
    (callers : Callers s.frames n t.task t.task [])
    (frame : s.frames t.task = some fr) (point : fr.point = .initial body) :
    Does s .visit
      { (s.setPoint t.task fr .executing).record [.resumed n] with
        control := .running n t.task body }
  | goOn {n : TaskId} {t : ScheduledTask} {id : Nat} {token : CompletionToken TaskId}
    {k : Int → BitVec 32 → L} {st : Stack L V X} {fr : Frame L V X}
    (control : s.control = .pass n) (node : s.queue[n]? = some t) (valid : t.valid = true)
    (ready : t.pending = false) (callers : Callers s.frames n t.task t.awaitingHandle st)
    (nodup : (members t.awaitingHandle st).Nodup)
    (frame : s.frames t.awaitingHandle = some fr) (point : fr.point = .atOperation id token k)
    (landed : .woken id n token.cqeRes token.cqeFlags ∈ s.log) :
    Does s .visit
      { (s.setPoint t.awaitingHandle fr .executing).record
          [.resumed n, .yielded id n token.cqeRes token.cqeFlags] with
        control := .running n t.awaitingHandle (k token.cqeRes token.cqeFlags) }
  | suspend {n : TaskId} {t : ScheduledTask} {f : FrameId} {body : L} {fr : Frame L V X}
    {st : Stack L V X} {op : Op} {arg : O} {k : Int → BitVec 32 → L}
    (control : s.control = .running n f body) (node : s.queue[n]? = some t)
    (executing : Executing s.frames n t f st) (frame : s.frames f = some fr)
    (awaiter : uringAwaiterOp op = true) :
    Does s (.exec (.awaitOperation op arg k))
      { ((s.setPoint f fr (.atOperation s.nextOp { op, chainTask := some n } k)).modifyTask n
            ({ · with awaitingHandle := f, pending := true })).record
          [.performed s.nextOp n arg] with
        inflight := s.inflight ++ [(s.nextOp, f)]
        nextOp := s.nextOp + 1
        control := .pass (n + 1) }
  | call {n : TaskId} {t : ScheduledTask} {f : FrameId} {body callee : L} {fr : Frame L V X}
    {st : Stack L V X} {k : Outcome V X → L}
    (control : s.control = .running n f body) (node : s.queue[n]? = some t)
    (executing : Executing s.frames n t f st) (frame : s.frames f = some fr) :
    Does s (.exec (.awaitTask callee k))
      { (s.setPoint f fr (.atTask s.nextFrame k)).setFrame s.nextFrame
          ⟨{ caller := some f, thisChainTask := some n }, .executing⟩ with
        nextFrame := s.nextFrame + 1
        control := .running n s.nextFrame callee }
  | spawn {n : TaskId} {t : ScheduledTask} {f : FrameId} {body task k : L} {st : Stack L V X}
    (control : s.control = .running n f body) (node : s.queue[n]? = some t)
    (executing : Executing s.frames n t f st) :
    Does s (.exec (.coSpawn task k)) { s.emplaceBack task with control := .running n f k }
  | ret {n : TaskId} {t : ScheduledTask} {f g : FrameId} {body : L} {gr : Frame L V X}
    {st : Stack L V X} {k : Outcome V X → L} {out : Outcome V X}
    (control : s.control = .running n f body) (node : s.queue[n]? = some t)
    (executing : Executing s.frames n t f ((g, k) :: st)) (caller : s.frames g = some gr) :
    Does s (.exec (endsWith out))
      { s with
        frames := Function.update (Function.update s.frames f none) g
          (some { gr with point := .executing })
        log := s.log ++ endEntries f out
        control := .running n g (k out) }
  | rootReturn {n : TaskId} {t : ScheduledTask} {body : L} {fr : Frame L V X} {v : V}
    (control : s.control = .running n t.task body) (node : s.queue[n]? = some t)
    (executing : Executing s.frames n t t.task []) (frame : s.frames t.task = some fr) :
    Does s (.exec (.coReturn v))
      { (s.setFrame t.task ⟨fr.promise.returnValue v, .final⟩).modifyTask n
          ({ · with valid := false }) with
        log := s.log ++ [.constructed t.task, .finished n t.task]
        control := .pass (n + 1) }
  | rootThrow {n : TaskId} {t : ScheduledTask} {body : L} {fr : Frame L V X} {x : X}
    (control : s.control = .running n t.task body) (node : s.queue[n]? = some t)
    (executing : Executing s.frames n t t.task []) (frame : s.frames t.task = some fr) :
    Does s (.exec (.throw x))
      { s.setFrame t.task ⟨fr.promise.unhandledException x, .final⟩ with control := .terminated }
  | complete {n : TaskId} {t : ScheduledTask} {id : Nat} {f : FrameId} {fr : Frame L V X}
    {token : CompletionToken TaskId} {k : Int → BitVec 32 → L} {res : Int} {flags : BitVec 32}
    (control : s.control = .idle) (flying : (id, f) ∈ s.inflight) (node : s.queue[n]? = some t)
    (pending : t.pending = true) (awaiting : t.awaitingHandle = f) (frame : s.frames f = some fr)
    (point : fr.point = .atOperation id token k) (named : token.chainTask = some n)
    (issued : ∃ arg, .performed id n arg ∈ s.log) :
    Does s (.complete (id, f) res flags)
      { (s.setPoint f fr (.atOperation id { token with cqeRes := res, cqeFlags := flags } k)).modifyTask
          n ({ · with pending := false }) with
        inflight := s.inflight.erase (id, f)
        log := s.log ++ [.woken id n res flags] }

/-! ## No event leads to undefined behaviour -/

theorem resume_initial (frame : s.frames t.awaitingHandle = some fr)
    (point : fr.point = .initial body) :
    s.resume n t =
      some { (s.setPoint t.awaitingHandle fr .executing).record [.resumed n] with
        control := .running n t.awaitingHandle body } := by
  simp only [resume, frame, Option.bind_eq_bind, Option.bind_some, point]

theorem resume_operation {id : Nat} {token : CompletionToken TaskId} {k : Int → BitVec 32 → L}
    (frame : s.frames t.awaitingHandle = some fr) (point : fr.point = .atOperation id token k) :
    s.resume n t =
      some { (s.setPoint t.awaitingHandle fr .executing).record
          [.resumed n, .yielded id n token.cqeRes token.cqeFlags] with
        control := .running n t.awaitingHandle (k token.cqeRes token.cqeFlags) } := by
  simp only [resume, frame, Option.bind_eq_bind, Option.bind_some, point]

/-- A task that is valid and not pending is resumed at the start of its coroutine, or with the
operation it waited for. -/
theorem does_of_resume (linked : Linked s) (control : s.control = .pass n)
    (node : s.queue[n]? = some t) (valid : t.valid = true) (ready : t.pending = false) :
    ∃ s', s.resume n t = some s' ∧ Does s .visit s' := by
  have idle : ¬ s.Running n := by
    rintro ⟨f, body, h⟩
    rw [control] at h
    cases h
  cases linked.suspended n t node idle with
  | ready body _ _ awaiting callers point =>
    obtain ⟨fr, frame, point⟩ := point
    have h := resume_initial (n := n) (awaiting ▸ frame) point
    rw [awaiting] at h
    exact ⟨_, h, .start control node valid ready awaiting callers frame point⟩
  | waiting id token k st _ callers nodup point named awaiter flight issued landed =>
    obtain ⟨fr, frame, point⟩ := point
    exact ⟨_, resume_operation frame point,
      .goOn control node valid ready callers nodup frame point (landed ready)⟩
  | finished fr invalid => exact absurd (invalid.symm.trans valid) (by simp)

theorem visit_resume (node : s.queue[n]? = some t) (valid : t.valid = true)
    (ready : t.pending = false) : s.visit n = s.resume n t := by
  simp [visit, node, valid, ready]

theorem does_of_visit (linked : Linked s) (control : s.control = .pass n) :
    ∃ s', s.visit n = some s' ∧ Does s .visit s' := by
  cases node : s.queue[n]? with
  | none => exact ⟨_, by simp only [visit, node], .endPass control node⟩
  | some t =>
    by_cases run : t.valid = true ∧ t.pending = false
    · rw [visit_resume node run.1 run.2]
      exact does_of_resume linked control node run.1 run.2
    · refine ⟨_, ?_, .skip control node run⟩
      have hskip : ¬ (t.valid && !t.pending) = true := by simpa using run
      simp only [visit, node, if_neg hskip]

theorem afterResume_unfinished (node : s.queue[n]? = some t) (frame : s.frames t.task = some fr)
    (point : fr.point ≠ .final) : s.afterResume n = some { s with control := .pass (n + 1) } := by
  simp only [afterResume, node, frame, Option.bind_eq_bind, Option.bind_some]

theorem afterResume_finished (node : s.queue[n]? = some t) (frame : s.frames t.task = some fr)
    (point : fr.point = .final) :
    s.afterResume n =
      some { (s.modifyTask n ({ · with valid := false })).record [.finished n t.task] with
        control := .pass (n + 1) } := by
  simp only [afterResume, node, frame, Option.bind_eq_bind, Option.bind_some, point]

theorem modifyTask_self (node : s.queue[n]? = some t) (g : ScheduledTask → ScheduledTask) :
    (s.modifyTask n g).queue[n]? = some (g t) := by
  rw [modifyTask, List.getElem?_modify_eq, node]
  rfl

/-- The root of a chain whose innermost frame is not at its end has not finished. -/
theorem Executing.root_unfinished (executing : Executing s.frames n t f st) {p : Point L V X}
    (hp : p ≠ .final) (fr : Frame L V X) :
    ∃ fr', (Function.update s.frames f (some { fr with point := p })) t.task = some fr' ∧
      fr'.point ≠ .final := by
  by_cases h : t.task = f
  · exact ⟨_, by rw [h, Function.update_self], hp⟩
  · rcases executing.callers.root_cases with ⟨-, hf⟩ | ⟨-, c, k, gr, hgr, hpoint⟩
    · exact absurd hf.symm h
    · exact ⟨gr, by rw [Function.update_of_ne h, hgr], by rw [hpoint]; simp⟩

theorem exec_suspend (op : Op) (arg : O) (k : Int → BitVec 32 → L) (node : s.queue[n]? = some t)
    (executing : Executing s.frames n t f st) (frame : s.frames f = some fr) :
    s.exec n f (.awaitOperation op arg k) =
      some { ((s.setPoint f fr (.atOperation s.nextOp { op, chainTask := some n } k)).modifyTask n
            ({ · with awaitingHandle := f, pending := true })).record
          [.performed s.nextOp n arg] with
        inflight := s.inflight ++ [(s.nextOp, f)]
        nextOp := s.nextOp + 1
        control := .pass (n + 1) } := by
  obtain ⟨fr', frame', hin⟩ := executing.callers.inner
  obtain rfl := Option.some.inj (frame.symm.trans frame')
  obtain ⟨fr', hfr', hpoint⟩ := executing.root_unfinished
    (show Point.atOperation s.nextOp { op, chainTask := some n } k ≠ .final by simp) fr
  simp only [exec, awaitOperation, frame, hin.task_eq, node, Option.bind_eq_bind, Option.bind_some]
  exact afterResume_unfinished (modifyTask_self node _) hfr' hpoint

theorem exec_call (callee : L) (k : Outcome V X → L) (executing : Executing s.frames n t f st)
    (frame : s.frames f = some fr) :
    s.exec n f (.awaitTask callee k) =
      some { (s.setPoint f fr (.atTask s.nextFrame k)).setFrame s.nextFrame
          ⟨{ caller := some f, thisChainTask := some n }, .executing⟩ with
        nextFrame := s.nextFrame + 1
        control := .running n s.nextFrame callee } := by
  obtain ⟨fr', frame', hin⟩ := executing.callers.inner
  obtain rfl := Option.some.inj (frame.symm.trans frame')
  simp only [exec, awaitTask, frame, hin.task_eq, Option.bind_eq_bind, Option.bind_some]

/-- A body's end returns control to its caller. -/
theorem finish_ret {gr : Frame L V X} {k : Outcome V X → L}
    (executing : Executing s.frames n t f ((g, k) :: st)) (caller : s.frames g = some gr)
    (out : Outcome V X) :
    s.finish n f out =
      some { s with
        frames := Function.update (Function.update s.frames f none) g
          (some { gr with point := .executing })
        log := s.log ++ endEntries f out
        control := .running n g (k out) } := by
  obtain ⟨fr, frame, hin⟩ := executing.callers.inner
  obtain ⟨gr', caller', hpoint⟩ := executing.callers.2.1
  obtain rfl := Option.some.inj (caller.symm.trans caller')
  have hne : g ≠ f := by
    rintro rfl
    exact (List.nodup_cons.mp executing.nodup).1 List.mem_cons_self
  obtain ⟨p', hresult⟩ := Promise.result_finished hin.toUnfinished out
  simp only [finish, frame, Option.bind_eq_bind, Option.bind_some, finalSuspend,
    Promise.finished_caller, hin.caller_eq, List.head?_cons, Option.map_some, resumeCaller,
    record, setFrame, Function.update_of_ne hne, caller, hpoint, Function.update_self, hresult,
    setPoint, Function.update_idem]
  cases out <;> simp [endEntries]

/-- A root coroutine returns. -/
theorem finish_root (node : s.queue[n]? = some t) (executing : Executing s.frames n t t.task [])
    (frame : s.frames t.task = some fr) (v : V) :
    s.finish n t.task (.value v) =
      some { (s.setFrame t.task ⟨fr.promise.returnValue v, .final⟩).modifyTask n
          ({ · with valid := false }) with
        log := s.log ++ [.constructed t.task, .finished n t.task]
        control := .pass (n + 1) } := by
  obtain ⟨fr', frame', hin⟩ := executing.callers.inner
  obtain rfl := Option.some.inj (frame.symm.trans frame')
  have hexp : (fr.promise.finished (.value v)).exp = none := hin.exp
  have hnode : ((s.setFrame t.task ⟨fr.promise.finished (.value v), .final⟩).record
      [.constructed t.task]).queue[n]? = some t := node
  have hframe : ((s.setFrame t.task ⟨fr.promise.finished (.value v), .final⟩).record
      [.constructed t.task]).frames t.task = some _ := Function.update_self ..
  simp only [finish, frame, Option.bind_eq_bind, Option.bind_some, finalSuspend,
    Promise.finished_caller, hin.caller_eq, List.head?_nil, Option.map_none, hexp]
  refine (afterResume_finished hnode hframe rfl).trans ?_
  simp [record, modifyTask, setFrame, Promise.finished]

/-- An exception leaves a root coroutine. -/
theorem finish_terminate (executing : Executing s.frames n t t.task [])
    (frame : s.frames t.task = some fr) (x : X) :
    s.finish n t.task (.thrown x) =
      some { s.setFrame t.task ⟨fr.promise.unhandledException x, .final⟩ with
        control := .terminated } := by
  obtain ⟨fr', frame', hin⟩ := executing.callers.inner
  obtain rfl := Option.some.inj (frame.symm.trans frame')
  simp only [finish, frame, Option.bind_eq_bind, Option.bind_some, finalSuspend,
    hin.caller_eq, List.head?_nil, Option.map_none, Promise.finished,
    Promise.unhandledException, record, setFrame, List.append_nil]

/-- A body ends: with a caller, or as the root of its task. -/
theorem does_of_finish (out : Outcome V X)
    (control : s.control = .running n f body) (node : s.queue[n]? = some t)
    (executing : Executing s.frames n t f st) :
    ∃ s', s.finish n f out = some s' ∧ Does s (.exec (endsWith out)) s' := by
  obtain ⟨fr, frame, hin⟩ := executing.callers.inner
  cases st with
  | cons top st =>
    obtain ⟨g, k⟩ := top
    obtain ⟨gr, caller, -⟩ := executing.callers.2.1
    exact ⟨_, finish_ret executing caller out, .ret control node executing caller⟩
  | nil =>
    obtain ⟨rfl, -⟩ := executing.callers
    cases out with
    | value v => exact ⟨_, finish_root node executing frame v, .rootReturn control node executing frame⟩
    | thrown x =>
      exact ⟨_, finish_terminate executing frame x, .rootThrow control node executing frame⟩

theorem does_of_exec (linked : Linked s) (control : s.control = .running n f body)
    (instr : Instr L V X O) (h : s.step (.exec instr) = some s') : Does s (.exec instr) s' := by
  obtain ⟨t, st, node, executing⟩ := linked.executing n f body control
  cases instr with
  | awaitOperation op arg k =>
    simp only [step, control] at h
    split at h
    · rename_i awaiter
      obtain ⟨fr, frame, -⟩ := executing.callers.inner
      rw [exec_suspend op arg k node executing frame] at h
      cases h
      exact .suspend control node executing frame awaiter
    · cases h
  | awaitTask callee k =>
    obtain ⟨fr, frame, -⟩ := executing.callers.inner
    simp only [step, control, exec_call callee k executing frame, orUndefined] at h
    cases h
    exact .call control node executing frame
  | coSpawn task k =>
    simp only [step, control, exec, orUndefined] at h
    cases h
    exact .spawn control node executing
  | coReturn v =>
    obtain ⟨s₁, hs₁, does⟩ := does_of_finish (.value v) control node executing
    simp only [step, control, exec, hs₁, orUndefined] at h
    cases h
    exact does
  | throw x =>
    obtain ⟨s₁, hs₁, does⟩ := does_of_finish (.thrown x) control node executing
    simp only [step, control, exec, hs₁, orUndefined] at h
    cases h
    exact does

/-- The completion of an awaiter's operation stores its result in the token and wakes the task the
token names. -/
theorem handleRequest_awaiter {token : CompletionToken TaskId} {res : Int} {flags : BitVec 32}
    (awaiter : uringAwaiterOp token.op = true) (named : token.chainTask = some n)
    (hflags : flags &&& netIoringCqeFTask = 0) :
    ({} : Uring).handleRequest {} (⟨res, flags, some (f, .token token)⟩ :
        Cqe Unit Unit TaskId FrameId) =
      some ({}, [.storeResult f res flags, .setPending n false]) := by
  have hm : ∀ type, Uring.isMessage (⟨res, flags, some (f, .token token)⟩ :
      Cqe Unit Unit TaskId FrameId) type = false := fun type => by simp [Uring.isMessage, hflags]
  rw [Uring.handleRequest_token (by simp only [Uring.isTaskMessage, hm, Bool.or_self]) rfl]
  cases hop : token.op <;> simp only [uringAwaiterOp, hop, Bool.false_eq_true] at awaiter
  all_goals simp only [Uring.handleToken, hop, named]

theorem complete_awaiter {id : Nat} {token : CompletionToken TaskId} {k : Int → BitVec 32 → L}
    {flags : BitVec 32} (res : Int) (node : s.queue[n]? = some t) (frame : s.frames f = some fr)
    (point : fr.point = .atOperation id token k) (named : token.chainTask = some n)
    (awaiter : uringAwaiterOp token.op = true) (hflags : flags &&& netIoringCqeFTask = 0) :
    s.complete (id, f) res flags =
      some { (s.setPoint f fr (.atOperation id { token with cqeRes := res, cqeFlags := flags } k)).modifyTask
          n ({ · with pending := false }) with
        inflight := s.inflight.erase (id, f)
        log := s.log ++ [.woken id n res flags] } := by
  simp only [complete, frame, point, Option.bind_eq_bind, Option.bind_some,
    handleRequest_awaiter awaiter named hflags, List.foldlM_cons, List.foldlM_nil, applyEffect,
    setPoint, setFrame, node, wakes, List.filterMap_cons, List.filterMap_nil, modifyTask, record,
    Option.pure_def, Option.map_some]

theorem does_of_complete (linked : Linked s) (control : s.control = .idle) {id : Nat}
    (flying : (id, f) ∈ s.inflight) (res : Int) {flags : BitVec 32}
    (hflags : flags &&& netIoringCqeFTask = 0) :
    ∃ s', s.complete (id, f) res flags = some s' ∧ Does s (.complete (id, f) res flags) s' := by
  obtain ⟨n, t, node, pending, awaiting, token, k, fr, frame, point⟩ := linked.flight id f flying
  have idle : ¬ s.Running n := by
    rintro ⟨g, body, h⟩
    rw [control] at h
    cases h
  cases linked.suspended n t node idle with
  | ready body _ notPending => exact absurd (notPending.symm.trans pending) (by simp)
  | finished fr' _ notPending => exact absurd (notPending.symm.trans pending) (by simp)
  | waiting id' token' k' st valid callers nodup point' named awaiter flight issued =>
    rw [awaiting] at point'
    cases point'.unique ⟨fr, frame, point⟩
    exact ⟨_, complete_awaiter res node frame point named awaiter hflags,
      .complete control flying node pending awaiting frame point named issued⟩

/-- **What an event does**, in a state that satisfies the invariant. -/
theorem does_of_step (linked : Linked s) (h : s.step e = some s') : Does s e s' := by
  cases e with
  | enqueue task =>
    simp only [step] at h
    split at h
    · rename_i control
      cases h
      exact .enqueue control
    · cases h
  | startPass =>
    simp only [step] at h
    split at h
    · rename_i control
      cases h
      exact .startPass control
    · cases h
  | visit =>
    simp only [step] at h
    split at h
    · rename_i n control
      obtain ⟨s₁, hs₁, does⟩ := does_of_visit linked control
      rw [hs₁] at h
      cases h
      exact does
    · cases h
  | exec instr =>
    cases control : s.control with
    | running n f body => exact does_of_exec linked control instr h
    | _ => simp only [step, control, reduceCtorEq] at h
  | complete operation res flags =>
    obtain ⟨id, f⟩ := operation
    simp only [step] at h
    split at h
    · rename_i control
      split at h
      · rename_i guard
        obtain ⟨s₁, hs₁, does⟩ := does_of_complete linked control guard.1 res guard.2
        rw [hs₁] at h
        cases h
        exact does
      · cases h
    · cases h

end CoNet.Async.Machine
