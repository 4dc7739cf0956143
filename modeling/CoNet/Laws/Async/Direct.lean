import CoNet.Async.Driver
import CoNet.Laws.Async.Results

/-!
# A resumed task runs as its coroutines would by ordinary calls

`Sim` relates a driver to the machine of `Calls` that runs the same program with an explicit stack:
the continuations of the callers of the innermost frame are the stack. `simulation` is the proof
that they run in step, up to the passes that a resumption takes; `runs_as_direct` takes it to the
direct-style evaluation.
-/

set_option autoImplicit false

namespace CoNet.Async.Driver

open CoNet.Io Machine Steps

variable {L V X O : Type}

/-- The continuations of a chain's callers, as a stack of the direct-style machine. -/
def conts (st : Stack L V X) : Calls.Stack L V X := st.map Prod.snd

/-- The task is at an operation. -/
structure Waits (s : Machine L V X (Operation O)) (t : ScheduledTask) (id : Nat)
    (token : CompletionToken TaskId) (k : Int → BitVec 32 → L) (st : Stack L V X) : Prop where
  linked : s.Linked
  queue : s.queue = [t]
  valid : t.valid = true
  callers : Callers s.frames 0 t.task t.awaitingHandle st
  nodup : (members t.awaitingHandle st).Nodup
  point : At s.frames t.awaitingHandle (.atOperation id token k)
  named : token.chainTask = some 0
  awaiter : uringAwaiterOp token.op = true

/-- The configuration of the direct-style machine that a point of it makes with a driver. -/
def config (d : Driver L V X O) (point : Calls.Point L V X (Int × BitVec 32)) :
    Calls.Config L V X (Operation O) (Int × BitVec 32) :=
  ⟨point, d.results.map OpResult.pair, d.trace⟩

inductive Sim (d : Driver L V X O) : Calls.Config L V X (Operation O) (Int × BitVec 32) → Prop where
  | ready (t : ScheduledTask) (body : L) (linked : d.machine.Linked) (queue : d.machine.queue = [t])
    (control : d.machine.control = .idle ∨ d.machine.control = .pass 0) (valid : t.valid = true)
    (pending : t.pending = false) (awaiting : t.awaitingHandle = t.task)
    (callers : Callers d.machine.frames 0 t.task t.task [])
    (point : At d.machine.frames t.task (.initial body)) (inflight : d.machine.inflight = []) :
    Sim d (d.config (.run body []))
  | running (t : ScheduledTask) (f : FrameId) (body : L) (st : Stack L V X)
    (linked : d.machine.Linked) (queue : d.machine.queue = [t])
    (control : d.machine.control = .running 0 f body)
    (executing : Executing d.machine.frames 0 t f st) (inflight : d.machine.inflight = []) :
    Sim d (d.config (.run body (conts st)))
  | pending (t : ScheduledTask) (id : Nat) (token : CompletionToken TaskId)
    (k : Int → BitVec 32 → L) (st : Stack L V X) (waits : Waits d.machine t id token k st)
    (control : d.machine.control = .pass 1 ∨ d.machine.control = .idle) (pending : t.pending = true)
    (inflight : d.machine.inflight = [(id, t.awaitingHandle)]) :
    Sim d (d.config (.wait (fun r => k r.1 r.2) (conts st)))
  | landed (t : ScheduledTask) (id : Nat) (token : CompletionToken TaskId)
    (k : Int → BitVec 32 → L) (st : Stack L V X) (waits : Waits d.machine t id token k st)
    (control : d.machine.control = .idle ∨ d.machine.control = .pass 0) (pending : t.pending = false)
    (inflight : d.machine.inflight = []) :
    Sim d ⟨.wait (fun r => k r.1 r.2) (conts st),
      (token.cqeRes, token.cqeFlags) :: d.results.map OpResult.pair, d.trace⟩
  | returned (t : ScheduledTask) (fr : Frame L V X) (v : V) (queue : d.machine.queue = [t])
    (control : d.machine.control = .pass 1 ∨ d.machine.control = .idle) (valid : t.valid = false)
    (frame : d.machine.frames t.task = some fr) (res : fr.promise.res = .live v)
    (inflight : d.machine.inflight = []) : Sim d (d.config (.done (.value v)))
  | terminated (x : X) (control : d.machine.control = .terminated) :
    Sim d (d.config (.done (.thrown x)))

/-- How far the driver is from the next step of a body. -/
def rank (d : Driver L V X O) : Nat :=
  match d.machine.control with
  | .pass 0 => 1
  | .pass _ => 4
  | .idle => if d.machine.inflight.isEmpty then 2 else 3
  | _ => 0

variable {program : Program L V X O} {d d' : Driver L V X O} {s' : Machine L V X (Operation O)}
  {t : ScheduledTask} {n : TaskId} {f : FrameId} {body : L} {st : Stack L V X}
  {c c' : Calls.Config L V X (Operation O) (Int × BitVec 32)}

theorem rank_running (control : d.machine.control = .running n f body) : d.rank = 0 := by
  simp only [rank, control]

theorem rank_pass_zero (control : d.machine.control = .pass 0) : d.rank = 1 := by
  simp only [rank, control]

theorem rank_pass_one (control : d.machine.control = .pass 1) : d.rank = 4 := by
  simp only [rank, control]

theorem rank_ready (control : d.machine.control = .idle) (inflight : d.machine.inflight = []) :
    d.rank = 2 := by
  simp [rank, control, inflight]

theorem rank_flying {operation : Nat × FrameId} (control : d.machine.control = .idle)
    (inflight : d.machine.inflight = [operation]) : d.rank = 3 := by
  simp [rank, control, inflight]

theorem rank_lt {r r' : Nat} (h' : d'.rank = r') (h : d.rank = r) (lt : r' < r := by omega) :
    d'.rank < d.rank := by
  rw [h', h]
  exact lt

/-! ## Steps of the driver -/

theorem step_running (control : d.machine.control = .running n f body)
    (h : d.machine.exec n f (instr (program body)) = some s') :
    d.step program = some ⟨s', d.results⟩ := by
  have hstep : d.machine.step (.exec (instr (program body))) = some s' := by
    cases hinstr : instr (program body) with
    | awaitOperation op arg k =>
      have uring : uringAwaiterOp op = true := by
        cases hbody : program body with
        | perform operation k' =>
          rw [hbody] at hinstr
          cases hinstr
          exact arg.uring
        | _ => rw [hbody] at hinstr; cases hinstr
      rw [hinstr] at h
      simp only [Machine.step, control, uring, if_true, h, orUndefined]
    | _ =>
      rw [hinstr] at h
      simp only [Machine.step, control, h, orUndefined]
  simp only [step, event, control, Option.bind_some, hstep, Option.map_some]

theorem step_visit (control : d.machine.control = .pass n) (h : d.machine.visit n = some s') :
    d.step program = some ⟨s', d.results⟩ := by
  simp only [step, event, control, Option.bind_some, Machine.step, h, orUndefined, Option.map_some]

theorem step_startPass (control : d.machine.control = .idle) (inflight : d.machine.inflight = [])
    (queue : d.machine.queue = [t]) (valid : t.valid = true) :
    d.step program = some ⟨{ d.machine with control := .pass 0 }, d.results⟩ := by
  have hvalid : d.machine.queue.any (·.valid) = true := by simp [queue, valid]
  simp only [step, event, control, inflight, hvalid, if_true, Option.bind_some, Machine.step,
    Option.map_some]

theorem step_complete {id : Nat} {r : OpResult} {rest : List OpResult} (control : d.machine.control = .idle)
    (results : d.results = r :: rest) (inflight : d.machine.inflight = [(id, f)])
    (h : d.machine.complete (id, f) r.res r.flags = some s') :
    d.step program = some ⟨s', rest⟩ := by
  have hstep : d.machine.step (.complete (id, f) r.res r.flags) = some s' := by
    have guard : (id, f) ∈ d.machine.inflight ∧ r.flags &&& netIoringCqeFTask = 0 :=
      ⟨by rw [inflight]; exact List.mem_singleton_self _, r.plain⟩
    simp only [Machine.step, control, guard, and_self, if_true, h, orUndefined]
  simp only [step, event, control, inflight, results, Option.bind_some, hstep, Option.map_some]

theorem step_blocked {operation : Nat × FrameId} (control : d.machine.control = .idle)
    (inflight : d.machine.inflight = [operation]) (results : d.results = []) :
    d.step program = none := by
  simp only [step, event, control, inflight, results, Option.bind_none]

theorem step_finished (control : d.machine.control = .idle) (inflight : d.machine.inflight = [])
    (queue : d.machine.queue = [t]) (valid : t.valid = false) : d.step program = none := by
  have hvalid : ¬ d.machine.queue.any (·.valid) = true := by simp [queue, valid]
  simp only [step, event, control, inflight, if_neg hvalid, Option.bind_none]

theorem step_terminated (control : d.machine.control = .terminated) : d.step program = none := by
  simp only [step, event, control, Option.bind_none]

/-- The trace after more entries. -/
theorem trace_append (entries : List (Entry V X (Operation O)))
    (log : d'.machine.log = d.machine.log ++ entries) :
    d'.trace = d.trace ++ entries.filterMap observed := by
  rw [trace, log, List.filterMap_append]
  rfl

theorem Sim.of_trace {point : Calls.Point L V X (Int × BitVec 32)} {results : List (Int × BitVec 32)}
    {trace : List (Calls.Obs V X (Operation O) (Int × BitVec 32))}
    (sim : Sim d ⟨point, results, d.trace⟩) (h : d.trace = trace) :
    Sim d ⟨point, results, trace⟩ :=
  h ▸ sim

theorem modifyTask_single {s : Machine L V X (Operation O)} {g : ScheduledTask → ScheduledTask}
    (queue : s.queue = [t]) : (s.modifyTask 0 g).queue = [g t] := by
  rw [modifyTask, queue]
  rfl

theorem getElem?_queue {s : Machine L V X (Operation O)} (queue : s.queue = [t]) :
    s.queue[0]? = some t := by
  rw [queue]
  rfl

/-! ## A body's actions -/

/-- A body ends. -/
theorem sim_leave (linked : d.machine.Linked) (queue : d.machine.queue = [t])
    (control : d.machine.control = .running 0 f body)
    (executing : Executing d.machine.frames 0 t f st) (inflight : d.machine.inflight = [])
    (out : Outcome V X) (hinstr : instr (program body) = endsWith out)
    (hstep : Calls.step program (d.config (.run body (conts st))) =
      some (.leave out (d.results.map OpResult.pair) d.trace (conts st))) :
    ∃ d' c', d.step program = some d' ∧
      Calls.step program (d.config (.run body (conts st))) = some c' ∧ Sim d' c' := by
  have node := getElem?_queue queue
  have hexec : ∀ s', d.machine.finish 0 f out = some s' →
      d.step program = some ⟨s', d.results⟩ := by
    intro s' h
    apply step_running control
    rw [hinstr]
    cases out <;> exact h
  cases st with
  | cons top st =>
    obtain ⟨g, k⟩ := top
    obtain ⟨gr, caller, -⟩ := executing.callers.2.1
    refine ⟨_, _, hexec _ (finish_ret executing caller out), hstep, ?_⟩
    refine Sim.of_trace ?_ ((trace_append (endEntries f out) rfl).trans ?_)
    · exact .running t g (k out) st (linked.ret control node executing caller _ _) queue rfl
        (executing.ret caller) inflight
    · cases out <;> rfl
  | nil =>
    obtain ⟨rfl, fr, frame, -⟩ := executing.callers
    cases out with
    | value v =>
      refine ⟨_, _, hexec _ (finish_root node executing frame v), hstep, ?_⟩
      refine Sim.of_trace ?_ ((trace_append [.constructed t.task, .finished 0 t.task] rfl).trans
        (List.append_nil _))
      exact .returned { t with valid := false } ⟨fr.promise.returnValue v, .final⟩ v
        (modifyTask_single queue) (.inl rfl) rfl (Function.update_self ..) rfl inflight
    | thrown x =>
      refine ⟨_, _, hexec _ (finish_terminate executing frame x), hstep, ?_⟩
      exact Sim.terminated x rfl

/-- The running body and the direct-style machine do the same action. -/
theorem sim_running (linked : d.machine.Linked) (queue : d.machine.queue = [t])
    (control : d.machine.control = .running 0 f body)
    (executing : Executing d.machine.frames 0 t f st) (inflight : d.machine.inflight = []) :
    ∃ d' c', d.step program = some d' ∧
      Calls.step program (d.config (.run body (conts st))) = some c' ∧ Sim d' c' := by
  have node := getElem?_queue queue
  obtain ⟨fr, frame, hin⟩ := executing.callers.inner
  cases hbody : program body with
  | perform operation k =>
    have hexec := exec_suspend operation.op operation (fun res flags => k (res, flags)) node
      executing frame
    refine ⟨_, _, step_running control (by rw [hbody]; exact hexec), Calls.step_perform hbody, ?_⟩
    refine Sim.of_trace ?_ (trace_append [.performed d.machine.nextOp 0 operation] rfl)
    refine .pending { t with awaitingHandle := f, pending := true } d.machine.nextOp
      { op := operation.op, chainTask := some 0 } (fun res flags => k (res, flags)) st ?_ (.inl rfl)
      rfl (by rw [inflight]; rfl)
    exact {
      linked := linked.suspend control node executing frame operation.uring operation
      queue := modifyTask_single queue
      valid := executing.valid
      callers := executing.callers.update_inner executing.nodup frame _
      nodup := executing.nodup
      point := at_update_self _
      named := rfl
      awaiter := operation.uring }
  | call callee k =>
    have hexec := exec_call callee k executing frame
    refine ⟨_, _, step_running control (by rw [hbody]; exact hexec), Calls.step_call hbody, ?_⟩
    exact Sim.running t d.machine.nextFrame callee ((f, k) :: st)
      (linked.call control node executing frame) queue rfl
      (executing.call frame (linked.fresh_members executing) k) inflight
  | ret v =>
    exact sim_leave linked queue control executing inflight (.value v) (by rw [hbody]; rfl)
      (Calls.step_ret hbody)
  | raise x =>
    exact sim_leave linked queue control executing inflight (.thrown x) (by rw [hbody]; rfl)
      (Calls.step_raise hbody)

/-! ## Between two resumptions -/

theorem step_endPass (control : d.machine.control = .pass 1) (queue : d.machine.queue = [t]) :
    d.step program = some ⟨{ d.machine with control := .idle }, d.results⟩ :=
  step_visit control (by simp [visit, queue])

/-- A pass is started, or the task that is ready is resumed. -/
theorem Waits.setControl {s : Machine L V X (Operation O)} {id : Nat}
    {token : CompletionToken TaskId} {k : Int → BitVec 32 → L} (waits : Waits s t id token k st)
    {control : Control L} (idle : ∀ n f body, s.control ≠ .running n f body)
    (h : ∀ n f body, control ≠ .running n f body) (defined : control ≠ .undefined) :
    Waits { s with control } t id token k st :=
  { waits with linked := waits.linked.setControl idle h defined }

/-- The operation completes. -/
theorem Waits.complete {s : Machine L V X (Operation O)} {id : Nat} {fr : Frame L V X}
    {token : CompletionToken TaskId} {k : Int → BitVec 32 → L} (waits : Waits s t id token k st)
    (control : s.control = .idle) (pending : t.pending = true)
    (flying : (id, t.awaitingHandle) ∈ s.inflight) (frame : s.frames t.awaitingHandle = some fr)
    (point : fr.point = .atOperation id token k) (res : Int) (flags : BitVec 32) :
    Waits { (s.setPoint t.awaitingHandle fr
            (.atOperation id { token with cqeRes := res, cqeFlags := flags } k)).modifyTask 0
          ({ · with pending := false }) with
        inflight := s.inflight.erase (id, t.awaitingHandle)
        log := s.log ++ [.woken id 0 res flags] }
      { t with pending := false } id { token with cqeRes := res, cqeFlags := flags } k st where
  linked := waits.linked.complete control flying (getElem?_queue waits.queue) pending rfl frame point
    res flags
  queue := modifyTask_single waits.queue
  valid := waits.valid
  callers := waits.callers.update_inner waits.nodup frame _
  nodup := waits.nodup
  point := at_update_self _
  named := waits.named
  awaiter := waits.awaiter

/-- What a driver and the direct-style machine do in related states. -/
def Progress (program : Program L V X O) (d : Driver L V X O)
    (c : Calls.Config L V X (Operation O) (Int × BitVec 32)) : Prop :=
  (∃ d' c', d.step program = some d' ∧ Calls.step program c = some c' ∧ Sim d' c') ∨
  (∃ d', d.step program = some d' ∧ Sim d' c ∧ d'.rank < d.rank) ∨
  (d.step program = none ∧ Calls.step program c = none)

theorem progress_ready (linked : d.machine.Linked) (queue : d.machine.queue = [t])
    (control : d.machine.control = .idle ∨ d.machine.control = .pass 0) (valid : t.valid = true)
    (pending : t.pending = false) (awaiting : t.awaitingHandle = t.task)
    (callers : Callers d.machine.frames 0 t.task t.task [])
    (point : At d.machine.frames t.task (.initial body)) (inflight : d.machine.inflight = []) :
    Progress program d (d.config (.run body [])) := by
  rcases control with control | control
  · refine .inr (.inl ⟨_, step_startPass control inflight queue valid, ?_, ?_⟩)
    · exact .ready t body (linked.setControl (by simp [control]) (by simp) (by simp)) queue (.inr rfl)
        valid pending awaiting callers point inflight
    · exact rank_lt (rank_pass_zero rfl) (rank_ready control inflight)
  · obtain ⟨fr, frame, point⟩ := point
    rw [← awaiting] at frame
    have node := getElem?_queue queue
    have nodup : (members t.awaitingHandle ([] : Stack L V X)).Nodup := by simp [members]
    have callers : Callers d.machine.frames 0 t.task t.awaitingHandle [] := by rwa [awaiting]
    have hresume := (visit_resume node valid pending).trans (resume_initial frame point)
    refine .inr (.inl ⟨_, step_visit control hresume, ?_, ?_⟩)
    · refine Sim.of_trace ?_ ((trace_append [.resumed 0] rfl).trans (List.append_nil _))
      exact .running t t.awaitingHandle body []
        (linked.resume control node valid pending callers nodup frame _ _) queue rfl
        (.resume valid pending callers nodup frame) inflight
    · exact rank_lt (rank_running rfl) (rank_pass_zero control)

theorem progress_pending {id : Nat} {token : CompletionToken TaskId} {k : Int → BitVec 32 → L}
    (waits : Waits d.machine t id token k st)
    (control : d.machine.control = .pass 1 ∨ d.machine.control = .idle) (pending : t.pending = true)
    (inflight : d.machine.inflight = [(id, t.awaitingHandle)]) :
    Progress program d (d.config (.wait (fun r => k r.1 r.2) (conts st))) := by
  rcases control with control | control
  · refine .inr (.inl ⟨_, step_endPass control waits.queue, ?_, ?_⟩)
    · exact .pending t id token k st (waits.setControl (by simp [control]) (by simp) (by simp))
        (.inr rfl) pending inflight
    · exact rank_lt (rank_flying rfl inflight) (rank_pass_one control)
  · cases results : d.results with
    | nil =>
      -- the operation has no result
      refine .inr (.inr ⟨step_blocked control inflight results, ?_⟩)
      simp only [config, Calls.step, results, List.map_nil]
    | cons r rest =>
      have node := getElem?_queue waits.queue
      obtain ⟨fr, frame, point⟩ := waits.point
      have hcomplete := complete_awaiter r.res node frame point waits.named waits.awaiter r.plain
      have erased : d.machine.inflight.erase (id, t.awaitingHandle) = [] := by
        rw [inflight, List.erase_cons_head]
      have flying : (id, t.awaitingHandle) ∈ d.machine.inflight := by
        rw [inflight]
        exact List.mem_singleton_self _
      refine .inr (.inl ⟨_, step_complete control results inflight hcomplete, ?_, ?_⟩)
      · have hconfig : ∀ point, d.config point =
            ⟨point, (r.res, r.flags) :: rest.map OpResult.pair, d.trace⟩ := by
          simp only [config, results, List.map_cons, OpResult.pair, implies_true]
        rw [hconfig]
        refine Sim.of_trace ?_ ((trace_append [.woken id 0 r.res r.flags] rfl).trans
          (List.append_nil _))
        exact .landed { t with pending := false } id
          { token with cqeRes := r.res, cqeFlags := r.flags } k st
          (waits.complete control pending flying frame point r.res r.flags) (.inl control) rfl erased
      · exact rank_lt (rank_ready control erased) (rank_flying control inflight)

theorem progress_landed {id : Nat} {token : CompletionToken TaskId} {k : Int → BitVec 32 → L}
    (waits : Waits d.machine t id token k st)
    (control : d.machine.control = .idle ∨ d.machine.control = .pass 0) (pending : t.pending = false)
    (inflight : d.machine.inflight = []) :
    Progress program d ⟨.wait (fun r => k r.1 r.2) (conts st),
      (token.cqeRes, token.cqeFlags) :: d.results.map OpResult.pair, d.trace⟩ := by
  rcases control with control | control
  · refine .inr (.inl ⟨_, step_startPass control inflight waits.queue waits.valid, ?_, ?_⟩)
    · exact .landed t id token k st (waits.setControl (by simp [control]) (by simp) (by simp))
        (.inr rfl) pending inflight
    · exact rank_lt (rank_pass_zero rfl) (rank_ready control inflight)
  · have node := getElem?_queue waits.queue
    obtain ⟨fr, frame, point⟩ := waits.point
    have hresume := (visit_resume node waits.valid pending).trans (resume_operation frame point)
    refine .inl ⟨_, _, step_visit control hresume, rfl, ?_⟩
    refine Sim.of_trace ?_
      (trace_append [.resumed 0, .yielded id 0 token.cqeRes token.cqeFlags] rfl)
    exact .running t t.awaitingHandle _ st
      (waits.linked.resume control node waits.valid pending waits.callers waits.nodup frame _ _)
      waits.queue rfl (.resume waits.valid pending waits.callers waits.nodup frame) inflight

theorem progress_returned {fr : Frame L V X} {v : V} (queue : d.machine.queue = [t])
    (control : d.machine.control = .pass 1 ∨ d.machine.control = .idle) (valid : t.valid = false)
    (frame : d.machine.frames t.task = some fr) (res : fr.promise.res = .live v)
    (inflight : d.machine.inflight = []) : Progress program d (d.config (.done (.value v))) := by
  rcases control with control | control
  · refine .inr (.inl ⟨_, step_endPass control queue, ?_, ?_⟩)
    · exact .returned t fr v queue (.inr rfl) valid frame res inflight
    · exact rank_lt (rank_ready rfl inflight) (rank_pass_one control)
  · exact .inr (.inr ⟨step_finished control inflight queue valid, rfl⟩)

/-- **The driver and the direct-style machine run in step.** -/
theorem simulation (program : Program L V X O) :
    Simulation (step program) (Calls.step program) Sim rank where
  progress d c sim := by
    cases sim with
    | ready t body linked queue control valid pending awaiting callers point inflight =>
      exact progress_ready linked queue control valid pending awaiting callers point inflight
    | running t f body st linked queue control executing inflight =>
      exact .inl (sim_running linked queue control executing inflight)
    | pending t id token k st waits control pending inflight =>
      exact progress_pending waits control pending inflight
    | landed t id token k st waits control pending inflight =>
      exact progress_landed waits control pending inflight
    | returned t fr v queue control valid frame res inflight =>
      exact progress_returned queue control valid frame res inflight
    | terminated x control => exact .inr (.inr ⟨step_terminated control, rfl⟩)

theorem sim_enqueued (root : L) (results : List OpResult) :
    Sim (enqueued root results : Driver L V X O)
      (Calls.start root (results.map OpResult.pair)) :=
  .ready { task := 0, awaitingHandle := 0 } root (linked_init.emplaceBack root) rfl (.inl rfl)
    rfl rfl rfl ⟨rfl, _, rfl, ⟨rfl, rfl⟩, rfl, rfl⟩ ⟨_, rfl, rfl⟩ rfl

/-! ## The driver and the evaluation -/

/-- The driver is where an evaluation ends: the task has finished with this value, the exception left
its root, or it waits for an operation that has no result. -/
def EndsAs (d : Driver L V X O) : Calls.Ending V X (Int × BitVec 32) → Prop
  | .finished (.value v) rest => d.results.map OpResult.pair = rest ∧ ∃ t fr,
      d.machine.queue = [t] ∧ t.valid = false ∧ d.machine.frames t.task = some fr ∧
        fr.promise.res = .live v
  | .finished (.thrown _) rest =>
    d.results.map OpResult.pair = rest ∧ d.machine.control = .terminated
  | .blocked => d.results = [] ∧ ∃ t, d.machine.queue = [t] ∧ t.valid = true ∧ t.pending = true
  | .cut => True

theorem Sim.trace_eq (sim : Sim d c) : d.trace = c.trace := by
  cases sim <;> rfl

theorem Sim.endsAs {ending : Calls.Ending V X (Int × BitVec 32)} (sim : Sim d c)
    (h : c.EndsAs ending) : d.EndsAs ending := by
  cases ending with
  | finished out rest =>
    obtain ⟨point, results⟩ := h
    cases sim with
    | returned t fr v queue control valid frame res inflight =>
      cases point
      exact ⟨results, t, fr, queue, valid, frame, res⟩
    | terminated x control =>
      cases point
      exact ⟨results, control⟩
    | _ => cases point
  | blocked =>
    obtain ⟨results, k, stack, point⟩ := h
    cases sim with
    | pending t id token k st waits control pending inflight =>
      exact ⟨List.map_eq_nil_iff.mp results, t, waits.queue, waits.valid, pending⟩
    | landed => cases results
    | _ => cases point
  | cut => trivial

theorem once_of_iter {root : L} {results : List OpResult}
    (h : iter (step program) n (enqueued root results) = some d) : Once d.machine.log := by
  have keep : ∀ d d' : Driver L V X O, d.step program = some d' →
      Sane d.machine ∧ d.machine.Accounted → Sane d'.machine ∧ d'.machine.Accounted := by
    intro d d' h inv
    obtain ⟨⟨e, rest⟩, -, h⟩ := Option.bind_eq_some_iff.mp h
    obtain ⟨s, hs, rfl⟩ := Option.map_eq_some_iff.mp h
    exact ⟨sane_step inv.1 hs, accounted_step inv.1 inv.2 hs⟩
  have init : Sane (enqueued root results : Driver L V X O).machine ∧
      (enqueued root results : Driver L V X O).machine.Accounted :=
    have linked : Linked ({} : Machine L V X (Operation O)) := linked_init
    ⟨.inr (linked.emplaceBack root), accounted_of_does linked accounted_init (.enqueue rfl)⟩
  have run := iter_induct
    (fun d d' : Driver L V X O =>
      Sane d.machine ∧ d.machine.Accounted → Sane d'.machine ∧ d'.machine.Accounted)
    (fun _ inv => inv) (fun d d₁ d₂ hd rest inv => rest (keep d d₁ hd inv)) h
  exact (run init).2.once

/-- **A task that is resumed whenever it is ready runs as direct-style evaluation**: the driver
reaches what the evaluation gives, with the same operations, results and outcomes delivered; what it
reaches, the evaluation gives, and where it can do no more, the evaluation ends; and the value of an
awaited callee is constructed and moved out once, if it throws none is. -/
theorem runs_as_direct (program : Program L V X O) (root : L) (results : List OpResult) :
    let direct := fun n => Calls.eval program n root (results.map OpResult.pair)
    (∀ n, ∃ m d, iter (step program) m (enqueued root results) = some d ∧
      d.trace = (direct n).1 ∧ d.EndsAs (direct n).2) ∧
    (∀ m d, iter (step program) m (enqueued root results) = some d → Once d.machine.log ∧
      ∃ n, d.trace <+: (direct n).1 ∧
        (d.step program = none →
          d.trace = (direct n).1 ∧ d.EndsAs (direct n).2 ∧ (direct n).2 ≠ .cut)) := by
  intro direct
  have related : Sim (enqueued root results : Driver L V X O) _ := sim_enqueued root results
  constructor
  · intro n
    obtain ⟨m, c, run, trace, ends, -⟩ :=
      Calls.reaches_eval program n root (results.map OpResult.pair)
    obtain ⟨k, d, hd, sim⟩ := (simulation program).back related run
    exact ⟨k, d, hd, sim.trace_eq.trans trace, sim.endsAs ends⟩
  · intro m d run
    obtain ⟨k, c, hc, sim⟩ := (simulation program).forth related run
    obtain ⟨covers, ending⟩ := Calls.eval_covers hc
    refine ⟨once_of_iter run, k + 1, sim.trace_eq ▸ covers, fun halted => ?_⟩
    obtain ⟨trace, ends, uncut⟩ := ending ((simulation program).halted sim halted)
    exact ⟨sim.trace_eq.trans trace, sim.endsAs ends, uncut⟩

end CoNet.Async.Driver
