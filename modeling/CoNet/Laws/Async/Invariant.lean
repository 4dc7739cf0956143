import CoNet.Laws.Async.Linked

/-!
# Every event keeps the tasks linked

One lemma for each kind of event. Most events touch one task: its node, the frames that belong to
it and the operations these wait for; `Linked.touch` is the part of the proof they share.
-/

set_option autoImplicit false

namespace CoNet.Async.Machine

open CoNet.Io

variable {L V X O : Type} {s s' : Machine L V X O} {e : Event L V X O} {n : TaskId}
  {t : ScheduledTask} {f g : FrameId} {body : L} {st : Stack L V X} {fr : Frame L V X}

/-- An operation in flight, with the task that waits for it and the frame it is awaited in. -/
theorem Linked.flying (linked : Linked s) {id : Nat} (h : (id, f) ∈ s.inflight) :
    ∃ n t fr token k, s.queue[n]? = some t ∧ ¬ s.Running n ∧ t.pending = true ∧
      t.awaitingHandle = f ∧ s.frames f = some fr ∧ fr.promise.thisChainTask = some n ∧
      fr.point = .atOperation id token k := by
  obtain ⟨n, t, node, pending, rfl, token, k, fr, frame, point⟩ := linked.flight id f h
  have idle : ¬ s.Running n := by
    rintro ⟨g, body, control⟩
    obtain ⟨t', st, node', executing⟩ := linked.executing n g body control
    obtain rfl := Option.some.inj (node.symm.trans node')
    exact absurd (executing.pending.symm.trans pending) (by simp)
  refine ⟨n, t, fr, token, k, node, idle, pending, rfl, frame, ?_, point⟩
  cases linked.suspended n t node idle with
  | ready body _ notPending => exact absurd (notPending.symm.trans pending) (by simp)
  | finished fr' _ notPending => exact absurd (notPending.symm.trans pending) (by simp)
  | waiting id' token' k' st _ callers =>
    obtain ⟨fr', frame', task⟩ := callers.task _ List.mem_cons_self
    obtain rfl := Option.some.inj (frame.symm.trans frame')
    exact task

/-- No task is running outside of `resume`. -/
theorem not_running (h : ∀ n f body, s.control ≠ .running n f body) (m : TaskId) :
    ¬ s.Running m := fun ⟨f, body, control⟩ => h m f body control

theorem Executing.congr {frames frames' : FrameId → Option (Frame L V X)}
    (h : Executing frames n t f st)
    (same : ∀ x fr, frames x = some fr → fr.promise.thisChainTask = some n → frames' x = some fr) :
    Executing frames' n t f st := by
  have keep : ∀ x ∈ members f st, frames' x = frames x := by
    intro x hx
    obtain ⟨fr, hfr, htask⟩ := h.callers.task x hx
    rw [same x fr hfr htask, hfr]
  obtain ⟨fr, hfr, hpoint⟩ := h.point
  exact ⟨h.valid, h.pending, h.callers.congr keep, h.nodup,
    fr, (keep f List.mem_cons_self).trans hfr, hpoint⟩

/-- **An event that touches one task.** The other nodes are as they were, and so are the frames and
the operations of other tasks; `own` is what the event makes of the task it touches. -/
theorem Linked.touch (linked : Linked s) (n : TaskId)
    (queue : ∀ m, m ≠ n → s'.queue[m]? = s.queue[m]?)
    (frames : ∀ x fr, s.frames x = some fr → fr.promise.thisChainTask ≠ some n →
      s'.frames x = some fr)
    (inflight : ∀ id x fr, s.frames x = some fr → fr.promise.thisChainTask ≠ some n →
      ((id, x) ∈ s'.inflight ↔ (id, x) ∈ s.inflight))
    (others : ∀ m, m ≠ n → ∀ f body,
      s'.control = .running m f body ↔ s.control = .running m f body)
    (log : s.log ⊆ s'.log)
    (own : ∀ t, s'.queue[n]? = some t → ¬ s'.Running n →
      Suspended s'.frames s'.inflight s'.log n t)
    (run : ∀ f body, s'.control = .running n f body →
      ∃ t st, s'.queue[n]? = some t ∧ Executing s'.frames n t f st)
    (flight : ∀ id x, (id, x) ∈ s'.inflight →
      ((id, x) ∈ s.inflight ∧ ∀ fr, s.frames x = some fr → fr.promise.thisChainTask ≠ some n) ∨
      ∃ t, s'.queue[n]? = some t ∧ t.pending = true ∧ t.awaitingHandle = x ∧
        ∃ token k, At s'.frames x (.atOperation id token k))
    (flight_nodup : s'.inflight.Nodup)
    (flight_lt : ∀ id x, (id, x) ∈ s'.inflight → id < s'.nextOp)
    (fresh : ∀ x, s'.nextFrame ≤ x → s'.frames x = none)
    (defined : s'.control ≠ .undefined) : Linked s' where
  suspended m u node idle := by
    by_cases hmn : m = n
    · subst hmn
      exact own u node idle
    · rw [queue m hmn] at node
      have hne : some m ≠ some n := fun h => hmn (Option.some.inj h)
      have idle' : ¬ s.Running m := fun ⟨f, body, control⟩ =>
        idle ⟨f, body, (others m hmn f body).mpr control⟩
      exact (linked.suspended m u node idle').congr
        (fun x fr hfr htask => frames x fr hfr (htask ▸ hne))
        (fun id x fr hfr htask => inflight id x fr hfr (htask ▸ hne)) log
  executing m f body control := by
    by_cases hmn : m = n
    · subst hmn
      exact run f body control
    · obtain ⟨u, st, node, executing⟩ := linked.executing m f body ((others m hmn f body).mp control)
      have hne : some m ≠ some n := fun h => hmn (Option.some.inj h)
      exact ⟨u, st, (queue m hmn).trans node,
        executing.congr fun x fr hfr htask => frames x fr hfr (htask ▸ hne)⟩
  flight id x h := by
    rcases flight id x h with ⟨hold, hother⟩ | ⟨t, node, pending, awaiting, token, k, hat⟩
    · obtain ⟨m, u, fr, token, k, node, -, pending, awaiting, frame, task, point⟩ :=
        linked.flying hold
      have hmn : m ≠ n := fun h => hother fr frame (h ▸ task)
      exact ⟨m, u, (queue m hmn).trans node, pending, awaiting, token, k, fr,
        frames x fr frame (hother fr frame), point⟩
    · exact ⟨n, t, node, pending, awaiting, token, k, hat⟩
  flight_nodup := flight_nodup
  flight_lt := flight_lt
  fresh := fresh
  defined := defined

/-! ## Control -/

/-- A change of control between two resumptions. -/
theorem Linked.setControl (linked : Linked s) {c : Control L}
    (idle : ∀ n f body, s.control ≠ .running n f body) (h : ∀ n f body, c ≠ .running n f body)
    (hc : c ≠ .undefined) : Linked { s with control := c } where
  suspended m u node _ := linked.suspended m u node (not_running idle m)
  executing m f body control := absurd control (h m f body)
  flight := linked.flight
  flight_nodup := linked.flight_nodup
  flight_lt := linked.flight_lt
  fresh := linked.fresh
  defined := hc

/-- The running body goes on. -/
theorem Linked.setBody (linked : Linked s) (control : s.control = .running n f body) (k : L) :
    Linked { s with control := .running n f k } where
  suspended m u node idle := by
    refine linked.suspended m u node fun ⟨g, body', h⟩ => idle ⟨g, k, ?_⟩
    rw [control] at h
    cases h
    rfl
  executing m g body' h := by
    cases h
    exact linked.executing n f body control
  flight := linked.flight
  flight_nodup := linked.flight_nodup
  flight_lt := linked.flight_lt
  fresh := linked.fresh
  defined h := absurd h (by simp)

/-! ## Events -/

theorem ne_of_task {frames : FrameId → Option (Frame L V X)} {x : FrameId} {fr' : Frame L V X}
    (frame : frames f = some fr) (task : fr.promise.thisChainTask = some n)
    (frame' : frames x = some fr') (other : fr'.promise.thisChainTask ≠ some n) : x ≠ f := by
  rintro rfl
  obtain rfl := Option.some.inj (frame.symm.trans frame')
  exact other task

theorem running_inj {control : Control L} (h : control = .running n f body) {m : TaskId}
    (ne : m ≠ n) {g : FrameId} {body' : L} : control ≠ .running m g body' := by
  rintro rfl
  cases h
  exact ne rfl

/-- A new node at the end of the queue, with a new frame. -/
theorem Linked.emplaceBack (linked : Linked s) (task : L) : Linked (s.emplaceBack task) := by
  have hnew : (s.emplaceBack task).queue[s.queue.length]? =
      some { task := s.nextFrame, awaitingHandle := s.nextFrame } := by
    simp [Machine.emplaceBack]
  refine linked.touch s.queue.length ?_ ?_ ?_ ?_ (List.subset_append_left _ _) ?_ ?_ ?_ ?_ ?_ ?_ ?_
  · intro m hm
    simp only [Machine.emplaceBack, List.getElem?_append, List.getElem?_singleton]
    split
    · rfl
    · rename_i hlt
      have hle := Nat.not_lt.mp hlt
      have hne : ¬ m - s.queue.length = 0 := fun h =>
        hm (Nat.le_antisymm (Nat.sub_eq_zero_iff_le.mp h) hle)
      rw [List.getElem?_eq_none hle, if_neg hne]
  · intro x fr frame _
    show Function.update s.frames s.nextFrame _ x = some fr
    rw [Function.update_of_ne (Nat.ne_of_lt (linked.lt_nextFrame frame)), frame]
  · exact fun id x fr _ _ => Iff.rfl
  · exact fun m _ f body => Iff.rfl
  · intro t node _
    obtain rfl := Option.some.inj (hnew.symm.trans node)
    refine .ready task rfl rfl rfl ⟨rfl, _, Function.update_self .., ⟨rfl, rfl⟩, rfl, rfl⟩
      (at_update_self _)
  · intro f body control
    obtain ⟨t, st, node, -⟩ := linked.executing _ f body control
    exact absurd node (by simp)
  · intro id x h
    refine .inl ⟨h, fun fr frame htask => ?_⟩
    obtain ⟨n, t, fr', token, k, node, -, -, -, frame', task', -⟩ := linked.flying h
    obtain rfl := Option.some.inj (frame.symm.trans frame')
    obtain rfl := Option.some.inj (htask.symm.trans task')
    exact absurd node (by simp)
  · exact linked.flight_nodup
  · exact linked.flight_lt
  · intro x hx
    have hx : s.nextFrame + 1 ≤ x := hx
    show Function.update s.frames s.nextFrame _ x = none
    rw [Function.update_of_ne (Nat.ne_of_gt hx), linked.fresh x (Nat.le_of_succ_le hx)]
  · exact linked.defined

/-- A task starts, or goes on with the operation it waited for. -/
theorem Linked.resume (linked : Linked s) (control : s.control = .pass n)
    (node : s.queue[n]? = some t) (valid : t.valid = true) (ready : t.pending = false)
    (callers : Callers s.frames n t.task f st) (nodup : (members f st).Nodup)
    (frame : s.frames f = some fr) (body : L) (entries : List (Entry V X O)) :
    Linked { (s.setPoint f fr .executing).record entries with control := .running n f body } := by
  obtain ⟨fr', frame', hin⟩ := callers.inner
  obtain rfl := Option.some.inj (frame'.symm.trans frame)
  have landed : ∀ id x, (id, x) ∈ s.inflight →
      ∀ fr, s.frames x = some fr → fr.promise.thisChainTask ≠ some n := by
    intro id x h fr hfr task
    obtain ⟨m, u, fr'', token, k, node', -, pending, -, frame'', task', -⟩ := linked.flying h
    obtain rfl := Option.some.inj (hfr.symm.trans frame'')
    obtain rfl := Option.some.inj (task.symm.trans task')
    obtain rfl := Option.some.inj (node.symm.trans node')
    exact absurd (ready.symm.trans pending) (by simp)
  refine linked.touch n (fun _ _ => rfl) ?_ (fun _ _ _ _ _ => Iff.rfl) ?_
    (List.subset_append_left _ _) ?_ ?_ (fun id x h => .inl ⟨h, landed id x h⟩) linked.flight_nodup linked.flight_lt ?_ (by simp)
  · intro x fr'' hx other
    show Function.update s.frames f _ x = some fr''
    rw [Function.update_of_ne (ne_of_task frame hin.task_eq hx other), hx]
  · intro m hm g body'
    exact iff_of_false (running_inj rfl hm) (by simp [control])
  · exact fun t _ idle => absurd ⟨f, body, rfl⟩ idle
  · intro g body' h
    cases h
    exact ⟨t, st, node, .resume valid ready callers nodup frame⟩
  · intro x hx
    have hne : x ≠ f := by
      rintro rfl
      rw [linked.fresh x hx] at frame
      cases frame
    show Function.update s.frames f _ x = none
    rw [Function.update_of_ne hne, linked.fresh x hx]

/-- What the running task's events leave to the other tasks. -/
theorem Linked.not_flying (linked : Linked s) (control : s.control = .running n f body) {id : Nat}
    {x : FrameId} (h : (id, x) ∈ s.inflight) :
    ∀ fr, s.frames x = some fr → fr.promise.thisChainTask ≠ some n := by
  intro fr hfr task
  obtain ⟨m, u, fr', token, k, -, idle, -, -, frame', task', -⟩ := linked.flying h
  obtain rfl := Option.some.inj (hfr.symm.trans frame')
  obtain rfl := Option.some.inj (task.symm.trans task')
  exact idle ⟨f, body, control⟩

theorem modifyTask_other {m : TaskId} (h : m ≠ n) (g : ScheduledTask → ScheduledTask) :
    (s.modifyTask n g).queue[m]? = s.queue[m]? := by
  rw [modifyTask, List.getElem?_modify_ne _ _ (Ne.symm h)]

theorem Linked.fresh_update (linked : Linked s) {x : FrameId} (hx : s.nextFrame ≤ x)
    (frame : s.frames f = some fr) (v : Option (Frame L V X)) :
    Function.update s.frames f v x = none := by
  rw [Function.update_of_ne (Nat.ne_of_gt (Nat.lt_of_lt_of_le (linked.lt_nextFrame frame) hx)),
    linked.fresh x hx]

/-- The running task suspends at an operation. -/
theorem Linked.suspend (linked : Linked s) {op : Op} {k : Int → BitVec 32 → L}
    (control : s.control = .running n f body) (node : s.queue[n]? = some t)
    (executing : Executing s.frames n t f st) (frame : s.frames f = some fr)
    (awaiter : uringAwaiterOp op = true) (arg : O) :
    Linked { ((s.setPoint f fr (.atOperation s.nextOp { op, chainTask := some n } k)).modifyTask n
            ({ · with awaitingHandle := f, pending := true })).record
          [.performed s.nextOp n arg] with
        inflight := s.inflight ++ [(s.nextOp, f)]
        nextOp := s.nextOp + 1
        control := .pass (n + 1) } := by
  obtain ⟨fr', frame', hin⟩ := executing.callers.inner
  obtain rfl := Option.some.inj (frame'.symm.trans frame)
  have node' := modifyTask_self node ({ · with awaitingHandle := f, pending := true })
  have hmem : ∀ id x, (id, x) ∈ s.inflight ++ [(s.nextOp, f)] ↔
      (id, x) ∈ s.inflight ∨ (id = s.nextOp ∧ x = f) := by
    intro id x
    simp only [List.mem_append, List.mem_singleton, Prod.mk.injEq]
  refine linked.touch n (fun m hm => modifyTask_other hm _) ?_ ?_ ?_ (List.subset_append_left _ _)
    ?_ ?_ ?_ ?_ ?_ ?_ (by simp)
  · intro x fr'' hx other
    show Function.update s.frames f _ x = some fr''
    rw [Function.update_of_ne (ne_of_task frame hin.task_eq hx other), hx]
  · intro id x fr'' hx other
    refine (hmem id x).trans ⟨fun h => h.elim (fun h => h) fun h => ?_, .inl⟩
    exact absurd h.2 (ne_of_task frame hin.task_eq hx other)
  · intro m hm g body'
    exact iff_of_false (by simp) (running_inj control hm)
  · intro u hu _
    obtain rfl := Option.some.inj (node'.symm.trans hu)
    refine .waiting s.nextOp { op, chainTask := some n } k st executing.valid
      (executing.callers.update_inner executing.nodup frame _) executing.nodup (at_update_self _)
      rfl awaiter (iff_of_true rfl ?_) ⟨arg, ?_⟩ (fun h => absurd h (by simp))
    · exact List.mem_append_right _ (List.mem_singleton_self _)
    · exact List.mem_append_right _ (List.mem_singleton_self _)
  · intro g body' h
    cases h
  · intro id x h
    rcases (hmem id x).mp h with h | ⟨rfl, rfl⟩
    · exact .inl ⟨h, linked.not_flying control h⟩
    · exact .inr ⟨_, node', rfl, rfl, _, _, at_update_self _⟩
  · refine List.nodup_append.mpr ⟨linked.flight_nodup, by simp, fun a ha b hb => ?_⟩
    obtain rfl := List.mem_singleton.mp hb
    rintro rfl
    exact Nat.lt_irrefl _ (linked.flight_lt _ _ ha)
  · intro id x h
    show id < s.nextOp + 1
    rcases (hmem id x).mp h with h | ⟨rfl, -⟩
    · exact Nat.lt_succ_of_lt (linked.flight_lt id x h)
    · exact Nat.lt_succ_self _
  · exact fun x hx => linked.fresh_update hx frame _

/-- The running task calls a coroutine. -/
theorem Linked.call (linked : Linked s) {callee : L} {k : Outcome V X → L}
    (control : s.control = .running n f body) (node : s.queue[n]? = some t)
    (executing : Executing s.frames n t f st) (frame : s.frames f = some fr) :
    Linked { (s.setPoint f fr (.atTask s.nextFrame k)).setFrame s.nextFrame
          ⟨{ caller := some f, thisChainTask := some n }, .executing⟩ with
        nextFrame := s.nextFrame + 1
        control := .running n s.nextFrame callee } := by
  obtain ⟨fr', frame', hin⟩ := executing.callers.inner
  obtain rfl := Option.some.inj (frame'.symm.trans frame)
  refine linked.touch n (fun _ _ => rfl) ?_ (fun _ _ _ _ _ => Iff.rfl) ?_ (List.Subset.refl _) ?_
    ?_ (fun id x h => .inl ⟨h, linked.not_flying control h⟩) linked.flight_nodup linked.flight_lt ?_
    (by simp)
  · intro x fr'' hx other
    show Function.update (Function.update s.frames f _) s.nextFrame _ x = some fr''
    rw [Function.update_of_ne (Nat.ne_of_lt (linked.lt_nextFrame hx)),
      Function.update_of_ne (ne_of_task frame hin.task_eq hx other), hx]
  · intro m hm g body'
    exact iff_of_false (running_inj rfl hm) (running_inj control hm)
  · exact fun t _ idle => absurd ⟨s.nextFrame, callee, rfl⟩ idle
  · intro g body' h
    cases h
    exact ⟨t, (f, k) :: st, node, executing.call frame (linked.fresh_members executing) k⟩
  · intro x hx
    have hx : s.nextFrame + 1 ≤ x := hx
    show Function.update (Function.update s.frames f _) s.nextFrame _ x = none
    rw [Function.update_of_ne (Nat.ne_of_gt hx)]
    exact linked.fresh_update (Nat.le_of_succ_le hx) frame _

/-- A callee's end: its caller goes on, and its frame is gone. -/
theorem Linked.ret (linked : Linked s) {k : Outcome V X → L} {gr : Frame L V X}
    (control : s.control = .running n f body) (node : s.queue[n]? = some t)
    (executing : Executing s.frames n t f ((g, k) :: st)) (caller : s.frames g = some gr)
    (body' : L) (entries : List (Entry V X O)) :
    Linked { s with
        frames := Function.update (Function.update s.frames f none) g
          (some { gr with point := .executing })
        log := s.log ++ entries
        control := .running n g body' } := by
  obtain ⟨fr, frame, hin⟩ := executing.callers.inner
  obtain ⟨gr', caller', gin⟩ := executing.callers.2.2.inner
  obtain rfl := Option.some.inj (caller'.symm.trans caller)
  refine linked.touch n (fun _ _ => rfl) ?_ (fun _ _ _ _ _ => Iff.rfl) ?_
    (List.subset_append_left _ _) ?_ ?_ (fun id x h => .inl ⟨h, linked.not_flying control h⟩)
    linked.flight_nodup linked.flight_lt ?_ (by simp)
  · intro x fr'' hx other
    show Function.update (Function.update s.frames f none) g _ x = some fr''
    rw [Function.update_of_ne (ne_of_task caller gin.task_eq hx other),
      Function.update_of_ne (ne_of_task frame hin.task_eq hx other), hx]
  · intro m hm g' body''
    exact iff_of_false (running_inj rfl hm) (running_inj control hm)
  · exact fun t _ idle => absurd ⟨g, body', rfl⟩ idle
  · intro g' body'' h
    cases h
    exact ⟨t, st, node, executing.ret caller⟩
  · intro x hx
    have hx : s.nextFrame ≤ x := hx
    show Function.update (Function.update s.frames f none) g _ x = none
    rw [Function.update_of_ne
      (Nat.ne_of_gt (Nat.lt_of_lt_of_le (linked.lt_nextFrame caller) hx))]
    exact linked.fresh_update hx frame _

/-- A root coroutine returns: its task is finished. -/
theorem Linked.rootReturn (linked : Linked s) {p : Promise V X}
    (control : s.control = .running n t.task body) (node : s.queue[n]? = some t)
    (executing : Executing s.frames n t t.task []) (frame : s.frames t.task = some fr)
    (hp : p.thisChainTask = some n) (entries : List (Entry V X O)) :
    Linked { (s.setFrame t.task ⟨p, .final⟩).modifyTask n ({ · with valid := false }) with
        log := s.log ++ entries
        control := .pass (n + 1) } := by
  obtain ⟨fr', frame', hin⟩ := executing.callers.inner
  obtain rfl := Option.some.inj (frame'.symm.trans frame)
  have node' := modifyTask_self node ({ · with valid := false })
  refine linked.touch n (fun m hm => modifyTask_other hm _) ?_ (fun _ _ _ _ _ => Iff.rfl) ?_
    (List.subset_append_left _ _) ?_ ?_ (fun id x h => .inl ⟨h, linked.not_flying control h⟩)
    linked.flight_nodup linked.flight_lt ?_ (by simp)
  · intro x fr'' hx other
    show Function.update s.frames t.task _ x = some fr''
    rw [Function.update_of_ne (ne_of_task frame hin.task_eq hx other), hx]
  · intro m hm g body'
    exact iff_of_false (by simp) (running_inj control hm)
  · intro u hu _
    obtain rfl := Option.some.inj (node'.symm.trans hu)
    exact .finished _ rfl executing.pending (Function.update_self ..) rfl hp
  · intro g body' h
    cases h
  · exact fun x hx => linked.fresh_update hx frame _

/-- A completion stores its result and wakes the task that waits for it. -/
theorem Linked.complete (linked : Linked s) {id : Nat} {token : CompletionToken TaskId}
    {k : Int → BitVec 32 → L} (control : s.control = .idle) (flying : (id, f) ∈ s.inflight)
    (node : s.queue[n]? = some t) (pending : t.pending = true) (awaiting : t.awaitingHandle = f)
    (frame : s.frames f = some fr) (point : fr.point = .atOperation id token k)
    (res : Int) (flags : BitVec 32) :
    Linked
      { (s.setPoint f fr (.atOperation id { token with cqeRes := res, cqeFlags := flags } k)).modifyTask
          n ({ · with pending := false }) with
        inflight := s.inflight.erase (id, f)
        log := s.log ++ [.woken id n res flags] } := by
  have idle : ∀ m g body', s.control ≠ .running m g body' := by simp [control]
  have node' := modifyTask_self node ({ · with pending := false })
  have hmem : ∀ id' x, (id', x) ∈ s.inflight.erase (id, f) ↔
      (id', x) ∈ s.inflight ∧ (id', x) ≠ (id, f) := by
    intro id' x
    rw [linked.flight_nodup.mem_erase_iff, and_comm]
  cases linked.suspended n t node (not_running idle n) with
  | ready body _ notPending => exact absurd (notPending.symm.trans pending) (by simp)
  | finished fr' _ notPending => exact absurd (notPending.symm.trans pending) (by simp)
  | waiting id' token₀ k' st valid callers nodup hat named awaiter flight issued landed =>
    subst awaiting
    cases hat.unique ⟨fr, frame, point⟩
    obtain ⟨fr', frame', hin⟩ := callers.inner
    obtain rfl := Option.some.inj (frame'.symm.trans frame)
    have task := hin.task_eq
    obtain ⟨arg, issued⟩ := issued
    refine linked.touch n (fun m hm => modifyTask_other hm _) ?_ ?_ ?_ (List.subset_append_left _ _)
      ?_ ?_ ?_ ?_ ?_ ?_ linked.defined
    · intro x fr'' hx other
      show Function.update s.frames t.awaitingHandle _ x = some fr''
      rw [Function.update_of_ne (ne_of_task frame task hx other), hx]
    · intro id' x fr'' hx other
      refine (hmem id' x).trans ⟨fun h => h.1, fun h => ⟨h, fun heq => ?_⟩⟩
      exact ne_of_task frame task hx other (Prod.mk.inj heq).2
    · exact fun m _ g body' => Iff.rfl
    · intro u hu _
      obtain rfl := Option.some.inj (node'.symm.trans hu)
      refine .waiting id { token with cqeRes := res, cqeFlags := flags } k st valid
        (callers.update_inner nodup frame _) nodup (at_update_self _) named awaiter
        (iff_of_false (by simp) ?_) ⟨arg, List.mem_append_left _ issued⟩ fun _ => ?_
      · exact fun h => ((hmem id t.awaitingHandle).mp h).2 rfl
      · exact List.mem_append_right _ (List.mem_singleton_self _)
    · exact fun g body' h => absurd h (idle n g body')
    · intro id' x h
      obtain ⟨hold, hne⟩ := (hmem id' x).mp h
      refine .inl ⟨hold, fun fr'' hx htask => hne ?_⟩
      obtain ⟨m, u, fr₂, token₂, k₂, node₂, -, -, awaiting₂, frame₂, task₂, point₂⟩ :=
        linked.flying hold
      obtain rfl := Option.some.inj (hx.symm.trans frame₂)
      obtain rfl := Option.some.inj (htask.symm.trans task₂)
      obtain rfl := Option.some.inj (node.symm.trans node₂)
      subst awaiting₂
      obtain rfl := Option.some.inj (frame.symm.trans frame₂)
      rw [point] at point₂
      cases point₂
      rfl
    · exact linked.flight_nodup.erase _
    · exact fun id' x h => linked.flight_lt id' x ((hmem id' x).mp h).1
    · exact fun x hx => linked.fresh_update hx frame _

/-- The tasks are linked, unless the program was terminated. -/
def Sane (s : Machine L V X O) : Prop := s.control = .terminated ∨ Linked s

/-- **Every event keeps the tasks linked.** -/
theorem linked_step (linked : Linked s) (h : s.step e = some s') : Sane s' := by
  cases does_of_step linked h with
  | enqueue control => exact .inr (linked.emplaceBack _)
  | startPass control => exact .inr (linked.setControl (by simp [control]) (by simp) (by simp))
  | endPass control node => exact .inr (linked.setControl (by simp [control]) (by simp) (by simp))
  | skip control node skipped =>
    exact .inr (linked.setControl (by simp [control]) (by simp) (by simp))
  | start control node valid ready awaiting callers frame point =>
    exact .inr (linked.resume control node valid ready callers (by simp [members]) frame _ _)
  | goOn control node valid ready callers nodup frame point landed =>
    exact .inr (linked.resume control node valid ready callers nodup frame _ _)
  | suspend control node executing frame awaiter =>
    exact .inr (linked.suspend control node executing frame awaiter _)
  | call control node executing frame => exact .inr (linked.call control node executing frame)
  | @spawn n t f body task k st control node executing =>
    have control' : (s.emplaceBack task).control = .running n f body := control
    exact .inr ((linked.emplaceBack _).setBody control' _)
  | ret control node executing caller =>
    exact .inr (linked.ret control node executing caller _ _)
  | @rootReturn n t body fr v control node executing frame =>
    obtain ⟨fr', frame', hin⟩ := executing.callers.inner
    obtain rfl := Option.some.inj (frame'.symm.trans frame)
    have task : (fr'.promise.returnValue v).thisChainTask = some n := hin.task_eq
    exact .inr (linked.rootReturn control node executing frame task _)
  | rootThrow control node executing frame => exact .inl rfl
  | complete control flying node pending awaiting frame point named issued =>
    exact .inr (linked.complete control flying node pending awaiting frame point _ _)

theorem sane_step (sane : Sane s) (h : s.step e = some s') : Sane s' := by
  rcases sane with terminated | linked
  · cases e <;> simp only [step, terminated, reduceCtorEq] at h
  · exact linked_step linked h

end CoNet.Async.Machine
