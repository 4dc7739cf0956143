import CoNet.Context.LoopPass

/-!
# Free slots for every request

Between two submits a loop queues one request for each task that suspends on an operation, and a call
of a running task queues its own and submits. The handlers of completions submit what they request,
so each of them finds the queue empty.

On the main ring the slots suffice exactly in the runs in which each call and each suspension fits
beside the operations awaited since the last submit (`found_iff_fits`). On a worker ring they always
suffice, since a batch makes no more tasks runnable than it has completions (`served_of_spawned`).
-/

set_option autoImplicit false

namespace CoNet.Context.LoopPass

open CoNet.Io CoNet.Net Transition

variable {φ : Type} {entries : Nat} {onMain : Bool} {cfg : Config}
  {multishotToken : CompletionToken Nat} {s s' : LoopPass entries} {ev : PassEvent φ}

/-! ## What a request does -/

theorem requests_fit (count : Nat) (fits : s.sq.queued + count ≤ entries) :
    ∃ sq : SubmissionQueue entries, sq.queued = 0 ∧ s.requests count = { s with sq, awaited := 0 } := by
  obtain ⟨sq, hsq⟩ := Option.isSome_iff_exists.mp (SubmissionQueue.getSqes_isSome_iff.mpr fits)
  refine ⟨sq.submit, sq.submit_queued, ?_⟩
  simp only [requests, hsq]

theorem requests_full {count : Nat} (full : entries < s.sq.queued + count) :
    s.requests count = { s with point := .undefined } := by
  simp only [requests, SubmissionQueue.getSqes_eq_none_iff.mpr full]

theorem suspend_fit (node : Nat) (suspension : Suspension)
    (fits : s.sq.queued + suspension.slots ≤ entries) :
    ∃ sq : SubmissionQueue entries, sq.queued = s.sq.queued + suspension.slots ∧
      s.suspend node suspension = { s with
        sq
        tasks := s.tasks.set node suspension.flags
        point := .pass (node + 1)
        awaited := s.awaited + suspension.slots } := by
  obtain ⟨sq, hsq⟩ := Option.isSome_iff_exists.mp (SubmissionQueue.getSqes_isSome_iff.mpr fits)
  refine ⟨sq, SubmissionQueue.getSqes_queued hsq, ?_⟩
  simp only [suspend, hsq]

theorem suspend_full {node : Nat} {suspension : Suspension}
    (full : entries < s.sq.queued + suspension.slots) :
    s.suspend node suspension = { s with point := .undefined } := by
  simp only [suspend, SubmissionQueue.getSqes_eq_none_iff.mpr full]

/-- **The effects of a completion find a free slot each**, as every one of them submits. -/
theorem foldl_applyEffect (pos : 0 < entries) (effects : List (Effect Unit φ Nat Unit))
    (quiet : s.sq.queued = 0) :
    ∃ (sq : SubmissionQueue entries) (awaited : Nat), sq.queued = 0 ∧
      (s.awaited = 0 → awaited = 0) ∧
      effects.foldl applyEffect s =
        { s with sq, awaited, tasks := MultishotLoop.applyEffects s.tasks effects } := by
  induction effects generalizing s with
  | nil => exact ⟨s.sq, s.awaited, quiet, id, rfl⟩
  | cons effect rest ih =>
    rw [List.foldl_cons]
    cases effect with
    | closeDirectSocket fd | notifyMainRingReleaseFd fd =>
      obtain ⟨sq, hsq, heq⟩ := requests_fit (s := s) 1 (by omega)
      obtain ⟨sq', awaited, hsq', hawaited, hrest⟩ := ih (s := { s with sq, awaited := 0 }) hsq
      refine ⟨sq', awaited, hsq', fun _ => hawaited rfl, ?_⟩
      rw [applyEffect, heq, hrest]
      rfl
    | setPending node pending =>
      exact ih (s := { s with tasks := s.tasks.modify node ({ · with pending }) }) quiet
    | enqueue task => exact ih (s := { s with tasks := s.tasks ++ [{}] }) quiet
    | schedule func conn => exact ih (s := { s with tasks := s.tasks ++ [{}] }) quiet
    | delete addr => exact ih (s := s) quiet
    | storeResult addr res flags => exact ih (s := s) quiet

/-! ## Steps -/

/-- What an event does, with what it finds. -/
inductive Does (onMain : Bool) (cfg : Config) (multishotToken : CompletionToken Nat)
    (s : LoopPass entries) : PassEvent φ → LoopPass entries → Prop where
  | startPass (between : s.point = .between) :
    Does onMain cfg multishotToken s .startPass { s with point := .pass 0 }
  | visit {node : Nat} (pass : s.point = .pass node) :
    Does onMain cfg multishotToken s .visit (s.visit node)
  | call {node : Nat} {call : TaskCall} (running : s.point = .running node) :
    Does onMain cfg multishotToken s (.call call) (s.perform onMain call)
  | suspend {node : Nat} {suspension : Suspension} (running : s.point = .running node) :
    Does onMain cfg multishotToken s (.suspend suspension) (s.suspend node suspension)
  | submitAll (ran : s.point = .ran) :
    Does onMain cfg multishotToken s .submitAll
      { s with sq := s.sq.submit, point := .waiting, awaited := 0 }
  | peek {count : Nat} (waiting : s.point = .waiting) (batch : count ≤ cfg.uringPeekCqesBatch) :
    Does onMain cfg multishotToken s (.peek count) { s with point := .batch count }
  | handle {left : Nat} {cqe : Cqe Unit φ Nat Unit} {ring : Uring}
    {effects : List (Effect Unit φ Nat Unit)} (batch : s.point = .batch (left + 1))
    (handled : s.ring.handleRequest multishotToken cqe = some (ring, effects)) :
    Does onMain cfg multishotToken s (.handle cqe)
      (effects.foldl applyEffect { s with ring, point := .batch left })
  | endStopped {left : Nat} (batch : s.point = .batch left) :
    Does onMain cfg multishotToken s .endBatch ({ s with point := .between }.requests 1)
  | endBatch {left : Nat} (batch : s.point = .batch left) :
    Does onMain cfg multishotToken s .endBatch { s with point := .between }

theorem does_of_step {onMain : Bool} (h : s.step onMain cfg multishotToken ev = some s') :
    Does onMain cfg multishotToken s ev s' := by
  cases ev with
  | startPass =>
    simp only [step] at h
    split at h
    · cases h
      exact .startPass ‹_›
    · cases h
  | visit =>
    simp only [step] at h
    split at h
    · cases h
      exact .visit ‹_›
    · cases h
  | call call =>
    simp only [step] at h
    split at h
    · cases h
      exact .call ‹_›
    · cases h
  | suspend suspension =>
    simp only [step] at h
    split at h
    · cases h
      exact .suspend ‹_›
    · cases h
  | submitAll =>
    simp only [step] at h
    split at h
    · cases h
      exact .submitAll ‹_›
    · cases h
  | peek count =>
    simp only [step] at h
    split at h
    · split at h
      · cases h
        exact .peek ‹_› ‹_›
      · cases h
    · cases h
  | handle cqe =>
    simp only [step] at h
    split at h
    · split at h
      · cases h
      · simp only [Option.bind_eq_bind, Option.bind_eq_some_iff] at h
        obtain ⟨⟨ring, effects⟩, handled, heq⟩ := h
        obtain rfl := Option.some.inj heq
        exact .handle ‹_› handled
    · cases h
  | endBatch =>
    simp only [step] at h
    split at h
    · split at h
      · cases h
        exact .endStopped ‹_›
      · split at h
        · cases h
          exact .endBatch ‹_›
        · cases h
    · cases h

/-! ## The main ring -/

/-- No request was handed a null slot. -/
def Found (s : LoopPass entries) : Prop := s.point ≠ .undefined

/-- The slots a call takes on the main thread. -/
def callSlots (s : LoopPass entries) : TaskCall → Nat
  | .parallelSpawn => 1
  | .parallelSpawnConnection => 2
  | .mshotAcceptSend => 3 * s.ring.awaitingDirectFd.length
  | .destroyConnection => 1
  | .coSpawn => 0

/-- A call or a suspension fits beside the operations awaited since the last submit. -/
def Fits (s : LoopPass entries) : PassEvent φ → Prop
  | .call call => s.awaited + s.callSlots call ≤ entries
  | .suspend suspension => s.awaited + suspension.slots ≤ entries
  | _ => True

structure MainInv (s : LoopPass entries) : Prop where
  found : s.Found
  /-- Only awaited operations are queued. -/
  counted : s.sq.queued = s.awaited
  /-- The loop handles completions with everything submitted. -/
  idle : (s.point = .between ∨ s.point = .waiting ∨ ∃ left, s.point = .batch left) → s.awaited = 0

theorem mainInv_init (tasks : List TaskFlags) : MainInv ({ tasks } : LoopPass entries) where
  found := nofun
  counted := Nat.sub_self 0
  idle _ := rfl

theorem perform_onMain (call : TaskCall) :
    s.perform true call = { s.requests (s.callSlots call) with
      tasks := (s.perform true call).tasks
      ring := (s.perform true call).ring } ∨ call = .coSpawn := by
  cases call
  case coSpawn => exact .inr rfl
  all_goals exact .inl rfl

theorem found_perform (inv : MainInv s) {node : Nat} (running : s.point = .running node)
    {call : TaskCall} (fits : s.awaited + s.callSlots call ≤ entries) :
    MainInv (s.perform true call) := by
  rcases perform_onMain (s := s) call with heq | rfl
  · obtain ⟨sq, hsq, hreq⟩ := requests_fit (s := s) (s.callSlots call)
      (by rw [inv.counted]; exact fits)
    rw [heq, hreq]
    exact ⟨inv.found, hsq, fun _ => rfl⟩
  · refine ⟨inv.found, inv.counted, fun h => ?_⟩
    simp [perform, running] at h

theorem mainInv_suspend (inv : MainInv s) {node : Nat} {suspension : Suspension}
    (fits : s.awaited + suspension.slots ≤ entries) : MainInv (s.suspend node suspension) := by
  rw [← inv.counted] at fits
  obtain ⟨sq, hsq, heq⟩ := suspend_fit node suspension fits
  rw [heq]
  refine ⟨nofun, ?_, ?_⟩
  · exact hsq.trans (congrArg (· + suspension.slots) inv.counted)
  · rintro (h | h | ⟨left, h⟩) <;> cases h

theorem mainInv_step (pos : 0 < entries) (inv : MainInv s) (fits : Fits s ev)
    (h : s.step true cfg multishotToken ev = some s') : MainInv s' := by
  cases does_of_step h with
  | startPass => exact ⟨nofun, inv.counted, by rintro (h | h | ⟨left, h⟩) <;> cases h⟩
  | visit =>
    unfold visit
    split
    · exact ⟨nofun, inv.counted, by rintro (h | h | ⟨left, h⟩) <;> cases h⟩
    · split
      · exact ⟨nofun, inv.counted, by rintro (h | h | ⟨left, h⟩) <;> cases h⟩
      · exact ⟨nofun, inv.counted, by rintro (h | h | ⟨left, h⟩) <;> cases h⟩
  | call running => exact found_perform inv running fits
  | suspend => exact mainInv_suspend inv fits
  | submitAll => exact ⟨nofun, s.sq.submit_queued, fun _ => rfl⟩
  | peek waiting => exact ⟨nofun, inv.counted, fun _ => inv.idle (.inr (.inl waiting))⟩
  | @handle left _ ring effects batch =>
    have awaited := inv.idle (.inr (.inr ⟨_, batch⟩))
    obtain ⟨sq, awaited', hsq, hawaited, heq⟩ := foldl_applyEffect pos effects
      (s := { s with ring, point := .batch left }) (inv.counted.trans awaited)
    rw [heq]
    exact ⟨nofun, hsq.trans (hawaited awaited).symm, fun _ => hawaited awaited⟩
  | endStopped batch =>
    have awaited := inv.idle (.inr (.inr ⟨_, batch⟩))
    obtain ⟨sq, hsq, heq⟩ := requests_fit (s := { s with point := .between }) 1
      (by rw [show ({ s with point := .between } : LoopPass entries).sq = s.sq from rfl,
        inv.counted, awaited]; exact pos)
    rw [heq]
    exact ⟨nofun, hsq, fun _ => rfl⟩
  | endBatch batch =>
    exact ⟨nofun, inv.counted, fun _ => inv.idle (.inr (.inr ⟨_, batch⟩))⟩

/-- A call or a suspension that does not fit is handed a null slot. -/
theorem not_found_step (inv : MainInv s) (crowded : ¬ Fits s ev)
    (h : s.step true cfg multishotToken ev = some s') : ¬ s'.Found := by
  cases does_of_step h with
  | @call node call =>
    have full : entries < s.sq.queued + s.callSlots call := by
      rw [inv.counted]
      exact Nat.lt_of_not_le crowded
    rcases perform_onMain (s := s) call with heq | rfl
    · rw [heq, requests_full full]
      exact fun found => found rfl
    · exact absurd s.sq.queued_le (by simpa [callSlots] using full)
  | @suspend node suspension =>
    have full : entries < s.sq.queued + suspension.slots := by
      rw [inv.counted]
      exact Nat.lt_of_not_le crowded
    rw [suspend_full full]
    exact fun found => found rfl
  | _ => exact absurd trivial crowded

/-- **Every request on the main ring finds a free slot exactly in the runs in which each call and each
suspension fits beside the operations awaited since the last submit.** -/
theorem found_iff_fits (multishotToken : CompletionToken Nat) (es : List (PassEvent φ)) :
    Always (step true {} multishotToken) Found (mainLoop {}) es ↔
      Meets (step true {} multishotToken) Fits (mainLoop {}) es :=
  always_iff_meets (fun _ _ _ => mainInv_step (by decide)) (fun _ inv => inv.found)
    (fun _ _ _ => not_found_step) (mainInv_init [{}])

/-- The task of `block_on` spawns 128 others, and each of the 129 awaits an operation. -/
def crowdedPass : List (PassEvent Unit) :=
  [.startPass, .visit] ++ List.replicate 128 (.call .coSpawn) ++ [.suspend .operation] ++
    (List.replicate 128 [.visit, .suspend .operation]).flatten

theorem not_found_crowded :
    ∃ s, exec (step true {} {}) (mainLoop {}) crowdedPass = some s ∧ ¬ s.Found := by
  have undefined : (exec (step true {} {}) (mainLoop {}) crowdedPass).map (·.point) =
      some .undefined := by
    decide +kernel
  obtain ⟨s, run, hs⟩ := Option.map_eq_some_iff.mp undefined
  exact ⟨s, run, fun found => found hs⟩

/-! ## A worker ring -/

/-- The number of tasks that a pass would resume. -/
def runnables (tasks : List TaskFlags) : Nat := tasks.countP runnable

/-- At most a batch of tasks is runnable at the start of a pass, none at its end, and no request was
handed a null slot. -/
structure Served (cfg : Config) (s : LoopPass entries) : Prop where
  start : s.point = .between → runnables s.tasks ≤ cfg.uringPeekCqesBatch
  ended : s.point = .ran → runnables s.tasks = 0
  found : s.Found

/-- The ring receives work only through `parallel_spawn`, and the tasks suspend only on operations on
it and never call `co_spawn`. -/
def OnlySpawned (_ : LoopPass entries) : PassEvent φ → Prop
  | .handle cqe => Uring.isMessage cqe .multiAccTask = false
  | .call call => call ≠ .coSpawn
  | .suspend suspension => suspension = .operation ∨ suspension = .finished
  | _ => True

instance (s : LoopPass entries) (ev : PassEvent φ) : Decidable (OnlySpawned s ev) := by
  unfold OnlySpawned
  split <;> exact inferInstance

/-- What bounds the runnable tasks and the queued requests, at each point of the loop. -/
def Bounded (batch : Nat) (s : LoopPass entries) : Prop :=
  match s.point with
  | .between => runnables s.tasks ≤ batch ∧ s.sq.queued = 0
  | .pass cursor =>
    runnables (s.tasks.take cursor) = 0 ∧ runnables s.tasks + s.sq.queued ≤ batch
  | .running node =>
    runnables (s.tasks.take node) = 0 ∧ runnables s.tasks + s.sq.queued ≤ batch ∧
      ∃ flags, s.tasks[node]? = some flags ∧ runnable flags = true
  | .ran => runnables s.tasks = 0
  | .waiting => runnables s.tasks = 0 ∧ s.sq.queued = 0
  | .batch left => runnables s.tasks + left ≤ batch ∧ s.sq.queued = 0
  | .undefined => False

theorem runnables_modify (tasks : List TaskFlags) (node : Nat) (f : TaskFlags → TaskFlags) :
    runnables (tasks.modify node f) ≤ runnables tasks + 1 := by
  induction tasks generalizing node with
  | nil => simp [runnables]
  | cons flags rest ih =>
    cases node with
    | zero =>
      simp only [runnables, List.modify_zero_cons, List.countP_cons]
      split <;> omega
    | succ node =>
      have := ih node
      simp only [runnables, List.modify_succ_cons, List.countP_cons] at this ⊢
      omega

theorem runnables_append_new (tasks : List TaskFlags) :
    runnables (tasks ++ [({} : TaskFlags)]) = runnables tasks + 1 := by
  simp [runnables, runnable]

/-- A resumed task that suspends on an operation, or ends, is not runnable. -/
theorem runnables_set {tasks : List TaskFlags} {node : Nat} {flags after : TaskFlags}
    (here : tasks[node]? = some flags) (was : runnable flags = true)
    (stops : runnable after = false) :
    runnables (tasks.set node after) + 1 = runnables tasks := by
  obtain ⟨hlt, hget⟩ := List.getElem?_eq_some_iff.mp here
  have pos : 0 < tasks.countP runnable :=
    List.countP_pos_iff.mpr ⟨flags, List.mem_of_getElem? here, was⟩
  simp only [runnables, List.countP_set hlt, hget, was, stops, if_true, Bool.false_eq_true,
    if_false]
  omega

theorem runnables_take_succ {tasks : List TaskFlags} {node : Nat} {flags : TaskFlags}
    (here : tasks[node]? = some flags) (stopped : runnable flags = false)
    (before : runnables (tasks.take node) = 0) : runnables (tasks.take (node + 1)) = 0 := by
  simp only [runnables] at before
  simp [runnables, List.take_add_one, here, before, stopped]

theorem runnables_applyEffects (tasks : List TaskFlags) (effects : List (Effect Unit φ Nat Unit)) :
    runnables (MultishotLoop.applyEffects tasks effects) ≤
      runnables tasks + effects.countP Uring.wakes := by
  induction effects generalizing tasks with
  | nil => exact Nat.le_refl _
  | cons effect rest ih =>
    rw [List.countP_cons]
    cases effect with
    | setPending node pending =>
      have one := runnables_modify tasks node ({ · with pending })
      have more := ih (tasks.modify node ({ · with pending }))
      simp only [Uring.wakes, if_true]
      exact more.trans (by omega)
    | enqueue task =>
      have more := ih (tasks ++ [({} : TaskFlags)])
      rw [runnables_append_new] at more
      simp only [Uring.wakes, if_true]
      exact more.trans (by omega)
    | schedule func conn =>
      have more := ih (tasks ++ [({} : TaskFlags)])
      rw [runnables_append_new] at more
      simp only [Uring.wakes, if_true]
      exact more.trans (by omega)
    | _ =>
      change runnables (MultishotLoop.applyEffects tasks rest) ≤ _
      simpa only [Uring.wakes, Bool.false_eq_true, if_false, Nat.add_zero] using ih tasks

theorem bounded_served {batch : Nat} (bounded : Bounded batch s) :
    s.point ≠ .undefined ∧ (s.point = .between → runnables s.tasks ≤ batch) ∧
      (s.point = .ran → runnables s.tasks = 0) := by
  unfold Bounded at bounded
  refine ⟨fun h => ?_, fun h => ?_, fun h => ?_⟩
  · rw [h] at bounded
    exact bounded
  · rw [h] at bounded
    exact bounded.1
  · rw [h] at bounded
    exact bounded

theorem bounded_visit {batch node : Nat} (bounded : Bounded batch s) (here : s.point = .pass node) :
    Bounded batch (s.visit node) := by
  simp only [Bounded, here] at bounded
  obtain ⟨before, total⟩ := bounded
  unfold visit
  split
  · rename_i past
    rw [List.take_of_length_le (List.getElem?_eq_none_iff.mp past)] at before
    exact before
  · rename_i flags hflags
    cases hrun : runnable flags with
    | false => exact ⟨runnables_take_succ hflags hrun before, total⟩
    | true => exact ⟨before, total, flags, hflags, hrun⟩

/-- A call leaves the tasks as they are, and the queue as it is or empty. -/
theorem bounded_perform {batch node : Nat} (room : batch < entries) (bounded : Bounded batch s)
    (running : s.point = .running node) {call : TaskCall} (spawns : call ≠ .coSpawn) :
    Bounded batch (s.perform false call) := by
  have bounded' := bounded
  simp only [Bounded, running] at bounded
  obtain ⟨before, total, here⟩ := bounded
  cases call with
  | parallelSpawn | parallelSpawnConnection | mshotAcceptSend => exact bounded'
  | coSpawn => exact absurd rfl spawns
  | destroyConnection =>
    obtain ⟨sq, hsq, heq⟩ := requests_fit (s := s) 1 (by omega)
    simp only [perform, heq, Bounded, running, hsq]
    exact ⟨before, by omega, here⟩

theorem bounded_suspend {batch node : Nat} (room : batch < entries) (bounded : Bounded batch s)
    (running : s.point = .running node) {suspension : Suspension}
    (ends : suspension = .operation ∨ suspension = .finished) :
    Bounded batch (s.suspend node suspension) := by
  simp only [Bounded, running] at bounded
  obtain ⟨before, total, flags, here, was⟩ := bounded
  have stops : runnable suspension.flags = false := by rcases ends with rfl | rfl <;> rfl
  have slots : suspension.slots ≤ 1 := by rcases ends with rfl | rfl <;> decide
  obtain ⟨sq, hsq, heq⟩ := suspend_fit (s := s) node suspension (by omega)
  have fewer := runnables_set here was stops
  obtain ⟨hlt, -⟩ := List.getElem?_eq_some_iff.mp here
  rw [heq]
  refine ⟨?_, ?_⟩
  · apply runnables_take_succ (List.getElem?_set_self hlt) stops
    rwa [List.take_set_of_le (Nat.le_refl _)]
  · change runnables (s.tasks.set node suspension.flags) + sq.queued ≤ batch
    omega

theorem bounded_handle {batch left : Nat} (pos : 0 < entries) (bounded : Bounded batch s)
    (hbatch : s.point = .batch (left + 1)) {cqe : Cqe Unit φ Nat Unit} {ring : Uring}
    {effects : List (Effect Unit φ Nat Unit)}
    (handled : s.ring.handleRequest multishotToken cqe = some (ring, effects))
    (single : Uring.isMessage cqe .multiAccTask = false) :
    Bounded batch (effects.foldl applyEffect { s with ring, point := .batch left }) := by
  simp only [Bounded, hbatch] at bounded
  obtain ⟨total, quiet⟩ := bounded
  obtain ⟨sq, awaited, hsq, -, heq⟩ := foldl_applyEffect pos effects
    (s := { s with ring, point := .batch left }) quiet
  have one := Uring.handleRequest_wakes handled single
  have more := runnables_applyEffects s.tasks effects
  rw [heq]
  refine ⟨?_, hsq⟩
  change runnables (MultishotLoop.applyEffects s.tasks effects) + left ≤ batch
  omega

theorem bounded_step (room : cfg.uringPeekCqesBatch < entries)
    (bounded : Bounded cfg.uringPeekCqesBatch s) (spawned : OnlySpawned s ev)
    (h : s.step false cfg multishotToken ev = some s') : Bounded cfg.uringPeekCqesBatch s' := by
  cases does_of_step h with
  | startPass between =>
    simp only [Bounded, between] at bounded
    exact ⟨rfl, bounded.2.symm ▸ bounded.1⟩
  | visit pass => exact bounded_visit bounded pass
  | call running => exact bounded_perform room bounded running spawned
  | suspend running => exact bounded_suspend room bounded running spawned
  | submitAll ran =>
    simp only [Bounded, ran] at bounded
    exact ⟨bounded, s.sq.submit_queued⟩
  | peek waiting batch =>
    simp only [Bounded, waiting] at bounded
    refine ⟨?_, bounded.2⟩
    rw [bounded.1, Nat.zero_add]
    exact batch
  | handle batch handled => exact bounded_handle (by omega) bounded batch handled spawned
  | endStopped batch =>
    simp only [Bounded, batch] at bounded
    obtain ⟨sq, hsq, heq⟩ := requests_fit (s := { s with point := .between }) 1
      (by rw [show ({ s with point := .between } : LoopPass entries).sq = s.sq from rfl]; omega)
    rw [heq]
    exact ⟨(Nat.le_add_right _ _).trans bounded.1, hsq⟩
  | endBatch batch =>
    simp only [Bounded, batch] at bounded
    exact ⟨(Nat.le_add_right _ _).trans bounded.1, bounded.2⟩

/-- **A worker ring always has a free slot**, a pass of its loop has at most a batch of tasks to
resume and leaves none. -/
theorem served_of_spawned (multishotToken : CompletionToken Nat) (es : List (PassEvent φ))
    (spawned : Meets (step false {} multishotToken) OnlySpawned (workerLoop {}) es) :
    Always (step false {} multishotToken) (Served {}) (workerLoop {}) es := by
  refine always_of_meets (fun _ _ _ => bounded_step (by decide)) (fun s bounded => ?_)
    (show Bounded _ _ from ⟨Nat.zero_le _, rfl⟩) spawned
  obtain ⟨found, start, ended⟩ := bounded_served bounded
  exact ⟨start, ended, found⟩

/-- A spawned task awaits one operation, destroys a connection and ends. -/
def spawnedEcho : List (PassEvent Unit) :=
  [.startPass, .visit, .submitAll, .peek 1,
    .handle ⟨RingMsgType.ringTask.value, netIoringCqeFTask, some ((), .ringMsgTask ())⟩, .endBatch,
    .startPass, .visit, .suspend .operation, .visit, .submitAll, .peek 1,
    .handle ⟨5, 0, some ((), .token { op := .receive, chainTask := some 0 })⟩, .endBatch,
    .startPass, .visit, .call .destroyConnection, .suspend .finished, .visit]

theorem served_of_spawned_echo :
    (exec (step false {} {}) (workerLoop {}) spawnedEcho).isSome ∧
      Always (step false {} {}) (Served {}) (workerLoop {}) spawnedEcho :=
  ⟨by decide +kernel, served_of_spawned {} spawnedEcho (by decide +kernel)⟩

end CoNet.Context.LoopPass
