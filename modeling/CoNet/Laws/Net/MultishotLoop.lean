import CoNet.Laws.Net.MultishotListeners
import CoNet.Net.MultishotLoop

/-!
# No accepted connection is stranded

`NotStranded` is what one state of the main loop with one listener should satisfy: the descriptors
accepted are the ones taken for dispatch and then the ones that still wait, in order; between passes
the listener's task is ready when a descriptor waits; and no descriptor waits once a pass has gone
past the task. Every run keeps it (`notStranded_always`): a completion makes the task ready after it
pushes, and the task makes itself pending after it has taken the whole list.

`Armed` says that the accept request was armed whenever the task suspended. Nothing submits the
request again, so this holds exactly as long as no resumption follows a completion without
`IORING_CQE_F_MORE` (`armed_iff_more`).
-/

set_option autoImplicit false

namespace CoNet.Net.MultishotLoop

open CoNet.Io CoNet.Context Transition

variable {φ : Type} {workers : WorkerRings} {func : φ} {s s' : MultishotLoop φ} {ev : LoopEvent φ}

/-- No accepted connection waits for a task that nothing will resume. -/
structure NotStranded (workers : WorkerRings) (func : φ) (s : MultishotLoop φ) : Prop where
  /-- Each accepted descriptor is taken once, in the order of acceptance, or waits. -/
  inOrder : s.dispatched.map Handoff.fd ++ s.ring.awaitingDirectFd.map some = s.accepted.map some
  /-- Between passes the listener's task is ready when a descriptor waits. -/
  ready : s.control = .between → s.ring.awaitingDirectFd ≠ [] →
    s.tasks[s.listener]? = some { valid := true, pending := false }
  /-- No descriptor waits once a pass has gone past the task. -/
  passed : ∀ node, s.control = .pass node → s.listener < node → s.ring.awaitingDirectFd = []
  /-- Neither the visit of the task nor a completion of its request is undefined. -/
  visited : ∀ activity, s.control = .pass s.listener →
    (s.step workers func (.visit activity)).isSome
  taken : ∀ res flags, s.control = .between → s.request = true →
    flags &&& netIoringCqeFTask = 0 → (s.step workers func (.accept res flags)).isSome

/-! ## What a step does -/

theorem sendAwaitingFds_isSome (workers : WorkerRings) (current : Int) (heap : Nat)
    (func : Option φ) (fds : List Int) :
    (sendAwaitingFds workers.fds current heap func fds :
      Option (Int × Nat × List (Handoff Unit φ Nat Nat))).isSome := by
  induction fds generalizing current heap func with
  | nil => rfl
  | cons fd fds ih =>
    obtain ⟨⟨next, worker⟩, hpick⟩ :=
      Option.isSome_iff_exists.mp (pickWorker_isSome workers.nonempty current)
    obtain ⟨⟨last, lastHeap, rest⟩, hrest⟩ := Option.isSome_iff_exists.mp (ih next (heap + 2) none)
    simp only [sendAwaitingFds, hpick, hrest, Option.bind_eq_bind, Option.bind_some,
      Option.isSome_some]

/-- What a step does, one constructor an outcome. -/
inductive Does (workers : WorkerRings) (func : φ) (s : MultishotLoop φ) :
    LoopEvent φ → MultishotLoop φ → Prop where
  | startPass (between : s.control = .between) :
    Does workers func s .startPass { s with control := .pass 0 }
  | endPass {activity : Activity} {node : Nat} (at_ : s.control = .pass node)
    (past : s.tasks[node]? = none) :
    Does workers func s (.visit activity) { s with control := .between }
  | skip {activity : Activity} {node : Nat} {flags : TaskFlags} (at_ : s.control = .pass node)
    (here : s.tasks[node]? = some flags) (idle : flags.valid = false ∨ flags.pending = true) :
    Does workers func s (.visit activity) { s with control := .pass (node + 1) }
  | serve {activity : Activity} {current : Int} {heap : Nat}
    {handoffs : List (Handoff Unit φ Nat Nat)} (at_ : s.control = .pass s.listener)
    (point : s.point ≠ .before)
    (here : s.tasks[s.listener]? = some { valid := true, pending := false })
    (sent : sendAwaitingFds workers.fds s.current s.heap (some func) s.ring.awaitingDirectFd =
      some (current, heap, handoffs)) :
    Does workers func s (.visit activity) { s with
      ring := { s.ring with awaitingDirectFd := [] }, current, heap
      tasks := s.tasks.modify s.listener ({ · with pending := true })
      point := .atPending
      dispatched := s.dispatched ++ handoffs
      suspensions := s.suspensions ++ [s.request]
      control := .pass (s.listener + 1) }
  | arm {activity : Activity} (at_ : s.control = .pass s.listener) (point : s.point = .before)
    (here : s.tasks[s.listener]? = some { valid := true, pending := false }) :
    Does workers func s (.visit activity)
      { s.arm s.listener { valid := true, pending := false } activity with
        control := .pass (s.listener + 1) }
  | act {activity : Activity} {node : Nat} (at_ : s.control = .pass node)
    (other : node = s.listener → s.point = .before)
    (here : s.tasks[node]? = some { valid := true, pending := false }) :
    Does workers func s (.visit activity)
      { s.act node activity with control := .pass (node + 1) }
  | accept {res : Int} {flags : BitVec 32} {ring : Uring}
    {effects : List (Effect Unit φ Nat Unit)} (between : s.control = .between)
    (request : s.request = true) (plain : flags &&& netIoringCqeFTask = 0)
    (handled : s.ring.handleRequest s.token (MultishotListeners.acceptCqe s.token res flags) =
      some (ring, effects)) :
    Does workers func s (.accept res flags) { s with
      ring
      tasks := applyEffects s.tasks effects
      request := hasMore flags
      accepted := s.accepted ++ if 0 ≤ res then [res] else []
      handled := s.handled ++ [(res, flags)] }
  | other {cqe : Cqe Unit φ Nat Unit} {ring : Uring} {effects : List (Effect Unit φ Nat Unit)}
    (between : s.control = .between) (other : isOther cqe = true)
    (handled : s.ring.handleRequest s.token cqe = some (ring, effects)) :
    Does workers func s (.other cqe) { s with ring, tasks := applyEffects s.tasks effects }

theorem does_of_step (h : s.step workers func ev = some s') : Does workers func s ev s' := by
  cases ev with
  | startPass =>
    simp only [step] at h
    split at h
    · cases h
      exact .startPass ‹_›
    · cases h
  | visit activity =>
    simp only [step] at h
    split at h
    · cases h
    · rename_i node at_
      unfold visit at h
      split at h
      · cases h
        exact .endPass at_ ‹_›
      · rename_i flags here
        split at h
        · rename_i runnable
          simp only [Bool.and_eq_true, Bool.not_eq_eq_eq_not, Bool.not_true] at runnable
          obtain rfl : flags = { valid := true, pending := false } := by
            cases flags
            simp_all
          obtain ⟨m, hm, rfl⟩ := Option.map_eq_some_iff.mp h
          unfold resume at hm
          split at hm
          · rename_i serving
            simp only [MultishotLoop.serving, Bool.and_eq_true, beq_iff_eq, bne_iff_ne,
              ne_eq] at serving
            obtain ⟨rfl, point⟩ := serving
            simp only [serve, Option.bind_eq_bind, Option.bind_eq_some_iff] at hm
            obtain ⟨⟨ring, current, heap, handoffs⟩, hsend, heq⟩ := hm
            obtain ⟨rfl, sent⟩ := mshotAcceptSend_eq hsend
            cases heq
            exact .serve at_ point here sent
          · rename_i serving
            simp only [MultishotLoop.serving, Bool.and_eq_true, beq_iff_eq, bne_iff_ne, ne_eq,
              not_and, not_not] at serving
            split at hm
            · rename_i arms
              obtain ⟨rfl, -⟩ := arms
              cases hm
              exact .arm at_ (serving rfl) here
            · cases hm
              exact .act at_ serving here
        · rename_i idle
          cases h
          refine .skip at_ here ?_
          cases hv : flags.valid <;> cases hp : flags.pending <;> simp_all
  | accept res flags =>
    simp only [step] at h
    split at h
    · rename_i guard
      obtain ⟨between, request, plain⟩ := guard
      split at h
      · cases h
      · rename_i ring effects handled
        cases h
        exact .accept between request plain handled
    · cases h
  | other cqe =>
    simp only [step] at h
    split at h
    · rename_i guard
      obtain ⟨⟨ring, effects⟩, handled, rfl⟩ := Option.map_eq_some_iff.mp h
      exact .other guard.1 guard.2 handled
    · cases h

/-! ## The invariant -/

/-- The listener's task runs `multishot_accept_then`: the token names it, and it is pending only
when no descriptor waits. -/
structure Serving (listener : Nat) (token : CompletionToken Nat) (tasks : List TaskFlags)
    (awaiting : List Int) : Prop where
  op : token.op = .multishotAccept
  chainTask : token.chainTask = some listener
  task : ∃ t, tasks[listener]? = some t ∧ t.valid = true ∧ (t.pending = true → awaiting = [])

structure Inv (s : MultishotLoop φ) : Prop where
  before : s.point = .before → s.request = false ∧ s.ring.awaitingDirectFd = []
  serving : s.point ≠ .before →
    Serving s.listener s.token s.tasks s.ring.awaitingDirectFd
  inOrder : s.dispatched.map Handoff.fd ++ s.ring.awaitingDirectFd.map some = s.accepted.map some
  passed : ∀ node, s.control = .pass node → s.listener < node → s.ring.awaitingDirectFd = []

theorem inv_init (listener : Nat) : Inv ({ listener } : MultishotLoop φ) where
  before _ := ⟨rfl, rfl⟩
  serving h := absurd rfl h
  inOrder := rfl
  passed _ _ _ := rfl

/-- The effects of a completion make no task pending and end none. -/
theorem applyEffects_task {tasks : List TaskFlags} {effects : List (Effect Unit φ Nat Unit)}
    {node : Nat} {t : TaskFlags}
    (ready : ∀ task pending, .setPending task pending ∈ effects → pending = false)
    (h : tasks[node]? = some t) :
    ∃ t', (applyEffects tasks effects)[node]? = some t' ∧ t'.valid = t.valid ∧
      (t'.pending = true → t.pending = true) := by
  induction effects generalizing tasks t with
  | nil => exact ⟨t, h, rfl, id⟩
  | cons effect effects ih =>
    -- one effect leaves a task there, as valid and no more pending
    obtain ⟨tasks', t', htasks, here, valid, pending⟩ : ∃ tasks' t',
        applyEffects tasks (effect :: effects) = applyEffects tasks' effects ∧
          tasks'[node]? = some t' ∧ t'.valid = t.valid ∧ (t'.pending = true → t.pending = true) := by
      have hlt := (List.getElem?_eq_some_iff.mp h).1
      have appended : (tasks ++ [({} : TaskFlags)])[node]? = some t := by rw [List.getElem?_append_left hlt, h]
      cases effect with
      | setPending task pending =>
        obtain rfl := ready task pending List.mem_cons_self
        by_cases hn : task = node
        · subst hn
          refine ⟨tasks.modify task ({ · with pending := false }), { t with pending := false }, rfl,
            ?_, rfl, fun hp => nomatch hp⟩
          simp [h]
        · refine ⟨tasks.modify task ({ · with pending := false }), t, rfl, ?_, rfl, id⟩
          simp [hn, h]
      | enqueue task => exact ⟨_, t, rfl, appended, rfl, id⟩
      | schedule func conn => exact ⟨_, t, rfl, appended, rfl, id⟩
      | _ => exact ⟨_, t, rfl, h, rfl, id⟩
    obtain ⟨t'', here', valid', pending'⟩ :=
      ih (fun task p hp => ready task p (List.mem_cons_of_mem _ hp)) here
    exact ⟨t'', htasks ▸ here', valid'.trans valid, fun hp => pending (pending' hp)⟩

theorem pushed_other {cqe : Cqe Unit φ Nat Unit} (h : isOther cqe = true) :
    Uring.pushed cqe = [] := by
  unfold Uring.pushed
  rw [if_neg]
  rintro ⟨hop | hop, -⟩ <;> simp [isOther, hop] at h

/-- **Every step keeps the invariant.** -/
theorem inv_step (inv : Inv s) (h : s.step workers func ev = some s') : Inv s' := by
  cases does_of_step h with
  | startPass =>
    refine { inv with passed := ?_ }
    rintro node hn hlt
    obtain rfl : 0 = node := LoopControl.pass.inj hn
    exact absurd hlt (Nat.not_lt_zero _)
  | endPass => exact { inv with passed := fun node hn => nomatch hn }
  | @skip activity node flags at_ here idle =>
    refine { inv with passed := ?_ }
    rintro node' hn hlt
    obtain rfl : node + 1 = node' := LoopControl.pass.inj hn
    rcases Nat.lt_succ_iff_lt_or_eq.mp hlt with hlt | hn'
    · exact inv.passed node at_ hlt
    · change s.listener = node at hn'
      subst hn'
      by_cases point : s.point = .before
      · exact (inv.before point).2
      · obtain ⟨t, ht, valid, pending⟩ := (inv.serving point).task
        obtain rfl := Option.some.inj (here.symm.trans ht)
        refine pending (idle.resolve_left ?_)
        simp [valid]
  | @serve activity current heap handoffs at_ point here sent =>
    have serving := inv.serving point
    refine ⟨fun hp => (nomatch hp), fun _ => ⟨serving.op, serving.chainTask, ?_⟩, ?_,
      fun _ _ _ => rfl⟩
    · exact ⟨{ valid := true, pending := true }, by simp [here], rfl, fun _ => rfl⟩
    · rw [← inv.inOrder, List.map_append, sendAwaitingFds_fd sent]
      simp
  | @arm activity at_ point here =>
    have idle := (inv.before point).2
    have hlt := (List.getElem?_eq_some_iff.mp here).1
    refine ⟨fun hp => (nomatch hp), fun _ => ⟨rfl, rfl, ?_⟩, inv.inOrder, fun _ _ _ => idle⟩
    refine ⟨{ valid := true, pending := false }, ?_, rfl, fun _ => idle⟩
    simp only [MultishotLoop.arm, act]
    rw [List.getElem?_append_left (by simpa using hlt), List.getElem?_set_self hlt]
  | @act activity node at_ other here =>
    have hlt := (List.getElem?_eq_some_iff.mp here).1
    refine { inv with serving := fun point => ?_, passed := ?_ }
    · obtain ⟨t, ht, valid, pending⟩ := (inv.serving point).task
      refine ⟨(inv.serving point).op, (inv.serving point).chainTask, t, ?_, valid, pending⟩
      have ne : node ≠ s.listener := fun hn => point (other hn)
      have hlt' := (List.getElem?_eq_some_iff.mp ht).1
      simp only [MultishotLoop.act]
      rw [List.getElem?_append_left (by simpa using hlt'), List.getElem?_set_ne ne, ht]
    · rintro node' hn hlt'
      obtain rfl : node + 1 = node' := LoopControl.pass.inj hn
      rcases Nat.lt_succ_iff_lt_or_eq.mp hlt' with hlt' | hn'
      · exact inv.passed node at_ hlt'
      · exact (inv.before (other hn'.symm)).2
  | @accept res flags ring effects between request plain handled =>
    have point : s.point ≠ .before := by
      intro hp
      rw [(inv.before hp).1] at request
      cases request
    have serving := inv.serving point
    rw [MultishotListeners.handleRequest_accept serving.op serving.chainTask plain] at handled
    obtain ⟨rfl, rfl⟩ := Prod.mk.inj (Option.some.inj handled)
    obtain ⟨t, ht, valid, -⟩ := serving.task
    refine ⟨fun hp => absurd hp point, fun _ => ⟨serving.op, serving.chainTask, ?_⟩, ?_, ?_⟩
    · exact ⟨{ t with pending := false }, by simp [applyEffects, ht], valid, fun hp => nomatch hp⟩
    · simp only [Uring.pushAwaiting_awaiting, List.map_append, ← List.append_assoc, inv.inOrder]
    · intro node hn
      rw [between] at hn
      cases hn
  | @other cqe ring effects between other handled =>
    have same : ring.awaitingDirectFd = s.ring.awaitingDirectFd := by
      rw [Uring.handleRequest_awaiting handled, pushed_other other, List.append_nil]
    refine ⟨fun hp => ⟨(inv.before hp).1, same.trans (inv.before hp).2⟩, fun point => ?_, ?_, ?_⟩
    · obtain ⟨t, ht, valid, pending⟩ := (inv.serving point).task
      obtain ⟨t', ht', valid', pending'⟩ :=
        applyEffects_task (fun _ _ => Uring.handleRequest_setPending handled) ht
      exact ⟨(inv.serving point).op, (inv.serving point).chainTask, t', ht', valid'.trans valid,
        fun hp => same.trans (pending (pending' hp))⟩
    · simp only [same, inv.inOrder]
    · intro node hn
      rw [between] at hn
      cases hn

/-- The visit of the listener's task is not undefined: there is a worker to pick. -/
theorem visit_isSome (workers : WorkerRings) (func : φ) (s : MultishotLoop φ) (activity : Activity)
    {node : Nat} (at_ : s.control = .pass node) :
    (s.step workers func (.visit activity)).isSome := by
  simp only [step, at_, visit]
  split
  · rfl
  · split
    · simp only [Option.isSome_map, resume, serve, mshotAcceptSendAwaitingFdAndProcess]
      split
      · obtain ⟨⟨current, heap, handoffs⟩, hsend⟩ := Option.isSome_iff_exists.mp
          (sendAwaitingFds_isSome workers s.current s.heap (some func) s.ring.awaitingDirectFd)
        simp only [hsend, Option.bind_eq_bind, Option.bind_some, Option.isSome_some]
      · split <;> rfl
    · rfl

theorem notStranded_of_inv (inv : Inv s) : NotStranded workers func s where
  inOrder := inv.inOrder
  ready between waiting := by
    by_cases point : s.point = .before
    · exact absurd (inv.before point).2 waiting
    · obtain ⟨t, ht, valid, pending⟩ := (inv.serving point).task
      rw [ht]
      cases hp : t.pending with
      | true => exact absurd (pending hp) waiting
      | false =>
        cases t
        simp_all
  passed := inv.passed
  visited activity at_ := visit_isSome workers func s activity at_
  taken res flags between request plain := by
    have serving := inv.serving fun hp => by
      rw [(inv.before hp).1] at request
      cases request
    simp [step, between, request, plain,
      MultishotListeners.handleRequest_accept serving.op serving.chainTask plain]

/-- **No accepted connection is stranded**, in any run with one listener. -/
theorem notStranded_always (workers : WorkerRings) (func : φ) (listener : Nat)
    (es : List (LoopEvent φ)) :
    Always (step workers func) (NotStranded workers func) { listener } es :=
  always_of_keep (fun _ _ _ => inv_step) (fun _ => notStranded_of_inv) (inv_init listener)

/-! ## The accept request -/

/-- The accept request was armed whenever the task suspended in `multishot_accept_then`. -/
def Armed (s : MultishotLoop φ) : Prop := ∀ armed ∈ s.suspensions, armed = true

/-- When the task is resumed in the loop of `multishot_accept_then`, every completion of its accept
request handled so far had `IORING_CQE_F_MORE`. -/
def More (s : MultishotLoop φ) : LoopEvent φ → Prop
  | .visit _ =>
    s.control = .pass s.listener → s.point ≠ .before →
      s.tasks[s.listener]? = some { valid := true, pending := false } →
      ∀ c ∈ s.handled, hasMore c.2 = true
  | _ => True

/-- The kernel has the request as long as each of its completions has `IORING_CQE_F_MORE`. -/
structure ArmedInv (s : MultishotLoop φ) : Prop extends Inv s where
  armed : Armed s
  fresh : s.point = .before → s.handled = []
  request : s.point ≠ .before → (s.request = true ↔ ∀ c ∈ s.handled, hasMore c.2 = true)

theorem armedInv_init (listener : Nat) : ArmedInv ({ listener } : MultishotLoop φ) :=
  { inv_init listener with
    armed := fun _ h => (nomatch h)
    fresh := fun _ => rfl
    request := fun h => absurd rfl h }

/-- **A resumption that follows no completion without `IORING_CQE_F_MORE` finds the request
armed.** -/
theorem armedInv_step (inv : ArmedInv s) (more : More s ev) (h : s.step workers func ev = some s') :
    ArmedInv s' := by
  have inv' := inv_step inv.toInv h
  cases does_of_step h with
  | startPass | endPass | skip | other =>
    exact { inv' with armed := inv.armed, fresh := inv.fresh, request := inv.request }
  | @serve activity current heap handoffs at_ point here sent =>
    refine { inv' with armed := ?_, fresh := fun hp => (nomatch hp), request := fun _ => inv.request point }
    intro armed ha
    rcases List.mem_append.mp ha with ha | ha
    · exact inv.armed armed ha
    · rw [List.mem_singleton.mp ha]
      exact (inv.request point).mpr (more at_ point here)
  | @arm activity at_ point here =>
    refine { inv' with armed := ?_, fresh := fun hp => (nomatch hp), request := fun _ => ?_ }
    · intro armed ha
      rcases List.mem_append.mp ha with ha | ha
      · exact inv.armed armed ha
      · exact List.mem_singleton.mp ha
    · refine iff_of_true rfl fun c hc => ?_
      change c ∈ s.handled at hc
      rw [inv.fresh point] at hc
      cases hc
  | act => exact { inv' with armed := inv.armed, fresh := inv.fresh, request := inv.request }
  | @accept res flags ring effects between request plain handled =>
    have point : s.point ≠ .before := by
      intro hp
      rw [(inv.before hp).1] at request
      cases request
    refine { inv' with armed := inv.armed, fresh := fun hp => absurd hp point, request := fun _ => ?_ }
    have before := (inv.request point).mp request
    constructor
    · intro last c hc
      rcases List.mem_append.mp hc with hc | hc
      · exact before c hc
      · rw [List.mem_singleton.mp hc]
        exact last
    · exact fun all => all (res, flags) (List.mem_append_right _ (List.mem_singleton_self _))

/-- **After a completion without it, the next resumption suspends with no request armed.** -/
theorem not_armed_step (inv : ArmedInv s) (ended : ¬ More s ev)
    (h : s.step workers func ev = some s') : ¬ Armed s' := by
  intro armed
  cases does_of_step h with
  | startPass | accept | other => exact ended trivial
  | @endPass activity node at_ past =>
    refine ended fun at_' _ here => ?_
    obtain rfl := LoopControl.pass.inj (at_.symm.trans at_')
    rw [past] at here
    cases here
  | @skip activity node flags at_ here idle =>
    refine ended fun at_' _ here' => ?_
    obtain rfl := LoopControl.pass.inj (at_.symm.trans at_')
    obtain rfl := Option.some.inj (here.symm.trans here')
    rcases idle with idle | idle <;> cases idle
  | @serve activity current heap handoffs at_ point here sent =>
    refine ended fun _ _ _ => (inv.request point).mp ?_
    exact armed s.request (List.mem_append_right _ (List.mem_singleton_self _))
  | @arm activity at_ point here => exact ended fun _ hp => absurd point hp
  | @act activity node at_ other here =>
    refine ended fun at_' hp _ => ?_
    exact absurd (other (LoopControl.pass.inj (at_.symm.trans at_'))) hp

/-- **The accept request is armed at each suspension exactly in the runs that resume the task only
while every completion of the request had `IORING_CQE_F_MORE`.** -/
theorem armed_iff_more (workers : WorkerRings) (func : φ) (listener : Nat)
    (es : List (LoopEvent φ)) :
    Always (step workers func) Armed { listener } es ↔
      Meets (step workers func) More { listener } es :=
  always_iff_meets (fun _ _ _ => armedInv_step) (fun _ inv => inv.armed)
    (fun _ _ _ => not_armed_step) (armedInv_init listener)

/-- The accept fails once because the table is full (`-ENFILE` without `IORING_CQE_F_MORE`); the task
is resumed and suspends with no request armed, and no later client is accepted. -/
theorem not_armed_tableFull :
    ∃ s : MultishotLoop Unit,
      exec (step ⟨[7], by decide⟩ ()) { listener := 0 }
        [.startPass, .visit { arms := true }, .visit {}, .accept (-23) 0, .startPass, .visit {}] =
          some s ∧
      s.suspensions = [true, false] ∧ s.request = false ∧ ¬ Armed s ∧
      ∀ res flags, s.step ⟨[7], by decide⟩ () (.accept res flags) = none :=
  ⟨_, rfl, rfl, rfl, fun h => absurd (h false (by decide)) (by decide), fun _ _ => rfl⟩

end CoNet.Net.MultishotLoop
