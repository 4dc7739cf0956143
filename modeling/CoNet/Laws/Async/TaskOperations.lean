import CoNet.Laws.Async.TaskHeap

/-!
# Operations on task objects

Constructions, moves, assignments and destructions. A call and a `Task` that takes over leave every
frame with one owner; a `ScheduledTask` made of a `Task` gives the frame its name; and a destroyed
object destroys its chain, each frame of it once.
-/

set_option autoImplicit false

namespace CoNet.Async.TaskHeap

open Successors

variable {V X : Type} {s s' : TaskHeap V X} {c c' : Coroutine V X} {f g r : FrameId} {n : TaskId}
  {x y : Nat} {k : Holder} {l : List FrameId}

/-! ## Places -/

theorem holds_setTask (t : Option Task) :
    (s.setTask x t).holds = Function.update s.holds (.task x) (t.bind (·.handle)) := by
  funext k
  by_cases hk : k = .task x
  · subst hk
    simp [holds, setTask]
  · rw [Function.update_of_ne hk]
    cases k with
    | task y =>
      have other : y ≠ x := fun same => hk (same ▸ rfl)
      simp only [holds, setTask, Function.update_of_ne other]
    | _ => rfl

theorem holds_setScheduled (t : Option ScheduledTaskObject) :
    (s.setScheduled n t).holds = Function.update s.holds (.scheduled n) (t.bind (·.task.handle)) := by
  funext k
  by_cases hk : k = .scheduled n
  · subst hk
    simp [holds, setScheduled]
  · rw [Function.update_of_ne hk]
    cases k with
    | scheduled m =>
      have other : m ≠ n := fun same => hk (same ▸ rfl)
      simp only [holds, setScheduled, Function.update_of_ne other]
    | _ => rfl

theorem handleOf_setTask (t : Option Task) :
    (s.setTask x t).handleOf = Function.update s.handleOf (.task x) (t.bind (·.handle)) := by
  funext k
  cases k with
  | task y =>
    rw [Function.update_apply]
    exact (congrFun (holds_setTask t) (.task y)).trans (Function.update_apply ..)
  | scheduled n => rw [Function.update_of_ne (by simp)]; rfl
  | frame g => rw [Function.update_of_ne (by simp)]; rfl

/-- What an object holds is in the object. -/
theorem holds_congr (object : k.IsObject) (tasks : s'.tasks = s.tasks)
    (scheduled : s'.scheduled = s.scheduled) : s'.holds k = s.holds k := by
  cases k with
  | task x => simp only [holds, tasks]
  | scheduled n => simp only [holds, scheduled]
  | frame g => exact absurd rfl (object g)

/-- The handle of a `Task` is its coroutine's. -/
theorem handleOf_task (x : Nat) : s.handleOf (.task x) = s.holds (.task x) := rfl

/-- Setting a place to a `ScheduledTask` with a coroutine leaves none without. -/
theorem Core.full_update (core : Core s) {t : ScheduledTaskObject} (has : t.task.handle = some r)
    {m : TaskId} {u : ScheduledTaskObject}
    (hu : Function.update s.scheduled n (some t) m = some u) : ∃ r, u.task.handle = some r := by
  by_cases hm : m = n
  · rw [hm, Function.update_self] at hu
    exact ⟨r, Option.some.inj hu ▸ has⟩
  · rw [Function.update_of_ne hm] at hu
    exact core.full m u hu

/-! ## A call -/

/-- A new coroutine is owned by an object that had none. -/
theorem Live.called (core : Core s) (live : Live s) (object : k.IsObject) (free : s.holds k = none)
    (holds : s'.holds = Function.update s.holds k (some s.nextFrame))
    (sites : s'.siteAt = Function.update s.siteAt s.nextFrame (some .initial))
    (stack : s'.stack = s.stack) (handle : s'.handleOf k = some s.nextFrame)
    (handles : ∀ k', k' ≠ k → s'.handleOf k' = s.handleOf k') : Live s' := by
  have callee : s'.ownership.callee = s.ownership.callee := by
    funext g
    rw [callee_eq, sites]
    by_cases hg : g = s.nextFrame
    · rw [hg, Function.update_self]
      exact core.sound.callee_acquired.symm
    · rw [Function.update_of_ne hg, callee_eq]
  have old : ∀ f, s.siteAt f = some .executing → f ≠ s.nextFrame := by
    rintro f hf rfl
    obtain ⟨c, hc, -⟩ := executing_of_siteAt hf
    cases core.frames_nextFrame.symm.trans hc
  refine ⟨?_, ?_, ?_, ?_, ?_⟩
  · intro a ha
    rw [stack] at ha
    obtain ⟨site, chain⟩ := live.active a ha
    rw [sites, Function.update_of_ne (old _ site), OnChain, callee]
    exact ⟨site, chain⟩
  · intro f hf
    rw [stack]
    rw [sites] at hf
    by_cases new : f = s.nextFrame
    · rw [new, Function.update_self] at hf
      cases hf
    · rw [Function.update_of_ne new] at hf
      exact live.executing f hf
  · rw [stack]
    exact live.roots
  · intro a ha n hn
    rw [stack] at ha
    have held := live.resumers a ha n hn
    have ne : Holder.scheduled n ≠ k := by
      rintro rfl
      cases free.symm.trans held
    rw [holds, Function.update_of_ne ne, held]
  · intro k' r object' held
    rw [holds] at held
    by_cases hk : k' = k
    · rw [hk, Function.update_self] at held
      obtain rfl := Option.some.inj held
      rw [hk, handle]
      refine .inr (.inr ⟨s.nextFrame, .initial, rfl, ?_, rfl, .refl _ _⟩)
      rw [sites, Function.update_self]
    · rw [Function.update_of_ne hk] at held
      rw [handles k' hk]
      refine (live.ready k' r object' held).congr (fun f chain => ?_) fun running => ?_
      · have alive := core.sound.alive_of_follows (core.alive_of_holds held) chain
        have ne : f ≠ s.nextFrame := Nat.ne_of_lt alive.1
        rw [sites, Function.update_of_ne ne]
      · rwa [runs, stack]

/-- **A coroutine is called**, and an object that had none owns its frame. -/
theorem call_spec (core : Core s) (live : Live s) (object : k.IsObject) (free : s.holds k = none)
    {promise : Promise V X} (unfinished : promise.Unfinished) (caller : promise.caller = none)
    (owner : promise.thisChainTask = s.ownership.ownerOf k) {tasks : Nat → Option Task}
    {scheduled : TaskId → Option ScheduledTaskObject}
    (made : s' = { s.newFrame promise .initial with tasks, scheduled })
    (objects : ∀ k', k'.IsObject → s'.holds k' = Function.update s.holds k (some s.nextFrame) k')
    (full : ∀ n t, scheduled n = some t → ∃ r, t.task.handle = some r)
    (handle : s'.handleOf k = some s.nextFrame)
    (handles : ∀ k', k' ≠ k → s'.handleOf k' = s.handleOf k') : Core s' ∧ Live s' := by
  have frames : s'.frames = Function.update s.frames s.nextFrame (some ⟨promise, .initial⟩) := by
    rw [made]
    rfl
  have sites : s'.siteAt = Function.update s.siteAt s.nextFrame (some .initial) := by
    funext f
    by_cases new : f = s.nextFrame
    · rw [new, Function.update_self, siteAt, frames, Function.update_self]
      rfl
    · rw [Function.update_of_ne new, siteAt, frames, Function.update_of_ne new, siteAt]
  have holds : s'.holds = Function.update s.holds k (some s.nextFrame) := by
    funext k'
    cases k' with
    | frame g =>
      rw [Function.update_of_ne (object g).symm]
      refine callee_eq.trans ?_
      rw [sites]
      by_cases hg : g = s.nextFrame
      · rw [hg, Function.update_self]
        exact core.sound.callee_acquired.symm
      · rw [Function.update_of_ne hg, ← callee_eq]
        rfl
    | task x => exact objects _ (isObject_task x)
    | scheduled n => exact objects _ (isObject_scheduled n)
  have ok : ∀ f c, s'.frames f = some c → c.Ok := by
    intro f c hc
    rw [frames] at hc
    by_cases new : f = s.nextFrame
    · rw [new, Function.update_self] at hc
      exact Option.some.inj hc ▸ .ofUnfinished unfinished rfl
    · rw [Function.update_of_ne new] at hc
      exact core.ok f c hc
  have noCaller : promise.caller = k.caller := by
    cases k with
    | frame g => exact absurd rfl (object g)
    | _ => exact caller
  have called : Called s s' k ⟨promise, .initial⟩ := by
    refine ⟨by rw [made]; rfl, by rw [made]; rfl, by rw [frames, Function.update_self],
      fun f hf => ?_, noCaller, owner, holds⟩
    rw [frames, Function.update_of_ne hf]
  have core' : Core s' := called.core core free (fun g hg => absurd hg (object g)) ok
    (by rw [made]; exact full) (by rw [made]; exact core.defined)
  exact ⟨core', live.called core object free holds sites (by rw [made]; rfl) handle handles⟩

/-- A coroutine is called, and its `Task` is kept. -/
theorem callTask_spec (core : Core s) (live : Live s) (free : s.tasks x = none) :
    Core ((s.newFrame {} .initial).setTask x (some ⟨some s.nextFrame⟩)) ∧
      Live ((s.newFrame {} .initial).setTask x (some ⟨some s.nextFrame⟩)) := by
  have nothing : s.holds (.task x) = none := by simp [holds, free]
  refine call_spec core live (isObject_task x) nothing ⟨rfl, rfl⟩ rfl rfl rfl (fun k' object => ?_)
    core.full ?_ fun k' ne => ?_
  · rw [holds_setTask]
    by_cases hk : k' = .task x
    · rw [hk, Function.update_self, Function.update_self]
      rfl
    · rw [Function.update_of_ne hk, Function.update_of_ne hk]
      exact holds_congr object rfl rfl
  · rw [handleOf_setTask, Function.update_self]
    rfl
  · rw [handleOf_setTask, Function.update_of_ne ne]
    rfl

/-- A `ScheduledTask` is made of a coroutine that is called, which gets its name. -/
theorem emplace_spec (core : Core s) (live : Live s) (free : s.scheduled n = none) :
    ∃ s', ((s.newFrame {} .initial).setScheduled n (some (.ofTask ⟨some s.nextFrame⟩))).setChainTaskRoot
      n s.nextFrame = some s' ∧ Core s' ∧ Live s' := by
  let named : Promise V X := { thisChainTask := some n }
  let s' := (s.newFrame named .initial).setScheduled n (some (.ofTask ⟨some s.nextFrame⟩))
  have result : ((s.newFrame {} .initial).setScheduled n
      (some (.ofTask ⟨some s.nextFrame⟩))).setChainTaskRoot n s.nextFrame = some s' := by
    simp only [setChainTaskRoot, setScheduled, newFrame, Function.update_self, Option.bind_eq_bind,
      Option.bind_some, setFrame, Function.update_idem, s']
    rfl
  have nothing : s.holds (.scheduled n) = none := by simp [holds, free]
  refine ⟨s', result, call_spec core live (isObject_scheduled n) nothing ⟨rfl, rfl⟩ rfl rfl rfl
    (fun k' object => ?_) (fun m u hu => core.full_update rfl hu) ?_ fun k' ne => ?_⟩
  · rw [holds_setScheduled]
    by_cases hk : k' = .scheduled n
    · rw [hk, Function.update_self, Function.update_self]
      rfl
    · rw [Function.update_of_ne hk, Function.update_of_ne hk]
      exact holds_congr object rfl rfl
  · exact handleOf_setScheduled (s := s.newFrame named .initial)
  · exact handleOf_setScheduled_of_ne (s := s.newFrame named .initial) ne

/-! ## Moves -/

/-- **A `Task` takes over the coroutine of another one**, and has none of its own. -/
theorem transfer_spec (core : Core s) (live : Live s) (ne : x ≠ y)
    (free : s.holds (.task x) = none) {tasks : Nat → Option Task}
    (moved : s' = { s with tasks })
    (holds : s'.holds = (s.ownership.transfer (.task x) (.task y)).ledger.holds) :
    Core s' ∧ Live s' := by
  have owned : s'.ownership = s.ownership.transfer (.task x) (.task y) := by
    rw [moved] at holds ⊢
    exact Ownership.ext (Ledger.ext holds rfl rfl) rfl rfl
  have core' : Core s' := by
    refine ⟨owned ▸ core.sound.transfer ne free, fun f => ?_, ?_, ?_, ?_⟩
    · rw [alive_iff, moved, core.exist f, alive_iff]
    all_goals rw [moved]
    exacts [core.ok, core.full, core.defined]
  refine ⟨core', ?_⟩
  have before : ∀ k r, s'.holds k = some r → k ≠ .task y ∧
      ((k = .task x ∧ s.holds (.task y) = some r) ∨ (k ≠ .task x ∧ s.holds k = some r)) := by
    intro k r held
    rw [holds] at held
    exact Ledger.holds_of_transfer held
  refine live.congr (by rw [moved]; rfl) (by rw [moved]) (fun n r held => ?_) fun k r object held => ?_
  · rw [moved]
    exact held
  · obtain ⟨-, ⟨rfl, source⟩ | ⟨other, same⟩⟩ := before k r held
    · exact ⟨.task y, isObject_task y, source, by rw [handleOf_task, handleOf_task, held, source]⟩
    · refine ⟨k, object, same, ?_⟩
      cases k with
      | task z => rw [handleOf_task, handleOf_task, held, same]
      | scheduled n => rw [moved]; rfl
      | frame g => rfl

/-- `Task(Task&& rhs)` -/
theorem moveTask_spec (core : Core s) (live : Live s) (free : s.tasks x = none) {t : Task}
    (ht : s.tasks y = some t) :
    Core ((s.setTask x (some t.moveConstruct.1)).setTask y (some t.moveConstruct.2)) ∧
      Live ((s.setTask x (some t.moveConstruct.1)).setTask y (some t.moveConstruct.2)) := by
  have ne : x ≠ y := by
    rintro rfl
    cases free.symm.trans ht
  have source : s.holds (.task y) = t.handle := by simp [holds, ht]
  refine transfer_spec core live ne (by simp [holds, free]) rfl ?_
  rw [holds_setTask, holds_setTask]
  show _ = Function.update (Function.update s.holds (.task x) (s.holds (.task y))) (.task y) none
  rw [source]
  rfl

/-- `Task::operator=`, what it leaves. -/
theorem assignTask_eq_some (h : s.assignTask x y = some s') :
    ∃ t, s.tasks y = some t ∧ s' = (s.setTask y (some ⟨none⟩)).setTask x (some t) := by
  simp only [assignTask, Option.bind_eq_bind, Option.bind_eq_some_iff, Option.pure_def,
    Option.some.injEq] at h
  obtain ⟨t, ht, u, hu, rfl⟩ := h
  exact ⟨t, ht, rfl⟩

theorem holds_assignTask (ne : x ≠ y) {t : Task} (ht : s.tasks y = some t) :
    ((s.setTask y (some ⟨none⟩)).setTask x (some t)).holds =
      (s.ownership.transfer (.task x) (.task y)).ledger.holds := by
  have source : s.holds (.task y) = t.handle := by simp [holds, ht]
  have apart : Holder.task x ≠ .task y := fun same => ne (Holder.task.inj same)
  rw [holds_setTask, holds_setTask, Function.update_comm apart.symm]
  show _ = Function.update (Function.update s.holds (.task x) (s.holds (.task y))) (.task y) none
  rw [source]
  rfl

/-- An assignment onto a `Task` that has no coroutine, or from the `Task` itself. -/
theorem assignTask_spec (core : Core s) (live : Live s) (careful : x = y ∨ s.holds (.task x) = none)
    (h : s.assignTask x y = some s') : Core s' ∧ Live s' := by
  obtain ⟨t, ht, made⟩ := assignTask_eq_some h
  by_cases ne : x = y
  · subst ne
    have same : s' = s := by
      rw [made, setTask, setTask, Function.update_idem, ← ht, Function.update_eq_self]
    rw [same]
    exact ⟨core, live⟩
  · exact transfer_spec core live ne (careful.resolve_left ne) made (made ▸ holds_assignTask ne ht)

/-- `ScheduledTask::operator=` from the object itself. -/
theorem assignScheduled_self (h : s.assignScheduled n n = some s') : s' = s := by
  simp only [assignScheduled, Option.bind_eq_bind, Option.bind_eq_some_iff, Option.pure_def,
    Option.some.injEq] at h
  obtain ⟨t, ht, t₁, ht₁, t₂, ht₂, t₃, ht₃, rfl⟩ := h
  simp only [setScheduled, Function.update_self, Option.some.injEq] at ht₁ ht₂ ht₃
  subst ht₁ ht₂ ht₃
  simp only [setScheduled, Function.update_idem, ← ht, Function.update_eq_self]

/-! ## A `ScheduledTask` made of a `Task` -/

/-- The heap when the coroutine `c` at `r` has got its task's name. -/
def rooted (s : TaskHeap V X) (n : TaskId) (x : Nat) (r : FrameId) (c : Coroutine V X) :
    TaskHeap V X :=
  ((s.setTask x (some ⟨none⟩)).setScheduled n (some (.ofTask ⟨some r⟩))).setFrame r
    { c with promise := { c.promise with thisChainTask := some n } }

theorem setChainTaskRoot_eq (hc : s.frames r = some c) :
    ((s.setTask x (some ⟨none⟩)).setScheduled n (some (.ofTask ⟨some r⟩))).setChainTaskRoot n r =
      some (s.rooted n x r c) := by
  have hc' : ((s.setTask x (some ⟨none⟩)).setScheduled n (some (.ofTask ⟨some r⟩))).frames r =
      some c := hc
  simp only [setChainTaskRoot, hc', Option.bind_eq_bind, Option.bind_some]
  rfl

theorem siteAt_rooted (hc : s.frames r = some c) : (s.rooted n x r c).siteAt = s.siteAt := by
  refine siteAt_setFrame.trans ?_
  rw [← siteAt_of_frame hc]
  exact Function.update_eq_self r s.siteAt

theorem ownership_rooted (hc : s.frames r = some c) (held : s.holds (.task x) = some r) :
    (s.rooted n x r c).ownership = s.ownership.schedule n x r := by
  have apart : Holder.task x ≠ .scheduled n := by simp
  have places : ((s.setTask x (some ⟨none⟩)).setScheduled n (some (.ofTask ⟨some r⟩))).holds =
      Function.update (Function.update s.holds (.task x) none) (.scheduled n) (some r) := by
    rw [holds_setScheduled, holds_setTask]
    rfl
  refine Ownership.ext (Ledger.ext (funext fun k => ?_) rfl rfl) (funext fun f => ?_)
    (funext fun f => ?_)
  · show (s.rooted n x r c).holds k =
      Function.update (Function.update s.holds (.scheduled n) (s.holds (.task x))) (.task x) none k
    rw [held, Function.update_comm apart.symm]
    cases k with
    | frame g =>
      rw [Function.update_of_ne (by simp), Function.update_of_ne (by simp)]
      exact callee_eq.trans (by rw [siteAt_rooted hc, ← callee_eq]; rfl)
    | task y =>
      rw [← places]
      exact holds_congr (isObject_task y) rfl rfl
    | scheduled m =>
      rw [← places]
      exact holds_congr (isObject_scheduled m) rfl rfl
  · show ((s.rooted n x r c).frames f).bind _ = (s.frames f).bind _
    by_cases hf : f = r
    · simp [hf, rooted, setFrame, hc]
    · simp only [rooted, setFrame, Function.update_of_ne hf]
      rfl
  · show ((s.rooted n x r c).frames f).bind _ = Function.update s.ownership.owner r (some n) f
    by_cases hf : f = r
    · simp [hf, rooted, setFrame]
    · simp only [rooted, setFrame, Function.update_of_ne hf]
      rfl

/-- **A `ScheduledTask` takes over the coroutine of a `Task`**, which gets its name. -/
theorem schedule_spec (core : Core s) (live : Live s) (free : s.scheduled n = none)
    (hx : s.tasks x = some ⟨some r⟩) (alone : s.ownership.callee r = none) :
    ∃ s', ((s.setTask x (some ⟨none⟩)).setScheduled n (some (.ofTask ⟨some r⟩))).setChainTaskRoot n r =
      some s' ∧ Core s' ∧ Live s' := by
  have held : s.holds (.task x) = some r := by simp [holds, hx]
  have nothing : s.holds (.scheduled n) = none := by simp [holds, free]
  obtain ⟨c, hc⟩ := core.frame_of_holds held
  have unnamed : c.promise.thisChainTask = none :=
    (owner_of_frame hc).symm.trans (core.sound.named (.task x) r held).2
  have owned : (s.rooted n x r c).ownership = s.ownership.schedule n x r := ownership_rooted hc held
  have sites : (s.rooted n x r c).siteAt = s.siteAt := siteAt_rooted hc
  have ok : Coroutine.Ok { c with promise := { c.promise with thisChainTask := some n } } := by
    have before : c.Ok := core.ok r c hc
    refine ⟨fun h => ⟨(before.unfinished h).exp, (before.unfinished h).res⟩, fun _ => ⟨n, rfl⟩,
      fun _ token h => ?_⟩
    obtain ⟨m, named⟩ := before.awaits (by rw [show c.site = _ from h]; rfl)
    cases unnamed.symm.trans named
  have core' : Core (s.rooted n x r c) := by
    refine ⟨owned ▸ core.sound.schedule nothing held alone, fun f => ?_, fun f d hd => ?_,
      fun m t ht => core.full_update rfl ht, core.defined⟩
    · rw [alive_iff]
      refine Iff.trans ?_ ((core.exist f).trans alive_iff)
      have same := congrArg Option.isSome (congrFun sites f)
      rw [siteAt, siteAt, Option.isSome_map, Option.isSome_map] at same
      rw [same]
    · rcases frames_setFrame_eq_some hd with ⟨-, rfl⟩ | ⟨-, hd⟩
      · exact ok
      · exact core.ok f d hd
  refine ⟨_, setChainTaskRoot_eq hc, core', ?_⟩
  have holds : (s.rooted n x r c).holds = (s.ownership.ledger.transfer (.scheduled n) (.task x)).holds :=
    congrArg (·.ledger.holds) owned
  refine live.congr sites rfl (fun m r' held' => ?_) fun k r' object held' => ?_
  · have ne : Holder.scheduled m ≠ .scheduled n := fun same => by
      cases (same ▸ nothing).symm.trans held'
    rw [holds, Ledger.transfer_holds_of_ne ne (by simp)]
    exact held'
  · rw [holds] at held'
    obtain ⟨other, ⟨rfl, source⟩ | ⟨ne, same⟩⟩ := Ledger.holds_of_transfer held'
    · refine ⟨.task x, isObject_task x, source, ?_⟩
      rw [handleOf_task, held]
      exact handleOf_setScheduled (s := s.setTask x (some ⟨none⟩))
    · refine ⟨k, object, same, ?_⟩
      refine (handleOf_setScheduled_of_ne (s := s.setTask x (some ⟨none⟩)) ne).trans ?_
      rw [handleOf_setTask, Function.update_of_ne other]

/-! ## A destruction -/

/-- **`destroy()` destroys the frames of a chain**, each once, and no other. The induction is on the
fuel: a frame is called after its caller, so as many as there are frames above it are enough. -/
theorem destroyFrames_spec (core : Core s) (fuel : Nat) (hc : ∃ c, s.frames f = some c)
    (enough : s.nextFrame ≤ f + fuel) :
    ∃ l : List FrameId, destroyFrames s.frames fuel f =
        some (fun g => if g ∈ l then none else s.frames g, l) ∧
      l.Nodup ∧ ∀ g, g ∈ l ↔ s.OnChain f g := by
  induction fuel generalizing f with
  | zero =>
    obtain ⟨c, hc⟩ := hc
    exact absurd (core.alive_of_frame hc).1 (Nat.not_lt.mpr enough)
  | succ fuel ih =>
    obtain ⟨c, hc⟩ := hc
    have next : s.ownership.callee f = c.site.callee := callee_of_frame hc
    cases callee : c.site.callee with
    | none =>
      refine ⟨[f], ?_, List.nodup_singleton f, fun g => ?_⟩
      · simp only [destroyFrames, hc, callee, Option.bind_eq_bind, Option.bind_some,
          List.mem_singleton]
        exact congrArg some (Prod.ext (funext fun g => Function.update_apply ..) rfl)
      · rw [List.mem_singleton]
        constructor
        · rintro rfl
          exact .refl _ _
        · intro chain
          rcases chain.cases_head with rfl | ⟨b, first, -⟩
          · rfl
          · cases (next.trans callee).symm.trans first
    | some b =>
      have first : s.ownership.callee f = some b := next.trans callee
      have lt : f < b := core.sound.up f b first
      have deeper : s.nextFrame ≤ b + fuel := calc
        s.nextFrame ≤ f + (fuel + 1) := enough
        _ = f + 1 + fuel := (Nat.succ_add_eq_add_succ f fuel).symm
        _ ≤ b + fuel := Nat.add_le_add_right lt fuel
      obtain ⟨l, result, nodup, mem⟩ := ih (core.frame_of_holds (k := .frame f) first) deeper
      have not_mem : f ∉ l := fun h =>
        Nat.not_lt.mpr (le_of_follows core.sound.up ((mem f).mp h)) lt
      refine ⟨l ++ [f], ?_, ?_, fun g => ?_⟩
      · simp only [destroyFrames, hc, callee, result, Option.bind_eq_bind, Option.bind_some]
        refine congrArg some (Prod.ext (funext fun g => ?_) rfl)
        by_cases hg : g = f
        · simp [hg]
        · simp [hg]
      · exact List.nodup_append'.mpr ⟨nodup, List.nodup_singleton f,
          List.disjoint_singleton.mpr not_mem⟩
      · rw [List.mem_append, List.mem_singleton, mem]
        constructor
        · rintro (chain | rfl)
          · exact chain.head first
          · exact .refl _ _
        · intro chain
          rcases chain.cases_head with rfl | ⟨b', first', chain⟩
          · exact .inr rfl
          · obtain rfl := Option.some.inj (first.symm.trans first')
            exact .inl chain

/-- The chain of an object is destroyed: the other objects and the resumptions in progress stay. -/
theorem Live.destroyed (core : Core s) (live : Live s) (object : k.IsObject)
    (held : s.holds k = some r) (idle : s.runs r = false) (mem : ∀ g, g ∈ l ↔ s.OnChain r g)
    (frames : ∀ g, s'.frames g = if g ∈ l then none else s.frames g)
    (holds : ∀ k', s'.holds k' = if Ownership.Gives k l k' then none else s.holds k')
    (handles : ∀ k', k' ≠ k → s'.handleOf k' = s.handleOf k') (stack : s'.stack = s.stack) :
    Live s' := by
  have sites : ∀ g, s.ownership.Alive g → ¬ s.OnChain r g → s'.siteAt g = s.siteAt g := by
    intro g _ off
    rw [siteAt, frames, if_neg (fun hg => off ((mem g).mp hg)), siteAt]
  have apart : ∀ k' r', k'.IsObject → s.holds k' = some r' → k' ≠ k →
      ∀ g, s.OnChain r' g → s'.siteAt g = s.siteAt g := fun k' r' object' held' ne g =>
    core.siteAt_of_apart object held sites object' held' ne
  have other : ∀ a ∈ s.stack, ∃ k', k'.IsObject ∧ s.holds k' = some a.root ∧ k' ≠ k := by
    intro a ha
    obtain ⟨k', object', held'⟩ := live.holder core ha
    refine ⟨k', object', held', ?_⟩
    rintro rfl
    cases idle.symm.trans (runs_iff.mpr ⟨a, ha, Option.some.inj (held'.symm.trans held)⟩)
  refine ⟨?_, ?_, ?_, ?_, ?_⟩
  · intro a ha
    rw [stack] at ha
    obtain ⟨site, chain, top⟩ := live.active a ha
    obtain ⟨k', object', held', ne⟩ := other a ha
    have same := apart k' a.root object' held' ne
    refine ⟨(same a.frame chain).trans site, chain.congr same, fun g hg => top g ?_⟩
    have before := holds (.frame g)
    split at before
    · cases before.symm.trans hg
    · exact before.symm.trans hg
  · intro g hg
    rw [stack]
    refine live.executing g ?_
    rw [siteAt, frames] at hg
    split at hg
    · cases hg
    · exact hg
  · rw [stack]
    exact live.roots
  · intro a ha n hn
    rw [stack] at ha
    have resumed := live.resumers a ha n hn
    obtain ⟨k', object', held', ne⟩ := other a ha
    obtain rfl := core.holder_unique resumed held'
    rw [holds, if_neg]
    · exact resumed
    · rintro (same | ⟨g, -, same⟩)
      · exact ne same
      · cases same
  · intro k' r' object' held'
    rw [holds] at held'
    split at held'
    · cases held'
    · next keeps =>
      have ne : k' ≠ k := fun same => keeps (.inl same)
      rw [handles k' ne]
      refine (live.ready k' r' object' held').congr (apart k' r' object' held' ne) fun running => ?_
      rwa [runs, stack]

/-- **An object is destroyed**, and its coroutine's chain with it. -/
theorem destroy_spec (core : Core s) (live : Live s) (object : k.IsObject) (held : s.holds k = some r)
    (idle : s.runs r = false) {tasks : Nat → Option Task}
    {scheduled : TaskId → Option ScheduledTaskObject}
    (objects : ∀ k', k'.IsObject →
      ({ s with tasks, scheduled } : TaskHeap V X).holds k' = if k' = k then none else s.holds k')
    (handles : ∀ k', k' ≠ k →
      ({ s with tasks, scheduled } : TaskHeap V X).handleOf k' = s.handleOf k')
    (full : ∀ n t, scheduled n = some t → ∃ r, t.task.handle = some r) :
    ∃ s', s.destroy ⟨some r⟩ = some s' ∧ s'.tasks = s.tasks ∧ s'.scheduled = s.scheduled ∧
      Core { s' with tasks, scheduled } ∧ Live { s' with tasks, scheduled } := by
  obtain ⟨l, result, nodup, mem⟩ :=
    destroyFrames_spec core s.nextFrame (core.frame_of_holds held) (Nat.le_add_left ..)
  let frames : FrameId → Option (Coroutine V X) := fun g => if g ∈ l then none else s.frames g
  let s' : TaskHeap V X := { s with frames, destroyed := s.destroyed ++ l }
  have holds : ∀ k', ({ s' with tasks, scheduled } : TaskHeap V X).holds k' =
      if Ownership.Gives k l k' then none else s.holds k' := by
    intro k'
    by_cases object' : k'.IsObject
    · have gives : Ownership.Gives k l k' ↔ k' = k :=
        or_iff_left fun ⟨f, _, same⟩ => object' f same
      rw [if_congr gives rfl rfl, ← objects k' object']
      exact holds_congr object' rfl rfl
    · obtain ⟨g, hg⟩ := not_forall_not.mp object'
      subst hg
      have gives : Ownership.Gives k l (.frame g) ↔ g ∈ l := by
        constructor
        · rintro (same | ⟨f, hf, same⟩)
          · exact absurd same.symm (object g)
          · exact Holder.frame.inj same ▸ hf
        · exact fun hg => .inr ⟨g, hg, rfl⟩
      rw [if_congr gives rfl rfl]
      show (frames g).bind _ = _
      by_cases hg : g ∈ l
      · rw [if_pos hg, show frames g = none from if_pos hg, Option.bind_none]
      · rw [if_neg hg, show frames g = s.frames g from if_neg hg]
        rfl
  have gone : Destroyed s { s' with tasks, scheduled } k l := by
    refine ⟨rfl, rfl, fun g hg => if_pos hg, fun g hg => ?_, holds⟩
    exact congrArg (Option.map _) (if_neg hg)
  have destroyed : s.destroy ⟨some r⟩ = some s' := by
    simp only [destroy, result, Option.bind_eq_bind, Option.bind_some]
    rfl
  refine ⟨s', destroyed, rfl, rfl, ?_, ?_⟩
  · refine gone.core core nodup ?_ ?_ (fun g c hc => ?_) full core.defined
    · intro f hf
      rcases ((mem f).mp hf).cases_tail with rfl | ⟨b, chain, last⟩
      · exact ⟨k, .inl rfl, held⟩
      · exact ⟨.frame b, .inr ⟨b, (mem b).mpr chain, rfl⟩, last⟩
    · rintro k' f (rfl | ⟨g, hg, rfl⟩) held'
      · obtain rfl := Option.some.inj (held.symm.trans held')
        exact (mem _).mpr (.refl _ _)
      · exact (mem f).mpr (((mem g).mp hg).tail held')
    · by_cases hg : g ∈ l
      · cases (if_pos hg).symm.trans hc
      · exact core.ok g c ((if_neg hg).symm.trans hc)
  · exact live.destroyed core object held idle mem (fun _ => rfl) holds handles rfl

/-- `~Task()` -/
theorem destroyTask_spec (core : Core s) (live : Live s) {t : Task} (ht : s.tasks x = some t)
    (idle : ¬ t.handle.any s.runs = true) :
    ∃ s', (s.destroy t).map (·.setTask x none) = some s' ∧ Core s' ∧ Live s' := by
  obtain ⟨handle⟩ := t
  have held : s.holds (.task x) = handle := by simp [holds, ht]
  cases handle with
  | none =>
    have owned : (s.setTask x none).ownership = s.ownership := by
      refine Ownership.ext (Ledger.ext ?_ rfl rfl) rfl rfl
      refine (holds_setTask none).trans ?_
      rw [Option.bind_none, ← held, Function.update_eq_self]
      rfl
    refine ⟨s.setTask x none, rfl,
      ⟨owned ▸ core.sound, fun f => ?_, core.ok, core.full, core.defined⟩, ?_⟩
    · rw [owned]
      exact core.exist f
    · refine live.congr rfl rfl (fun _ _ h => h) fun k r object h => ⟨k, object, ?_, ?_⟩
      · rw [← holds_eq owned k, h]
      · rw [handleOf_setTask, Option.bind_none, ← held, ← handleOf_task, Function.update_eq_self]
  | some r =>
    have objects : ∀ k', k'.IsObject →
        (s.setTask x none).holds k' = if k' = .task x then none else s.holds k' := fun k' _ =>
      (congrFun (holds_setTask none) k').trans (Function.update_apply ..)
    have handles : ∀ k', k' ≠ .task x → (s.setTask x none).handleOf k' = s.handleOf k' := fun k' ne =>
      (congrFun (handleOf_setTask none) k').trans (Function.update_of_ne ne ..)
    obtain ⟨s', destroyed, tasks, scheduled, core', live'⟩ :=
      destroy_spec core live (isObject_task x) held (by simpa using idle) objects handles core.full
    refine ⟨_, by rw [destroyed, Option.map_some], ?_⟩
    rw [← scheduled] at core' live'
    rw [setTask, tasks]
    exact ⟨core', live'⟩

/-- `~ScheduledTask()` -/
theorem destroyScheduled_spec (core : Core s) (live : Live s) {t : ScheduledTaskObject}
    (ht : s.scheduled n = some t) (idle : ¬ t.task.handle.any s.runs = true) :
    ∃ s', (s.destroy t.task).map (·.setScheduled n none) = some s' ∧ Core s' ∧ Live s' := by
  obtain ⟨r, handle⟩ := core.full n t ht
  have held : s.holds (.scheduled n) = some r := (holds_scheduled ht).trans handle
  have task : t.task = ⟨some r⟩ := congrArg Task.mk handle
  rw [task] at idle ⊢
  have objects : ∀ k', k'.IsObject →
      (s.setScheduled n none).holds k' = if k' = .scheduled n then none else s.holds k' := fun k' _ =>
    (congrFun (holds_setScheduled none) k').trans (Function.update_apply ..)
  have handles : ∀ k', k' ≠ .scheduled n → (s.setScheduled n none).handleOf k' = s.handleOf k' :=
    fun k' ne => handleOf_setScheduled_of_ne ne
  have full : ∀ m u, (s.setScheduled n none).scheduled m = some u → ∃ r, u.task.handle = some r := by
    intro m u hu
    by_cases hm : m = n
    · rw [hm] at hu
      cases (Function.update_self ..).symm.trans hu
    · exact core.full m u ((Function.update_of_ne hm ..).symm.trans hu)
  obtain ⟨s', destroyed, tasks, scheduled, core', live'⟩ :=
    destroy_spec core live (isObject_scheduled n) held (by simpa using idle) objects handles full
  refine ⟨_, by rw [destroyed, Option.map_some], ?_⟩
  rw [← tasks] at core' live'
  rw [setScheduled, scheduled]
  exact ⟨core', live'⟩

end CoNet.Async.TaskHeap
