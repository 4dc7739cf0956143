import CoNet.Async.TaskObjects
import CoNet.Laws.Async.Ownership

/-!
# Task objects and who owns their frames

Every operation on task objects is one on the `Ownership` that the heap shows. `Core` says that this is
sound, and what each frame has on its own; `Live` says how the resumptions in progress and the handles
that the objects resume fit the frames.
-/

set_option autoImplicit false

namespace CoNet.Async

open CoNet.Io Successors

variable {V X : Type}

namespace Site

/-- Where a coroutine is, but for the token. -/
def kind : Site → Site
  | atOperation id _ => atOperation id {}
  | site => site

@[simp] theorem kind_resumable (site : Site) : site.kind.resumable = site.resumable := by
  cases site <;> rfl

@[simp] theorem kind_callee (site : Site) : site.kind.callee = site.callee := by cases site <;> rfl

theorem kind_eq_executing {site : Site} : site.kind = executing ↔ site = executing := by
  cases site <;> simp [kind]

theorem kind_eq_final {site : Site} : site.kind = final ↔ site.done = true := by
  cases site <;> simp [kind, done]

theorem callee_eq_some {site : Site} {f : FrameId} (h : site.callee = some f) : site = atTask f := by
  cases site with
  | atTask g => cases h; rfl
  | _ => cases h

theorem operation_eq_some {site : Site} {id : Nat} (h : site.operation = some id) :
    ∃ token, site = atOperation id token := by
  cases site with
  | atOperation current token => cases h; exact ⟨token, rfl⟩
  | _ => cases h

/-- A coroutine that is not waiting for another one has no callee. -/
theorem callee_of_resumable {site : Site} (h : site.resumable = true) : site.callee = none := by
  cases site with
  | atTask g => cases h
  | _ => rfl

theorem done_of_resumable {site : Site} (h : site.resumable = true) : site.done = false := by
  cases site with
  | final => cases h
  | _ => rfl

end Site

/-- What a frame has, wherever its coroutine is. -/
structure Coroutine.Ok (c : Coroutine V X) : Prop where
  unfinished : c.site.done = false → c.promise.Unfinished
  awaits : c.site.awaits = true → ∃ n, c.promise.thisChainTask = some n
  token : ∀ id token, c.site = .atOperation id token →
    token.chainTask = c.promise.thisChainTask ∧ uringAwaiterOp token.op = true

theorem Coroutine.Ok.ofUnfinished {promise : Promise V X} {site : Site}
    (unfinished : promise.Unfinished) (awaits : site.awaits = false) :
    Coroutine.Ok ⟨promise, site⟩ where
  unfinished _ := unfinished
  awaits h := by cases awaits.symm.trans h
  token id token h := by
    obtain rfl : site = .atOperation id token := h
    cases awaits

theorem Coroutine.ok_final (promise : Promise V X) : Coroutine.Ok ⟨promise, .final⟩ where
  unfinished h := by cases h
  awaits h := by cases h
  token id token h := by cases h

namespace TaskHeap

def holds (s : TaskHeap V X) : Holder → Option FrameId
  | .task x => (s.tasks x).bind (·.handle)
  | .scheduled n => (s.scheduled n).bind (·.task.handle)
  | .frame g => (s.frames g).bind (·.site.callee)

/-- The ownership that the heap shows. -/
def ownership (s : TaskHeap V X) : Ownership where
  ledger := ⟨s.holds, s.nextFrame, s.destroyed.map (·, .closed)⟩
  caller f := (s.frames f).bind (·.promise.caller)
  owner f := (s.frames f).bind (·.promise.thisChainTask)

/-- A frame is on the await chain of a root. -/
abbrev OnChain (s : TaskHeap V X) : FrameId → FrameId → Prop := Follows s.ownership.callee

/-- The handle that the `resume` of an object resumes. -/
def handleOf (s : TaskHeap V X) : Holder → Option FrameId
  | .task x => (s.tasks x).bind (·.handle)
  | .scheduled n => (s.scheduled n).bind (·.awaitingHandle)
  | .frame _ => none

/-- Where the coroutine of a frame is. -/
def siteAt (s : TaskHeap V X) (f : FrameId) : Option Site := (s.frames f).map (·.site.kind)

/-- Every frame has one owner and names its task; no `ScheduledTask` is without a coroutine. -/
structure Core (s : TaskHeap V X) : Prop where
  sound : s.ownership.Sound
  exist : ∀ f, (s.frames f).isSome = true ↔ s.ownership.Alive f
  ok : ∀ f c, s.frames f = some c → c.Ok
  full : ∀ n t, s.scheduled n = some t → ∃ r, t.task.handle = some r
  defined : s.status ≠ .undefined

/-- The coroutine of an object runs, is at its end, or is suspended where the handle is. -/
def Ready (s : TaskHeap V X) (r : FrameId) (handle : Option FrameId) : Prop :=
  s.runs r = true ∨ s.siteAt r = some .final ∨
    ∃ h site, handle = some h ∧ s.siteAt h = some site ∧ site.resumable = true ∧ s.OnChain r h

/-- How the resumptions in progress and the handles of the objects fit the frames. -/
structure Live (s : TaskHeap V X) : Prop where
  active : ∀ a ∈ s.stack, s.siteAt a.frame = some .executing ∧ s.OnChain a.root a.frame ∧
    Root s.ownership.callee a.root
  executing : ∀ f, s.siteAt f = some .executing → ∃ a ∈ s.stack, a.frame = f
  roots : (s.stack.map (·.root)).Nodup
  resumers : ∀ a ∈ s.stack, ∀ n, a.resumer = .scheduledTask n →
    s.holds (.scheduled n) = some a.root
  ready : ∀ k r, k.IsObject → s.holds k = some r → s.Ready r (s.handleOf k)

variable {s s' : TaskHeap V X} {c c' : Coroutine V X} {f g h r : FrameId} {n : TaskId} {x : Nat}
  {k : Holder} {a : Activation} {rest : List Activation} {t : ScheduledTaskObject}

/-! ## What the heap shows -/

@[simp] theorem gone_ownership : s.ownership.ledger.gone.map (·.1) = s.destroyed := by
  simp only [ownership, List.map_map, Function.comp_def, List.map_id']

theorem alive_iff : s.ownership.Alive f ↔ f < s.nextFrame ∧ f ∉ s.destroyed := by
  rw [Ownership.Alive, gone_ownership]
  rfl

theorem callee_eq : s.ownership.callee g = (s.siteAt g).bind Site.callee := by
  show (s.frames g).bind _ = ((s.frames g).map _).bind _
  cases s.frames g <;> simp

theorem callee_of_frame (hc : s.frames g = some c) : s.ownership.callee g = c.site.callee := by
  show (s.frames g).bind _ = _
  rw [hc, Option.bind_some]

theorem siteAt_of_frame (hc : s.frames f = some c) : s.siteAt f = some c.site.kind := by
  rw [siteAt, hc, Option.map_some]

theorem executing_of_siteAt (h : s.siteAt f = some .executing) :
    ∃ c, s.frames f = some c ∧ c.site = .executing := by
  obtain ⟨c, hc, site⟩ := Option.map_eq_some_iff.mp h
  exact ⟨c, hc, Site.kind_eq_executing.mp site⟩

theorem callee_executing (h : s.siteAt f = some .executing) : s.ownership.callee f = none := by
  rw [callee_eq, h]
  rfl

/-- Nothing goes on where a coroutine is put that does not execute. -/
theorem executing_of_update {site : Option Site} (ne : site ≠ some .executing)
    (h : Function.update s.siteAt f site g = some .executing) :
    s.siteAt g = some .executing ∧ g ≠ f := by
  by_cases same : g = f
  · rw [same, Function.update_self] at h
    exact absurd h ne
  · rw [Function.update_of_ne same] at h
    exact ⟨h, same⟩

/-- A frame off the chain of another one is not that one. -/
theorem siteAt_of_off {site : Option Site} (chain : s.OnChain r f) (off : ¬ s.OnChain r g) :
    Function.update s.siteAt f site g = s.siteAt g :=
  Function.update_of_ne (fun same : g = f => off (same ▸ chain)) ..

theorem Core.alive_of_holds (core : Core s) (h : s.holds k = some f) : s.ownership.Alive f :=
  core.sound.alive_of_holds (k := k) h

/-- A frame that is held exists. -/
theorem Core.frame_of_holds (core : Core s) (h : s.holds k = some f) : ∃ c, s.frames f = some c :=
  Option.isSome_iff_exists.mp ((core.exist f).mpr (core.alive_of_holds h))

theorem Core.alive_of_frame (core : Core s) (hc : s.frames f = some c) : s.ownership.Alive f :=
  (core.exist f).mp (by rw [hc]; rfl)

/-- There is no frame at the next address. -/
theorem Core.frames_nextFrame (core : Core s) : s.frames s.nextFrame = none := by
  cases hc : s.frames s.nextFrame with
  | none => rfl
  | some c => exact absurd (core.alive_of_frame hc).1 (Nat.lt_irrefl _)

theorem owner_of_frame (hc : s.frames f = some c) :
    s.ownership.owner f = c.promise.thisChainTask := by
  show (s.frames f).bind _ = _
  rw [hc, Option.bind_some]

theorem caller_of_frame (hc : s.frames f = some c) : s.ownership.caller f = c.promise.caller := by
  show (s.frames f).bind _ = _
  rw [hc, Option.bind_some]

theorem holds_scheduled (ht : s.scheduled n = some t) :
    s.holds (.scheduled n) = t.task.handle := by
  show (s.scheduled n).bind _ = _
  rw [ht, Option.bind_some]

theorem exists_scheduled (h : s.holds (.scheduled n) = some r) :
    ∃ t, s.scheduled n = some t ∧ t.task.handle = some r :=
  Option.bind_eq_some_iff.mp h

theorem isObject_task (x : Nat) : (Holder.task x).IsObject := fun _ h => by cases h

theorem isObject_scheduled (n : TaskId) : (Holder.scheduled n).IsObject := fun _ h => by cases h

/-! ## Resumptions in progress -/

theorem Live.inflight (live : Live s) (inflight : List (Nat × FrameId)) (nextOperation : Nat) :
    Live { s with inflight, nextOperation } :=
  ⟨live.active, live.executing, live.roots, live.resumers, live.ready⟩

/-- The coroutine that runs is on the chain of one object. -/
theorem Live.holder (core : Core s) (live : Live s) (ha : a ∈ s.stack) :
    ∃ k, k.IsObject ∧ s.holds k = some a.root := by
  obtain ⟨executing, chain, root⟩ := live.active a ha
  obtain ⟨c, hc, -⟩ := executing_of_siteAt executing
  obtain ⟨k, r, object, held, chain'⟩ := core.sound.exists_holder (core.alive_of_frame hc)
  obtain rfl := root_unique core.sound.injective root (core.sound.root object held) chain chain'
  exact ⟨k, object, held⟩

/-- Two resumptions run the chains of different objects. -/
theorem Live.root_ne (live : Live s) (stack : s.stack = a :: rest) {b : Activation} (hb : b ∈ rest) :
    b.root ≠ a.root := by
  have roots := live.roots
  rw [stack, List.map_cons, List.nodup_cons] at roots
  exact fun same => roots.1 (List.mem_map.mpr ⟨b, hb, same⟩)

theorem runs_iff : s.runs r = true ↔ ∃ a ∈ s.stack, a.root = r := by
  simp [runs]

/-- A frame has one owner. -/
theorem Core.holder_unique (core : Core s) {k' : Holder} (held : s.holds k = some f)
    (held' : s.holds k' = some f) : k = k' :=
  core.sound.balanced.injective k k' f held held'

/-- The chains of two objects do not meet. -/
theorem Core.root_eq (core : Core s) {k' : Holder} {r' : FrameId} (object : k.IsObject)
    (held : s.holds k = some r) (object' : k'.IsObject) (held' : s.holds k' = some r')
    (chain : s.OnChain r f) (chain' : s.OnChain r' f) : k = k' := by
  obtain rfl := root_unique core.sound.injective (core.sound.root object held)
    (core.sound.root object' held') chain chain'
  exact core.holder_unique held held'

/-! ## Changes that ownership does not see -/

/-- A frame changes, but not its caller, its task or its callee. -/
theorem ownership_setFrame (hc : s.frames f = some c)
    (caller : c'.promise.caller = c.promise.caller)
    (owner : c'.promise.thisChainTask = c.promise.thisChainTask)
    (callee : c'.site.callee = c.site.callee) : (s.setFrame f c').ownership = s.ownership := by
  have same : ∀ {β : Type} (field : Coroutine V X → Option β), field c' = field c →
      ∀ g, (Function.update s.frames f (some c') g).bind field = (s.frames g).bind field := by
    intro β field heq g
    by_cases hg : g = f
    · rw [hg, Function.update_self, hc, Option.bind_some, Option.bind_some, heq]
    · rw [Function.update_of_ne hg]
  refine Ownership.ext (Ledger.ext (funext fun k => ?_) rfl rfl) (funext fun g => ?_)
    (funext fun g => ?_)
  · cases k with
    | frame g => exact same (·.site.callee) callee g
    | _ => rfl
  · exact same (·.promise.caller) caller g
  · exact same (·.promise.thisChainTask) owner g

theorem frames_setFrame_eq_some {d : Coroutine V X} (h : (s.setFrame f c').frames g = some d) :
    (g = f ∧ d = c') ∨ (g ≠ f ∧ s.frames g = some d) := by
  by_cases hg : g = f
  · subst hg
    exact .inl ⟨rfl, Option.some.inj (h.symm.trans (Function.update_self ..))⟩
  · exact .inr ⟨hg, (Function.update_of_ne hg ..).symm.trans h⟩

theorem siteAt_setFrame : (s.setFrame f c').siteAt =
    Function.update s.siteAt f (some c'.site.kind) := by
  funext g
  by_cases hg : g = f
  · subst hg
    simp [siteAt, setFrame]
  · simp only [siteAt, setFrame, Function.update_of_ne hg]

theorem Core.setFrame (core : Core s) (hc : s.frames f = some c)
    (caller : c'.promise.caller = c.promise.caller)
    (owner : c'.promise.thisChainTask = c.promise.thisChainTask)
    (callee : c'.site.callee = c.site.callee) (ok : c'.Ok) : Core (s.setFrame f c') where
  sound := by
    rw [ownership_setFrame hc caller owner callee]
    exact core.sound
  exist g := by
    rw [ownership_setFrame hc caller owner callee, ← core.exist g]
    by_cases hg : g = f
    · subst hg
      simp [TaskHeap.setFrame, hc]
    · simp only [TaskHeap.setFrame, Function.update_of_ne hg]
  ok g d hd := by
    rcases frames_setFrame_eq_some hd with ⟨-, rfl⟩ | ⟨-, hd⟩
    · exact ok
    · exact core.ok g d hd
  full := core.full
  defined := core.defined

/-- A `ScheduledTask` changes, but not its coroutine. -/
theorem ownership_setScheduled {t' : ScheduledTaskObject} (ht : s.scheduled n = some t)
    (task : t'.task = t.task) : (s.setScheduled n (some t')).ownership = s.ownership := by
  refine Ownership.ext (Ledger.ext (funext fun k => ?_) rfl rfl) rfl rfl
  cases k with
  | scheduled m =>
    show (Function.update s.scheduled n (some t') m).bind _ = _
    by_cases hm : m = n
    · subst hm
      rw [Function.update_self, Option.bind_some, task]
      exact (holds_scheduled ht).symm
    · rw [Function.update_of_ne hm]
      rfl
  | _ => rfl

theorem holds_eq (owned : s'.ownership = s.ownership) (k : Holder) : s'.holds k = s.holds k :=
  congrArg (·.ledger.holds k) owned

theorem Core.setScheduled {t' : ScheduledTaskObject} (core : Core s) (ht : s.scheduled n = some t)
    (task : t'.task = t.task) : Core (s.setScheduled n (some t')) where
  sound := by
    rw [ownership_setScheduled ht task]
    exact core.sound
  exist f := by
    rw [ownership_setScheduled ht task]
    exact core.exist f
  ok := core.ok
  full m u hu := by
    by_cases hm : m = n
    · subst hm
      simp only [TaskHeap.setScheduled, Function.update_self, Option.some.injEq] at hu
      rw [← hu, task]
      exact core.full m t ht
    · simp only [TaskHeap.setScheduled, Function.update_of_ne hm] at hu
      exact core.full m u hu
  defined := core.defined

/-- Nothing depends on the operations that are in flight. -/
theorem Core.inflight (core : Core s) (inflight : List (Nat × FrameId)) (nextOperation : Nat) :
    Core { s with inflight, nextOperation } :=
  ⟨core.sound, core.exist, core.ok, core.full, core.defined⟩

theorem Core.setStack (core : Core s) (stack : List Activation) : Core (s.setStack stack) where
  sound := core.sound
  exist := core.exist
  ok := core.ok
  full := core.full
  defined := core.defined

/-- What fits stays so as long as no coroutine goes on and the objects that hold the frames resume the
handles that were resumed before. -/
theorem Live.congr (live : Live s) (sites : s'.siteAt = s.siteAt) (stack : s'.stack = s.stack)
    (resumers : ∀ n r, s.holds (.scheduled n) = some r → s'.holds (.scheduled n) = some r)
    (objects : ∀ k r, k.IsObject → s'.holds k = some r →
      ∃ k₀ : Holder, k₀.IsObject ∧ s.holds k₀ = some r ∧ s'.handleOf k = s.handleOf k₀) :
    Live s' := by
  have callee : s'.ownership.callee = s.ownership.callee := by
    funext g
    rw [callee_eq, callee_eq, sites]
  refine ⟨?_, ?_, ?_, ?_, ?_⟩
  · rw [stack, sites, OnChain, callee]
    exact live.active
  · rw [stack, sites]
    exact live.executing
  · rw [stack]
    exact live.roots
  · rw [stack]
    exact fun a ha n hn => resumers n a.root (live.resumers a ha n hn)
  · intro k r object held
    obtain ⟨k₀, object₀, held₀, handle⟩ := objects k r object held
    rw [handle, Ready, runs, stack, sites, OnChain, callee]
    exact live.ready k₀ r object₀ held₀

theorem handleOf_setScheduled_of_ne {t' : Option ScheduledTaskObject} (ne : k ≠ .scheduled n) :
    (s.setScheduled n t').handleOf k = s.handleOf k := by
  cases k with
  | scheduled m =>
    have other : m ≠ n := fun e => ne (e ▸ rfl)
    simp only [handleOf, TaskHeap.setScheduled, Function.update_of_ne other]
  | _ => rfl

theorem handleOf_setScheduled : (s.setScheduled n (some t)).handleOf (.scheduled n) =
    t.awaitingHandle := by
  simp [handleOf, TaskHeap.setScheduled]

theorem handleOf_scheduled (ht : s.scheduled n = some t) :
    s.handleOf (.scheduled n) = t.awaitingHandle := by
  simp [handleOf, ht]

/-- A `ScheduledTask` changes, but not what it resumes. -/
theorem Live.setScheduled {t' : ScheduledTaskObject} (live : Live s) (ht : s.scheduled n = some t)
    (task : t'.task = t.task) (handle : t'.awaitingHandle = t.awaitingHandle) :
    Live (s.setScheduled n (some t')) := by
  have holds : ∀ k, (s.setScheduled n (some t')).holds k = s.holds k :=
    holds_eq (ownership_setScheduled ht task)
  refine live.congr rfl rfl (fun m r h => (holds _).trans h) fun k r object h =>
    ⟨k, object, (holds k).symm.trans h, ?_⟩
  by_cases hk : k = .scheduled n
  · rw [hk, handleOf_setScheduled, handle, handleOf_scheduled ht]
  · exact handleOf_setScheduled_of_ne hk

/-- A chain stays where its frames are where they were. -/
theorem OnChain.congr (same : ∀ f, s.OnChain r f → s'.siteAt f = s.siteAt f) (chain : s.OnChain r f) :
    s'.OnChain r f := by
  induction chain with
  | refl => exact .refl _ _
  | @tail b c before last ih =>
    refine ih.tail ?_
    rw [callee_eq, same b before, ← callee_eq]
    exact last

theorem Ready.congr {handle : Option FrameId}
    (same : ∀ f, s.OnChain r f → s'.siteAt f = s.siteAt f)
    (runs : s.runs r = true → s'.runs r = true) (ready : s.Ready r handle) : s'.Ready r handle := by
  rcases ready with running | final | ⟨h, site, handle, at', resumable, chain⟩
  · exact .inl (runs running)
  · exact .inr (.inl ((same r (.refl _ _)).trans final))
  · exact .inr (.inr ⟨h, site, handle, (same h chain).trans at', resumable, chain.congr same⟩)

/-- A chain of another object does not meet the one that changes. -/
theorem Core.siteAt_of_apart (core : Core s) (object : k.IsObject) (held : s.holds k = some r)
    (sites : ∀ f, s.ownership.Alive f → ¬ s.OnChain r f → s'.siteAt f = s.siteAt f) {k' : Holder}
    {r' : FrameId} (object' : k'.IsObject) (held' : s.holds k' = some r') (ne : k' ≠ k)
    (chain : s.OnChain r' f) : s'.siteAt f = s.siteAt f := by
  refine sites f (core.sound.alive_of_follows (core.alive_of_holds held') chain) fun on => ?_
  exact ne (core.root_eq object' held' object held chain on)

/-- **A change on one chain.** The coroutines of the other chains stay where they are, and so do the
resumptions that run them. -/
theorem Live.onChain (core : Core s) (core' : Core s') (live : Live s) {old top : Option Activation}
    (stack : s.stack = old.toList ++ rest) (stack' : s'.stack = top.toList ++ rest)
    (object : k.IsObject) (held : s.holds k = some r)
    (idle : ∀ b ∈ rest, b.root ≠ r) (old_root : ∀ a ∈ old, a.root = r)
    (sites : ∀ f, s.ownership.Alive f → ¬ s.OnChain r f → s'.siteAt f = s.siteAt f)
    (objects : ∀ k', k'.IsObject → s'.holds k' = s.holds k')
    (handles : ∀ k', k'.IsObject → k' ≠ k → s'.handleOf k' = s.handleOf k')
    (runs : ∀ a ∈ top, a.root = r ∧ s'.siteAt a.frame = some .executing ∧ s'.OnChain r a.frame ∧
      ∀ n, a.resumer = .scheduledTask n → k = .scheduled n)
    (executing : ∀ f, s'.siteAt f = some .executing → (∃ a ∈ top, a.frame = f) ∨
      s.siteAt f = some .executing ∧ ∀ a ∈ old, a.frame ≠ f)
    (ready : s'.Ready r (s'.handleOf k)) : Live s' := by
  have other : ∀ k' r', s.holds k' = some r' → r' ≠ r → k' ≠ k := by
    rintro k' r' held' ne rfl
    exact ne (Option.some.inj (held'.symm.trans held))
  have apart : ∀ k' r', k'.IsObject → s.holds k' = some r' → r' ≠ r →
      ∀ f, s.OnChain r' f → s'.siteAt f = s.siteAt f := fun k' r' object' held' ne f =>
    core.siteAt_of_apart object held sites object' held' (other k' r' held' ne)
  have mem_stack : ∀ b ∈ rest, b ∈ s.stack := fun b hb => stack ▸ List.mem_append_right _ hb
  refine ⟨?_, ?_, ?_, ?_, ?_⟩
  · intro a ha
    rw [stack'] at ha
    rcases List.mem_append.mp ha with ha | ha
    · obtain ⟨rfl, site, chain, -⟩ := runs a (Option.mem_toList.mp ha)
      exact ⟨site, chain, core'.sound.root object ((objects k object).trans held)⟩
    · obtain ⟨k', object', held'⟩ := live.holder core (mem_stack a ha)
      have same := apart k' a.root object' held' (idle a ha)
      obtain ⟨site, chain, -⟩ := live.active a (mem_stack a ha)
      exact ⟨(same a.frame chain).trans site, chain.congr same,
        core'.sound.root object' ((objects k' object').trans held')⟩
  · intro f hf
    rw [stack']
    rcases executing f hf with ⟨a, ha, rfl⟩ | ⟨before, ne⟩
    · exact ⟨a, List.mem_append_left _ (Option.mem_toList.mpr ha), rfl⟩
    · obtain ⟨a, ha, rfl⟩ := live.executing f before
      rw [stack] at ha
      rcases List.mem_append.mp ha with ha | ha
      · exact absurd rfl (ne a (Option.mem_toList.mp ha))
      · exact ⟨a, List.mem_append_right _ ha, rfl⟩
  · have nodup := live.roots
    rw [stack, List.map_append] at nodup
    rw [stack', List.map_append, List.nodup_append']
    refine ⟨?_, (List.nodup_append'.mp nodup).2.1, ?_⟩
    · cases top <;> simp
    · intro q hq hq'
      obtain ⟨a, ha, rfl⟩ := List.mem_map.mp hq
      obtain ⟨b, hb, same⟩ := List.mem_map.mp hq'
      exact idle b hb (same.trans (runs a (Option.mem_toList.mp ha)).1)
  · intro a ha n hn
    rw [objects _ (isObject_scheduled n)]
    rw [stack'] at ha
    rcases List.mem_append.mp ha with ha | ha
    · obtain ⟨rfl, -, -, resumer⟩ := runs a (Option.mem_toList.mp ha)
      exact resumer n hn ▸ held
    · exact live.resumers a (mem_stack a ha) n hn
  · intro k' r' object' held'
    rw [objects k' object'] at held'
    by_cases hr : r' = r
    · subst hr
      obtain rfl := core.holder_unique held' held
      exact ready
    · rw [handles k' object' (other k' r' held' hr)]
      refine (live.ready k' r' object' held').congr (apart k' r' object' held' hr) fun running => ?_
      obtain ⟨a, ha, rfl⟩ := runs_iff.mp running
      rw [stack] at ha
      rcases List.mem_append.mp ha with ha | ha
      · exact absurd (old_root a (Option.mem_toList.mp ha)) hr
      · exact runs_iff.mpr ⟨a, stack' ▸ List.mem_append_right _ ha, rfl⟩

/-- A step of the running body: it goes on in `top`, if it goes on. -/
theorem Live.inBody (core : Core s) (core' : Core s') (live : Live s) {top : Option FrameId}
    (stack : s.stack = a :: rest)
    (stack' : s'.stack = (top.map fun g => { a with frame := g }).toList ++ rest)
    (object : k.IsObject) (held : s.holds k = some a.root)
    (sites : ∀ f, s.ownership.Alive f → ¬ s.OnChain a.root f → s'.siteAt f = s.siteAt f)
    (objects : ∀ k', k'.IsObject → s'.holds k' = s.holds k')
    (handles : ∀ k', k'.IsObject → k' ≠ k → s'.handleOf k' = s.handleOf k')
    (runs : ∀ g ∈ top, s'.siteAt g = some .executing ∧ s'.OnChain a.root g)
    (executing : ∀ f, s'.siteAt f = some .executing →
      f ∈ top ∨ s.siteAt f = some .executing ∧ f ≠ a.frame)
    (ready : top = none → s'.Ready a.root (s'.handleOf k)) : Live s' := by
  have mem : a ∈ s.stack := stack ▸ List.mem_cons_self
  have before : s.stack = (some a : Option Activation).toList ++ rest := stack
  refine live.onChain core core' before stack' object held (fun b hb => live.root_ne stack hb) ?_
    sites objects handles ?_ ?_ ?_
  · rintro b ⟨⟩
    rfl
  · intro b hb
    obtain ⟨g, hg, rfl⟩ := Option.map_eq_some_iff.mp hb
    obtain ⟨site, chain⟩ := runs g hg
    refine ⟨rfl, site, chain, fun n hn => ?_⟩
    exact core.holder_unique held (live.resumers a mem n hn)
  · intro f hf
    rcases executing f hf with hg | ⟨site, ne⟩
    · exact .inl ⟨{ a with frame := f }, Option.map_eq_some_iff.mpr ⟨f, hg, rfl⟩, rfl⟩
    · refine .inr ⟨site, ?_⟩
      rintro b ⟨⟩
      exact ne.symm
  · cases top with
    | none => exact ready rfl
    | some g => exact .inl (runs_iff.mpr ⟨{ a with frame := g }, by rw [stack']; simp, rfl⟩)

/-! ## Frames that are new or gone -/

/-- A coroutine is called, and `k` owns its frame. -/
structure Called (s s' : TaskHeap V X) (k : Holder) (c : Coroutine V X) : Prop where
  next : s'.nextFrame = s.nextFrame + 1
  destroyed : s'.destroyed = s.destroyed
  frame : s'.frames s.nextFrame = some c
  promises : ∀ f, f ≠ s.nextFrame → (s'.frames f).map (·.promise) = (s.frames f).map (·.promise)
  caller : c.promise.caller = k.caller
  owner : c.promise.thisChainTask = s.ownership.ownerOf k
  holds : s'.holds = Function.update s.holds k (some s.nextFrame)

/-- What promises say, frames say. -/
theorem bind_eq_of_promises {β : Type} {d d' : Option (Coroutine V X)}
    (same : d'.map (·.promise) = d.map (·.promise)) (field : Promise V X → Option β) :
    (d'.bind fun c => field c.promise) = d.bind fun c => field c.promise := by
  have both := congrArg (·.bind field) same
  simpa only [Option.bind_map, Function.comp_def] using both

theorem Called.ownership (called : Called s s' k c) : s'.ownership = s.ownership.add k := by
  have named : ∀ {β : Type} (field : Promise V X → Option β) (v : Option β),
      field c.promise = v → ∀ f, ((s'.frames f).bind fun c => field c.promise) =
        Function.update (fun f => (s.frames f).bind fun c => field c.promise) s.nextFrame v f := by
    intro β field v hv f
    by_cases hf : f = s.nextFrame
    · rw [hf, called.frame, Function.update_self, Option.bind_some, hv]
    · rw [Function.update_of_ne hf]
      exact bind_eq_of_promises (called.promises f hf) field
  refine Ownership.ext (Ledger.ext called.holds called.next ?_) (funext fun f => ?_)
    (funext fun f => ?_)
  · exact congrArg (List.map _) called.destroyed
  · exact named (·.caller) _ called.caller f
  · exact named (·.thisChainTask) _ called.owner f

theorem Called.core (called : Called s s' k c) (core : Core s) (free : s.holds k = none)
    (alive : ∀ g, k = .frame g → s.ownership.Alive g) (ok : ∀ f c, s'.frames f = some c → c.Ok)
    (full : ∀ n t, s'.scheduled n = some t → ∃ r, t.task.handle = some r)
    (defined : s'.status ≠ .undefined) : Core s' where
  sound := called.ownership ▸ core.sound.add free alive
  exist f := by
    rw [alive_iff, called.next, called.destroyed]
    by_cases hf : f = s.nextFrame
    · have fresh : s.nextFrame ∉ s.destroyed := fun gone =>
        Nat.lt_irrefl _ (core.sound.balanced.gone_lt _ (gone_ownership.symm ▸ gone))
      rw [hf, called.frame]
      exact iff_of_true rfl ⟨Nat.lt_succ_self _, fresh⟩
    · have same := congrArg Option.isSome (called.promises f hf)
      rw [Option.isSome_map, Option.isSome_map] at same
      rw [same, core.exist f, alive_iff]
      refine and_congr_left fun _ => ⟨Nat.lt_succ_of_lt, fun hlt => ?_⟩
      exact Nat.lt_of_le_of_ne (Nat.lt_succ_iff.mp hlt) hf
  ok := ok
  full := full
  defined := defined

/-- The frames `l` are destroyed, of which `k` owned the first one. -/
structure Destroyed (s s' : TaskHeap V X) (k : Holder) (l : List FrameId) : Prop where
  next : s'.nextFrame = s.nextFrame
  destroyed : s'.destroyed = s.destroyed ++ l
  frames : ∀ f ∈ l, s'.frames f = none
  promises : ∀ f, f ∉ l → (s'.frames f).map (·.promise) = (s.frames f).map (·.promise)
  holds : ∀ k', s'.holds k' = if Ownership.Gives k l k' then none else s.holds k'

variable {l : List FrameId}

theorem Destroyed.ownership (gone : Destroyed s s' k l) :
    s'.ownership = s.ownership.destroy k l := by
  have named : ∀ {β : Type} (field : Promise V X → Option β) (f : FrameId),
      ((s'.frames f).bind fun c => field c.promise) =
        if f ∈ l then none else (s.frames f).bind fun c => field c.promise := by
    intro β field f
    by_cases hf : f ∈ l
    · rw [if_pos hf, gone.frames f hf, Option.bind_none]
    · rw [if_neg hf]
      exact bind_eq_of_promises (gone.promises f hf) field
  refine Ownership.ext (Ledger.ext (funext gone.holds) gone.next ?_) (funext fun f => ?_)
    (funext fun f => ?_)
  · show s'.destroyed.map _ = s.destroyed.map _ ++ l.map _
    rw [gone.destroyed, List.map_append]
  · exact named (·.caller) f
  · exact named (·.thisChainTask) f

theorem Destroyed.core (gone : Destroyed s s' k l) (core : Core s) (nodup : l.Nodup)
    (held : ∀ f ∈ l, ∃ k', Ownership.Gives k l k' ∧ s.holds k' = some f)
    (only : ∀ k' f, Ownership.Gives k l k' → s.holds k' = some f → f ∈ l)
    (ok : ∀ f c, s'.frames f = some c → c.Ok)
    (full : ∀ n t, s'.scheduled n = some t → ∃ r, t.task.handle = some r)
    (defined : s'.status ≠ .undefined) : Core s' where
  sound := gone.ownership ▸ core.sound.destroy nodup held only
  exist f := by
    rw [alive_iff, gone.next, gone.destroyed, List.mem_append, not_or]
    by_cases hf : f ∈ l
    · rw [gone.frames f hf]
      exact iff_of_false (by simp) fun h => h.2.2 hf
    · have same := congrArg Option.isSome (gone.promises f hf)
      rw [Option.isSome_map, Option.isSome_map] at same
      rw [same, core.exist f, alive_iff]
      exact and_congr_right fun _ => (and_iff_left hf).symm
  ok := ok
  full := full
  defined := defined

end TaskHeap

end CoNet.Async
