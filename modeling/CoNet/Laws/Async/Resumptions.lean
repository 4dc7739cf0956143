import CoNet.Laws.Async.Linked
import CoNet.Laws.Async.TaskHeap

/-!
# Resumptions of task objects

What `resume` of an object does, and what the body of the coroutine that runs does next: each of these
changes one chain only, and leaves every frame with its owner.
-/

set_option autoImplicit false

namespace CoNet.Async

open CoNet.Io Successors

variable {V X : Type}

namespace Awaiting

variable (n : TaskId) (id : Nat) (awaiting : Awaiting)

theorem site_resumable : (awaiting.site n id).kind.resumable = true := by cases awaiting <;> rfl

theorem callee_site : (awaiting.site n id).callee = none := by cases awaiting <;> rfl

theorem site_ne_executing : (awaiting.site n id).kind ≠ .executing := by
  cases awaiting <;> simp [site, Site.kind]

theorem suspend_task (t : ScheduledTaskObject) (f : FrameId) :
    (awaiting.suspend t f).task = t.task := by
  cases awaiting <;> rfl

theorem suspend_awaitingHandle (t : ScheduledTaskObject) (f : FrameId) :
    (awaiting.suspend t f).awaitingHandle = some f := by
  cases awaiting <;> rfl

/-- A coroutine that is suspended at an awaiter names the task that its token names. -/
theorem ok_site {n : TaskId} {id : Nat} {awaiting : Awaiting} {promise : Promise V X}
    (unfinished : promise.Unfinished) (named : promise.thisChainTask = some n)
    (library : awaiting.ofLibrary = true) : Coroutine.Ok ⟨promise, awaiting.site n id⟩ where
  unfinished _ := unfinished
  awaits _ := ⟨n, named⟩
  token _ token h := by
    cases awaiting with
    | operation op =>
      obtain ⟨-, rfl⟩ := Site.atOperation.inj h
      exact ⟨named.symm, library⟩
    | _ => cases h

end Awaiting

namespace TaskHeap

variable {s s' : TaskHeap V X} {c c' : Coroutine V X} {f g h r : FrameId} {n : TaskId} {x : Nat}
  {k : Holder} {a : Activation} {rest : List Activation} {t : ScheduledTaskObject}

/-- **A resumption of an object**: its coroutine runs where the handle is. -/
theorem resume_spec (core : Core s) (live : Live s) (object : k.IsObject)
    (held : s.holds k = some r) (idle : s.runs r = false) (unfinished : s.siteAt r ≠ some .final)
    {resumer : Resumer} (same : ∀ n, resumer = .scheduledTask n → k = .scheduled n) :
    ∃ s', s.resume resumer r (s.handleOf k) = some s' ∧ Core s' ∧ Live s' := by
  obtain runs | final | ⟨h, site, handle, at', resumable, chain⟩ := live.ready k r object held
  · cases idle.symm.trans runs
  · exact absurd final unfinished
  obtain ⟨c, hc, rfl⟩ := Option.map_eq_some_iff.mp at'
  rw [Site.kind_resumable] at resumable
  let s' := (s.setFrame h ⟨c.promise, .executing⟩).setStack (⟨resumer, r, h⟩ :: s.stack)
  have callee : Site.callee .executing = c.site.callee := (Site.callee_of_resumable resumable).symm
  have ok : Coroutine.Ok ⟨c.promise, .executing⟩ :=
    Coroutine.Ok.ofUnfinished ((core.ok h c hc).unfinished (Site.done_of_resumable resumable)) rfl
  have moved : Core (s.setFrame h ⟨c.promise, .executing⟩) := core.setFrame hc rfl rfl callee ok
  have core' : Core s' := moved.setStack _
  have owned : s'.ownership = s.ownership := ownership_setFrame hc rfl rfl callee
  have sites : s'.siteAt = Function.update s.siteAt h (some .executing) := siteAt_setFrame
  refine ⟨s', by simp [resume, handle, hc, resumable, s'], core', ?_⟩
  have before : s.stack = (none : Option Activation).toList ++ s.stack := rfl
  have after : s'.stack = (some ⟨resumer, r, h⟩ : Option Activation).toList ++ s.stack := rfl
  refine live.onChain core core' before after object held ?_ ?_ ?_ ?_ ?_ ?_ ?_ ?_
  · rintro b hb rfl
    cases idle.symm.trans (runs_iff.mpr ⟨b, hb, rfl⟩)
  · rintro a ⟨⟩
  · intro f _ off
    rw [sites, siteAt_of_off chain off]
  · exact fun k' _ => holds_eq owned k'
  · exact fun k' _ _ => rfl
  · rintro a ⟨⟩
    rw [sites, OnChain, owned]
    exact ⟨rfl, Function.update_self .., chain, same⟩
  · intro f hf
    rw [sites] at hf
    by_cases top : f = h
    · exact .inl ⟨_, rfl, top.symm⟩
    · rw [Function.update_of_ne top] at hf
      exact .inr ⟨hf, fun a ha => by cases ha⟩
  · exact .inl (runs_iff.mpr ⟨_, List.mem_cons_self, rfl⟩)

/-- The end of a `resume` changes nothing that another one sees. -/
theorem afterResume_spec (core : Core s) (live : Live s) {resumer : Resumer}
    (holder : ∀ n, resumer = .scheduledTask n → s.holds (.scheduled n) = some r) :
    ∃ s', s.afterResume resumer = some s' ∧ Core s' ∧ Live s' := by
  cases resumer with
  | task x => exact ⟨s, rfl, core, live⟩
  | scheduledTask n =>
    have held := holder n rfl
    obtain ⟨t, ht, hr⟩ := exists_scheduled held
    obtain ⟨c, hc⟩ := core.frame_of_holds held
    cases final : c.site.done with
    | false => exact ⟨s, by simp [afterResume, ht, hr, hc, final], core, live⟩
    | true =>
      refine ⟨s.setScheduled n (some { t with valid := false }),
        by simp [afterResume, ht, hr, hc, final], core.setScheduled ht rfl, ?_⟩
      exact live.setScheduled ht rfl rfl

/-! ## The running body -/

/-- The frame that runs, and the object on whose chain it is. -/
theorem Live.running (core : Core s) (live : Live s) (stack : s.stack = a :: rest) :
    (∃ c, s.frames a.frame = some c ∧ c.site = .executing) ∧ s.ownership.callee a.frame = none ∧
      s.OnChain a.root a.frame ∧ ∃ k, k.IsObject ∧ s.holds k = some a.root := by
  have mem : a ∈ s.stack := stack ▸ List.mem_cons_self
  obtain ⟨executing, chain, -⟩ := live.active a mem
  exact ⟨executing_of_siteAt executing, callee_executing executing, chain, live.holder core mem⟩

/-- **A suspension updates the object that owns the chain.** -/
theorem suspend_spec (core : Core s) (live : Live s) (stack : s.stack = a :: rest)
    (named : s.ownership.owner a.frame = some n) {awaiting : Awaiting}
    (library : awaiting.ofLibrary = true) :
    ∃ s', s.suspend a rest awaiting = some s' ∧ Core s' ∧ Live s' := by
  obtain ⟨⟨c, hc, executing⟩, -, chain, k, object, held⟩ := live.running core stack
  obtain rfl := core.sound.holder_of_owner object held chain named
  rw [owner_of_frame hc] at named
  obtain ⟨t, ht, -⟩ := exists_scheduled held
  let s₁ := s.setFrame a.frame ⟨c.promise, awaiting.site n s.nextOperation⟩
  let s₂ := s₁.setScheduled n (some (awaiting.suspend t a.frame))
  let s₃ := (s₂.submit a.frame awaiting).setStack rest
  have unfinished : c.promise.Unfinished := (core.ok _ c hc).unfinished (by rw [executing]; rfl)
  have callee : (awaiting.site n s.nextOperation).callee = c.site.callee := by
    rw [awaiting.callee_site, executing]
    rfl
  have core₁ : Core s₁ := core.setFrame hc rfl rfl callee (Awaiting.ok_site unfinished named library)
  have core₃ : Core s₃ :=
    ((core₁.setScheduled (n := n) (t := t) ht (awaiting.suspend_task t _)).inflight _ _).setStack rest
  have owned : s₃.ownership = s.ownership :=
    (ownership_setScheduled (s := s₁) (n := n) ht (awaiting.suspend_task t _)).trans
      (ownership_setFrame hc rfl rfl callee)
  have sites : s₃.siteAt =
      Function.update s.siteAt a.frame (some (awaiting.site n s.nextOperation).kind) := siteAt_setFrame
  have live₃ : Live s₃ := by
    have popped : s₃.stack =
        ((none : Option FrameId).map fun g => { a with frame := g }).toList ++ rest := rfl
    refine live.inBody core core₃ stack popped object held ?_ (fun k _ => holds_eq owned k)
      ?_ ?_ ?_ ?_
    · intro f _ off
      rw [sites, siteAt_of_off chain off]
    · exact fun k _ ne => handleOf_setScheduled_of_ne (s := s₁) ne
    · rintro g ⟨⟩
    · intro f hf
      rw [sites] at hf
      exact .inr (executing_of_update
        (fun h => awaiting.site_ne_executing n s.nextOperation (Option.some.inj h)) hf)
    · intro _
      refine .inr (.inr ⟨a.frame, _, ?_, ?_, awaiting.site_resumable n s.nextOperation, ?_⟩)
      · exact (handleOf_setScheduled (s := s₁)).trans (awaiting.suspend_awaitingHandle t _)
      · rw [sites, Function.update_self]
      · rw [OnChain, owned]
        exact chain
  have resumer : ∀ m, a.resumer = .scheduledTask m → s₃.holds (.scheduled m) = some a.root :=
    fun m hm => (holds_eq owned _).trans (live.resumers a (stack ▸ List.mem_cons_self) m hm)
  obtain ⟨s', after, core', live'⟩ := afterResume_spec core₃ live₃ resumer
  refine ⟨s', ?_, core', live'⟩
  simp only [suspend, hc, Option.bind_eq_bind, Option.bind_some, named, ht]
  exact after

section AwaitTask

/-- The heap when a coroutine that the running one calls has begun. -/
def awaited (s : TaskHeap V X) (a : Activation) (rest : List Activation) (c : Coroutine V X) :
    TaskHeap V X :=
  ((s.setFrame a.frame { c with site := .atTask s.nextFrame }).newFrame
    { caller := some a.frame, thisChainTask := c.promise.thisChainTask } .executing).setStack
    ({ a with frame := s.nextFrame } :: rest)

theorem awaitTask_eq (hc : s.frames a.frame = some c) :
    s.awaitTask a rest = some (s.awaited a rest c) := by
  simp only [awaitTask, hc, Option.bind_eq_bind, Option.bind_some]
  rfl

theorem frames_awaited : (s.awaited a rest c).frames =
    Function.update (Function.update s.frames a.frame
      (some { c with site := .atTask s.nextFrame })) s.nextFrame
      (some ⟨{ caller := some a.frame, thisChainTask := c.promise.thisChainTask }, .executing⟩) :=
  rfl

theorem siteAt_awaited : (s.awaited a rest c).siteAt =
    Function.update (Function.update s.siteAt a.frame (some (.atTask s.nextFrame))) s.nextFrame
      (some .executing) := by
  have inner : (s.setFrame a.frame { c with site := .atTask s.nextFrame }).siteAt = _ :=
    siteAt_setFrame
  refine (siteAt_setFrame (s := s.setFrame a.frame { c with site := .atTask s.nextFrame })).trans ?_
  rw [inner]
  rfl

theorem holds_awaited (core : Core s) (hc : s.frames a.frame = some c) :
    (s.awaited a rest c).holds = Function.update s.holds (.frame a.frame) (some s.nextFrame) := by
  have ne : a.frame ≠ s.nextFrame := Nat.ne_of_lt (core.alive_of_frame hc).1
  funext k'
  cases k' with
  | task x => rw [Function.update_of_ne (by simp)]; rfl
  | scheduled n => rw [Function.update_of_ne (by simp)]; rfl
  | frame g =>
    show ((s.awaited a rest c).frames g).bind _ = _
    rw [frames_awaited]
    by_cases hg : g = a.frame
    · rw [hg, Function.update_of_ne ne, Function.update_self, Function.update_self]
      rfl
    · rw [Function.update_of_ne (fun same => hg (Holder.frame.inj same))]
      by_cases new : g = s.nextFrame
      · rw [new, Function.update_self]
        exact core.sound.callee_acquired.symm
      · rw [Function.update_of_ne new, Function.update_of_ne hg]
        rfl

theorem called_awaited (core : Core s) (hc : s.frames a.frame = some c) :
    Called s (s.awaited a rest c) (.frame a.frame)
      ⟨{ caller := some a.frame, thisChainTask := c.promise.thisChainTask }, .executing⟩ where
  next := rfl
  destroyed := rfl
  frame := by rw [frames_awaited, Function.update_self]
  promises f hf := by
    rw [frames_awaited, Function.update_of_ne hf]
    by_cases same : f = a.frame
    · rw [same, Function.update_self, hc]
      rfl
    · rw [Function.update_of_ne same]
  caller := rfl
  owner := (owner_of_frame hc).symm
  holds := holds_awaited core hc

theorem ok_awaited (core : Core s) (hc : s.frames a.frame = some c) (executing : c.site = .executing)
    (hd : (s.awaited a rest c).frames f = some c') : c'.Ok := by
  rw [frames_awaited] at hd
  by_cases new : f = s.nextFrame
  · rw [new, Function.update_self] at hd
    exact Option.some.inj hd ▸ .ofUnfinished ⟨rfl, rfl⟩ rfl
  · rw [Function.update_of_ne new] at hd
    by_cases same : f = a.frame
    · rw [same, Function.update_self] at hd
      have unfinished := (core.ok _ c hc).unfinished (by rw [executing]; rfl)
      exact Option.some.inj hd ▸ .ofUnfinished unfinished rfl
    · rw [Function.update_of_ne same] at hd
      exact core.ok f c' hd

/-- **A coroutine that is awaited is on its caller's chain**, and names the same task. -/
theorem awaitTask_spec (core : Core s) (live : Live s) (stack : s.stack = a :: rest) :
    ∃ s', s.awaitTask a rest = some s' ∧ Core s' ∧ Live s' := by
  obtain ⟨⟨c, hc, executing⟩, atEnd, chain, k, object, held⟩ := live.running core stack
  have called : Called s (s.awaited a rest c) _ _ := called_awaited core hc
  have core' : Core (s.awaited a rest c) := called.core core atEnd
    (fun g hg => Holder.frame.inj hg ▸ core.alive_of_frame hc)
    (fun _ _ => ok_awaited core hc executing) core.full core.defined
  refine ⟨s.awaited a rest c, awaitTask_eq hc, core', ?_⟩
  have pushed : (s.awaited a rest c).stack =
      ((some s.nextFrame).map fun g => { a with frame := g }).toList ++ rest := rfl
  refine live.inBody core core' stack pushed object held ?_ ?_ (fun _ _ _ => rfl) ?_ ?_ ?_
  · intro f alive off
    have old : f ≠ s.nextFrame := Nat.ne_of_lt alive.1
    rw [siteAt_awaited, Function.update_of_ne old, siteAt_of_off chain off]
  · intro k' object'
    rw [called.holds, Function.update_of_ne (object' _)]
  · rintro g ⟨⟩
    refine ⟨by rw [siteAt_awaited, Function.update_self], ?_⟩
    rw [OnChain, called.ownership, Ownership.callee_add_frame]
    exact (chain.extend atEnd).tail (Function.update_self ..)
  · intro f hf
    rw [siteAt_awaited] at hf
    by_cases new : f = s.nextFrame
    · exact .inl (new ▸ rfl)
    · rw [Function.update_of_ne new] at hf
      exact .inr (executing_of_update (by simp) hf)
  · rintro ⟨⟩

end AwaitTask

section Finish

/-- The heap when the caller of the running coroutine goes on. -/
def returned (s : TaskHeap V X) (a : Activation) (rest : List Activation) (g : FrameId)
    (caller : Coroutine V X) : TaskHeap V X :=
  { s with
    frames := Function.update (Function.update s.frames a.frame none) g
      (some { caller with site := .executing })
    destroyed := s.destroyed ++ [a.frame]
    stack := { a with frame := g } :: rest }

theorem finish_eq_returned {out : Outcome V X} (hc : s.frames a.frame = some c)
    (unfinished : c.promise.Unfinished) (hg : c.promise.caller = some g)
    (hd : s.frames g = some c') (site : c'.site = .atTask a.frame) (ne : g ≠ a.frame) : s.finish a rest out = some (s.returned a rest g c') := by
  obtain ⟨promise, result⟩ := Promise.result_finished unfinished out
  have hd' : (s.setFrame a.frame ⟨c.promise.finished out, .final⟩).frames g = some c' :=
    (Function.update_of_ne ne ..).trans hd
  have hc' : (s.setFrame a.frame ⟨c.promise.finished out, .final⟩).frames a.frame =
      some ⟨c.promise.finished out, .final⟩ := Function.update_self ..
  simp only [finish, hc, Option.bind_eq_bind, Option.bind_some, Promise.finished_caller, hg,
    resumeCaller, hd', site, Site.callee, hc', result]
  simp only [setFrame, setStack, returned, Function.update_idem]
  rfl

theorem siteAt_returned : (s.returned a rest g c').siteAt =
    Function.update (Function.update s.siteAt a.frame none) g (some .executing) := by
  funext f
  by_cases hf : f = g
  · rw [hf, Function.update_self]
    simp [siteAt, returned, Site.kind]
  · rw [Function.update_of_ne hf]
    by_cases same : f = a.frame
    · subst same
      simp only [siteAt, returned, Function.update_of_ne hf, Function.update_self, Option.map_none]
    · simp only [siteAt, returned, Function.update_of_ne hf, Function.update_of_ne same]

theorem not_gives_of_isObject {l : List FrameId} (object : k.IsObject) :
    ¬ Ownership.Gives (.frame g) l k := by
  rintro (same | ⟨f, -, same⟩)
  · exact object g same
  · exact object f same

theorem destroyed_returned (hd : s.frames g = some c') (ne : g ≠ a.frame) :
    Destroyed s (s.returned a rest g c') (.frame g) [a.frame] where
  next := rfl
  destroyed := rfl
  frames f hf := by
    rw [List.mem_singleton.mp hf]
    exact (Function.update_of_ne ne.symm ..).trans (Function.update_self ..)
  promises f hf := by
    have other : f ≠ a.frame := fun same => hf (List.mem_singleton.mpr same)
    by_cases same : f = g
    · subst same
      simp only [returned, Function.update_self, hd, Option.map_some]
    · simp only [returned, Function.update_of_ne same, Function.update_of_ne other]
  holds k' := by
    cases k' with
    | task x => rw [if_neg (not_gives_of_isObject (isObject_task x))]; rfl
    | scheduled n => rw [if_neg (not_gives_of_isObject (isObject_scheduled n))]; rfl
    | frame f =>
      refine callee_eq.trans ?_
      rw [siteAt_returned]
      by_cases hf : f = g
      · rw [hf, Function.update_self, if_pos (.inl rfl)]
        rfl
      · rw [Function.update_of_ne hf]
        by_cases same : f = a.frame
        · rw [same, Function.update_self, if_pos (.inr ⟨_, List.mem_singleton_self _, rfl⟩)]
          rfl
        · have keeps : ¬ Ownership.Gives (.frame g) [a.frame] (.frame f) := by
            rintro (first | ⟨f', mem, second⟩)
            · exact hf (Holder.frame.inj first)
            · exact same ((Holder.frame.inj second).trans (List.mem_singleton.mp mem))
          rw [Function.update_of_ne same, if_neg keeps, ← callee_eq]
          rfl

theorem ok_returned (core : Core s) (hd : s.frames g = some c) (site : c.site = .atTask a.frame)
    (hf : (s.returned a rest g c).frames f = some c') : c'.Ok := by
  simp only [returned] at hf
  by_cases same : f = g
  · rw [same, Function.update_self] at hf
    have unfinished := (core.ok g c hd).unfinished (by rw [site]; rfl)
    exact Option.some.inj hf ▸ .ofUnfinished unfinished rfl
  · rw [Function.update_of_ne same] at hf
    by_cases ended : f = a.frame
    · rw [ended, Function.update_self] at hf
      cases hf
    · rw [Function.update_of_ne ended] at hf
      exact core.ok f c' hf

/-- **A coroutine that ends gives its caller its result**, and its frame is destroyed. -/
theorem returned_spec (core : Core s) (live : Live s) (stack : s.stack = a :: rest)
    (awaited : s.ownership.callee g = some a.frame) (hd : s.frames g = some c) :
    Core (s.returned a rest g c) ∧ Live (s.returned a rest g c) := by
  obtain ⟨-, atEnd, chain, k, object, held⟩ := live.running core stack
  have site : c.site = .atTask a.frame := Site.callee_eq_some ((callee_of_frame hd).symm.trans awaited)
  have ne : g ≠ a.frame := Nat.ne_of_lt (core.sound.up g _ awaited)
  have gone : Destroyed s (s.returned a rest g c) (.frame g) [a.frame] := destroyed_returned hd ne
  have core' : Core (s.returned a rest g c) := by
    refine gone.core core (List.nodup_singleton _) ?_ ?_ (fun _ _ => ok_returned core hd site) core.full
      core.defined
    · intro f hf
      rw [List.mem_singleton.mp hf]
      exact ⟨.frame g, .inl rfl, awaited⟩
    · rintro k' f (rfl | ⟨f', mem, rfl⟩) held'
      · exact List.mem_singleton.mpr (Option.some.inj (held'.symm.trans awaited))
      · rw [List.mem_singleton.mp mem] at held'
        cases atEnd.symm.trans held'
  -- the chain is what it was up to the caller
  have before : s.OnChain a.root g := by
    rcases chain.cases_tail with same | ⟨b, chain, last⟩
    · exact absurd (same ▸ awaited) (core.sound.root object held g)
    · exact core.sound.injective b g _ last awaited ▸ chain
  have callee : (s.returned a rest g c).ownership.callee =
      Function.update s.ownership.callee g none := by
    funext f
    rw [callee_eq, siteAt_returned]
    by_cases hf : f = g
    · rw [hf, Function.update_self, Function.update_self]
      rfl
    · rw [Function.update_of_ne hf, Function.update_of_ne hf]
      by_cases same : f = a.frame
      · rw [same, Function.update_self, atEnd]
        rfl
      · rw [Function.update_of_ne same, callee_eq]
  refine ⟨core', ?_⟩
  have popped : (s.returned a rest g c).stack =
      ((some g).map fun g => { a with frame := g }).toList ++ rest := rfl
  refine live.inBody core core' stack popped object held ?_ ?_ (fun _ _ _ => rfl) ?_ ?_ ?_
  · intro f _ off
    have other : f ≠ g := fun same => off (same ▸ before)
    rw [siteAt_returned, Function.update_of_ne other, siteAt_of_off chain off]
  · intro k' object'
    rw [gone.holds, if_neg (not_gives_of_isObject object')]
  · rintro g' ⟨⟩
    refine ⟨by rw [siteAt_returned, Function.update_self], ?_⟩
    rw [OnChain, callee]
    exact before.cut atEnd awaited ne
  · intro f hf
    rw [siteAt_returned] at hf
    by_cases same : f = g
    · exact .inl (same ▸ rfl)
    · rw [Function.update_of_ne same] at hf
      exact .inr (executing_of_update (by simp) hf)
  · rintro ⟨⟩

/-- A coroutine without a caller is its chain's root. -/
theorem root_of_caller (core : Core s) (hc : s.frames f = some c) (caller : c.promise.caller = none) :
    Root s.ownership.callee f := by
  intro g hg
  have named := (core.sound.named (.frame g) f hg).1
  rw [caller_of_frame hc, caller] at named
  cases named

/-- The coroutine that an object has ends: the `resume` that runs it goes on. -/
theorem final_spec (out : Outcome V X) (core : Core s) (live : Live s) (stack : s.stack = a :: rest)
    (hc : s.frames a.frame = some c) (caller : c.promise.caller = none) :
    Core ((s.setFrame a.frame ⟨c.promise.finished out, .final⟩).setStack rest) ∧
      Live ((s.setFrame a.frame ⟨c.promise.finished out, .final⟩).setStack rest) := by
  obtain ⟨⟨_, hc', executing⟩, -, chain, k, object, held⟩ := live.running core stack
  obtain rfl := Option.some.inj (hc.symm.trans hc')
  have root : a.root = a.frame := (root_of_caller core hc caller).eq_of_follows chain
  let s' := (s.setFrame a.frame ⟨c.promise.finished out, .final⟩).setStack rest
  have callee : Site.callee .final = c.site.callee := by
    rw [executing]
    rfl
  have core₁ : Core (s.setFrame a.frame ⟨c.promise.finished out, .final⟩) :=
    core.setFrame hc (Promise.finished_caller ..) (Promise.finished_thisChainTask ..) callee
      (Coroutine.ok_final _)
  have core' : Core s' := core₁.setStack rest
  have owned : s'.ownership = s.ownership :=
    ownership_setFrame hc (Promise.finished_caller ..) (Promise.finished_thisChainTask ..) callee
  have sites : s'.siteAt = Function.update s.siteAt a.frame (some .final) := siteAt_setFrame
  have popped : s'.stack =
      ((none : Option FrameId).map fun g => { a with frame := g }).toList ++ rest := rfl
  refine ⟨core', ?_⟩
  refine live.inBody core core' stack popped object held ?_ (fun k _ => holds_eq owned k)
    (fun _ _ _ => rfl) ?_ ?_ ?_
  · intro f _ off
    rw [sites, siteAt_of_off chain off]
  · rintro g ⟨⟩
  · intro f hf
    rw [sites] at hf
    exact .inr (executing_of_update (by simp) hf)
  · intro _
    refine .inr (.inl ?_)
    rw [sites, root, Function.update_self]

/-- **The end of a body.** -/
theorem finish_spec (out : Outcome V X) (core : Core s) (live : Live s) (stack : s.stack = a :: rest) :
    ∃ s', s.finish a rest out = some s' ∧ Core s' ∧ (s'.status = .running → Live s') := by
  obtain ⟨⟨c, hc, executing⟩, -⟩ := live.running core stack
  have unfinished : c.promise.Unfinished := (core.ok _ c hc).unfinished (by rw [executing]; rfl)
  cases caller : c.promise.caller with
  | some g =>
    have awaited : s.ownership.callee g = some a.frame :=
      core.sound.callee_of_caller (core.alive_of_frame hc) ((caller_of_frame hc).trans caller)
    obtain ⟨d, hd⟩ := Option.isSome_iff_exists.mp ((core.exist g).mpr
      (core.sound.alive g _ awaited))
    have site : d.site = .atTask a.frame :=
      Site.callee_eq_some ((callee_of_frame hd).symm.trans awaited)
    have ne : g ≠ a.frame := Nat.ne_of_lt (core.sound.up g _ awaited)
    obtain ⟨core', live'⟩ := returned_spec core live stack awaited hd
    exact ⟨_, finish_eq_returned hc unfinished caller hd site ne, core', fun _ => live'⟩
  | none =>
    obtain ⟨core', live'⟩ := final_spec out core live stack hc caller
    cases thrown : (c.promise.finished out).exp with
    | some x =>
      refine ⟨{ s.setFrame a.frame ⟨c.promise.finished out, .final⟩ with status := .terminated },
        ?_, ⟨core'.sound, core'.exist, core'.ok, core'.full, by simp⟩, fun h => by cases h⟩
      simp only [finish, hc, Option.bind_eq_bind, Option.bind_some, Promise.finished_caller, caller,
        thrown]
      rfl
    | none =>
      have resumer : ∀ m, a.resumer = .scheduledTask m →
          ((s.setFrame a.frame ⟨c.promise.finished out, .final⟩).setStack rest).holds
            (.scheduled m) = some a.root :=
        live.resumers a (stack ▸ List.mem_cons_self)
      obtain ⟨s', after, core'', live''⟩ := afterResume_spec core' live' resumer
      refine ⟨s', ?_, core'', fun _ => live''⟩
      simp only [finish, hc, Option.bind_eq_bind, Option.bind_some, Promise.finished_caller, caller,
        thrown]
      exact after

end Finish

/-! ## Completions -/

/-- **A completion updates the object that owns the chain**, which the token names. -/
theorem complete_spec (core : Core s) (live : Live s) {id : Nat}
    (awaits : (s.frames f).bind (·.site.operation) = some id) (res : Int) {flags : BitVec 32}
    (hflags : flags &&& netIoringCqeFTask = 0) :
    ∃ s', s.complete id f res flags = some s' ∧ Core s' ∧ Live s' := by
  obtain ⟨c, hc, operation⟩ := Option.bind_eq_some_iff.mp awaits
  obtain ⟨token, site⟩ := Site.operation_eq_some operation
  have ok : c.Ok := core.ok f c hc
  obtain ⟨n, named⟩ := ok.awaits (by rw [site]; rfl)
  obtain ⟨task, awaiter⟩ := ok.token id token site
  obtain ⟨k, r, object, held, chain⟩ := core.sound.exists_holder (core.alive_of_frame hc)
  obtain rfl := core.sound.holder_of_owner object held chain ((owner_of_frame hc).trans named)
  obtain ⟨t, ht, -⟩ := exists_scheduled held
  let token' : CompletionToken TaskId := { token with cqeRes := res, cqeFlags := flags }
  let s₁ := s.setFrame f { c with site := .atOperation id token' }
  have callee : Site.callee (.atOperation id token') = c.site.callee := by
    rw [site]
    rfl
  have ok' : Coroutine.Ok { c with site := .atOperation id token' } := by
    refine ⟨fun _ => ok.unfinished (by rw [site]; rfl), fun _ => ⟨n, named⟩, fun _ other h => ?_⟩
    obtain ⟨-, rfl⟩ := Site.atOperation.inj h
    exact ⟨task, awaiter⟩
  have core₁ : Core s₁ := core.setFrame hc rfl rfl callee ok'
  have sites : s₁.siteAt = s.siteAt := by
    have kind : s.siteAt f = some (Site.kind (.atOperation id token')) := by
      rw [siteAt_of_frame hc, site]
      rfl
    exact siteAt_setFrame.trans (by rw [← kind, Function.update_eq_self])
  have owned : s₁.ownership = s.ownership := ownership_setFrame hc rfl rfl callee
  have live₁ : Live s₁ := live.congr sites rfl (fun m r h => (holds_eq owned _).trans h)
    fun k r object h => ⟨k, object, (holds_eq owned k).symm.trans h, rfl⟩
  let s' := s₁.setScheduled n (some { t with pending := false })
  refine ⟨s', ?_, core₁.setScheduled (s := s₁) ht rfl, live₁.setScheduled (s := s₁) ht rfl rfl⟩
  have stored : s.applyEffect (.storeResult f res flags) = some s₁ := by
    simp only [applyEffect, hc, Option.bind_eq_bind, Option.bind_some, site]
    rfl
  have woken : s₁.applyEffect (.setPending n false) = some s' := by
    have ht₁ : s₁.scheduled n = some t := ht
    simp only [applyEffect, ht₁, Option.bind_eq_bind, Option.bind_some]
    rfl
  simp only [complete, hc, site, Option.bind_eq_bind, Option.bind_some, if_true,
    Machine.handleRequest_awaiter awaiter (task.trans named) hflags, List.foldlM_cons,
    List.foldlM_nil, stored, woken]
  rfl

/-- A completion whose token is gone writes where no token is. -/
theorem complete_eq_none {id : Nat} {res : Int} {flags : BitVec 32}
    (gone : (s.frames f).bind (·.site.operation) ≠ some id) : s.complete id f res flags = none := by
  cases hc : s.frames f with
  | none => simp only [complete, hc, Option.bind_eq_bind, Option.bind_none]
  | some c =>
    cases site : c.site with
    | atOperation current token =>
      have ne : current ≠ id := by
        rintro rfl
        exact gone (by rw [hc, Option.bind_some, site]; rfl)
      simp only [complete, hc, Option.bind_eq_bind, Option.bind_some, site, if_neg ne]
    | _ => simp only [complete, hc, Option.bind_eq_bind, Option.bind_some, site]

end TaskHeap

end CoNet.Async
