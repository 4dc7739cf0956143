import CoNet.Laws.Async.Resumptions
import CoNet.Laws.Async.TaskOperations

/-!
# Each frame is destroyed once, and names the object that owns its chain

`Owned` is what one state should satisfy. The moves of `ScheduledTask` are defaulted: they take the
`Task` over, but leave the old object's address in the frames, which only the constructors write; and
`operator=` of `Task` drops the coroutine that it replaces without destroying it. `Careful` names the
operations that do neither, suspend a coroutine on the chain of a `ScheduledTask` only, and complete
while the token is there. `owned_iff_careful`: a run keeps `Owned` exactly when its operations are all
careful.
-/

set_option autoImplicit false

namespace CoNet.Async.TaskHeap

open CoNet.Io Successors Transition

variable {V X : Type}

/-- What one state should satisfy. -/
structure Owned (s : TaskHeap V X) : Prop where
  defined : s.status ≠ .undefined
  /-- No frame is destroyed twice. -/
  once : s.destroyed.Nodup
  /-- Nothing owns a frame that was destroyed. -/
  live : ∀ k f, s.holds k = some f → f ∉ s.destroyed
  /-- No frame is lost: it is destroyed, or an object or the frame that awaits it owns it. -/
  covered : ∀ f < s.nextFrame, f ∈ s.destroyed ∨ ∃ k, s.holds k = some f
  /-- A frame of a chain names the `ScheduledTask` that owns the chain, and so does its token. -/
  named : ∀ n r f, s.holds (.scheduled n) = some r → s.OnChain r f →
    ∃ c, s.frames f = some c ∧ c.promise.thisChainTask = some n ∧
      ∀ id token, c.site = .atOperation id token → token.chainTask = some n
  /-- The `ScheduledTask` that owns a chain resumes it where it is suspended. -/
  awaited : s.status = .running → ∀ n r, s.holds (.scheduled n) = some r →
    s.Ready r (s.handleOf (.scheduled n))
  /-- Once no object has a coroutine, each frame was destroyed exactly once. -/
  settled : (∀ k, k.IsObject → s.holds k = none) → ∀ f < s.nextFrame, s.destroyed.count f = 1

/-- The operations that go right: a `ScheduledTask` that is moved from or assigned to has no coroutine,
a `Task` that is assigned to has none either, but for an assignment to the object itself; a `Task`
whose coroutine awaits another one is not made a `ScheduledTask`; a coroutine is suspended at an awaiter
on the chain of a `ScheduledTask` only; and it is still suspended at its operation when that one
completes. -/
def Careful (s : TaskHeap V X) : HeapEvent V X → Prop
  | .assignTask lhs rhs => lhs = rhs ∨ s.holds (.task lhs) = none
  | .schedule _ x => (s.holds (.task x)).bind (fun root => s.holds (.frame root)) = none
  | .moveScheduled _ src => s.holds (.scheduled src) = none
  | .assignScheduled lhs rhs =>
    lhs = rhs ∨ s.holds (.scheduled lhs) = none ∧ s.holds (.scheduled rhs) = none
  | .suspend _ => ∀ a ∈ s.stack.head?, (s.frames a.frame).bind (·.promise.thisChainTask) ≠ none
  | .complete id f _ _ => (s.frames f).bind (·.site.operation) = some id
  | _ => True

instance : ∀ (s : TaskHeap V X) (e : HeapEvent V X), Decidable (Careful s e)
  | _, .assignTask _ _ => inferInstanceAs (Decidable (_ ∨ _))
  | _, .schedule _ _ => inferInstanceAs (Decidable (_ = _))
  | _, .moveScheduled _ _ => inferInstanceAs (Decidable (_ = _))
  | _, .assignScheduled _ _ => inferInstanceAs (Decidable (_ ∨ _ ∧ _))
  | _, .suspend _ => inferInstanceAs (Decidable (∀ a ∈ _, _))
  | _, .complete _ _ _ _ => inferInstanceAs (Decidable (_ = _))
  | _, .call _ | _, .moveTask _ _ | _, .resumeTask _ | _, .destroyTask _ | _, .emplace _
  | _, .resumeScheduled _ | _, .destroyScheduled _ | _, .awaitTask | _, .coReturn _ | _, .throw _ =>
    inferInstanceAs (Decidable True)

structure Inv (s : TaskHeap V X) : Prop where
  core : Core s
  live : s.status = .running → Live s

variable {s s' : TaskHeap V X} {e : HeapEvent V X}

theorem inv_init : Inv ({} : TaskHeap V X) := by
  have nothing : ∀ k, ({} : TaskHeap V X).holds k = none := by
    rintro (x | n | g) <;> rfl
  have empty : ({} : TaskHeap V X).ownership.ledger = Ledger.empty :=
    Ledger.ext (funext nothing) rfl rfl
  have core : Core ({} : TaskHeap V X) := by
    refine ⟨⟨empty ▸ Ledger.balanced_empty, empty ▸ Ledger.covered_empty, ?_, ?_, ?_⟩, ?_, ?_, ?_, ?_⟩
    · exact fun k f held => nomatch (nothing k).symm.trans held
    · exact fun g f held => nomatch (nothing (.frame g)).symm.trans held
    · exact fun g f held => nomatch (nothing (.frame g)).symm.trans held
    · exact fun f => iff_of_false (by simp) fun alive => Nat.not_lt_zero f alive.1
    · exact fun f c hc => nomatch hc
    · exact fun n t ht => nomatch ht
    · simp
  refine ⟨core, fun _ => ⟨?_, ?_, List.nodup_nil, ?_, ?_⟩⟩
  · exact fun a ha => nomatch ha
  · exact fun f hf => nomatch hf
  · exact fun a ha => nomatch ha
  · exact fun k r _ held => nomatch (nothing k).symm.trans held

/-- **The invariant is enough.** -/
theorem owned_of_inv (inv : Inv s) : Owned s where
  defined := inv.core.defined
  once := gone_ownership (s := s) ▸ inv.core.sound.balanced.gone_nodup
  live k f held := gone_ownership (s := s) ▸ inv.core.sound.balanced.held_live k f held
  covered f hf := gone_ownership (s := s) ▸ inv.core.sound.covered f hf
  named n r f held chain := by
    have alive := inv.core.sound.alive_of_follows (inv.core.alive_of_holds held) chain
    obtain ⟨c, hc⟩ := Option.isSome_iff_exists.mp ((inv.core.exist f).mpr alive)
    have owner : c.promise.thisChainTask = some n := by
      rw [← owner_of_frame hc, inv.core.sound.owner_eq chain]
      exact (inv.core.sound.named (.scheduled n) r held).2
    exact ⟨c, hc, owner, fun id token site => ((inv.core.ok f c hc).token id token site).1.trans owner⟩
  awaited running n r held := (inv.live running).ready (.scheduled n) r (isObject_scheduled n) held
  settled none f hf := by
    have gone : f ∈ s.destroyed := by
      rcases inv.core.sound.covered f hf with gone | ⟨k, held⟩
      · exact gone_ownership (s := s) ▸ gone
      · -- a frame that a frame owns is on the chain of an object
        obtain ⟨k', r, object, held', -⟩ :=
          inv.core.sound.exists_holder (inv.core.alive_of_holds held)
        cases (none k' object).symm.trans held'
    exact List.count_eq_one_of_mem (gone_ownership (s := s) ▸ inv.core.sound.balanced.gone_nodup) gone

/-! ## Careful operations -/

theorem running_of_step (h : s.step e = some s') : s.status = .running ∧ s.act e = some s' := by
  cases hs : s.status with
  | running => exact ⟨rfl, by simpa only [step, hs] using h⟩
  | terminated => simp [step, hs] at h
  | undefined => simp [step, hs] at h

/-- A step that is defined does what its operation does. -/
theorem inv_of_spec {op : Option (TaskHeap V X)} (spec : ∃ s₁, op = some s₁ ∧ Core s₁ ∧ Live s₁)
    (h : some (s.orUndefined op) = some s') : Inv s' := by
  obtain ⟨s₁, rfl, core, live⟩ := spec
  obtain rfl : s₁ = s' := Option.some.inj h
  exact ⟨core, fun _ => live⟩

theorem siteAt_ne_final {r : FrameId} (h : s.done r = false) : s.siteAt r ≠ some .final := by
  intro final
  obtain ⟨c, hc, kind⟩ := Option.map_eq_some_iff.mp final
  simp only [done, hc, Option.any_some, Site.kind_eq_final.mp kind, Bool.true_eq_false] at h

/-- `resume` of an object that has a coroutine which neither runs nor is at its end. -/
theorem resumeObject_spec {k : Holder} {r : FrameId} (resumer : Resumer) (core : Core s)
    (live : Live s) (object : k.IsObject) (held : s.holds k = some r)
    (ready : ¬ (s.runs r || s.done r) = true)
    (same : ∀ n, resumer = .scheduledTask n → k = .scheduled n) :
    ∃ s', s.resume resumer r (s.handleOf k) = some s' ∧ Core s' ∧ Live s' := by
  rw [Bool.or_eq_true, not_or, Bool.not_eq_true, Bool.not_eq_true] at ready
  exact resume_spec core live object held ready.1 (siteAt_ne_final ready.2) same

/-- A step of the running body is one of the innermost resumption. -/
theorem exists_of_inBody {body : Activation → List Activation → Option (TaskHeap V X)}
    (h : s.inBody body = some s') :
    ∃ a rest, s.stack = a :: rest ∧ some (s.orUndefined (body a rest)) = some s' := by
  cases stack : s.stack with
  | nil => simp only [inBody, stack, reduceCtorEq] at h
  | cons a rest => exact ⟨a, rest, rfl, by simpa only [inBody, stack] using h⟩

theorem inv_finish {out : Outcome V X} (core : Core s) (live : Live s)
    (h : (s.inBody fun a rest => s.finish a rest out) = some s') : Inv s' := by
  obtain ⟨a, rest, stack, h⟩ := exists_of_inBody h
  obtain ⟨s₁, result, core', live'⟩ := finish_spec out core live stack
  rw [result] at h
  obtain rfl : s₁ = s' := Option.some.inj h
  exact ⟨core', live'⟩

/-- **A careful operation keeps the invariant.** -/
theorem inv_step (inv : Inv s) (careful : Careful s e) (h : s.step e = some s') : Inv s' := by
  obtain ⟨running, h⟩ := running_of_step h
  obtain ⟨core, live⟩ : Core s ∧ Live s := ⟨inv.core, inv.live running⟩
  cases e with
  | call x =>
    simp only [act] at h
    split at h
    · next free =>
      obtain ⟨core', live'⟩ := callTask_spec core live free
      exact Option.some.inj h ▸ ⟨core', fun _ => live'⟩
    · cases h
  | moveTask dst src =>
    simp only [act] at h
    split at h
    · next t free ht =>
      obtain ⟨core', live'⟩ := moveTask_spec core live free ht
      exact Option.some.inj h ▸ ⟨core', fun _ => live'⟩
    · cases h
  | assignTask lhs rhs =>
    obtain ⟨core', live'⟩ := assignTask_spec core live careful h
    exact ⟨core', fun _ => live'⟩
  | resumeTask x =>
    simp only [act] at h
    split at h
    · next root held =>
      split at h
      · cases h
      · next ready =>
        have spec := resumeObject_spec (.task x) core live (isObject_task x) held ready
          fun n hn => by cases hn
        rw [handleOf_task, show s.holds (.task x) = some root from held] at spec
        exact inv_of_spec spec h
    · cases h
  | destroyTask x =>
    simp only [act] at h
    split at h
    · next t ht =>
      split at h
      · cases h
      · next idle => exact inv_of_spec (destroyTask_spec core live ht idle) h
    · cases h
  | schedule n x =>
    simp only [act] at h
    split at h
    · next root free hx =>
      have held : s.holds (.task x) = some root := by simp [holds, hx]
      have alone : s.ownership.callee root = none := by
        rw [Careful, held, Option.bind_some] at careful
        exact careful
      exact inv_of_spec (schedule_spec core live free hx alone) h
    · cases h
  | emplace n =>
    simp only [act] at h
    split at h
    · next free => exact inv_of_spec (emplace_spec core live free) h
    · cases h
  | moveScheduled dst src =>
    simp only [act] at h
    split at h
    · next t free ht =>
      obtain ⟨r, handle⟩ := core.full src t ht
      cases careful.symm.trans ((holds_scheduled ht).trans handle)
    · cases h
  | assignScheduled lhs rhs =>
    rcases careful with rfl | ⟨-, empty⟩
    · rw [assignScheduled_self h]
      exact inv
    · obtain ⟨t, ht, -⟩ := Option.bind_eq_some_iff.mp h
      obtain ⟨r, handle⟩ := core.full rhs t ht
      cases empty.symm.trans ((holds_scheduled ht).trans handle)
  | resumeScheduled n =>
    simp only [act] at h
    split at h
    · next root awaitingHandle valid pending ht =>
      split at h
      · cases h
      · next ready =>
        have spec := resumeObject_spec (.scheduledTask n) core live (isObject_scheduled n)
          (holds_scheduled ht) ready fun m hm => by cases hm; rfl
        rw [handleOf_scheduled ht] at spec
        exact inv_of_spec spec h
    · next ht =>
      obtain ⟨r, handle⟩ := core.full n _ ht
      cases handle
    · cases h
  | destroyScheduled n =>
    simp only [act] at h
    split at h
    · next t ht =>
      split at h
      · cases h
      · next idle => exact inv_of_spec (destroyScheduled_spec core live ht idle) h
    · cases h
  | suspend awaiting =>
    simp only [act] at h
    split at h
    · next library =>
      obtain ⟨a, rest, stack, h⟩ := exists_of_inBody h
      obtain ⟨n, named⟩ := Option.ne_none_iff_exists'.mp (careful a (by rw [stack]; rfl))
      exact inv_of_spec (suspend_spec core live stack named library) h
    · cases h
  | awaitTask =>
    obtain ⟨a, rest, stack, h⟩ := exists_of_inBody h
    exact inv_of_spec (awaitTask_spec core live stack) h
  | coReturn v => exact inv_finish core live h
  | throw x => exact inv_finish core live h
  | complete id f res flags =>
    simp only [act] at h
    split at h
    · next flying =>
      have core₀ := core.inflight (s.inflight.erase (id, f)) s.nextOperation
      have live₀ := live.inflight (s.inflight.erase (id, f)) s.nextOperation
      exact inv_of_spec (complete_spec core₀ live₀ careful res flying.2) h
    · cases h

/-! ## The other operations -/

/-- A `ScheduledTask` that takes over from another one leaves the other one's name in the frames. -/
theorem not_owned_of_moved {m n : TaskId} {r : FrameId} (core : Core s) (ne : m ≠ n)
    (held : s.holds (.scheduled n) = some r) (frames : s'.frames = s.frames)
    (moved : s'.holds (.scheduled m) = some r) : ¬ Owned s' := by
  intro owned
  obtain ⟨c, hc, named, -⟩ := owned.named m r r moved (.refl _ _)
  rw [frames] at hc
  have before : c.promise.thisChainTask = some n :=
    (owner_of_frame hc).symm.trans (core.sound.named (.scheduled n) r held).2
  exact ne (Option.some.inj (named.symm.trans before))

/-- `ScheduledTask::operator=`, what it leaves. -/
theorem assignScheduled_eq_some {lhs rhs : TaskId} (h : s.assignScheduled lhs rhs = some s') :
    s'.frames = s.frames ∧ s'.holds (.scheduled lhs) = s.holds (.scheduled rhs) := by
  simp only [assignScheduled, Option.bind_eq_bind, Option.bind_eq_some_iff, Option.pure_def,
    Option.some.injEq] at h
  obtain ⟨t, ht, u, hu, t₁, ht₁, u₁, hu₁, rfl⟩ := h
  simp only [setScheduled, Function.update_self, Option.some.injEq] at hu₁
  subst hu₁
  refine ⟨rfl, ?_⟩
  rw [holds_setScheduled, Function.update_self, holds_scheduled ht]
  rfl

/-- **A `Task` that has a coroutine loses it** when another one is assigned to it. -/
theorem not_owned_of_assigned {x y : Nat} (core : Core s) (ne : x ≠ y)
    (full : s.holds (.task x) ≠ none) (h : s.assignTask x y = some s') : ¬ Owned s' := by
  obtain ⟨t, ht, made⟩ := assignTask_eq_some h
  obtain ⟨r, held⟩ : ∃ r, s.ownership.ledger.holds (.task x) = some r :=
    Option.ne_none_iff_exists'.mp full
  have holds : s'.holds = (s.ownership.ledger.transfer (.task x) (.task y)).holds :=
    made ▸ holds_assignTask ne ht
  have lost : ¬ (s.ownership.ledger.transfer (.task x) (.task y)).Covered :=
    core.sound.balanced.not_covered_transfer held
  intro owned
  refine lost fun f hf => ?_
  have next : s'.nextFrame = s.nextFrame := by
    rw [made]
    rfl
  have destroyed : s'.destroyed = s.destroyed := by
    rw [made]
    rfl
  rcases owned.covered f (next ▸ hf) with gone | ⟨k, hk⟩
  · refine .inl ?_
    show f ∈ s.ownership.ledger.gone.map (·.1)
    rwa [gone_ownership, ← destroyed]
  · exact .inr ⟨k, holds ▸ hk⟩

/-- A coroutine that awaits another one gets a name that the other one has not. -/
theorem not_owned_of_rooted {n : TaskId} {x : Nat} {r f : FrameId} {c : Coroutine V X}
    (core : Core s) (hc : s.frames r = some c) (held : s.holds (.task x) = some r)
    (awaits : s.holds (.frame r) = some f) : ¬ Owned (s.rooted n x r c) := by
  intro owned
  have ne : f ≠ r := (Nat.ne_of_lt (core.sound.up r f awaits)).symm
  have root : (s.rooted n x r c).holds (.scheduled n) = some r := by
    show (s.rooted n x r c).ownership.ledger.holds (.scheduled n) = some r
    rw [ownership_rooted hc held]
    exact (Ledger.transfer_holds_dst (by simp)).trans held
  have chain : (s.rooted n x r c).OnChain r f := by
    refine .head ?_ (.refl _ _)
    rw [callee_eq, siteAt_rooted hc, ← callee_eq]
    exact awaits
  obtain ⟨d, hd, named, -⟩ := owned.named n r f root chain
  have before : s.frames f = some d := (Function.update_of_ne ne ..).symm.trans hd
  have unnamed : s.ownership.owner f = none :=
    (core.sound.named (.frame r) f awaits).2.trans (core.sound.named (.task x) r held).2
  cases named.symm.trans ((owner_of_frame before).symm.trans unnamed)

/-- `await_suspend` without a `ScheduledTask` follows a null pointer. -/
theorem suspend_eq_none {a : Activation} {rest : List Activation} {awaiting : Awaiting}
    (unnamed : (s.frames a.frame).bind (·.promise.thisChainTask) = none) :
    s.suspend a rest awaiting = none := by
  cases hc : s.frames a.frame with
  | none => simp only [suspend, hc, Option.bind_eq_bind, Option.bind_none]
  | some c =>
    rw [hc, Option.bind_some] at unnamed
    simp only [suspend, hc, Option.bind_eq_bind, Option.bind_some, unnamed, Option.bind_none]

/-- **An operation that is not careful** leaves a frame lost or with another's name, or is undefined. -/
theorem not_owned_of_careless (inv : Inv s) (careless : ¬ Careful s e) (h : s.step e = some s') :
    ¬ Owned s' := by
  obtain ⟨-, h⟩ := running_of_step h
  cases e with
  | assignTask lhs rhs =>
    obtain ⟨ne, full⟩ := not_or.mp careless
    exact not_owned_of_assigned inv.core ne full h
  | schedule n x =>
    simp only [act] at h
    split at h
    · next root free hx =>
      have held : s.holds (.task x) = some root := by simp [holds, hx]
      rw [Careful, held, Option.bind_some] at careless
      obtain ⟨f, awaits⟩ := Option.ne_none_iff_exists'.mp careless
      obtain ⟨c, hc⟩ := inv.core.frame_of_holds held
      have result := setChainTaskRoot_eq (n := n) (x := x) hc
      simp only [Task.moveConstruct, result] at h
      obtain rfl : s.rooted n x root c = s' := Option.some.inj h
      exact not_owned_of_rooted inv.core hc held awaits
    · cases h
  | moveScheduled dst src =>
    simp only [act] at h
    split at h
    · next t free ht =>
      obtain ⟨r, held⟩ := Option.ne_none_iff_exists'.mp careless
      have ne : dst ≠ src := by
        rintro rfl
        cases free.symm.trans ht
      have apart : Holder.scheduled dst ≠ .scheduled src := fun same => ne (Holder.scheduled.inj same)
      refine not_owned_of_moved inv.core ne held (by rw [← Option.some.inj h]; rfl) ?_
      rw [← Option.some.inj h, holds_setScheduled, Function.update_of_ne apart, holds_setScheduled,
        Function.update_self, ← held, holds_scheduled ht]
      rfl
    · cases h
  | assignScheduled lhs rhs =>
    obtain ⟨ne, full⟩ := not_or.mp careless
    obtain ⟨frames, holds⟩ := assignScheduled_eq_some h
    obtain ⟨t, ht, -⟩ := Option.bind_eq_some_iff.mp h
    obtain ⟨r, handle⟩ := inv.core.full rhs t ht
    have held : s.holds (.scheduled rhs) = some r := (holds_scheduled ht).trans handle
    exact not_owned_of_moved inv.core ne held frames (holds.trans held)
  | suspend awaiting =>
    simp only [act] at h
    split at h
    · obtain ⟨a, rest, stack, h⟩ := exists_of_inBody h
      obtain ⟨b, hb, unnamed⟩ : ∃ b ∈ s.stack.head?,
          (s.frames b.frame).bind (·.promise.thisChainTask) = none := by
        simpa only [Careful, not_forall, exists_prop, not_not] using careless
      rw [stack] at hb
      obtain rfl : a = b := Option.some.inj hb
      rw [suspend_eq_none unnamed] at h
      obtain rfl := Option.some.inj h
      exact fun owned => owned.defined rfl
    · cases h
  | complete id f res flags =>
    simp only [act] at h
    split at h
    · have gone : ({ s with inflight := s.inflight.erase (id, f) } : TaskHeap V X).complete id f res
          flags = none := complete_eq_none careless
      rw [gone] at h
      obtain rfl := Option.some.inj h
      exact fun owned => owned.defined rfl
    · cases h
  | _ => exact absurd trivial careless

/-- **Each frame is destroyed exactly once and names the object that owns its chain, in every state of
a run, exactly when the operations of the run are all careful.** -/
theorem owned_iff_careful (es : List (HeapEvent V X)) :
    Always step Owned {} es ↔ Meets step Careful {} es :=
  always_iff_meets (fun _ _ _ => inv_step) (fun _ => owned_of_inv)
    (fun _ _ _ => not_owned_of_careless) inv_init

/-- A coroutine of a `ScheduledTask` is suspended at a timeout, and the object is moved. -/
def movedRun : List (HeapEvent Unit Unit) :=
  [.emplace 0, .resumeScheduled 0, .suspend (.operation .timeout), .moveScheduled 1 0]

/-- A `Task` that has a coroutine gets another one, and both objects are destroyed. -/
def assignedRun : List (HeapEvent Unit Unit) :=
  [.call 0, .call 1, .assignTask 0 1, .destroyTask 0, .destroyTask 1]

/-- The frame names the object that was moved from; and the frame 0 is never destroyed. -/
theorem not_owned_moved :
    ¬ Always step Owned {} movedRun ∧ ¬ Always step Owned {} assignedRun := by
  constructor
  · intro always
    have owned := always.final (Option.some_get (x := exec step {} movedRun) rfl).symm
    obtain ⟨c, hc, named, -⟩ := owned.named 1 0 0 rfl (.refl _ _)
    cases hc
    cases named
  · intro always
    have owned := always.final (Option.some_get (x := exec step {} assignedRun) rfl).symm
    have gone : ∀ k : Holder, k.IsObject → ((exec step {} assignedRun).get rfl).holds k = none
      | .task 0, _ | .task 1, _ | .task (_ + 2), _ | .scheduled _, _ => rfl
      | .frame g, object => absurd rfl (object g)
    have count := owned.settled gone 0 (by decide)
    revert count
    decide

/-- A chain of two frames is suspended, goes on and ends, and is destroyed. -/
def carefulRun : List (HeapEvent Unit Unit) :=
  [.call 0, .moveTask 1 0, .schedule 0 1, .resumeScheduled 0, .awaitTask,
    .suspend (.operation .timeout), .complete 0 1 0 0, .resumeScheduled 0, .coReturn (), .coReturn (),
    .destroyScheduled 0, .destroyTask 0, .destroyTask 1]

example : (exec step {} carefulRun).map (·.destroyed) = some [1, 0] ∧
    Meets step Careful {} carefulRun := by
  decide

end CoNet.Async.TaskHeap
