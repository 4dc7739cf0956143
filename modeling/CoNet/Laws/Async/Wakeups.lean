import CoNet.Laws.Async.History

/-!
# Completions wake the tasks that wait for them

`Coherent` is what every state between two resumptions satisfies: a valid task's
`awaiting_handle_` is the innermost frame of its chain, all frames of the chain name its node, and
it is pending exactly when one operation in flight has a token that names it; a finished task is not
resumed, a completion wakes the task that issued its operation, and `await_resume` yields that
completion's result. `coherent_always`: it holds along every run.
-/

set_option autoImplicit false

namespace CoNet.Async.Machine

open CoNet.Io Transition

variable {L V X O : Type} {s s' : Machine L V X O} {e : Event L V X O} {n : TaskId}
  {t : ScheduledTask} {f : FrameId} {st : Stack L V X} {frames : FrameId → Option (Frame L V X)}

/-! ## What a state between two resumptions satisfies -/

def Between (s : Machine L V X O) : Prop := s.control = .idle ∨ ∃ n, s.control = .pass n

theorem Between.not_running (between : s.Between) (n : TaskId) : ¬ s.Running n := by
  rintro ⟨f, body, control⟩
  rcases between with h | ⟨m, h⟩ <;> simp [control] at h

/-- The token in a frame that awaits an operation. -/
def token : Point L V X → Option (CompletionToken TaskId)
  | .atOperation _ token _ => some token
  | _ => none

def tokenAt (s : Machine L V X O) (f : FrameId) : Option (CompletionToken TaskId) :=
  (s.frames f).bind fun fr => token fr.point

/-- The operations in flight whose token names a task. -/
def naming (s : Machine L V X O) (n : TaskId) : List (Nat × FrameId) :=
  s.inflight.filter fun operation => (s.tokenAt operation.2).bind (·.chainTask) == some n

/-- A frame suspended at its start, or at an operation. -/
def SuspendedAt (frames : FrameId → Option (Frame L V X)) (f : FrameId) : Prop :=
  (∃ body, At frames f (.initial body)) ∨ ∃ id token k, At frames f (.atOperation id token k)

/-- The chain of a valid task. -/
structure Chained (frames : FrameId → Option (Frame L V X)) (n : TaskId) (t : ScheduledTask) :
    Prop where
  awaiting : OnChain frames t.task t.awaitingHandle
  suspended : SuspendedAt frames t.awaitingHandle
  task : ∀ f, OnChain frames t.task f →
    ∃ fr, frames f = some fr ∧ fr.promise.thisChainTask = some n

structure Coherent (s : Machine L V X O) : Prop where
  defined : s.control ≠ .undefined
  chained : s.Between → ∀ n t, s.queue[n]? = some t → t.valid = true → Chained s.frames n t
  pending : s.Between → ∀ n t, s.queue[n]? = some t →
    (t.pending = true ↔ (s.naming n).length = 1)
  finished : ∀ n t, s.queue[n]? = some t → (t.valid = false ↔ ∃ root, .finished n root ∈ s.log)
  not_resumed : s.log.Pairwise fun a b => ∀ n root, a = .finished n root → b ≠ .resumed n
  wakes : ∀ id n res flags, .woken id n res flags ∈ s.log → ∀ m,
    (∃ arg, .performed id m arg ∈ s.log) ↔ m = n
  woken_once : (wokenIds s.log).Nodup
  yields : ∀ id n res flags, .yielded id n res flags ∈ s.log → .woken id n res flags ∈ s.log

/-! ## Chains and operations -/

theorem SuspendedAt.not_awaits (h : SuspendedAt frames f) (c : FrameId) : ¬ Awaits frames f c := by
  rintro ⟨k, hat⟩
  rcases h with ⟨body, h⟩ | ⟨id, token, k', h⟩ <;> cases hat.unique h

theorem tokenAt_of_at {id : Nat} {tok : CompletionToken TaskId} {k : Int → BitVec 32 → L}
    (h : At s.frames f (.atOperation id tok k)) : s.tokenAt f = some tok := by
  obtain ⟨fr, frame, point⟩ := h
  rw [tokenAt, frame, Option.bind_some, point]
  rfl

theorem Linked.chained (linked : Linked s) (idle : ¬ s.Running n) (node : s.queue[n]? = some t)
    (valid : t.valid = true) : Chained s.frames n t := by
  have chain : ∀ st, Callers s.frames n t.task t.awaitingHandle st →
      SuspendedAt s.frames t.awaitingHandle → Chained s.frames n t := fun st callers suspended =>
    ⟨onChain_of_callers callers, suspended, fun f hf =>
      callers.task f (callers.mem_of_onChain suspended.not_awaits hf)⟩
  cases linked.suspended n t node idle with
  | ready body _ _ awaiting callers point =>
    rw [← awaiting] at point
    refine chain [] ?_ (.inl ⟨body, point⟩)
    rw [awaiting]
    exact callers
  | waiting id token k st _ callers _ point => exact chain st callers (.inr ⟨id, token, k, point⟩)
  | finished fr invalid => exact absurd (invalid.symm.trans valid) (by simp)

/-- The token of an operation in flight names the task that waits for it. -/
theorem Linked.token_flying (linked : Linked s) {id : Nat} (h : (id, f) ∈ s.inflight) :
    ∃ n t token, s.queue[n]? = some t ∧ t.pending = true ∧ t.awaitingHandle = f ∧
      s.tokenAt f = some token ∧ token.chainTask = some n := by
  obtain ⟨n, t, fr, token, k, node, idle, pending, rfl, frame, -, point⟩ := linked.flying h
  refine ⟨n, t, token, node, pending, rfl, tokenAt_of_at ⟨fr, frame, point⟩, ?_⟩
  cases linked.suspended n t node idle with
  | ready body _ notPending => exact absurd (notPending.symm.trans pending) (by simp)
  | finished fr' _ notPending => exact absurd (notPending.symm.trans pending) (by simp)
  | waiting id' token' k' st _ _ _ hat named =>
    cases hat.unique ⟨fr, frame, point⟩
    exact named

/-- The operations that name a task are in flight for the frame that it waits at. -/
theorem Linked.of_mem_naming (linked : Linked s) (node : s.queue[n]? = some t)
    {operation : Nat × FrameId} (h : operation ∈ s.naming n) :
    operation ∈ s.inflight ∧ t.pending = true ∧ t.awaitingHandle = operation.2 := by
  obtain ⟨flying, named⟩ := List.mem_filter.mp h
  obtain ⟨m, u, token, node', pending, awaiting, hat, hm⟩ := linked.token_flying flying
  rw [hat, Option.bind_some, hm, beq_iff_eq, Option.some.injEq] at named
  subst named
  obtain rfl := Option.some.inj (node.symm.trans node')
  exact ⟨flying, pending, awaiting⟩

theorem eq_singleton_of_nodup {α : Type*} {a : α} {l : List α} (nodup : l.Nodup) (mem : a ∈ l)
    (all : ∀ b ∈ l, b = a) : l = [a] := by
  cases l with
  | nil => cases mem
  | cons b l =>
    obtain rfl := all b List.mem_cons_self
    cases l with
    | nil => rfl
    | cons c l =>
      obtain rfl := all c (List.mem_cons_of_mem _ List.mem_cons_self)
      exact absurd List.mem_cons_self (List.nodup_cons.mp nodup).1

/-- The operation a pending task waits for is the only one that names it. -/
theorem Linked.naming_pending (linked : Linked s) (idle : ¬ s.Running n)
    (node : s.queue[n]? = some t) (pending : t.pending = true) :
    ∃ id, s.naming n = [(id, t.awaitingHandle)] := by
  cases linked.suspended n t node idle with
  | ready body _ notPending => exact absurd (notPending.symm.trans pending) (by simp)
  | finished fr' _ notPending => exact absurd (notPending.symm.trans pending) (by simp)
  | waiting id token k st _ _ _ hat named _ flight =>
    refine ⟨id, eq_singleton_of_nodup (linked.flight_nodup.filter _) ?_ ?_⟩
    · refine List.mem_filter.mpr ⟨flight.mp pending, ?_⟩
      rw [tokenAt_of_at hat, Option.bind_some, named, beq_self_eq_true]
    · intro operation h
      obtain ⟨flying, -, awaiting⟩ := linked.of_mem_naming node h
      -- the point of the frame tells the operation
      obtain ⟨m, u, -, -, -, token', k', hat'⟩ := linked.flight operation.1 operation.2 flying
      rw [← awaiting] at hat'
      cases hat.unique hat'
      exact Prod.ext rfl awaiting.symm

theorem Linked.pending_iff (linked : Linked s) (idle : ¬ s.Running n)
    (node : s.queue[n]? = some t) : t.pending = true ↔ (s.naming n).length = 1 := by
  constructor
  · intro pending
    obtain ⟨id, h⟩ := linked.naming_pending idle node pending
    rw [h, List.length_singleton]
  · intro h
    obtain ⟨operation, hop⟩ := List.length_eq_one_iff.mp h
    exact (linked.of_mem_naming node (hop ▸ List.mem_singleton_self _)).2.1

/-! ## Along every run -/

theorem Logged.finished_iff (logged : s.Logged) (node : s.queue[n]? = some t) :
    t.valid = false ↔ ∃ root, .finished n root ∈ s.log := by
  rw [← History.finished logged n]
  constructor
  · exact fun invalid => ⟨t, node, invalid⟩
  · rintro ⟨u, node', invalid⟩
    obtain rfl := Option.some.inj (node.symm.trans node')
    exact invalid

/-- A completion wakes the task that performed its operation. -/
theorem Logged.wakes (logged : s.Logged) {id : Nat} {res : Int} {flags : BitVec 32}
    (h : .woken id n res flags ∈ s.log) (m : TaskId) :
    (∃ arg, .performed id m arg ∈ s.log) ↔ m = n := by
  obtain ⟨arg, issued⟩ := logged.woken_performed id n res flags h
  constructor
  · rintro ⟨arg', h'⟩
    exact logged.performed_once id n arg issued m arg' h'
  · rintro rfl
    exact ⟨arg, issued⟩

theorem coherent_of_sane (sane : Sane s) (logged : s.Logged) : Coherent s where
  defined := by
    rcases sane with terminated | linked
    · simp [terminated]
    · exact linked.defined
  chained between n t node valid := by
    rcases sane with terminated | linked
    · rcases between with h | ⟨m, h⟩ <;> simp [terminated] at h
    · exact linked.chained (between.not_running n) node valid
  pending between n t node := by
    rcases sane with terminated | linked
    · rcases between with h | ⟨m, h⟩ <;> simp [terminated] at h
    · exact linked.pending_iff (between.not_running n) node
  finished n t node := logged.finished_iff node
  not_resumed := logged.not_resumed
  wakes id n res flags h m := logged.wakes h m
  woken_once := logged.woken_once
  yields := logged.yielded_woken

theorem inv_step (inv : Sane s ∧ s.Logged) (h : s.step e = some s') : Sane s' ∧ s'.Logged :=
  ⟨sane_step inv.1 h, logged_step inv.1 inv.2 h⟩

/-- **Every run**: whatever is enqueued and spawned, in whatever order completions arrive, each
state is coherent. -/
theorem coherent_always (es : List (Event L V X O)) :
    Always step Coherent ({} : Machine L V X O) es :=
  always_of_keep (fun _ _ _ inv h => inv_step inv h) (fun _ inv => coherent_of_sane inv.1 inv.2)
    ⟨.inr linked_init, logged_init⟩

end CoNet.Async.Machine
