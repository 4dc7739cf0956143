import CoNet.Laws.Async.Invariant
import CoNet.Laws.Async.Pass

/-!
# The passes of the machine with frames

A pass of `Machine`, with the frames of all its chains, is a pass of `Pass` over the same list: what the
chain of a node does from its `resume` to the loop's next node is a `Resumption`. Each node is resumed
once at most, so the program of the pass is read off the run, from its end on (`played_of_passes`). What
is proved of a pass that has ended holds of the machine's passes by it, so after each of them every task
is finished or pending (`settled_of_passes`).
-/

set_option autoImplicit false

namespace CoNet.Async.Machine

open Steps

variable {L V X O : Type} {s s₁ s' : Machine L V X O} {n : TaskId}

/-- The list of a pass, whose tasks are known by their places. -/
def nodes (queue : List ScheduledTask) : List (Node TaskId) :=
  queue.mapIdx fun n t => ⟨n, t.valid, t.pending⟩

/-- The steps of a pass, up to its end. -/
inductive Passes : Machine L V X O → Machine L V X O → Prop where
  | ended {s : Machine L V X O} (control : s.control = .idle ∨ s.control = .terminated) : Passes s s
  | visit {s s₁ s' : Machine L V X O} (h : s.step .visit = some s₁) (rest : Passes s₁ s') : Passes s s'
  | exec {s s₁ s' : Machine L V X O} {instr : Instr L V X O} (h : s.step (.exec instr) = some s₁)
    (rest : Passes s₁ s') : Passes s s'

/-- Both have ended, with the same list. -/
structure SameEnd (s : Machine L V X O) (p : Pass TaskId) : Prop where
  control : (s.control = .idle ∧ p.control = .returned) ∨
    (s.control = .terminated ∧ p.control = .terminated)
  queue : p.queue = nodes s.queue

/-- A pass with any program that does this from the node `n` on goes to the same end. -/
def Reaches (s' : Machine L V X O) (program₀ : TaskId → Resumption TaskId) (n : TaskId)
    (queue : List (Node TaskId)) (control : Pass.Control TaskId) : Prop :=
  ∀ program, (∀ i, n ≤ i → program i = program₀ i) → ∀ visits,
    ∃ k p, iter (Pass.step program) k ⟨queue, control, visits⟩ = some p ∧ SameEnd s' p

/-- What the tasks of the machine wait for. -/
def Waits (program : TaskId → Resumption TaskId) : Prop :=
  ∀ i, (program i).awaiter ≠ some .multishotAccept

theorem nodes_emplaceBack (s : Machine L V X O) (task : L) :
    nodes (s.emplaceBack task).queue = nodes s.queue ++ [.ofTask s.queue.length] :=
  List.mapIdx_concat

theorem nodes_modify {queue : List ScheduledTask} {g : ScheduledTask → ScheduledTask}
    {g' : Node TaskId → Node TaskId}
    (same : ∀ t, ⟨n, (g t).valid, (g t).pending⟩ = g' ⟨n, t.valid, t.pending⟩) :
    nodes (queue.modify n g) = (nodes queue).modify n g' := by
  unfold nodes
  ext i : 1
  rw [List.getElem?_mapIdx, List.getElem?_modify, List.getElem?_modify, List.getElem?_mapIdx]
  by_cases here : n = i
  · subst here
    cases queue[n]? with
    | none => rfl
    | some t => simpa using same t
  · cases queue[i]? <;> simp [here]

theorem getElem?_nodes {queue : List ScheduledTask} {t : ScheduledTask} (node : queue[n]? = some t) :
    (nodes queue)[n]? = some ⟨n, t.valid, t.pending⟩ := by
  rw [nodes, List.getElem?_mapIdx, node]
  rfl

/-- One step of the pass, then the rest. -/
theorem Reaches.step {program₀ : TaskId → Resumption TaskId} {n n' : TaskId}
    {q q' : List (Node TaskId)} {c c' : Pass.Control TaskId} (rest : Reaches s' program₀ n' q' c')
    (le : n ≤ n') (first : ∀ program, (∀ i, n ≤ i → program i = program₀ i) → ∀ visits,
      ∃ visits', Pass.step program ⟨q, c, visits⟩ = some ⟨q', c', visits'⟩) :
    Reaches s' program₀ n q c := by
  intro program same visits
  obtain ⟨visits', step⟩ := first program same visits
  obtain ⟨k, p, run, ended⟩ := rest program (fun i ge => same i (Nat.le_trans le ge)) visits'
  exact ⟨1 + k, p, iter_trans (iter_one step) run, ended⟩

theorem Reaches.congr {program program' : TaskId → Resumption TaskId} {q : List (Node TaskId)}
    {c : Pass.Control TaskId} (h : Reaches s' program n q c)
    (same : ∀ i, n ≤ i → program' i = program i) : Reaches s' program' n q c :=
  fun program₁ agrees => h program₁ fun i ge => (agrees i ge).trans (same i ge)

theorem Passes.eq_of_ended (run : s.Passes s') (ended : s.control = .idle ∨ s.control = .terminated) :
    s' = s := by
  cases run with
  | ended control => rfl
  | visit h rest => rcases ended with control | control <;> simp [Machine.step, control] at h
  | exec h rest => rcases ended with control | control <;> simp [Machine.step, control] at h

/-- What is left of the pass is one of `Pass`. -/
def Played (s s' : Machine L V X O) : Prop :=
  match s.control with
  | .pass n => ∃ program, Waits program ∧ Reaches s' program n (nodes s.queue) (.cursor n)
  | .running n _ _ => ∃ r program, r.awaiter ≠ some .multishotAccept ∧ Waits program ∧
    Reaches s' program (n + 1) (nodes s.queue) (.running n r)
  | _ => True

/-- The last step of the pass. -/
theorem reaches_end {q : List (Node TaskId)} {c c' : Pass.Control TaskId}
    {program₀ : TaskId → Resumption TaskId}
    (first : ∀ program, (∀ i, n ≤ i → program i = program₀ i) → ∀ visits,
      ∃ visits', Pass.step program ⟨q, c, visits⟩ = some ⟨nodes s'.queue, c', visits'⟩)
    (control : (s'.control = .idle ∧ c' = .returned) ∨ (s'.control = .terminated ∧ c' = .terminated)) :
    Reaches s' program₀ n q c := by
  intro program same visits
  obtain ⟨visits', step⟩ := first program same visits
  exact ⟨1, _, iter_one step, control, rfl⟩

/-- A node is resumed. -/
theorem played_resume {t : ScheduledTask} {f : FrameId} {body : L} (h : Played s₁ s')
    (node : s.queue[n]? = some t) (valid : t.valid = true) (ready : t.pending = false)
    (control : s.control = .pass n) (running : s₁.control = .running n f body)
    (queue : s₁.queue = s.queue) : Played s s' := by
  simp only [Played, running] at h
  obtain ⟨r, program, other, waits, reaches⟩ := h
  simp only [Played, control]
  refine ⟨Function.update program n r, fun i => ?_, ?_⟩
  · by_cases here : i = n
    · rw [here, Function.update_self]
      exact other
    · rw [Function.update_of_ne here]
      exact waits i
  · have reaches : Reaches s' (Function.update program n r) (n + 1) (nodes s.queue) (.running n r) :=
      queue ▸ reaches.congr fun i ge => Function.update_of_ne (Nat.ne_of_gt ge) ..
    apply reaches.step (Nat.le_succ n)
    intro program' same visits
    have here : program' n = r := (same n (Nat.le_refl n)).trans (Function.update_self ..)
    refine ⟨visits ++ [⟨n, ⟨n, t.valid, t.pending⟩, true⟩], ?_⟩
    simp only [Pass.step, getElem?_nodes node, Node.ready, valid, ready, Bool.not_false, Bool.and_self,
      if_true, here]
    rfl

/-- A resumption comes back to the loop. -/
theorem played_over {f : FrameId} {body : L} {g : ScheduledTask → ScheduledTask}
    {r : Resumption TaskId} {g' : Node TaskId → Node TaskId} (h : Played s₁ s')
    (control : s.control = .running n f body) (next : s₁.control = .pass (n + 1))
    (queue : s₁.queue = s.queue.modify n g)
    (same : ∀ t, ⟨n, (g t).valid, (g t).pending⟩ = g' ⟨n, t.valid, t.pending⟩)
    (other : r.awaiter ≠ some .multishotAccept)
    (back : ∀ program (q : List (Node TaskId)) visits, Pass.step program ⟨q, .running n r, visits⟩ =
      some ⟨q.modify n g', .cursor (n + 1), visits⟩) : Played s s' := by
  simp only [Played, next] at h
  obtain ⟨program, waits, reaches⟩ := h
  rw [queue, nodes_modify same] at reaches
  simp only [Played, control]
  exact ⟨r, program, other, waits,
    reaches.step (Nat.le_refl _) fun program' _ visits => ⟨visits, back program' _ visits⟩⟩

/-- A step that the pass does not show. -/
theorem played_inside {f g : FrameId} {body body' : L} (h : Played s₁ s')
    (control : s.control = .running n f body) (running : s₁.control = .running n g body')
    (queue : s₁.queue = s.queue) : Played s s' := by
  simp only [Played, running, queue] at h
  simpa only [Played, control] using h

theorem played_visit (linked : Linked s) (h : s.step .visit = some s₁) (rest : s₁.Passes s')
    (ih : Played s₁ s') : Played s s' := by
  cases does_of_step linked h with
  | @endPass n control node =>
    obtain rfl := rest.eq_of_ended (.inl rfl)
    simp only [Played, control]
    refine ⟨fun _ => .coReturn, fun i => by simp [Resumption.awaiter], reaches_end ?_ (.inl ⟨rfl, rfl⟩)⟩
    intro program _ visits
    have past : (nodes s.queue)[n]? = none := by rw [nodes, List.getElem?_mapIdx, node]; rfl
    exact ⟨visits, by simp only [Pass.step, past]⟩
  | @skip n t control node skipped =>
    obtain ⟨program, waits, reaches⟩ := ih
    simp only [Played, control]
    refine ⟨program, waits, reaches.step (Nat.le_succ n) fun program' _ visits => ?_⟩
    refine ⟨visits ++ [⟨n, ⟨n, t.valid, t.pending⟩, false⟩], ?_⟩
    have not_ready : ¬ (⟨n, t.valid, t.pending⟩ : Node TaskId).ready = true :=
      fun ready => skipped ((Pass.ready_iff _).mp ready)
    simp only [Pass.step, getElem?_nodes node, if_neg not_ready]
    rfl
  | start control node valid ready awaiting callers frame point =>
    exact played_resume ih node valid ready control rfl rfl
  | goOn control node valid ready callers nodup frame point landed =>
    exact played_resume ih node valid ready control rfl rfl

theorem played_exec {instr : Instr L V X O} (linked : Linked s)
    (h : s.step (.exec instr) = some s₁) (rest : s₁.Passes s') (ih : Played s₁ s') : Played s s' := by
  cases does_of_step linked h with
  | suspend control node executing frame awaiter =>
    apply played_over ih (r := .suspend .uring _) control rfl rfl (fun _ => rfl) _ (fun _ _ _ => rfl)
    simp [Resumption.awaiter]
  | call control node executing frame => exact played_inside ih control rfl rfl
  | @spawn n t f body task k st control node executing =>
    obtain ⟨r, program, other, waits, reaches⟩ := ih
    have reaches : Reaches s' program (n + 1) (nodes (s.emplaceBack task).queue) (.running n r) := reaches
    rw [nodes_emplaceBack] at reaches
    simp only [Played, control]
    exact ⟨.coSpawn s.queue.length r, program, other, waits,
      reaches.step (Nat.le_refl _) fun _ _ visits => ⟨visits, rfl⟩⟩
  | ret control node executing caller => exact played_inside ih control rfl rfl
  | rootReturn control node executing frame =>
    apply played_over ih (r := .coReturn) control rfl rfl (fun _ => rfl) _ (fun _ _ _ => rfl)
    simp [Resumption.awaiter]
  | rootThrow control node executing frame =>
    obtain rfl := rest.eq_of_ended (.inr rfl)
    simp only [Played, control]
    refine ⟨.throw, fun _ => .coReturn, by simp [Resumption.awaiter], fun i => by simp [Resumption.awaiter],
      reaches_end ?_ (.inr ⟨rfl, rfl⟩)⟩
    exact fun _ _ visits => ⟨visits, rfl⟩

theorem played_of_passes (run : s.Passes s') (sane : Sane s) : Played s s' := by
  induction run with
  | ended control => rcases control with control | control <;> simp [Played, control]
  | visit h rest ih =>
    rcases sane with terminated | linked
    · simp [Machine.step, terminated] at h
    · exact played_visit linked h rest (ih (linked_step linked h))
  | exec h rest ih =>
    rcases sane with terminated | linked
    · simp [Machine.step, terminated] at h
    · exact played_exec linked h rest (ih (linked_step linked h))

/-- **A pass of the machine is a pass over its list**, of some program, and does what this one does. -/
theorem completes_of_passes (run : s.Passes s') (sane : Sane s) (control : s.control = .pass 0) :
    ∃ program k p, Waits program ∧
      iter (Pass.step program) k { queue := nodes s.queue } = some p ∧ SameEnd s' p ∧
      Pass.Completes program (nodes s.queue) p := by
  have played := played_of_passes run sane
  simp only [Played, control] at played
  obtain ⟨program, waits, reaches⟩ := played
  obtain ⟨k, p, run, same⟩ := reaches program (fun _ _ => rfl) []
  refine ⟨program, k, p, waits, run, same, ?_⟩
  apply Pass.completes_of_ended (Pass.inv_iter (Pass.inv_start _) run)
  exact same.control.imp And.right And.right

/-- **After a pass every task is finished or pending.** -/
theorem settled_of_passes (run : s.Passes s') (sane : Sane s) (control : s.control = .pass 0)
    (returned : s'.control = .idle) :
    ∀ (n : TaskId) (t : ScheduledTask), s'.queue[n]? = some t → t.valid = false ∨ t.pending = true := by
  intro n t node
  obtain ⟨program, k, p, waits, -, same, completes⟩ := completes_of_passes run sane control
  have p_returned : p.control = .returned := by
    rcases same.control with ⟨-, h⟩ | ⟨terminated, -⟩
    · exact h
    · rw [returned] at terminated
      cases terminated
  obtain ⟨length, -⟩ := completes.all p_returned
  have here : p.queue[n]? = some ⟨n, t.valid, t.pending⟩ := by
    rw [same.queue]
    exact getElem?_nodes node
  obtain ⟨lt, -⟩ := List.getElem?_eq_some_iff.mp here
  have visited : n < p.visits.length := length ▸ lt
  have visit : p.visits[n]? = some p.visits[n] := List.getElem?_eq_getElem visited
  exact completes.settled p_returned n _ _ visit here (waits _)

end CoNet.Async.Machine
