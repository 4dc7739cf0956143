import CoNet.Async.Pass
import Mathlib.Logic.Hydra

/-!
# What a pass resumes

A pass goes through a list that grows at its end. `Inv` says what it is like on the way: the nodes before
the cursor are as their visits have left them, the nodes from it on are as they were queued or spawned,
and nothing else is in the list. A visit takes one node off the part that is still to come and adds what
this one spawns, so with a well-founded spawn relation the pass comes to an end (`pass_ends`): the
multiset of tasks still to come goes down in the order of `Relation.CutExpand`.
-/

set_option autoImplicit false

namespace CoNet.Async

open Steps

variable {L : Type} {program : L → Resumption L}

/-! ## What one resumption does -/

namespace Resumption

/-- The tasks it spawns, in order. -/
def spawned : Resumption L → List L
  | coSpawn task rest => task :: rest.spawned
  | _ => []

/-- The node when it is over. -/
def settle : Resumption L → Node L → Node L
  | coSpawn _ rest, t => rest.settle t
  | suspend awaiter next, t => t.suspend awaiter next
  | coReturn, t => { t with valid := false }
  | throw, t => t

/-- An exception leaves the root coroutine. -/
def throws : Resumption L → Bool
  | coSpawn _ rest => rest.throws
  | throw => true
  | _ => false

/-- What the chain is suspended at when it is over. -/
def awaiter : Resumption L → Option Awaiter
  | coSpawn _ rest => rest.awaiter
  | suspend awaiter _ => some awaiter
  | _ => none

/-- A task that is through with it is finished or pending, unless it was set going to accept
connections. -/
theorem settle_settled (r : Resumption L) (t : Node L) (survives : r.throws = false)
    (other : r.awaiter ≠ some .multishotAccept) :
    (r.settle t).valid = false ∨ (r.settle t).pending = true := by
  induction r with
  | coSpawn task rest ih => exact ih survives other
  | suspend awaiter next =>
    refine .inr ?_
    cases awaiter with
    | multishotAccept => exact absurd rfl other
    | _ => rfl
  | coReturn => exact .inl rfl
  | throw => cases survives

end Resumption

/-- The task of one resumption spawns the other. -/
def Spawns (program : L → Resumption L) (task' task : L) : Prop := task' ∈ (program task).spawned

namespace Visit

/-- What the visit adds to the list. -/
def spawned (program : L → Resumption L) (v : Visit L) : List (Node L) :=
  if v.resumed then (program v.node.task).spawned.map Node.ofTask else []

/-- The node after the visit. -/
def left (program : L → Resumption L) (v : Visit L) : Node L :=
  if v.resumed then (program v.node.task).settle v.node else v.node

/-- The visit ends in `std::terminate`. -/
def Throws (program : L → Resumption L) (v : Visit L) : Prop :=
  v.resumed = true ∧ (program v.node.task).throws = true

end Visit

namespace Pass

variable {queue : List (Node L)} {s s' : Pass L} {v : Visit L} {visits : List (Visit L)} {n : Nat}

/-! ## On the way -/

/-- The list once the running resumption is over. -/
def ahead (s : Pass L) : List (Node L) :=
  match s.control with
  | .running n rest => (s.queue ++ rest.spawned.map Node.ofTask).modify n rest.settle
  | _ => s.queue

/-- The visits up to here agree with the control: only the last one may throw. -/
def Agrees (program : L → Resumption L) (s : Pass L) : Prop :=
  match s.control with
  | .cursor n => s.visits.length = n ∧ ∀ v ∈ s.visits, ¬ v.Throws program
  | .running n rest => ∃ earlier v, s.visits = earlier ++ [v] ∧ earlier.length = n ∧
    n < s.queue.length ∧ v.resumed = true ∧ rest.throws = (program v.node.task).throws ∧
    ∀ v ∈ earlier, ¬ v.Throws program
  | .returned => s.visits.length = s.queue.length ∧ ∀ v ∈ s.visits, ¬ v.Throws program
  | .terminated => ∃ v ∈ s.visits, v.Throws program

/-- What holds on the way through the list. -/
structure Inv (program : L → Resumption L) (queue : List (Node L)) (s : Pass L) : Prop where
  places : s.visits.map (·.place) = List.range s.visits.length
  resumed : ∀ v ∈ s.visits, v.resumed = v.node.ready
  /-- the nodes still to come -/
  rest : ∃ rest, s.ahead = s.visits.map (·.left program) ++ rest ∧
    s.visits.map (·.node) ++ rest = queue ++ s.visits.flatMap (·.spawned program)
  agrees : Agrees program s

theorem inv_start (queue : List (Node L)) : Inv program queue { queue } where
  places := rfl
  resumed v mem := absurd mem List.not_mem_nil
  rest := ⟨queue, rfl, by simp⟩
  agrees := ⟨rfl, fun v mem => absurd mem List.not_mem_nil⟩

/-- A node that is visited: it is off the part to come, and what it spawns is on it. -/
theorem visited {rest : List (Node L)} {q q' : List (Node L)} {g : Node L → Node L}
    (split : q = visits.map (·.left program) ++ rest)
    (reached : visits.map (·.node) ++ rest = queue ++ visits.flatMap (·.spawned program))
    (node : q[visits.length]? = some v.node) (left : g v.node = v.left program)
    (ahead : q' = (q ++ v.spawned program).modify visits.length g) :
    ∃ rest', q' = (visits ++ [v]).map (·.left program) ++ rest' ∧
      (visits ++ [v]).map (·.node) ++ rest' =
        queue ++ (visits ++ [v]).flatMap (·.spawned program) := by
  have head : rest[0]? = some v.node := by
    rw [← node, split, List.getElem?_append_right (by simp)]
    simp
  obtain ⟨tail, rfl⟩ : ∃ tail, rest = v.node :: tail := by
    cases rest with
    | nil => cases head
    | cons first tail =>
      cases head
      exact ⟨tail, rfl⟩
  refine ⟨tail ++ v.spawned program, ?_, ?_⟩
  · have length : (visits.map (·.left program)).length = visits.length := List.length_map _
    rw [ahead, split, List.append_assoc, List.modify_eq_take_drop, List.take_left' length,
      List.drop_left' length, List.cons_append, List.modifyHead_cons, left]
    simp
  · rw [List.map_append, List.map_singleton, List.flatMap_append, List.flatMap_singleton,
      ← List.append_assoc queue, ← reached]
    simp

theorem places_visit (h : visits.map (·.place) = List.range visits.length)
    (place : v.place = visits.length) :
    (visits ++ [v]).map (·.place) = List.range (visits ++ [v]).length := by
  rw [List.map_append, List.map_singleton, h, place, List.length_append, List.length_singleton,
    List.range_succ]

theorem forall_visit {p : Visit L → Prop} (h : ∀ v ∈ visits, p v) (last : p v) :
    ∀ u ∈ visits ++ [v], p u := by
  intro u mem
  rcases List.mem_append.mp mem with before | mem
  · exact h u before
  · exact List.mem_singleton.mp mem ▸ last

/-- The resumption comes back to the loop. -/
theorem agrees_cursor {earlier : List (Visit L)} {queue : List (Node L)}
    (quiet : ∀ v ∈ earlier, ¬ v.Throws program) (survives : (program v.node.task).throws = false) :
    Agrees program ⟨queue, .cursor (earlier.length + 1), earlier ++ [v]⟩ := by
  refine ⟨List.length_append, forall_visit quiet fun throws => ?_⟩
  rw [throws.2] at survives
  cases survives

theorem inv_cursor {q : List (Node L)} (inv : Inv program queue ⟨q, .cursor n, visits⟩)
    (h : step program ⟨q, .cursor n, visits⟩ = some s') : Inv program queue s' := by
  obtain ⟨places, resumed, ⟨rest, split, reached⟩, length, quiet⟩ := inv
  obtain rfl : visits.length = n := length
  have split : q = visits.map (·.left program) ++ rest := split
  simp only [step] at h
  cases node : q[visits.length]? with
  | none =>
    rw [node] at h
    cases h
    refine ⟨places, resumed, ⟨rest, split, reached⟩, ?_, quiet⟩
    have le : q.length ≤ visits.length := List.getElem?_eq_none_iff.mp node
    have ge : q.length = visits.length + rest.length := by
      rw [split, List.length_append, List.length_map]
    show visits.length = q.length
    omega
  | some t =>
    simp only [node] at h
    have lt : visits.length < q.length := (List.getElem?_eq_some_iff.mp node).1
    by_cases ready : t.ready = true
    · rw [if_pos ready] at h
      cases h
      exact {
        places := places_visit places rfl
        resumed := forall_visit resumed ready.symm
        rest := visited (v := ⟨visits.length, t, true⟩) (g := (program t.task).settle) split reached
          node rfl rfl
        agrees := ⟨visits, _, rfl, rfl, lt, rfl, rfl, quiet⟩ }
    · rw [if_neg ready] at h
      cases h
      have skipped : q = (q ++ []).modify visits.length id := by
        rw [List.append_nil, List.modify_id]
      exact {
        places := places_visit places rfl
        resumed := forall_visit resumed (Bool.eq_false_of_not_eq_true ready).symm
        rest := visited (v := ⟨visits.length, t, false⟩) (g := id) split reached node rfl skipped
        agrees := ⟨List.length_append, forall_visit quiet fun throws => by cases throws.1⟩ }

/-- A resumption that spawns nothing any more has its end ahead. -/
theorem ahead_last {q : List (Node L)} {r : Resumption L} (last : r.spawned = []) :
    ahead ⟨q, .running n r, visits⟩ = q.modify n r.settle := by
  show (q ++ r.spawned.map Node.ofTask).modify n r.settle = _
  rw [last, List.map_nil, List.append_nil]

theorem inv_running {q : List (Node L)} {r : Resumption L}
    (inv : Inv program queue ⟨q, .running n r, visits⟩)
    (h : step program ⟨q, .running n r, visits⟩ = some s') : Inv program queue s' := by
  obtain ⟨places, resumed, ⟨rest, split, reached⟩, earlier, v, rfl, rfl, lt, again, throws, quiet⟩ :=
    inv
  cases r with
  | coSpawn task r =>
    cases h
    have spawned : ahead ⟨q ++ [.ofTask task], .running earlier.length r, earlier ++ [v]⟩ =
        ahead ⟨q, .running earlier.length (.coSpawn task r), earlier ++ [v]⟩ := by
      simp [ahead, Resumption.spawned, Resumption.settle]
    have lt : earlier.length < (q ++ [Node.ofTask task]).length := by
      rw [List.length_append]
      exact Nat.lt_add_right _ lt
    exact ⟨places, resumed, ⟨rest, spawned.trans split, reached⟩, earlier, v, rfl, rfl, lt, again,
      throws, quiet⟩
  | suspend awaiter next =>
    cases h
    have finished := (ahead_last rfl).symm.trans split
    exact ⟨places, resumed, ⟨rest, finished, reached⟩, agrees_cursor quiet throws.symm⟩
  | coReturn =>
    cases h
    have finished := (ahead_last rfl).symm.trans split
    exact ⟨places, resumed, ⟨rest, finished, reached⟩, agrees_cursor quiet throws.symm⟩
  | throw =>
    cases h
    have finished := (ahead_last rfl).symm.trans split
    have same : q.modify earlier.length Resumption.throw.settle = q := List.modify_id _ _
    exact ⟨places, resumed, ⟨rest, same.symm.trans finished, reached⟩, v,
      List.mem_append_right _ (List.mem_singleton_self v), again, throws.symm⟩

theorem inv_step (inv : Inv program queue s) (h : step program s = some s') :
    Inv program queue s' := by
  obtain ⟨q, control, visits⟩ := s
  cases control with
  | cursor n => exact inv_cursor inv h
  | running n r => exact inv_running inv h
  | returned => cases h
  | terminated => cases h

theorem inv_iter {k : Nat} (inv : Inv program queue s)
    (h : iter (step program) k s = some s') : Inv program queue s' := by
  have keeps := iter_induct (fun s s' => Inv program queue s → Inv program queue s') (fun _ => id)
    (fun _ _ _ first rest inv => rest (inv_step inv first)) h
  exact keeps inv

/-! ## The pass comes to an end -/

/-- The tasks from a node of the list on. -/
def toCome (q : List (Node L)) (n : Nat) : List L := (q.drop n).map (·.task)

theorem toCome_spawned {q : List (Node L)} (lt : n < q.length) (task : L) :
    toCome (q ++ [.ofTask task]) (n + 1) = toCome q (n + 1) ++ [task] := by
  have ge : n + 1 - q.length = 0 := by omega
  simp [toCome, List.drop_append, ge, Node.ofTask]

theorem toCome_modify (q : List (Node L)) (g : Node L → Node L) :
    toCome (q.modify n g) (n + 1) = toCome q (n + 1) := by
  unfold toCome
  congr 1
  ext i : 1
  have ne : n ≠ n + 1 + i := by omega
  rw [List.getElem?_drop, List.getElem?_drop, List.getElem?_modify]
  simp only [if_neg ne, id_map']

/-- A resumption comes to its end, with the tasks that it has spawned at the end of the list. -/
theorem resumption_ends (r : Resumption L) {q : List (Node L)} (lt : n < q.length) :
    ∃ k s', iter (step program) k ⟨q, .running n r, visits⟩ = some s' ∧
      (s'.control = .terminated ∨
        s'.control = .cursor (n + 1) ∧ toCome s'.queue (n + 1) = toCome q (n + 1) ++ r.spawned) := by
  induction r generalizing q with
  | coSpawn task rest ih =>
    have lt' : n < (q ++ [Node.ofTask task]).length := by
      rw [List.length_append]
      omega
    obtain ⟨k, s', run, ended⟩ := ih lt'
    refine ⟨1 + k, s', iter_trans (iter_one rfl) run, ended.imp_right ?_⟩
    rintro ⟨cursor, come⟩
    refine ⟨cursor, come.trans ?_⟩
    rw [toCome_spawned lt, List.append_assoc]
    rfl
  | suspend awaiter next =>
    refine ⟨1, _, iter_one rfl, .inr ⟨rfl, ?_⟩⟩
    exact (toCome_modify q _).trans (List.append_nil _).symm
  | coReturn =>
    refine ⟨1, _, iter_one rfl, .inr ⟨rfl, ?_⟩⟩
    exact (toCome_modify q _).trans (List.append_nil _).symm
  | throw => exact ⟨1, _, iter_one rfl, .inl rfl⟩

/-- The multiset of the tasks to come goes down: one is taken off it, and the tasks that it spawns are
added. -/
theorem cutExpand_visit {task : L} {rest come spawned : List L} (visited : come = task :: rest)
    (spawns : ∀ task' ∈ spawned, Spawns program task' task) :
    Relation.CutExpand (Spawns program) (rest ++ spawned : List L) (come : List L) := by
  refine ⟨spawned, task, fun task' mem => spawns task' (Multiset.mem_coe.mp mem), ?_⟩
  rw [visited, ← Multiset.cons_coe, ← Multiset.coe_add, ← Multiset.singleton_add, add_comm,
    ← add_assoc]

/-- **A pass comes to an end**, by induction on the multiset of the tasks to come. -/
theorem pass_ends (wf : WellFounded (Spawns program)) (control : s.control = .cursor n) :
    ∃ k s', iter (step program) k s = some s' ∧
      (s'.control = .returned ∨ s'.control = .terminated) := by
  induction come : (toCome s.queue n : Multiset L) using wf.cutExpand.induction generalizing s n with
  | _ m ih =>
    subst come
    obtain ⟨q, c, visits⟩ := s
    obtain rfl : c = .cursor n := control
    cases node : q[n]? with
    | none =>
      refine ⟨1, ⟨q, .returned, visits⟩, iter_one ?_, .inl rfl⟩
      simp only [step, node]
    | some t =>
      obtain ⟨lt, here⟩ := List.getElem?_eq_some_iff.mp node
      have visited : toCome q n = t.task :: toCome q (n + 1) := by
        rw [toCome, List.drop_eq_getElem_cons lt, here]
        rfl
      by_cases ready : t.ready = true
      · have first : step program ⟨q, .cursor n, visits⟩ =
            some ⟨q, .running n (program t.task), visits ++ [⟨n, t, true⟩]⟩ := by
          simp only [step, node, if_pos ready, visit]
        have less : Relation.CutExpand (Spawns program)
            (toCome q (n + 1) ++ (program t.task).spawned : List L) (toCome q n : List L) :=
          cutExpand_visit visited fun _ mem => mem
        obtain ⟨k, ⟨q₁, c₁, visits₁⟩, run, ended⟩ := resumption_ends (program t.task) lt
        rcases ended with ended | ⟨cursor, come⟩
        · exact ⟨1 + k, _, iter_trans (iter_one first) run, .inr ended⟩
        · obtain ⟨k', s', run', ended⟩ := ih _ less cursor (congrArg _ come)
          exact ⟨1 + (k + k'), s', iter_trans (iter_one first) (iter_trans run run'), ended⟩
      · have first : step program ⟨q, .cursor n, visits⟩ =
            some ⟨q, .cursor (n + 1), visits ++ [⟨n, t, false⟩]⟩ := by
          simp only [step, node, if_neg ready, visit]
        have less : Relation.CutExpand (Spawns program) (toCome q (n + 1) ++ [] : List L)
            (toCome q n : List L) := cutExpand_visit visited fun _ mem => absurd mem List.not_mem_nil
        rw [List.append_nil] at less
        obtain ⟨k, s', run, ended⟩ :=
          ih _ less (s := ⟨q, .cursor (n + 1), visits ++ [⟨n, t, false⟩]⟩) rfl rfl
        exact ⟨1 + k, s', iter_trans (iter_one first) run, ended⟩

/-! ## A pass that has ended -/

/-- What a pass over `queue` has done when it has ended. -/
structure Completes (program : L → Resumption L) (queue : List (Node L)) (s : Pass L) : Prop where
  ended : s.control = .returned ∨ s.control = .terminated
  terminated_iff : s.control = .terminated ↔ ∃ v ∈ s.visits, v.Throws program
  /-- The nodes are visited in the order of the list, each once. -/
  places : s.visits.map (·.place) = List.range s.visits.length
  /-- A node is found as it was when the pass began, or as `co_spawn` made it. -/
  found : s.visits.map (·.node) <+: queue ++ s.visits.flatMap (·.spawned program)
  resumed : ∀ v ∈ s.visits, v.resumed = true ↔ v.node.valid = true ∧ v.node.pending = false
  /-- None is left out. -/
  all : s.control = .returned → s.visits.length = s.queue.length ∧
    s.visits.map (·.node) = queue ++ s.visits.flatMap (·.spawned program)
  /-- Everything is finished or pending then, but for what accepts connections. -/
  settled : s.control = .returned → ∀ (n : Nat) (v : Visit L) (t : Node L),
    s.visits[n]? = some v → s.queue[n]? = some t →
    (program v.node.task).awaiter ≠ some .multishotAccept → t.valid = false ∨ t.pending = true

theorem ready_iff (t : Node L) : t.ready = true ↔ t.valid = true ∧ t.pending = false := by
  simp [Node.ready]

/-- A node that was skipped, or whose resumption is over. -/
theorem left_settled (v : Visit L) (resumed : v.resumed = v.node.ready) (quiet : ¬ v.Throws program)
    (other : (program v.node.task).awaiter ≠ some .multishotAccept) :
    (v.left program).valid = false ∨ (v.left program).pending = true := by
  unfold Visit.left
  by_cases h : v.resumed = true
  · rw [if_pos h]
    apply Resumption.settle_settled _ _ _ other
    exact Bool.eq_false_of_not_eq_true fun throws => quiet ⟨h, throws⟩
  · rw [if_neg h]
    rw [resumed, ready_iff] at h
    simpa [or_iff_not_imp_left] using h

theorem completes_of_returned (inv : Inv program queue s) (control : s.control = .returned) :
    Completes program queue s := by
  obtain ⟨q, c, visits⟩ := s
  obtain rfl : c = .returned := control
  obtain ⟨places, resumed, ⟨rest, split, reached⟩, length, quiet⟩ := inv
  have split : q = visits.map (·.left program) ++ rest := split
  obtain rfl : rest = [] := by
    have eq := congrArg List.length split
    rw [List.length_append, List.length_map] at eq
    have length : visits.length = q.length := length
    exact List.length_eq_zero_iff.mp (by omega)
  rw [List.append_nil] at split reached
  exact {
    ended := .inl rfl
    terminated_iff := by
      constructor
      · intro h
        cases h
      · rintro ⟨v, mem, throws⟩
        exact absurd throws (quiet v mem)
    places
    found := reached ▸ List.prefix_refl _
    resumed := fun v mem => by rw [resumed v mem, ready_iff]
    all := fun _ => ⟨length, reached⟩
    settled := by
      intro _ n v t visit node other
      have here : q[n]? = some (v.left program) := by
        rw [split, List.getElem?_map, visit]
        rfl
      obtain rfl := Option.some.inj (here.symm.trans node)
      have mem := List.mem_of_getElem? visit
      exact left_settled v (resumed v mem) (quiet v mem) other }

theorem completes_of_terminated (inv : Inv program queue s) (control : s.control = .terminated) :
    Completes program queue s := by
  obtain ⟨q, c, visits⟩ := s
  obtain rfl : c = .terminated := control
  obtain ⟨places, resumed, ⟨rest, split, reached⟩, throws⟩ := inv
  exact {
    ended := .inr rfl
    terminated_iff := ⟨fun _ => throws, fun _ => rfl⟩
    places
    found := ⟨rest, reached⟩
    resumed := fun v mem => by rw [resumed v mem, ready_iff]
    all := fun h => by cases h
    settled := fun h => by cases h }

theorem completes_of_ended (inv : Inv program queue s)
    (ended : s.control = .returned ∨ s.control = .terminated) : Completes program queue s := by
  rcases ended with control | control
  · exact completes_of_returned inv control
  · exact completes_of_terminated inv control

/-- **Every pass over every list comes to an end**, and has then resumed what it should. -/
theorem run_completes (program : L → Resumption L) (wf : WellFounded (Spawns program))
    (queue : List (Node L)) :
    ∃ k s, iter (step program) k { queue } = some s ∧ step program s = none ∧
      Completes program queue s := by
  obtain ⟨k, s, run, ended⟩ := pass_ends (s := { queue }) wf rfl
  refine ⟨k, s, run, ?_, completes_of_ended (inv_iter (inv_start queue) run) ended⟩
  rcases ended with control | control <;> simp only [step, control]

/-- Task `n + 1` spawns task `n` twice and awaits an operation; task 0 returns. -/
def spawnsTwice : Nat → Resumption Nat
  | 0 => .coReturn
  | n + 1 => .coSpawn n (.coSpawn n (.suspend .uring 0))

theorem run_completes_spawnsTwice :
    ∃ k s, iter (step spawnsTwice) k { queue := [.ofTask 2, { task := 5, pending := true }] } = some s ∧
      step spawnsTwice s = none ∧
      Completes spawnsTwice [.ofTask 2, { task := 5, pending := true }] s := by
  apply run_completes
  apply Subrelation.wf _ Nat.lt_wfRel.wf
  intro task' task spawns
  cases task with
  | zero => cases spawns
  | succ n =>
    have eq : task' = n := by simpa [Spawns, spawnsTwice, Resumption.spawned] using spawns
    exact eq ▸ Nat.lt_succ_self n

end Pass

end CoNet.Async
