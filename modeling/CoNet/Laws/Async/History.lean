import CoNet.Laws.Async.Invariant

/-!
# What the log says

`History` relates the log to the operations in flight and to the tasks that are no longer valid: an
operation is performed by one task, its completion is handled at most once and wakes that task,
what `await_resume` yields is that completion's result, and a finished task is not resumed. There
is one lemma for each kind of entry; `logged_step` takes them through the events.
-/

set_option autoImplicit false

namespace CoNet.Async

open CoNet.Io

variable {L V X O : Type}

/-- The operation a completion belongs to. -/
def Entry.wokenId : Entry V X O → Option Nat
  | .woken id _ _ _ => some id
  | _ => none

/-- The operations whose completions were handled. -/
def wokenIds (log : List (Entry V X O)) : List Nat := log.filterMap Entry.wokenId

/-- An entry about frames only, or about a new task. -/
def Entry.Quiet : Entry V X O → Prop
  | .queued _ _ | .constructed _ | .movedOut _ | .delivered _ _ => True
  | _ => False

structure History (log : List (Entry V X O)) (nextOp : Nat) (inflight : List (Nat × FrameId))
    (invalid : TaskId → Prop) : Prop where
  performed_lt : ∀ id n arg, .performed id n arg ∈ log → id < nextOp
  performed_once : ∀ id n arg, .performed id n arg ∈ log →
    ∀ m arg', .performed id m arg' ∈ log → m = n
  flight_lt : ∀ id f, (id, f) ∈ inflight → id < nextOp
  flight_once : (inflight.map Prod.fst).Nodup
  flight_landed : ∀ id f, (id, f) ∈ inflight → id ∉ wokenIds log
  woken_once : (wokenIds log).Nodup
  woken_lt : ∀ id ∈ wokenIds log, id < nextOp
  woken_performed : ∀ id n res flags, .woken id n res flags ∈ log → ∃ arg, .performed id n arg ∈ log
  yielded_woken : ∀ id n res flags, .yielded id n res flags ∈ log → .woken id n res flags ∈ log
  finished : ∀ n, invalid n ↔ ∃ root, .finished n root ∈ log
  not_resumed : log.Pairwise fun a b => ∀ n root, a = .finished n root → b ≠ .resumed n

variable {log : List (Entry V X O)} {nextOp id : Nat} {inflight : List (Nat × FrameId)}
  {invalid : TaskId → Prop} {n : TaskId} {f : FrameId}

theorem wokenIds_snoc (entry : Entry V X O) :
    wokenIds (log ++ [entry]) = wokenIds log ++ entry.wokenId.toList := by
  rw [wokenIds, List.filterMap_append]
  cases h : entry.wokenId <;> simp [wokenIds, h]

theorem history_nil (h : ∀ n, ¬ invalid n) : History ([] : List (Entry V X O)) 0 [] invalid := by
  constructor <;> simp [wokenIds, h]

namespace History

theorem quiet (history : History log nextOp inflight invalid) (entry : Entry V X O)
    (h : entry.Quiet) : History (log ++ [entry]) nextOp inflight invalid := by
  obtain ⟨performed_lt, performed_once, flight_lt, flight_once, flight_landed, woken_once, woken_lt,
    woken_performed, yielded_woken, finished, not_resumed⟩ := history
  cases entry with
  | queued | constructed | movedOut | delivered =>
    constructor <;> simpa [wokenIds_snoc, Entry.wokenId, List.pairwise_append]
  | _ => cases h

/-- A task that is valid is resumed. -/
theorem resumed (history : History log nextOp inflight invalid) (valid : ¬ invalid n) :
    History (log ++ [.resumed n]) nextOp inflight invalid := by
  obtain ⟨performed_lt, performed_once, flight_lt, flight_once, flight_landed, woken_once, woken_lt,
    woken_performed, yielded_woken, finished, not_resumed⟩ := history
  have unfinished : ∀ root, .finished n root ∉ log := fun root h => valid ((finished n).mpr ⟨root, h⟩)
  constructor
  case not_resumed =>
    refine List.pairwise_append.mpr ⟨not_resumed, List.pairwise_singleton .., ?_⟩
    intro a ha b hb m root hm
    obtain rfl := List.mem_singleton.mp hb
    rintro ⟨⟩
    exact unfinished root (hm ▸ ha)
  all_goals simpa [wokenIds_snoc, Entry.wokenId]

theorem yielded (history : History log nextOp inflight invalid) {res : Int} {flags : BitVec 32}
    (landed : .woken id n res flags ∈ log) :
    History (log ++ [.yielded id n res flags]) nextOp inflight invalid := by
  obtain ⟨performed_lt, performed_once, flight_lt, flight_once, flight_landed, woken_once, woken_lt,
    woken_performed, yielded_woken, finished, not_resumed⟩ := history
  constructor
  case yielded_woken =>
    intro id' m res' flags' h
    refine List.mem_append_left _ ?_
    rcases List.mem_append.mp h with h | h
    · exact yielded_woken id' m res' flags' h
    · cases List.mem_singleton.mp h
      exact landed
  all_goals simpa [wokenIds_snoc, Entry.wokenId, List.pairwise_append]

/-- A task performs a new operation. -/
theorem performed (history : History log nextOp inflight invalid) (f : FrameId) (arg : O) :
    History (log ++ [.performed nextOp n arg]) (nextOp + 1) (inflight ++ [(nextOp, f)]) invalid := by
  have hwoken : wokenIds (log ++ [.performed nextOp n arg]) = wokenIds log := by
    simp [wokenIds_snoc, Entry.wokenId]
  have old : ∀ id m arg', .performed id m arg' ∈ log ++ [.performed nextOp n arg] →
      .performed id m arg' ∈ log ∨ (id = nextOp ∧ m = n) := by
    intro id m arg' h
    rcases List.mem_append.mp h with h | h
    · exact .inl h
    · cases List.mem_singleton.mp h
      exact .inr ⟨rfl, rfl⟩
  have flying : ∀ id g, (id, g) ∈ inflight ++ [(nextOp, f)] → (id, g) ∈ inflight ∨ id = nextOp := by
    intro id g h
    rcases List.mem_append.mp h with h | h
    · exact .inl h
    · cases List.mem_singleton.mp h
      exact .inr rfl
  constructor
  case performed_lt =>
    intro id m arg' h
    rcases old id m arg' h with h | ⟨rfl, -⟩
    · exact Nat.lt_succ_of_lt (history.performed_lt id m arg' h)
    · exact Nat.lt_succ_self _
  case performed_once =>
    intro id m arg' h m' arg'' h'
    rcases old id m arg' h with hold | ⟨hid, rfl⟩
    · have lt := history.performed_lt id m arg' hold
      rcases old id m' arg'' h' with hold' | ⟨hid, -⟩
      · exact history.performed_once id m arg' hold m' arg'' hold'
      · exact absurd hid (Nat.ne_of_lt lt)
    · rcases old id m' arg'' h' with hold' | ⟨-, hm⟩
      · exact absurd hid (Nat.ne_of_lt (history.performed_lt id m' arg'' hold'))
      · exact hm
  case flight_lt =>
    intro id g h
    rcases flying id g h with h | rfl
    · exact Nat.lt_succ_of_lt (history.flight_lt id g h)
    · exact Nat.lt_succ_self _
  case flight_once =>
    rw [List.map_append, List.nodup_append]
    refine ⟨history.flight_once, List.nodup_singleton _, fun a ha b hb => ?_⟩
    obtain ⟨⟨id, g⟩, h, rfl⟩ := List.mem_map.mp ha
    obtain rfl := List.mem_singleton.mp hb
    exact Nat.ne_of_lt (history.flight_lt id g h)
  case flight_landed =>
    intro id g h
    rw [hwoken]
    rcases flying id g h with h | rfl
    · exact history.flight_landed id g h
    · exact fun h => Nat.lt_irrefl _ (history.woken_lt _ h)
  case woken_once =>
    rw [hwoken]
    exact history.woken_once
  case woken_lt =>
    rw [hwoken]
    exact fun id h => Nat.lt_succ_of_lt (history.woken_lt id h)
  case woken_performed =>
    intro id m res flags h
    have h : .woken id m res flags ∈ log := by simpa using h
    obtain ⟨arg', h⟩ := history.woken_performed id m res flags h
    exact ⟨arg', List.mem_append_left _ h⟩
  case yielded_woken => simpa using history.yielded_woken
  case finished => simpa using history.finished
  case not_resumed =>
    refine List.pairwise_append.mpr ⟨history.not_resumed, List.pairwise_singleton .., ?_⟩
    intro a _ b hb m root _
    obtain rfl := List.mem_singleton.mp hb
    simp

/-- The completion of an operation in flight is handled. -/
theorem woken (history : History log nextOp inflight invalid) {arg : O} (res : Int)
    (flags : BitVec 32) (flying : (id, f) ∈ inflight) (issued : .performed id n arg ∈ log) :
    History (log ++ [.woken id n res flags]) nextOp (inflight.erase (id, f)) invalid := by
  have hwoken : wokenIds (log ++ [.woken id n res flags]) = wokenIds log ++ [id] := by
    simp [wokenIds_snoc, Entry.wokenId]
  have erased : (inflight.erase (id, f)).Sublist inflight := List.erase_sublist
  have hother : ∀ id' g, (id', g) ∈ inflight.erase (id, f) → id' ≠ id := by
    rintro id' g h rfl
    have nodup := history.flight_once.of_map
    obtain ⟨hne, h⟩ := nodup.mem_erase_iff.mp h
    exact hne (List.inj_on_of_nodup_map history.flight_once h flying rfl)
  constructor
  case performed_lt => simpa using history.performed_lt
  case performed_once => simpa using history.performed_once
  case flight_lt => exact fun id' g h => history.flight_lt id' g (erased.subset h)
  case flight_once => exact history.flight_once.sublist (erased.map _)
  case flight_landed =>
    intro id' g h
    rw [hwoken, List.mem_append, List.mem_singleton, not_or]
    exact ⟨history.flight_landed id' g (erased.subset h), hother id' g h⟩
  case woken_once =>
    rw [hwoken, List.nodup_append]
    refine ⟨history.woken_once, List.nodup_singleton _, fun a ha b hb => ?_⟩
    obtain rfl := List.mem_singleton.mp hb
    rintro rfl
    exact history.flight_landed a f flying ha
  case woken_lt =>
    intro id' h
    rw [hwoken, List.mem_append, List.mem_singleton] at h
    rcases h with h | rfl
    · exact history.woken_lt id' h
    · exact history.flight_lt _ f flying
  case woken_performed =>
    intro id' m res' flags' h
    rcases List.mem_append.mp h with h | h
    · obtain ⟨arg', h⟩ := history.woken_performed id' m res' flags' h
      exact ⟨arg', List.mem_append_left _ h⟩
    · cases List.mem_singleton.mp h
      exact ⟨arg, List.mem_append_left _ issued⟩
  case yielded_woken =>
    intro id' m res' flags' h
    have h : .yielded id' m res' flags' ∈ log := by simpa using h
    exact List.mem_append_left _ (history.yielded_woken id' m res' flags' h)
  case finished => simpa using history.finished
  case not_resumed =>
    refine List.pairwise_append.mpr ⟨history.not_resumed, List.pairwise_singleton .., ?_⟩
    intro a _ b hb m root _
    obtain rfl := List.mem_singleton.mp hb
    simp

/-- A task has finished. -/
theorem finish (history : History log nextOp inflight invalid) {invalid' : TaskId → Prop}
    (root : FrameId) (h : ∀ m, invalid' m ↔ invalid m ∨ m = n) :
    History (log ++ [.finished n root]) nextOp inflight invalid' := by
  obtain ⟨performed_lt, performed_once, flight_lt, flight_once, flight_landed, woken_once, woken_lt,
    woken_performed, yielded_woken, finished, not_resumed⟩ := history
  constructor
  case finished =>
    intro m
    rw [h, finished]
    simp only [List.mem_append, List.mem_singleton, Entry.finished.injEq, exists_or,
      exists_and_left, exists_eq, and_true]
  all_goals simpa [wokenIds_snoc, Entry.wokenId, List.pairwise_append]

theorem congr (history : History log nextOp inflight invalid) {invalid' : TaskId → Prop}
    (h : ∀ m, invalid' m ↔ invalid m) : History log nextOp inflight invalid' := by
  have : invalid' = invalid := funext fun m => propext (h m)
  rwa [this]

end History

/-! ## Along the events -/

namespace Machine

variable {s s' : Machine L V X O} {e : Event L V X O} {t : ScheduledTask}

/-- A task that was queued and is no longer valid. -/
def Invalid (s : Machine L V X O) (n : TaskId) : Prop :=
  ∃ t, s.queue[n]? = some t ∧ t.valid = false

/-- The log is a history of what is in flight and of the tasks that are no longer valid. -/
def Logged (s : Machine L V X O) : Prop := History s.log s.nextOp s.inflight s.Invalid

theorem logged_init : Logged ({} : Machine L V X O) :=
  history_nil fun n ⟨t, h, _⟩ => absurd h (by simp)

theorem not_invalid (node : s.queue[n]? = some t) (valid : t.valid = true) : ¬ s.Invalid n := by
  rintro ⟨u, node', invalid⟩
  obtain rfl := Option.some.inj (node.symm.trans node')
  exact absurd (invalid.symm.trans valid) (by simp)

/-- A new task is valid. -/
theorem invalid_emplaceBack (body : L) (m : TaskId) : (s.emplaceBack body).Invalid m ↔ s.Invalid m := by
  simp only [Invalid, emplaceBack, List.getElem?_append]
  split
  · exact Iff.rfl
  · rename_i hlt
    refine iff_of_false ?_ ?_
    · rintro ⟨u, node, invalid⟩
      rw [List.getElem?_singleton] at node
      split at node
      · cases node
        cases invalid
      · cases node
    · rintro ⟨u, node, -⟩
      rw [List.getElem?_eq_none (Nat.not_lt.mp hlt)] at node
      cases node

/-- A change of a node that keeps `valid_`. -/
theorem invalid_modifyTask {g : ScheduledTask → ScheduledTask} (keep : ∀ u, (g u).valid = u.valid)
    (m : TaskId) : (s.modifyTask n g).Invalid m ↔ s.Invalid m := by
  by_cases h : m = n
  · subst h
    simp [Invalid, modifyTask, keep]
  · simp [Invalid, modifyTask_other h]

/-- A task that finishes. -/
theorem invalid_finish (node : s.queue[n]? = some t) (m : TaskId) :
    (s.modifyTask n ({ · with valid := false })).Invalid m ↔ s.Invalid m ∨ m = n := by
  by_cases h : m = n
  · subst h
    exact iff_of_true ⟨_, modifyTask_self node _, rfl⟩ (.inr rfl)
  · simp [Invalid, modifyTask_other h, h]

theorem logged_of_does (logged : s.Logged) (does : Does s e s') : s'.Logged := by
  cases does with
  | enqueue control =>
    exact (logged.congr (invalid_emplaceBack _)).quiet _ trivial
  | startPass control => exact logged
  | endPass control node => exact logged
  | skip control node skipped => exact logged
  | @start n t body fr control node valid =>
    exact History.resumed logged (not_invalid node valid)
  | @goOn n t id token k st fr control node valid ready callers nodup frame point landed =>
    have resumed := History.resumed logged (not_invalid node valid)
    have yielded := resumed.yielded (List.mem_append_left _ landed)
    rwa [List.append_assoc] at yielded
  | @suspend n t f body fr st op arg k control node executing frame awaiter =>
    have queue := invalid_modifyTask (s := s) (n := n)
      (g := ({ · with awaitingHandle := f, pending := true })) fun _ => rfl
    exact (logged.congr queue).performed f arg
  | call control node executing frame => exact logged
  | @spawn n t f body task k st control node executing =>
    exact (logged.congr (invalid_emplaceBack task)).quiet _ trivial
  | @ret n t f g body gr st k out control node executing caller =>
    have constructed : History (s.log ++ [.constructed f]) s.nextOp s.inflight s.Invalid :=
      History.quiet logged _ trivial
    cases out with
    | value v =>
      have movedOut := constructed.quiet (.movedOut f) trivial
      have delivered := movedOut.quiet (.delivered f (.value v)) trivial
      rwa [List.append_assoc, List.append_assoc] at delivered
    | thrown x => exact History.quiet logged _ trivial
  | @rootReturn n t body fr v control node executing frame =>
    have constructed : History (s.log ++ [.constructed t.task]) s.nextOp s.inflight s.Invalid :=
      History.quiet logged _ trivial
    have finished := constructed.finish t.task (invalid_finish node)
    rwa [List.append_assoc] at finished
  | rootThrow control node executing frame => exact logged
  | @complete n t id f fr token k res flags control flying node pending awaiting frame point named
      issued =>
    obtain ⟨arg, issued⟩ := issued
    have queue := invalid_modifyTask (s := s) (n := n) (g := ({ · with pending := false })) fun _ => rfl
    exact (logged.congr queue).woken res flags flying issued

theorem logged_step (sane : Sane s) (logged : s.Logged) (h : s.step e = some s') : s'.Logged := by
  rcases sane with terminated | linked
  · cases e <;> simp only [step, terminated, reduceCtorEq] at h
  · exact logged_of_does logged (does_of_step linked h)

end Machine

end CoNet.Async
