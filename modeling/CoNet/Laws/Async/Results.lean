import CoNet.Laws.Async.Invariant

/-!
# The results of coroutines

`Once` says what the log has about a coroutine whose outcome was delivered: a returned value is
constructed, moved out and delivered, each once and in this order; an exception is delivered, and
there is no value. `Accounted` is the invariant: a frame whose body has not ended has no entries.
-/

set_option autoImplicit false

namespace CoNet.Async

variable {L V X O : Type}

/-- The entry is about the result of this frame. -/
def Entry.about (f : FrameId) : Entry V X O → Bool
  | .constructed g | .movedOut g | .delivered g _ => g == f
  | _ => false

/-- The entries about a frame's result, in order. -/
def entriesOf (f : FrameId) (log : List (Entry V X O)) : List (Entry V X O) :=
  log.filter (·.about f)

structure Once (log : List (Entry V X O)) : Prop where
  value : ∀ f v, .delivered f (.value v) ∈ log →
    entriesOf f log = [.constructed f, .movedOut f, .delivered f (.value v)]
  thrown : ∀ f x, .delivered f (.thrown x) ∈ log → entriesOf f log = [.delivered f (.thrown x)]

@[simp] theorem entriesOf_append {f : FrameId} {log entries : List (Entry V X O)} :
    entriesOf f (log ++ entries) = entriesOf f log ++ entriesOf f entries :=
  List.filter_append ..

@[simp] theorem entriesOf_nil {f : FrameId} : entriesOf f ([] : List (Entry V X O)) = [] := rfl

namespace Machine

/-- What a coroutine that ended leaves in the log: a root's value stays in its promise. -/
inductive Ended (f : FrameId) : List (Entry V X O) → Prop where
  | root : Ended f [.constructed f]
  | delivered (out : Outcome V X) : Ended f (endEntries f out)

/-- A frame that is not made yet, or whose body has not ended. -/
def Unended (frames : FrameId → Option (Frame L V X)) (nextFrame : Nat) (f : FrameId) : Prop :=
  nextFrame ≤ f ∨ ∃ fr, frames f = some fr ∧ fr.point ≠ .final

structure Accounted (s : Machine L V X O) : Prop where
  unended : ∀ f, Unended s.frames s.nextFrame f → entriesOf f s.log = []
  ended : ∀ f, entriesOf f s.log = [] ∨ Ended f (entriesOf f s.log)

variable {s s' : Machine L V X O} {e : Event L V X O} {f g : FrameId} {n : TaskId}
  {frames : FrameId → Option (Frame L V X)} {nextFrame : Nat} {out : Outcome V X}

theorem entriesOf_endEntries_self : entriesOf f (endEntries f out : List (Entry V X O)) = endEntries f out := by
  cases out <;> simp [entriesOf, endEntries, Entry.about]

theorem entriesOf_endEntries_of_ne (h : g ≠ f) :
    entriesOf f (endEntries g out : List (Entry V X O)) = [] := by
  cases out <;> simp [entriesOf, endEntries, Entry.about, h]

/-- **One event**, with what it records: nothing about a frame that is unended after it, and the end
of at most one frame that was unended before. -/
theorem Accounted.record (accounted : s.Accounted) {entries : List (Entry V X O)}
    (log : s'.log = s.log ++ entries)
    (before : ∀ f, Unended s'.frames s'.nextFrame f → Unended s.frames s.nextFrame f)
    (none : ∀ f, Unended s'.frames s'.nextFrame f → entriesOf f entries = [])
    (ended : ∀ f, entriesOf f entries = [] ∨
      (Unended s.frames s.nextFrame f ∧ Ended f (entriesOf f entries))) : s'.Accounted where
  unended f h := by rw [log, entriesOf_append, accounted.unended f (before f h), none f h]; rfl
  ended f := by
    rw [log, entriesOf_append]
    rcases ended f with h | ⟨unended, h⟩
    · rw [h, List.append_nil]
      exact accounted.ended f
    · rw [accounted.unended f unended, List.nil_append]
      exact .inr h

/-- An event that ends no body. -/
theorem Accounted.quiet (accounted : s.Accounted) {entries : List (Entry V X O)}
    (log : s'.log = s.log ++ entries) (none : ∀ f, entriesOf f entries = [])
    (before : ∀ f, Unended s'.frames s'.nextFrame f → Unended s.frames s.nextFrame f) :
    s'.Accounted :=
  accounted.record log before (fun f _ => none f) fun f => .inl (none f)

/-- A frame whose body has not ended changes. -/
theorem Unended.of_update {x : FrameId} {fr : Frame L V X} {v : Option (Frame L V X)}
    (frame : frames x = some fr) (point : fr.point ≠ .final)
    (h : Unended (Function.update frames x v) nextFrame f) : Unended frames nextFrame f := by
  by_cases hx : f = x
  · exact .inr ⟨fr, hx ▸ frame, point⟩
  · rwa [Unended, Function.update_of_ne hx] at h

/-- A new frame. -/
theorem Unended.of_new {v : Option (Frame L V X)}
    (h : Unended (Function.update frames nextFrame v) (nextFrame + 1) f) :
    Unended frames nextFrame f := by
  by_cases hx : f = nextFrame
  · exact .inl (Nat.le_of_eq hx.symm)
  · rw [Unended, Function.update_of_ne hx] at h
    exact h.imp (Nat.le_of_succ_le) id

/-- A frame whose body ends: it was unended before, and is not after. -/
theorem unended_of_executing {t : ScheduledTask} {st : Stack L V X}
    (executing : Executing frames n t f st) : Unended frames nextFrame f := by
  obtain ⟨fr, frame, point⟩ := executing.point
  exact .inr ⟨fr, frame, by rw [point]; simp⟩

/-- A body ends, with these entries about its frame. -/
theorem Accounted.finish (accounted : s.Accounted) {entries : List (Entry V X O)}
    (log : s'.log = s.log ++ entries) (ended : Ended f (entriesOf f entries))
    (other : ∀ x, f ≠ x → entriesOf x entries = []) (was : Unended s.frames s.nextFrame f)
    (gone : ¬ Unended s'.frames s'.nextFrame f)
    (before : ∀ x, x ≠ f → Unended s'.frames s'.nextFrame x → Unended s.frames s.nextFrame x) :
    s'.Accounted := by
  have ne : ∀ x, Unended s'.frames s'.nextFrame x → x ≠ f := by
    rintro x h rfl
    exact gone h
  refine accounted.record log (fun x h => before x (ne x h) h) (fun x h => other x (ne x h).symm) ?_
  intro x
  by_cases hx : f = x
  · subst hx
    exact .inr ⟨was, ended⟩
  · exact .inl (other x hx)

theorem accounted_of_does (linked : Linked s) (accounted : s.Accounted) (does : Does s e s') :
    s'.Accounted := by
  cases does with
  | enqueue control => exact accounted.quiet rfl (fun _ => rfl) fun _ h => h.of_new
  | startPass control => exact accounted.quiet (List.append_nil _).symm (fun _ => rfl) fun _ h => h
  | endPass control node => exact accounted.quiet (List.append_nil _).symm (fun _ => rfl) fun _ h => h
  | skip control node skipped =>
    exact accounted.quiet (List.append_nil _).symm (fun _ => rfl) fun _ h => h
  | @start n t body fr control node valid ready awaiting callers frame point =>
    exact accounted.quiet rfl (fun _ => rfl) fun _ h => h.of_update frame (by simp [point])
  | goOn control node valid ready callers nodup frame point landed =>
    exact accounted.quiet rfl (fun _ => rfl) fun _ h => h.of_update frame (by simp [point])
  | suspend control node executing frame awaiter =>
    obtain ⟨fr', frame', point⟩ := executing.point
    obtain rfl := Option.some.inj (frame.symm.trans frame')
    exact accounted.quiet rfl (fun _ => rfl) fun _ h => h.of_update frame (by simp [point])
  | call control node executing frame =>
    obtain ⟨fr', frame', point⟩ := executing.point
    obtain rfl := Option.some.inj (frame.symm.trans frame')
    exact accounted.quiet (List.append_nil _).symm (fun _ => rfl) fun _ h =>
      h.of_new.of_update frame (by simp [point])
  | spawn control node executing => exact accounted.quiet rfl (fun _ => rfl) fun _ h => h.of_new
  | @ret n t f g body gr st k out control node executing caller =>
    obtain ⟨fr, frame, point⟩ := executing.point
    obtain ⟨gr', caller', gpoint⟩ := executing.callers.2.1
    obtain rfl := Option.some.inj (caller.symm.trans caller')
    have ne : f ≠ g := by
      rintro rfl
      exact (List.nodup_cons.mp executing.nodup).1 List.mem_cons_self
    refine accounted.finish rfl ?_ (fun x hx => entriesOf_endEntries_of_ne hx)
      (unended_of_executing executing) ?_ ?_
    · rw [entriesOf_endEntries_self]
      exact .delivered out
    · rintro (le | ⟨fr', frame', -⟩)
      · exact absurd (linked.lt_nextFrame frame) (Nat.not_lt.mpr le)
      · have gone : Function.update (Function.update s.frames f none) g
            (some { gr with point := .executing }) f = none := by
          rw [Function.update_of_ne ne, Function.update_self]
        cases gone.symm.trans frame'
    · intro x _ h
      have hg : Function.update s.frames f none g = some gr := by
        rw [Function.update_of_ne ne.symm, caller]
      exact (h.of_update hg (by simp [gpoint])).of_update frame (by simp [point])
  | @rootReturn n t body fr v control node executing frame =>
    obtain ⟨fr', frame', point⟩ := executing.point
    obtain rfl := Option.some.inj (frame.symm.trans frame')
    refine accounted.finish rfl ?_ ?_ (unended_of_executing executing) ?_
      fun x _ h => h.of_update frame (by simp [point])
    · simpa [entriesOf, Entry.about] using Ended.root
    · intro x hx
      simp [entriesOf, Entry.about, hx]
    · rintro (le | ⟨fr', frame', hpoint⟩)
      · exact absurd (linked.lt_nextFrame frame) (Nat.not_lt.mpr le)
      · cases (Function.update_self ..).symm.trans frame'
        exact hpoint rfl
  | @rootThrow n t body fr x control node executing frame =>
    obtain ⟨fr', frame', point⟩ := executing.point
    obtain rfl := Option.some.inj (frame.symm.trans frame')
    exact accounted.quiet (List.append_nil _).symm (fun _ => rfl) fun _ h =>
      h.of_update frame (by simp [point])
  | complete control flying node pending awaiting frame point named issued =>
    exact accounted.quiet rfl (fun _ => rfl) fun _ h => h.of_update frame (by simp [point])

theorem accounted_init : Accounted ({} : Machine L V X O) :=
  ⟨fun _ _ => rfl, fun _ => .inl rfl⟩

theorem accounted_step (sane : Sane s) (accounted : s.Accounted) (h : s.step e = some s') :
    s'.Accounted := by
  rcases sane with terminated | linked
  · cases e <;> simp only [step, terminated, reduceCtorEq] at h
  · exact accounted_of_does linked accounted (does_of_step linked h)

/-- An entry about a frame tells all of them. -/
theorem Accounted.once (accounted : s.Accounted) : Once s.log := by
  have delivered : ∀ f out, .delivered f out ∈ s.log → entriesOf f s.log = endEntries f out := by
    intro f out h
    have mem : .delivered f out ∈ entriesOf f s.log :=
      List.mem_filter.mpr ⟨h, by simp [Entry.about]⟩
    rcases accounted.ended f with hnil | hended
    · rw [hnil] at mem
      cases mem
    · generalize entriesOf f s.log = entries at hended mem
      cases hended with
      | root => simp at mem
      | delivered out' => cases out <;> cases out' <;> simp_all [endEntries]
  exact ⟨fun f v h => delivered f _ h, fun f x h => delivered f _ h⟩

end Machine

end CoNet.Async
