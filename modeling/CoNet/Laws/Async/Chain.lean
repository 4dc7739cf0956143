import Mathlib.Data.List.Nodup
import Mathlib.Logic.Relation
import CoNet.Async.TaskLoop

/-!
# A frame and its callers

`Callers frames n root f st` says that `f` is awaited by the first frame of `st`, that one by the
second, and so on up to `root`, which no frame awaits; `st` has with each caller how it goes on with
the outcome of what it awaits. All these frames belong to the task `n`, and none of their bodies has
ended. The lemmas say what the operations on frames leave of it: a change of the frame's point, a
call, a return, and a change of another frame.
-/

set_option autoImplicit false

namespace CoNet.Async

variable {L V X O : Type}

/-- An unfinished promise of the task `n`, with this caller. -/
structure Promise.In (p : Promise V X) (n : TaskId) (caller : Option FrameId) : Prop
    extends p.Unfinished where
  caller_eq : p.caller = caller
  task_eq : p.thisChainTask = some n

/-- A frame and where it is. -/
def At (frames : FrameId → Option (Frame L V X)) (f : FrameId) (p : Point L V X) : Prop :=
  ∃ fr, frames f = some fr ∧ fr.point = p

/-- The callers that await each other, with the continuation of each. -/
abbrev Stack (L V X : Type) := List (FrameId × (Outcome V X → L))

def Callers (frames : FrameId → Option (Frame L V X)) (n : TaskId) (root : FrameId) :
    FrameId → Stack L V X → Prop
  | f, [] => f = root ∧ ∃ fr, frames f = some fr ∧ fr.promise.In n none
  | f, (g, k) :: st =>
    (∃ fr, frames f = some fr ∧ fr.promise.In n (some g)) ∧ At frames g (.atTask f k) ∧
      Callers frames n root g st

/-- The frames of a chain, from the innermost one. -/
def members (f : FrameId) (st : Stack L V X) : List FrameId := f :: st.map Prod.fst

variable {frames frames' : FrameId → Option (Frame L V X)} {n : TaskId} {root f g : FrameId}
  {st : Stack L V X} {fr : Frame L V X} {k : Outcome V X → L}

theorem At.unique {p p' : Point L V X} (h : At frames f p) (h' : At frames f p') : p = p' := by
  obtain ⟨fr, hfr, rfl⟩ := h
  obtain ⟨fr', hfr', rfl⟩ := h'
  rw [Option.some.inj (hfr.symm.trans hfr')]

theorem at_update_self (fr : Frame L V X) :
    At (Function.update frames f (some fr)) f fr.point :=
  ⟨fr, Function.update_self .., rfl⟩

theorem At.update_of_ne {p : Point L V X} {v : Option (Frame L V X)} (h : At frames f p)
    (ne : f ≠ g) : At (Function.update frames g v) f p := by
  obtain ⟨fr, hfr, rfl⟩ := h
  exact ⟨fr, by rw [Function.update_of_ne ne, hfr], rfl⟩

/-- The innermost frame, with its caller. -/
theorem Callers.inner (h : Callers frames n root f st) :
    ∃ fr, frames f = some fr ∧ fr.promise.In n (st.head?.map Prod.fst) := by
  cases st with
  | nil => exact h.2
  | cons top st => exact h.1

/-- Every frame of the chain belongs to the task. -/
theorem Callers.task (h : Callers frames n root f st) :
    ∀ x ∈ members f st, ∃ fr, frames x = some fr ∧ fr.promise.thisChainTask = some n := by
  induction st generalizing f with
  | nil =>
    intro x hx
    obtain rfl := List.mem_singleton.mp hx
    obtain ⟨-, fr, hfr, hin⟩ := h
    exact ⟨fr, hfr, hin.task_eq⟩
  | cons top st ih =>
    intro x hx
    rcases List.mem_cons.mp hx with rfl | hx
    · obtain ⟨⟨fr, hfr, hin⟩, -⟩ := h
      exact ⟨fr, hfr, hin.task_eq⟩
    · exact ih h.2.2 x hx

theorem Callers.root_mem (h : Callers frames n root f st) : root ∈ members f st := by
  induction st generalizing f with
  | nil => exact h.1 ▸ List.mem_singleton_self _
  | cons top st ih => exact List.mem_cons_of_mem _ (ih h.2.2)

/-- The root is the innermost frame, or a caller. -/
theorem Callers.root_cases (h : Callers frames n root f st) :
    (st = [] ∧ f = root) ∨ (root ∈ st.map Prod.fst ∧ ∃ c k, At frames root (.atTask c k)) := by
  induction st generalizing f with
  | nil => exact .inl ⟨rfl, h.1⟩
  | cons top st ih =>
    rcases ih h.2.2 with ⟨-, hroot⟩ | ⟨hmem, hat⟩
    · exact .inr ⟨hroot ▸ List.mem_cons_self, _, _, hroot ▸ h.2.1⟩
    · exact .inr ⟨List.mem_cons_of_mem _ hmem, hat⟩

/-- The chain depends on its own frames only. -/
theorem Callers.congr (h : Callers frames n root f st)
    (same : ∀ x ∈ members f st, frames' x = frames x) : Callers frames' n root f st := by
  induction st generalizing f with
  | nil =>
    obtain ⟨hroot, fr, hfr, hin⟩ := h
    exact ⟨hroot, fr, (same f List.mem_cons_self).trans hfr, hin⟩
  | cons top st ih =>
    obtain ⟨⟨fr, hfr, hin⟩, ⟨gr, hgr, hpoint⟩, hrest⟩ := h
    have hg : top.1 ∈ members f (top :: st) := List.mem_cons_of_mem _ List.mem_cons_self
    exact ⟨⟨fr, (same f List.mem_cons_self).trans hfr, hin⟩, ⟨gr, (same _ hg).trans hgr, hpoint⟩,
      ih hrest fun x hx => same x (List.mem_cons_of_mem _ hx)⟩

/-- A frame outside of the chain changes. -/
theorem Callers.update_other {v : Option (Frame L V X)} (h : Callers frames n root f st)
    (other : g ∉ members f st) : Callers (Function.update frames g v) n root f st :=
  h.congr fun _ hx => Function.update_of_ne (ne_of_mem_of_not_mem hx other) ..

/-- The innermost frame changes, but not its promise. -/
theorem Callers.update_inner (h : Callers frames n root f st) (nodup : (members f st).Nodup)
    (hfr : frames f = some fr) (p : Point L V X) :
    Callers (Function.update frames f (some { fr with point := p })) n root f st := by
  obtain ⟨hnot, -⟩ := List.nodup_cons.mp nodup
  cases st with
  | nil =>
    obtain ⟨hroot, fr', hfr', hin⟩ := h
    obtain rfl := Option.some.inj (hfr'.symm.trans hfr)
    exact ⟨hroot, _, Function.update_self .., hin⟩
  | cons top st =>
    obtain ⟨⟨fr', hfr', hin⟩, hat, hrest⟩ := h
    obtain rfl := Option.some.inj (hfr'.symm.trans hfr)
    have hne : top.1 ≠ f := fun h => hnot (h ▸ List.mem_cons_self)
    exact ⟨⟨_, Function.update_self .., hin⟩, hat.update_of_ne hne, hrest.update_other hnot⟩

/-- **A call**: the frame suspends at the callee, which is a new frame of its task. -/
theorem Callers.push {c : FrameId} (h : Callers frames n root f st)
    (nodup : (members f st).Nodup) (hfr : frames f = some fr) (fresh : c ∉ members f st)
    (k : Outcome V X → L) (p : Point L V X) :
    Callers
      (Function.update (Function.update frames f (some { fr with point := .atTask c k })) c
        (some ⟨{ caller := some f, thisChainTask := some n }, p⟩)) n root c ((f, k) :: st) := by
  have hne : f ≠ c := fun h => fresh (h ▸ List.mem_cons_self)
  refine ⟨⟨_, Function.update_self .., ⟨rfl, rfl⟩, rfl, rfl⟩, ?_, ?_⟩
  · exact (at_update_self _).update_of_ne hne
  · exact (h.update_inner nodup hfr _).update_other fresh

/-- **A return**: the caller goes on, whatever becomes of the callee's frame. -/
theorem Callers.pop {gr : Frame L V X} {v : Option (Frame L V X)}
    (h : Callers frames n root f ((g, k) :: st)) (nodup : (members f ((g, k) :: st)).Nodup)
    (hgr : frames g = some gr) (p : Point L V X) :
    Callers (Function.update (Function.update frames f v) g (some { gr with point := p })) n root g
      st := by
  obtain ⟨hnot, nodup'⟩ := List.nodup_cons.mp nodup
  have hne : g ≠ f := fun h => hnot (h ▸ List.mem_cons_self)
  exact (h.2.2.update_other hnot).update_inner nodup' (by rw [Function.update_of_ne hne, hgr]) p

/-! ## The await chain -/

/-- A frame is suspended at the `co_await` of another. -/
def Awaits (frames : FrameId → Option (Frame L V X)) (f c : FrameId) : Prop :=
  ∃ k, At frames f (.atTask c k)

/-- A frame is on the await chain of a root. -/
abbrev OnChain (frames : FrameId → Option (Frame L V X)) : FrameId → FrameId → Prop :=
  Relation.ReflTransGen (Awaits frames)

theorem onChain_of_callers (h : Callers frames n root f st) : OnChain frames root f := by
  induction st generalizing f with
  | nil => exact h.1 ▸ .refl
  | cons top st ih => exact .tail (ih h.2.2) ⟨top.2, h.2.1⟩

/-- What a caller awaits is on the chain. -/
theorem Callers.awaits_mem {x y : FrameId} (h : Callers frames n root f st)
    (hx : x ∈ st.map Prod.fst) (awaits : Awaits frames x y) : y ∈ members f st := by
  induction st generalizing f with
  | nil => cases hx
  | cons top st ih =>
    rcases List.mem_cons.mp hx with rfl | hx
    · obtain ⟨k, hat⟩ := awaits
      cases hat.unique h.2.1
      exact List.mem_cons_self
    · exact List.mem_cons_of_mem _ (ih h.2.2 hx)

/-- The chain of a task whose innermost frame awaits no other has no other frames. -/
theorem Callers.mem_of_onChain {x : FrameId} (h : Callers frames n root f st)
    (inner : ∀ c, ¬ Awaits frames f c) (chain : OnChain frames root x) : x ∈ members f st := by
  induction chain with
  | refl => exact h.root_mem
  | tail _ awaits ih =>
    rcases List.mem_cons.mp ih with rfl | ih
    · exact absurd awaits (inner _)
    · exact h.awaits_mem ih awaits

end CoNet.Async
