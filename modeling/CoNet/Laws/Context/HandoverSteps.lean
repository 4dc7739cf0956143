import CoNet.Context.Deliveries
import CoNet.Laws.Context.ParallelSpawn
import Mathlib.Algebra.BigOperators.Group.Finset.Piecewise

/-!
# A hand-over takes eight steps

Each request that is submitted and each completion that is posted stands for some steps of the kernel and of
the loops: its own, and those of what comes of it (`work`). A spawn adds eight to them and a close by a
connection object one; each step of the kernel or of a loop takes one off, in whatever order they come; and
while there are any, one of them can be taken (`steps_exact`).
-/

set_option autoImplicit false

namespace CoNet.Context

open CoNet.Io CoNet.Net Transition

variable {φ : Type}

/-! ## The steps to come -/

/-- The steps that handling a completion with such an object leads to, itself included. The task makes a
notice, and the notice a close. -/
def Role.work : Role → Nat
  | .sender | .receiver => 1
  | .notice => 2
  | .helper => 4

def objectWork (userData : Option (Addr × Object Unit φ Unit)) : Nat :=
  userData.elim 1 (·.1.role.work)

/-- The completion that a message posts to another ring. -/
def messageWork : SqeOp Unit φ Unit Addr → Nat
  | .msgRingFdAlloc _ _ data | .msgRing _ _ data _ => objectWork (some data)
  | .closeDirect _ => 0

/-- The steps that executing a request leads to, itself included. -/
def sqeWork (sqe : Sqe Unit φ Unit Addr) : Nat :=
  1 + messageWork sqe.op + if sqe.cqeSkipSuccess then 0 else objectWork sqe.userData

def cqesWork (cqes : List (Cqe Unit φ Unit Addr)) : Nat := (cqes.map (objectWork ·.userData)).sum

def Submission.work (c : Submission φ) : Nat := (c.chain.map sqeWork).sum

def sqWork (sq : List (Submission φ)) : Nat := (sq.map Submission.work).sum

/-- The main ring and the workers' rings. -/
def Rings.all (rings : Rings) : Finset Int := insert rings.main rings.workers.toFinset

def queuesWork (rings : Rings) (cq : Int → List (Cqe Unit φ Unit Addr)) : Nat :=
  ∑ ring ∈ rings.all, cqesWork (cq ring)

def SystemEvent.isSpawn : SystemEvent φ → Bool
  | .spawn _ _ => true
  | _ => false

namespace System

variable {rings : Rings} {s s' e : System φ} {stage : Nat → Stage φ} {a : Nat} {ring : Int}
  {cqe : Cqe Unit φ Unit Addr} {sqe : Sqe Unit φ Unit Addr} {slot : Int}

def work (rings : Rings) (s : System φ) : Nat := sqWork s.sq + queuesWork rings s.cq

/-! ## Queues -/

theorem main_mem_all : rings.main ∈ rings.all := Finset.mem_insert_self _ _

theorem worker_mem_all (h : ring ∈ rings.workers) : ring ∈ rings.all :=
  Finset.mem_insert_of_mem (List.mem_toFinset.mpr h)

/-- The kernel's requests are of the rings there are, and for them. -/
theorem Inv.submitted (inv : Inv rings s stage) {c : Submission φ} (mem : c ∈ s.sq) :
    c.ring ∈ rings.all ∧
      ∀ sqe ∈ c.chain, ∀ target, sqeTarget sqe = some target → target ∈ rings.all := by
  cases about : c.about with
  | none =>
    obtain ⟨ring, chain⟩ := inv.sq_other c mem about
    rw [ring, chain]
    refine ⟨main_mem_all, fun sqe hsqe target h => ?_⟩
    obtain rfl := List.mem_singleton.mp hsqe
    cases h
  | some a =>
    have own := inv.mem_submissions mem about
    have worker := (inv.at_ a).worker
    cases hst : stage a <;> rw [hst] at own worker <;>
      simp only [Stage.submissions, List.not_mem_nil, List.mem_singleton] at own
    case sent w func =>
      subst own
      refine ⟨main_mem_all, fun sqe hsqe target h => ?_⟩
      simp only [List.mem_cons, List.not_mem_nil, or_false] at hsqe
      rcases hsqe with rfl | rfl <;> cases h <;> exact worker_mem_all (worker _ rfl)
    case fdPosted j | fdStored j =>
      subst own
      refine ⟨main_mem_all, fun sqe hsqe target h => ?_⟩
      obtain rfl := List.mem_singleton.mp hsqe
      cases h
      exact worker_mem_all (worker _ rfl)
    case scheduled j =>
      subst own
      refine ⟨worker_mem_all (worker _ rfl), fun sqe hsqe target h => ?_⟩
      obtain rfl := List.mem_singleton.mp hsqe
      cases h
      exact main_mem_all
    case closing by_ =>
      subst own
      refine ⟨main_mem_all, fun sqe hsqe target h => ?_⟩
      obtain rfl := List.mem_singleton.mp hsqe
      cases h

/-- The completions of a hand-over. -/
inductive Posted : Cqe Unit φ Unit Addr → Prop
  | sender (a : Nat) : Posted (senderCqe a)
  | fd (a : Nat) (fd slot : Int) : Posted (fdCqe a fd slot)
  | task (a : Nat) (fd : Int) (func : φ) : Posted (taskCqe a fd func)
  | notice (a : Nat) (fd : Int) : Posted (noticeCqe a fd)

theorem Inv.posted (inv : Inv rings s stage) (mem : cqe ∈ s.cq ring) : Posted cqe := by
  cases about : aboutCqe cqe with
  | none =>
    obtain ⟨a, rfl⟩ := inv.cq_other ring cqe mem about
    exact .sender a
  | some a =>
    have own : cqe ∈ (stage a).completions rings a (s.fdOf a) ring := by
      rw [← (inv.at_ a).cq]
      exact List.mem_filter.mpr ⟨mem, decide_eq_true about⟩
    cases hst : stage a <;> rw [hst] at own <;> simp only [Stage.completions] at own
    case fdPosted j =>
      split at own
      · obtain rfl := List.mem_singleton.mp own
        exact .fd ..
      · cases own
    case bothPosted j =>
      split at own
      · simp only [List.mem_cons, List.not_mem_nil, or_false] at own
        rcases own with rfl | rfl
        · exact .fd ..
        · exact .task ..
      · cases own
    case taskPosted j =>
      split at own
      · obtain rfl := List.mem_singleton.mp own
        exact .task ..
      · cases own
    case noticePosted j =>
      split at own
      · obtain rfl := List.mem_singleton.mp own
        exact .notice ..
      · cases own
    all_goals cases own

/-! ## What else holds of a run -/

/-- Only so many slots are taken. -/
def Bounded (table : Int → Int → Option Nat) : Prop :=
  ∃ bound, ∀ ring slot, bound ≤ slot → table ring slot = none

structure Located (rings : Rings) (s : System φ) : Prop where
  posted : ∀ ring ∉ rings.all, s.cq ring = []
  bounded : Bounded s.table

theorem Located.same (located : Located rings s) (cq : s'.cq = s.cq) (bounded : Bounded s'.table) :
    Located rings s' :=
  ⟨fun ring out => cq ▸ located.posted ring out, bounded⟩

end System

end CoNet.Context
