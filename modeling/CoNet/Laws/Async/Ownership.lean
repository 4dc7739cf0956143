import CoNet.Async.Task
import CoNet.Lib.Ledger
import CoNet.Lib.Successors

/-!
# Who owns a coroutine frame

`Ownership` is what task objects are for: every frame has one owner, an object or the frame that awaits
it, and knows its caller and the `ScheduledTask` of its chain. `Sound` says that no frame is lost and that
each one names its caller and its chain's task right. It is kept by a call, by a `Task` that takes over
from another, by a `ScheduledTask` made of a `Task`, and by frames destroyed with all that they own.
-/

set_option autoImplicit false

namespace CoNet.Async

/-- What may own a frame: an object, or the frame that awaits it. -/
inductive Holder where
  | task (x : Nat)
  | scheduled (n : TaskId)
  | frame (g : FrameId)
  deriving DecidableEq, Repr

/-- The `caller_` of the frame that it owns. -/
def Holder.caller : Holder → Option FrameId
  | frame g => some g
  | _ => none

/-- The owner is an object. -/
def Holder.IsObject (k : Holder) : Prop := ∀ g, k ≠ frame g

@[ext]
structure Ownership where
  ledger : Ledger Holder
  caller : FrameId → Option FrameId
  /-- `this_chain_task_` -/
  owner : FrameId → Option TaskId

namespace Ownership

open Successors

/-- The `this_chain_task_` of the frame that it owns. -/
def ownerOf (o : Ownership) : Holder → Option TaskId
  | .task _ => none
  | .scheduled n => some n
  | .frame g => o.owner g

/-- The frame that a frame awaits. -/
def callee (o : Ownership) (g : FrameId) : Option FrameId := o.ledger.holds (.frame g)

/-- The frame was called, and is not destroyed. -/
def Alive (o : Ownership) (f : FrameId) : Prop :=
  f < o.ledger.acquired ∧ f ∉ o.ledger.gone.map (·.1)

structure Sound (o : Ownership) : Prop where
  balanced : o.ledger.Balanced
  covered : o.ledger.Covered
  /-- A frame names its caller, and the task of its chain. -/
  named : ∀ k f, o.ledger.holds k = some f → o.caller f = k.caller ∧ o.owner f = o.ownerOf k
  /-- A frame is called after its caller. -/
  up : ∀ g f, o.callee g = some f → g < f
  alive : ∀ g f, o.callee g = some f → o.Alive g

variable {o : Ownership} {k k' : Holder} {f g r : FrameId} {n : TaskId} {x : Nat} {l : List FrameId}

theorem Sound.alive_of_holds (sound : o.Sound) (h : o.ledger.holds k = some f) : o.Alive f :=
  ⟨sound.balanced.held_lt k f h, sound.balanced.held_live k f h⟩

theorem Sound.injective (sound : o.Sound) : Injective o.callee := by
  intro a b c ha hb
  cases sound.balanced.injective _ _ c ha hb
  rfl

/-- What an object owns is awaited by no frame. -/
theorem Sound.root (sound : o.Sound) (object : k.IsObject) (h : o.ledger.holds k = some r) :
    Root o.callee r :=
  fun g hg => object g (sound.balanced.injective _ _ r h hg)

/-- A frame's caller awaits it. -/
theorem Sound.callee_of_caller (sound : o.Sound) (alive : o.Alive f) (h : o.caller f = some g) :
    o.callee g = some f := by
  rcases sound.covered f alive.1 with gone | ⟨k, hk⟩
  · exact absurd gone alive.2
  · have hc := (sound.named k f hk).1
    rw [h] at hc
    cases k with
    | frame g' => cases hc; exact hk
    | _ => cases hc

/-- A frame without a caller is owned by an object. -/
theorem Sound.holder_of_root (sound : o.Sound) (alive : o.Alive r) (root : Root o.callee r) :
    ∃ k, k.IsObject ∧ o.ledger.holds k = some r := by
  rcases sound.covered r alive.1 with gone | ⟨k, hk⟩
  · exact absurd gone alive.2
  · refine ⟨k, ?_, hk⟩
    rintro g rfl
    exact root g hk

/-- **The frames of a chain name one task**, the one that its root names. -/
theorem Sound.owner_eq (sound : o.Sound) (chain : Follows o.callee r f) : o.owner f = o.owner r := by
  induction chain with
  | refl => rfl
  | tail _ last ih => exact (sound.named _ _ last).2.trans ih

theorem Sound.alive_of_follows (sound : o.Sound) (alive : o.Alive r) (chain : Follows o.callee r f) :
    o.Alive f := by
  rcases chain.cases_tail with rfl | ⟨b, -, last⟩
  · exact alive
  · exact sound.alive_of_holds last

/-- **Every frame is on the chain of an object.** -/
theorem Sound.exists_holder (sound : o.Sound) (alive : o.Alive f) :
    ∃ k r, k.IsObject ∧ o.ledger.holds k = some r ∧ Follows o.callee r f := by
  obtain ⟨r, root, chain⟩ := exists_root Nat.lt_wfRel.wf sound.up f
  have alive_root : o.Alive r := by
    rcases chain.cases_head with rfl | ⟨b, first, -⟩
    · exact alive
    · exact sound.alive r b first
  obtain ⟨k, object, hk⟩ := sound.holder_of_root alive_root root
  exact ⟨k, r, object, hk, chain⟩

/-- The object on whose chain a frame is is the one that the frame names. -/
theorem Sound.holder_of_owner (sound : o.Sound) (object : k.IsObject)
    (h : o.ledger.holds k = some r) (chain : Follows o.callee r f) (owner : o.owner f = some n) :
    k = .scheduled n := by
  have named := (sound.named k r h).2
  rw [← sound.owner_eq chain, owner] at named
  cases k with
  | task x => cases named
  | scheduled m => cases named; rfl
  | frame g => exact absurd rfl (object g)

/-! ## A call -/

/-- A new frame, owned by `k`. -/
def add (o : Ownership) (k : Holder) : Ownership where
  ledger := o.ledger.acquire k
  caller := Function.update o.caller o.ledger.acquired k.caller
  owner := Function.update o.owner o.ledger.acquired (o.ownerOf k)

/-- Before a call there is no frame at the new address. -/
theorem Sound.callee_acquired (sound : o.Sound) : o.callee o.ledger.acquired = none := by
  cases h : o.callee o.ledger.acquired with
  | none => rfl
  | some f => exact absurd (sound.alive _ f h).1 (Nat.lt_irrefl _)

theorem callee_add_frame (o : Ownership) (g : FrameId) :
    (o.add (.frame g)).callee = Function.update o.callee g (some o.ledger.acquired) := by
  funext f
  by_cases hf : f = g
  · subst hf
    rw [Function.update_self]
    exact Ledger.acquire_holds_self _
  · rw [Function.update_of_ne hf]
    exact Ledger.acquire_holds_of_ne fun same => hf (Holder.frame.inj same)

theorem Sound.ownerOf_add (sound : o.Sound) (k : Holder) (h : (o.add k).ledger.holds k' = some f)
    (ne : k' ≠ k) : (o.add k).ownerOf k' = o.ownerOf k' := by
  cases k' with
  | frame g =>
    rw [add, Ledger.acquire_holds_of_ne ne] at h
    exact Function.update_of_ne (Nat.ne_of_lt (sound.alive g f h).1) ..
  | _ => rfl

theorem Sound.add (sound : o.Sound) (free : o.ledger.holds k = none)
    (alive : ∀ g, k = .frame g → o.Alive g) : (o.add k).Sound where
  balanced := sound.balanced.acquire k
  covered := sound.covered.acquire free
  named k' f h := by
    by_cases hk : k' = k
    · subst hk
      obtain rfl : o.ledger.acquired = f :=
        Option.some.inj ((Ledger.acquire_holds_self k').symm.trans h)
      refine ⟨Function.update_self .., ?_⟩
      show Function.update o.owner o.ledger.acquired _ o.ledger.acquired = _
      rw [Function.update_self]
      cases k' with
      | frame g => exact (Function.update_of_ne (Nat.ne_of_lt (alive g rfl).1) ..).symm
      | _ => rfl
    · rw [sound.ownerOf_add k h hk]
      have held : o.ledger.holds k' = some f := (Ledger.acquire_holds_of_ne hk).symm.trans h
      have ne : f ≠ o.ledger.acquired := Nat.ne_of_lt (sound.balanced.held_lt k' f held)
      show Function.update _ _ _ f = _ ∧ Function.update _ _ _ f = _
      rw [Function.update_of_ne ne, Function.update_of_ne ne]
      exact sound.named k' f held
  up g f h := by
    rcases Ledger.holds_of_acquire h with ⟨hk, rfl⟩ | ⟨-, h⟩
    · exact (alive g hk.symm).1
    · exact sound.up g f h
  alive g f h := by
    rcases Ledger.holds_of_acquire h with ⟨hk, -⟩ | ⟨-, h⟩
    · exact ⟨Nat.lt_succ_of_lt (alive g hk.symm).1, (alive g hk.symm).2⟩
    · exact ⟨Nat.lt_succ_of_lt (sound.alive g f h).1, (sound.alive g f h).2⟩

/-! ## A transfer -/

def transfer (o : Ownership) (dst src : Holder) : Ownership :=
  { o with ledger := o.ledger.transfer dst src }

/-- A `Task` takes over from another one that has nothing. -/
theorem Sound.transfer {y : Nat} (sound : o.Sound) (ne : x ≠ y)
    (free : o.ledger.holds (.task x) = none) : (o.transfer (.task x) (.task y)).Sound where
  balanced := sound.balanced.transfer _ _
  covered := sound.covered.transfer (by simpa using ne) free
  named k f h := by
    obtain ⟨-, ⟨rfl, held⟩ | ⟨-, held⟩⟩ := Ledger.holds_of_transfer h
    · exact sound.named (.task y) f held
    · exact sound.named k f held
  up g f h := by
    obtain ⟨-, ⟨hk, -⟩ | ⟨-, h⟩⟩ := Ledger.holds_of_transfer h
    · cases hk
    · exact sound.up g f h
  alive g f h := by
    obtain ⟨-, ⟨hk, -⟩ | ⟨-, h⟩⟩ := Ledger.holds_of_transfer h
    · cases hk
    · exact sound.alive g f h

/-- A `ScheduledTask` takes over from a `Task`, and its root coroutine gets its name. -/
def schedule (o : Ownership) (n : TaskId) (x : Nat) (root : FrameId) : Ownership where
  ledger := o.ledger.transfer (.scheduled n) (.task x)
  caller := o.caller
  owner := Function.update o.owner root (some n)

/-- The coroutine awaits no other, which would keep the old name. -/
theorem Sound.schedule (sound : o.Sound) (free : o.ledger.holds (.scheduled n) = none)
    (holds : o.ledger.holds (.task x) = some r) (alone : o.callee r = none) :
    (o.schedule n x r).Sound where
  balanced := sound.balanced.transfer _ _
  covered := sound.covered.transfer (by simp) free
  named k f h := by
    obtain ⟨hx, ⟨rfl, held⟩ | ⟨-, held⟩⟩ := Ledger.holds_of_transfer h
    · obtain rfl := Option.some.inj (holds.symm.trans held)
      exact ⟨(sound.named _ _ holds).1, Function.update_self ..⟩
    · have ne : f ≠ r := by
        rintro rfl
        exact hx (sound.balanced.injective _ _ _ held holds)
      refine ⟨(sound.named k f held).1, ?_⟩
      show Function.update o.owner r (some n) f = _
      rw [Function.update_of_ne ne, (sound.named k f held).2]
      cases k with
      | frame g =>
        have other : g ≠ r := by
          rintro rfl
          cases alone.symm.trans held
        exact (Function.update_of_ne other ..).symm
      | _ => rfl
  up g f h := by
    obtain ⟨-, ⟨hk, -⟩ | ⟨-, h⟩⟩ := Ledger.holds_of_transfer h
    · cases hk
    · exact sound.up g f h
  alive g f h := by
    obtain ⟨-, ⟨hk, -⟩ | ⟨-, h⟩⟩ := Ledger.holds_of_transfer h
    · cases hk
    · exact sound.alive g f h

/-! ## Frames destroyed -/

/-- The owner gives up, and so do the frames that are destroyed. -/
def Gives (k : Holder) (l : List FrameId) (k' : Holder) : Prop :=
  k' = k ∨ ∃ f ∈ l, k' = .frame f

instance (k : Holder) (l : List FrameId) : DecidablePred (Gives k l) :=
  fun _ => inferInstanceAs (Decidable (_ ∨ _))

/-- The frames `l` are destroyed, of which `k` owns the first one. -/
def destroy (o : Ownership) (k : Holder) (l : List FrameId) : Ownership where
  ledger := o.ledger.giveUpAll (Gives k l) l .closed
  caller f := if f ∈ l then none else o.caller f
  owner f := if f ∈ l then none else o.owner f

theorem Sound.destroy (sound : o.Sound) (nodup : l.Nodup)
    (held : ∀ f ∈ l, ∃ k', Gives k l k' ∧ o.ledger.holds k' = some f)
    (only : ∀ k' f, Gives k l k' → o.ledger.holds k' = some f → f ∈ l) :
    (o.destroy k l).Sound where
  balanced := sound.balanced.giveUpAll .closed nodup held
  covered := sound.covered.giveUpAll .closed only
  named k' f h := by
    obtain ⟨keeps, h⟩ := Ledger.holds_of_giveUpAll h
    have not_mem : f ∉ l := by
      intro mem
      obtain ⟨k'', gives, hf⟩ := held f mem
      exact keeps (sound.balanced.injective k' k'' f h hf ▸ gives)
    show (if f ∈ l then none else _) = _ ∧ (if f ∈ l then none else _) = _
    rw [if_neg not_mem, if_neg not_mem, (sound.named k' f h).1, (sound.named k' f h).2]
    refine ⟨rfl, ?_⟩
    cases k' with
    | frame g => exact (if_neg fun mem => keeps (.inr ⟨g, mem, rfl⟩)).symm
    | _ => rfl
  up g f h := sound.up g f (Ledger.holds_of_giveUpAll h).2
  alive g f h := by
    obtain ⟨keeps, h⟩ := Ledger.holds_of_giveUpAll h
    refine ⟨(sound.alive g f h).1, ?_⟩
    have more : (o.destroy k l).ledger.gone.map (·.1) = o.ledger.gone.map (·.1) ++ l := by
      simp [Ownership.destroy, Ledger.giveUpAll, Function.comp_def]
    rw [more, List.mem_append, not_or]
    exact ⟨(sound.alive g f h).2, fun mem => keeps (.inr ⟨g, mem, rfl⟩)⟩

end Ownership

end CoNet.Async
