import CoNet.Laws.Net.Listener
import CoNet.Net.SocketObjects

/-!
# Each descriptor is closed once

`ClosedOnce` is what one state should satisfy: what an object reports from `fd()` is open, nothing is
closed twice, and no descriptor is lost, so that once all objects are gone each one has been closed
exactly once. `operator=` overwrites the descriptor that its target has, and ends with `rhs.fd_ = -1`,
whatever the target is; a constructor that throws leaves its descriptor to nobody. `Careful` names the
operations that do neither. `closedOnce_iff_careful`: a run keeps `ClosedOnce`, and its self-moves
change nothing, exactly when its operations are all careful.

`ledger` says which descriptor each object has, and every operation on objects is one on the ledger.
-/

set_option autoImplicit false

namespace CoNet.Net.SocketHeap

open CoNet.Net.Ip Transition

/-- What one state should satisfy. -/
structure ClosedOnce (s : SocketHeap) : Prop where
  /-- What an object reports is open, and was not closed. -/
  reported : ∀ o x, s.objects o = some x → 0 ≤ x.fd → ∃ a, s.table x.fd = some a ∧ a ∉ s.closed
  /-- No descriptor is closed twice. -/
  once : s.closed.Nodup
  /-- No descriptor is lost: it is closed, or an object reports it. -/
  covered : ∀ a < s.acquired, a ∈ s.closed ∨
    ∃ o x, s.objects o = some x ∧ s.table x.fd = some a
  /-- Once all objects are gone, each descriptor was closed exactly once. -/
  settled : (∀ o, s.objects o = none) → ∀ a < s.acquired, s.closed.count a = 1

/-- A self-move leaves the object unchanged. -/
def KeepsSelf (s : SocketHeap) (e : SocketEvent) : Prop :=
  ∀ o, e = .moveAssign o o → ∀ s', s.step e = some s' → s'.objects o = s.objects o

/-- The operations that go right: a constructor does not throw with a descriptor in its hands, an
assignment is not onto an object that has one, and a self-move is of an object moved from. -/
def Careful (s : SocketHeap) : SocketEvent → Prop
  | .construct _ fd _ outcomes => 0 ≤ fd → outcomes.setsockopt = true
  | .moveAssign lhs rhs =>
    ∀ x, s.objects lhs = some x → if lhs = rhs then x.fd = -1 else x.fd < 0
  | _ => True

/-- Which descriptor each object has, and which were closed. -/
def ledger (s : SocketHeap) : Ledger Nat where
  holds o := (s.objects o).bind fun x => s.table x.fd
  acquired := s.acquired
  gone := s.closed.map (·, .closed)

/-- The table has a descriptor at one number at most, and none that was closed. -/
structure Tabled (s : SocketHeap) : Prop where
  injective : ∀ fd fd' a, s.table fd = some a → s.table fd' = some a → fd = fd'
  number : ∀ fd a, s.table fd = some a → 0 ≤ fd
  live : ∀ fd a, s.table fd = some a → a < s.acquired ∧ a ∉ s.closed

structure Inv (s : SocketHeap) : Prop extends Tabled s where
  balanced : s.ledger.Balanced
  opened : ∀ o x, s.objects o = some x → 0 ≤ x.fd → ∃ a, s.table x.fd = some a

/-- The operations, one constructor an outcome. -/
inductive Does (s : SocketHeap) : SocketEvent → SocketHeap → Prop where
  | acquire {e o x} (free : s.objects o = none) (unused : s.table x.fd = none)
      (careful : Careful s e) (other : KeepsSelf s e) :
    Does s e ((s.acquire x.fd).put o (some x))
  | throws {o fd addr outcomes} (free : s.objects o = none) (unused : s.table fd = none)
      (failed : resultOn fd outcomes.setsockopt = -1) :
    Does s (.construct o fd addr outcomes) (s.acquire fd)
  | transfer {e dst src x y z} (ne : dst ≠ src) (hsrc : s.objects src = some x)
      (same : y.fd = x.fd) (left : z.fd = -1)
      (careful : Careful s e ↔ ∀ t, s.objects dst = some t → t.fd < 0) (other : KeepsSelf s e) :
    Does s e ((s.put dst (some y)).put src (some z))
  | assignSelf {o x} (hx : s.objects o = some x) :
    Does s (.moveAssign o o) (s.put o (some (x.modify ({ · with fd := -1 }))))
  | destroy {o x} (hx : s.objects o = some x) :
    Does s (.destroy o) ((if -1 < x.fd then s.syscall (.close x.fd) else s).put o none)

variable {s s' : SocketHeap} {e : SocketEvent} {o dst src : Nat} {fd : Int} {a : Nat}
  {x y z : SocketObject}

theorem inv_init : Inv {} where
  balanced := Ledger.balanced_empty
  opened _ _ h := absurd h (by simp)
  injective _ _ _ h := absurd h (by simp)
  number _ _ h := absurd h (by simp)
  live _ _ h := absurd h (by simp)

@[simp] theorem gone_ledger : s.ledger.gone.map (·.1) = s.closed := by
  simp only [ledger, List.map_map, Function.comp_def, List.map_id']

theorem holds_ledger (hx : s.objects o = some x) : s.ledger.holds o = s.table x.fd := by
  simp only [ledger, hx, Option.bind_some]

theorem holds_ledger_none (free : s.objects o = none) : s.ledger.holds o = none := by
  simp only [ledger, free, Option.bind_none]

theorem Tabled.table_eq_none (tabled : Tabled s) (neg : fd < 0) : s.table fd = none := by
  cases h : s.table fd with
  | none => rfl
  | some a => exact absurd (tabled.number fd a h) (by omega)

theorem Tabled.table_neg_one (tabled : Tabled s) : s.table (-1) = none :=
  tabled.table_eq_none (by omega)

/-! ## What each operation does -/

@[simp] theorem fd_modify (x : SocketObject) (n : Int) :
    (x.modify ({ · with fd := n })).fd = n := by
  cases x <;> rfl

/-- The statements of `operator=`, onto another object. -/
theorem moveAssign_of_ne (ne : dst ≠ src) (hdst : s.objects dst = some x)
    (hsrc : s.objects src = some y) :
    s.moveAssign dst src = some
      ((s.put dst (some (x.modify fun t => { t with fd := y.fd, addr := y.inner.addr }))).put src
        (some (y.modify ({ · with fd := -1 })))) := by
  have ne' : src ≠ dst := ne.symm
  simp only [moveAssign, modify, put, hdst, hsrc, Option.bind_eq_bind, Option.bind_some,
    Option.pure_def, Function.update_self, Function.update_of_ne ne', Function.update_idem]
  cases x <;> rfl

/-- The statements of `operator=`, onto the same object. -/
theorem moveAssign_self (hx : s.objects o = some x) :
    s.moveAssign o o = some (s.put o (some (x.modify ({ · with fd := -1 })))) := by
  simp only [moveAssign, modify, put, hx, Option.bind_eq_bind, Option.bind_some, Option.pure_def,
    Function.update_self, Function.update_idem]
  cases x <;> rfl

theorem outcome_destroy (x : SocketObject) (log : List Syscall) :
    outcome x.destroy log = (.ok (), if -1 < x.fd then log ++ [.close x.fd] else log) := by
  have inner : x.destroy = x.inner.destroy := by cases x <;> rfl
  rw [inner, Socket.destroy]
  show _ = (_, if -1 < x.inner.fd then _ else _)
  by_cases h : -1 < x.inner.fd
  · rw [if_pos h, if_pos h]
    exact outcome_bind_ok outcome_call
  · rw [if_neg h, if_neg h]
    rfl

theorem keepsSelf_of_ne (ne : ∀ o, e ≠ .moveAssign o o) : KeepsSelf s e :=
  fun o h => absurd h (ne o)

/-- A move onto a place without an object is careful. -/
theorem careful_iff_of_free (careful : Careful s e) (free : s.objects dst = none) :
    Careful s e ↔ ∀ t, s.objects dst = some t → t.fd < 0 :=
  ⟨fun _ t h => absurd (free.symm.trans h) (by simp), fun _ => careful⟩

theorem does_of_construct {body : SysM Socket} (careful : Careful s e) (other : KeepsSelf s e)
    {t : Socket} {calls : List Syscall} (quiet : calls.foldl syscall (s.acquire t.fd) = s.acquire t.fd)
    (ok : outcome body [] = (.ok t, calls)) (h : s.construct o t.fd body = some s') :
    Does s e s' := by
  unfold construct at h
  split at h
  · rename_i free unused
    simp only [ok, quiet] at h
    cases h
    exact .acquire (x := .socket t) free unused careful other
  · cases h

theorem does_of_step (h : s.step e = some s') : Does s e s' := by
  cases e with
  | construct o fd addr outcomes =>
    by_cases failed : resultOn fd outcomes.setsockopt = -1
    · simp only [step, construct] at h
      split at h
      · rename_i free unused
        simp only [Socket.outcome_construct_error failed] at h
        cases h
        exact .throws free unused failed
      · cases h
    · have succeeded := of_not_not (mt resultOn_eq_iff.mpr failed)
      exact does_of_construct (t := ⟨fd, addr⟩) (fun _ => succeeded.2)
        (keepsSelf_of_ne fun o => by simp) rfl (Socket.outcome_construct_ok failed) h
  | constructPeer o fd addr =>
    exact does_of_construct (t := ⟨fd, addr⟩) trivial (keepsSelf_of_ne fun o => by simp) rfl rfl h
  | listener dst src =>
    simp only [step] at h
    split at h
    · rename_i t free hsrc
      cases h
      exact .transfer (by rintro rfl; cases free.symm.trans hsrc) hsrc rfl rfl
        (careful_iff_of_free trivial free) (keepsSelf_of_ne fun o => by simp)
    · cases h
  | moveConstruct dst src =>
    simp only [step] at h
    split at h
    · rename_i rhs free hsrc
      cases h
      have moved : rhs.moveConstruct.1.fd = rhs.fd ∧ rhs.moveConstruct.2.fd = -1 := by
        cases rhs <;> exact ⟨rfl, rfl⟩
      exact .transfer (by rintro rfl; cases free.symm.trans hsrc) hsrc moved.1 moved.2
        (careful_iff_of_free trivial free) (keepsSelf_of_ne fun o => by simp)
    · cases h
  | moveAssign lhs rhs =>
    simp only [step] at h
    split at h
    · rename_i x y hlhs hrhs
      split at h
      · by_cases same : lhs = rhs
        · subst same
          rw [moveAssign_self hlhs] at h
          cases h
          exact .assignSelf hlhs
        · rw [moveAssign_of_ne same hlhs hrhs] at h
          cases h
          refine .transfer same hrhs (by cases x <;> rfl) (fd_modify y _) ?_
            (keepsSelf_of_ne fun o heq => same (by cases heq; rfl))
          simp only [Careful, if_neg same]
      · cases h
    · cases h
  | destroy o =>
    simp only [step] at h
    split at h
    · rename_i x hx
      cases h
      rw [outcome_destroy]
      by_cases pos : -1 < x.fd
      · simpa only [if_pos pos, List.nil_append, List.foldl_cons, List.foldl_nil] using
          Does.destroy (s := s) hx
      · simpa only [if_neg pos, List.foldl_nil] using Does.destroy (s := s) hx
    · cases h

/-! ## The operations on the ledger -/

/-- A number that is none is not acquired. -/
theorem acquire_of_neg (neg : fd < 0) : s.acquire fd = s := if_neg (by omega)

theorem acquire_of_nonneg (pos : 0 ≤ fd) : s.acquire fd =
    { s with table := Function.update s.table fd (some s.acquired), acquired := s.acquired + 1 } :=
  if_pos pos

/-- A close of what is open. -/
theorem syscall_close (h : s.table fd = some a) : s.syscall (.close fd) =
    { s with table := Function.update s.table fd none, closed := s.closed ++ [a] } := by
  simp only [syscall, h]

/-- Another object's descriptor has another number. -/
theorem Inv.fd_ne {p : Nat} (inv : Inv s) (hx : s.objects o = some x) (hy : s.objects p = some y)
    (h : s.table x.fd = some a) (ne : p ≠ o) : y.fd ≠ x.fd := by
  intro same
  refine ne (inv.balanced.injective p o a ?_ ?_)
  · rw [holds_ledger hy, same, h]
  · rw [holds_ledger hx, h]

/-- No object reports a number that is not open. -/
theorem Inv.fd_ne_unused (inv : Inv s) (hy : s.objects o = some y) (unused : s.table fd = none)
    (pos : 0 ≤ fd) : y.fd ≠ fd := by
  rintro rfl
  obtain ⟨a, ha⟩ := inv.opened o y hy pos
  cases unused.symm.trans ha

theorem ledger_acquire (inv : Inv s) (free : s.objects o = none) (unused : s.table x.fd = none)
    (pos : 0 ≤ x.fd) : ((s.acquire x.fd).put o (some x)).ledger = s.ledger.acquire o := by
  rw [acquire_of_nonneg pos]
  refine Ledger.ext (funext fun p => ?_) rfl rfl
  by_cases hp : p = o
  · subst hp
    simp [ledger, put, Ledger.acquire]
  · rw [Ledger.acquire_holds_of_ne hp]
    simp only [ledger, put, Function.update_of_ne hp]
    cases hy : s.objects p with
    | none => rfl
    | some y => simp only [Option.bind_some, Function.update_of_ne (inv.fd_ne_unused hy unused pos)]

/-- A constructor that throws has acquired a descriptor for nobody. -/
theorem ledger_throws (inv : Inv s) (free : s.objects o = none) (unused : s.table fd = none)
    (pos : 0 ≤ fd) : (s.acquire fd).ledger = (s.ledger.acquire o).transfer o o := by
  rw [acquire_of_nonneg pos]
  refine Ledger.ext (funext fun p => ?_) rfl rfl
  by_cases hp : p = o
  · subst hp
    rw [Ledger.transfer_holds_src]
    simp only [ledger, free, Option.bind_none]
  · rw [Ledger.transfer_holds_of_ne hp hp, Ledger.acquire_holds_of_ne hp]
    simp only [ledger]
    cases hy : s.objects p with
    | none => rfl
    | some y => simp only [Option.bind_some, Function.update_of_ne (inv.fd_ne_unused hy unused pos)]

theorem ledger_put_of_neg (inv : Inv s) (free : s.objects o = none) (neg : x.fd < 0) :
    (s.put o (some x)).ledger = s.ledger := by
  refine Ledger.ext (funext fun p => ?_) rfl rfl
  by_cases hp : p = o
  · subst hp
    simp [ledger, put, free, inv.table_eq_none neg]
  · simp only [ledger, put, Function.update_of_ne hp]

theorem ledger_transfer (inv : Inv s) (ne : dst ≠ src) (hsrc : s.objects src = some x)
    (same : y.fd = x.fd) (left : z.fd = -1) :
    ((s.put dst (some y)).put src (some z)).ledger = s.ledger.transfer dst src := by
  refine Ledger.ext (funext fun p => ?_) rfl rfl
  by_cases hs : p = src
  · subst hs
    rw [Ledger.transfer_holds_src]
    simp [ledger, put, left, inv.table_neg_one]
  · by_cases hd : p = dst
    · subst hd
      rw [Ledger.transfer_holds_dst hs, holds_ledger hsrc]
      simp [ledger, put, hs, same]
    · rw [Ledger.transfer_holds_of_ne hd hs]
      simp [ledger, put, hs, hd]

/-- A self-move takes the descriptor from the object. -/
theorem ledger_assignSelf (inv : Inv s) (left : z.fd = -1) :
    (s.put o (some z)).ledger = s.ledger.transfer o o := by
  refine Ledger.ext (funext fun p => ?_) rfl rfl
  by_cases hp : p = o
  · subst hp
    rw [Ledger.transfer_holds_src]
    simp [ledger, put, left, inv.table_neg_one]
  · rw [Ledger.transfer_holds_of_ne hp hp]
    simp [ledger, put, hp]

theorem ledger_destroy (inv : Inv s) (hx : s.objects o = some x) (h : s.table x.fd = some a) :
    ((s.syscall (.close x.fd)).put o none).ledger = s.ledger.giveUp o .closed := by
  rw [syscall_close h]
  refine Ledger.ext (funext fun p => ?_) rfl ?_
  · by_cases hp : p = o
    · subst hp
      rw [Ledger.giveUp_holds_self]
      simp [ledger, put]
    · rw [Ledger.giveUp_holds_of_ne _ hp]
      simp only [ledger, put, Function.update_of_ne hp]
      cases hy : s.objects p with
      | none => rfl
      | some y => simp only [Option.bind_some, Function.update_of_ne (inv.fd_ne hx hy h hp)]
  · rw [Ledger.giveUp_gone_some ((holds_ledger hx).trans h)]
    simp [ledger, put]

theorem ledger_destroy_of_neg (inv : Inv s) (hx : s.objects o = some x) (neg : x.fd < 0) :
    (s.put o none).ledger = s.ledger := by
  refine Ledger.ext (funext fun p => ?_) rfl rfl
  by_cases hp : p = o
  · subst hp
    simp [ledger, put, hx, inv.table_eq_none neg]
  · simp only [ledger, put, Function.update_of_ne hp]

/-! ## The invariant -/

theorem Tabled.put (tabled : Tabled s) (o : Nat) (x : Option SocketObject) : Tabled (s.put o x) where
  injective := tabled.injective
  number := tabled.number
  live := tabled.live

theorem Inv.tabled_acquire (inv : Inv s) (fd : Int) : Tabled (s.acquire fd) := by
  by_cases pos : 0 ≤ fd
  · rw [acquire_of_nonneg pos]
    -- what the table has at a number is the new descriptor, or was there before
    have cases_table : ∀ n a, Function.update s.table fd (some s.acquired) n = some a →
        (n = fd ∧ a = s.acquired) ∨ s.table n = some a := by
      intro n a h
      by_cases hn : n = fd
      · subst hn
        rw [Function.update_self] at h
        exact .inl ⟨rfl, (Option.some.inj h).symm⟩
      · rw [Function.update_of_ne hn] at h
        exact .inr h
    refine ⟨fun n m a hn hm => ?_, fun n a hn => ?_, fun n a hn => ?_⟩
    · rcases cases_table n a hn with ⟨rfl, rfl⟩ | old <;>
        rcases cases_table m _ hm with ⟨rfl, new⟩ | old'
      · rfl
      · exact absurd (inv.live m _ old').1 (Nat.lt_irrefl _)
      · exact absurd (inv.live n a old).1 (by omega)
      · exact inv.injective n m a old old'
    · rcases cases_table n a hn with ⟨rfl, -⟩ | old
      · exact pos
      · exact inv.number n a old
    · rcases cases_table n a hn with ⟨-, rfl⟩ | old
      · refine ⟨Nat.lt_succ_self _, fun closed => ?_⟩
        rw [← gone_ledger] at closed
        exact absurd (inv.balanced.gone_lt _ closed) (Nat.lt_irrefl _)
      · exact ⟨Nat.lt_succ_of_lt (inv.live n a old).1, (inv.live n a old).2⟩
  · rw [acquire_of_neg (by omega)]
    exact inv.toTabled

theorem Tabled.close (tabled : Tabled s) (h : s.table fd = some a) :
    Tabled (s.syscall (.close fd)) := by
  rw [syscall_close h]
  have before : ∀ n b, Function.update s.table fd none n = some b → n ≠ fd ∧ s.table n = some b := by
    intro n b hn
    by_cases same : n = fd
    · subst same
      rw [Function.update_self] at hn
      cases hn
    · exact ⟨same, by rwa [Function.update_of_ne same] at hn⟩
  refine ⟨fun n m b hn hm => ?_, fun n b hn => ?_, fun n b hn => ?_⟩
  · exact tabled.injective n m b (before n b hn).2 (before m b hm).2
  · exact tabled.number n b (before n b hn).2
  · obtain ⟨ne, old⟩ := before n b hn
    refine ⟨(tabled.live n b old).1, fun mem => ?_⟩
    rcases List.mem_append.mp mem with mem | mem
    · exact (tabled.live n b old).2 mem
    · obtain rfl := List.mem_singleton.mp mem
      exact ne (tabled.injective n fd b old h)

/-- What an object reports after a change to one place. -/
theorem opened_put (opened : ∀ p y, s.objects p = some y → 0 ≤ y.fd → ∃ a, s.table y.fd = some a)
    (new : 0 ≤ x.fd → ∃ a, s.table x.fd = some a) :
    ∀ p y, (s.put o (some x)).objects p = some y → 0 ≤ y.fd → ∃ a, s.table y.fd = some a := by
  intro p y hy pos
  by_cases hp : p = o
  · subst hp
    simp only [put, Function.update_self, Option.some.injEq] at hy
    subst hy
    exact new pos
  · simp only [put, Function.update_of_ne hp] at hy
    exact opened p y hy pos

/-- The numbers that were open are open after an acquisition, and so is the new one. -/
theorem opened_acquire (inv : Inv s) (pos : 0 ≤ fd) :
    (∃ a, (s.acquire fd).table fd = some a) ∧
      ∀ p y, (s.acquire fd).objects p = some y → 0 ≤ y.fd →
        ∃ a, (s.acquire fd).table y.fd = some a := by
  rw [acquire_of_nonneg pos]
  refine ⟨⟨s.acquired, Function.update_self ..⟩, fun p y hy nonneg => ?_⟩
  by_cases same : y.fd = fd
  · exact ⟨s.acquired, by rw [same]; exact Function.update_self ..⟩
  · obtain ⟨a, ha⟩ := inv.opened p y hy nonneg
    exact ⟨a, by rw [← ha]; exact Function.update_of_ne same ..⟩

/-- **Every operation keeps the invariant**, careful or not. -/
theorem inv_step (inv : Inv s) (h : s.step e = some s') : Inv s' := by
  cases does_of_step h with
  | @acquire e o x free unused =>
    refine { (inv.tabled_acquire x.fd).put o _ with balanced := ?_, opened := ?_ }
    · by_cases pos : 0 ≤ x.fd
      · rw [ledger_acquire inv free unused pos]
        exact inv.balanced.acquire o
      · rw [acquire_of_neg (by omega), ledger_put_of_neg inv free (by omega)]
        exact inv.balanced
    · by_cases pos : 0 ≤ x.fd
      · exact opened_put (opened_acquire inv pos).2 fun _ => (opened_acquire inv pos).1
      · rw [acquire_of_neg (by omega)]
        exact opened_put inv.opened fun nonneg => absurd nonneg pos
  | @throws o fd addr outcomes free unused =>
    refine { inv.tabled_acquire fd with balanced := ?_, opened := ?_ }
    · by_cases pos : 0 ≤ fd
      · rw [ledger_throws inv free unused pos]
        exact (inv.balanced.acquire o).transfer o o
      · rw [acquire_of_neg (by omega)]
        exact inv.balanced
    · by_cases pos : 0 ≤ fd
      · exact (opened_acquire inv pos).2
      · rw [acquire_of_neg (by omega)]
        exact inv.opened
  | @transfer e dst src x y z ne hsrc same left =>
    refine { (inv.toTabled.put dst _).put src _ with balanced := ?_, opened := ?_ }
    · rw [ledger_transfer inv ne hsrc same left]
      exact inv.balanced.transfer dst src
    · refine opened_put (s := s.put dst (some y)) (opened_put inv.opened ?_) ?_
      · exact fun pos => by rw [same] at pos ⊢; exact inv.opened src x hsrc pos
      · exact fun pos => absurd pos (by omega)
  | @assignSelf o x hx =>
    refine { inv.toTabled.put o _ with balanced := ?_, opened := ?_ }
    · rw [ledger_assignSelf inv (fd_modify x _)]
      exact inv.balanced.transfer o o
    · exact opened_put inv.opened fun pos => by simp at pos
  | @destroy o x hx =>
    by_cases open_fd : -1 < x.fd
    · obtain ⟨a, ha⟩ := inv.opened o x hx (by omega)
      rw [if_pos open_fd]
      refine { (inv.toTabled.close ha).put o _ with balanced := ?_, opened := ?_ }
      · rw [ledger_destroy inv hx ha]
        exact inv.balanced.giveUp o .closed
      · intro p y hy pos
        rw [syscall_close ha] at hy ⊢
        by_cases hp : p = o
        · subst hp
          simp [put] at hy
        · simp only [put, Function.update_of_ne hp] at hy
          obtain ⟨b, hb⟩ := inv.opened p y hy pos
          exact ⟨b, by rw [← hb]; exact Function.update_of_ne (inv.fd_ne hx hy ha hp) ..⟩
    · rw [if_neg open_fd]
      refine { inv.toTabled.put o _ with balanced := ?_, opened := ?_ }
      · rw [ledger_destroy_of_neg inv hx (by omega)]
        exact inv.balanced
      · intro p y hy pos
        by_cases hp : p = o
        · subst hp
          simp [put] at hy
        · simp only [put, Function.update_of_ne hp] at hy
          exact inv.opened p y hy pos

/-! ## Exactness -/

/-- The invariant of a run whose operations are all careful. -/
structure CarefulInv (s : SocketHeap) : Prop extends Inv s where
  covered : s.ledger.Covered

theorem carefulInv_init : CarefulInv {} := { inv_init with covered := Ledger.covered_empty }

/-- **What a careful run keeps is what its states should satisfy.** -/
theorem closedOnce_of_inv (inv : CarefulInv s) : ClosedOnce s where
  reported o x hx pos := by
    obtain ⟨a, ha⟩ := inv.opened o x hx pos
    exact ⟨a, ha, (inv.live x.fd a ha).2⟩
  once := gone_ledger ▸ inv.balanced.gone_nodup
  covered a ha := by
    rcases inv.covered a ha with gone | ⟨o, held⟩
    · exact .inl (gone_ledger ▸ gone)
    · obtain ⟨x, hx, open_fd⟩ := Option.bind_eq_some_iff.mp held
      exact .inr ⟨o, x, hx, open_fd⟩
  settled gone a ha := by
    have closed : a ∈ s.ledger.gone.map (·.1) := by
      rcases inv.covered a ha with closed | ⟨o, held⟩
      · exact closed
      · rw [holds_ledger_none (gone o)] at held
        cases held
    rw [gone_ledger] at closed
    exact List.count_eq_one_of_mem (gone_ledger ▸ inv.balanced.gone_nodup) closed

/-- A state that loses no descriptor has a ledger that loses none. -/
theorem ClosedOnce.covered_ledger (once : ClosedOnce s) : s.ledger.Covered := by
  intro a ha
  rcases once.covered a ha with closed | ⟨o, x, hx, open_fd⟩
  · exact .inl (gone_ledger ▸ closed)
  · exact .inr ⟨o, (holds_ledger hx).trans open_fd⟩

/-- **A careful operation keeps the careful invariant.** -/
theorem carefulInv_step (inv : CarefulInv s) (careful : Careful s e) (h : s.step e = some s') :
    CarefulInv s' := by
  refine { inv_step inv.toInv h with covered := ?_ }
  cases does_of_step h with
  | @acquire e o x free unused =>
    by_cases pos : 0 ≤ x.fd
    · rw [ledger_acquire inv.toInv free unused pos]
      exact inv.covered.acquire (holds_ledger_none free)
    · rw [acquire_of_neg (by omega), ledger_put_of_neg inv.toInv free (by omega)]
      exact inv.covered
  | @throws o fd addr outcomes free unused failed =>
    have neg : fd < 0 := by
      by_contra pos
      exact resultOn_eq_iff.mp failed ⟨by omega, careful (by omega)⟩
    rw [acquire_of_neg neg]
    exact inv.covered
  | @transfer e dst src x y z ne hsrc same left careful_iff =>
    rw [ledger_transfer inv.toInv ne hsrc same left]
    refine inv.covered.transfer ne ?_
    cases hdst : s.objects dst with
    | none => exact holds_ledger_none hdst
    | some t => rw [holds_ledger hdst, inv.table_eq_none (careful_iff.mp careful t hdst)]
  | @assignSelf o x hx =>
    -- the object has no descriptor, so the number it is given is the one it has
    have empty : x.fd = -1 := by simpa [Careful] using careful x hx
    have same : x.modify ({ · with fd := -1 }) = x := by
      cases x <;> simp only [SocketObject.modify, ← empty] <;> rfl
    rw [same]
    have unchanged : s.put o (some x) = s := by
      rw [put, ← hx, Function.update_eq_self]
    rw [unchanged]
    exact inv.covered
  | @destroy o x hx =>
    by_cases open_fd : -1 < x.fd
    · obtain ⟨a, ha⟩ := inv.opened o x hx (by omega)
      rw [if_pos open_fd, ledger_destroy inv.toInv hx ha]
      exact inv.covered.giveUp o .closed
    · rw [if_neg open_fd, ledger_destroy_of_neg inv.toInv hx (by omega)]
      exact inv.covered

/-- A careful operation that is a self-move changes nothing. -/
theorem keepsSelf_of_careful (careful : Careful s e) : KeepsSelf s e := by
  rintro o rfl s' h
  cases does_of_step h with
  | acquire _ _ _ other => exact other o rfl _ h
  | transfer _ _ _ _ _ other => exact other o rfl _ h
  | @assignSelf o x hx =>
    have empty : x.fd = -1 := by simpa [Careful] using careful x hx
    show Function.update s.objects o _ o = _
    rw [Function.update_self, hx]
    cases x <;> simp only [SocketObject.modify, ← empty] <;> rfl

/-- **A careless operation loses a descriptor**, unless it is a self-move that changes its object. -/
theorem not_closedOnce_of_careless (inv : CarefulInv s) (keeps : KeepsSelf s e)
    (careless : ¬ Careful s e) (h : s.step e = some s') : ¬ ClosedOnce s' := by
  intro once
  have covered := once.covered_ledger
  cases does_of_step h with
  | acquire _ _ careful => exact careless careful
  | @throws o fd addr outcomes free unused failed =>
    have pos : 0 ≤ fd := by
      by_contra neg
      exact careless fun pos => absurd pos neg
    rw [ledger_throws inv.toInv free unused pos] at covered
    exact (inv.balanced.acquire o).not_covered_transfer (Ledger.acquire_holds_self o) covered
  | @transfer e dst src x y z ne hsrc same left careful_iff =>
    rw [ledger_transfer inv.toInv ne hsrc same left] at covered
    refine careless (careful_iff.mpr fun t hdst => ?_)
    by_contra pos
    obtain ⟨a, ha⟩ := inv.opened dst t hdst (by omega)
    exact inv.balanced.not_covered_transfer ((holds_ledger hdst).trans ha) covered
  | @assignSelf o x hx =>
    have same := keeps o rfl _ h
    simp only [put, Function.update_self, hx, Option.some.injEq] at same
    refine careless fun t ht => ?_
    obtain rfl := Option.some.inj (hx.symm.trans ht)
    rw [if_pos rfl, ← same, fd_modify]
  | destroy => exact careless trivial

/-- **Every descriptor is closed exactly once, and self-moves change nothing, exactly when the
operations of a run are all careful.** -/
theorem closedOnce_iff_careful (es : List SocketEvent) :
    (Always step ClosedOnce {} es ∧ Meets step KeepsSelf {} es) ↔ Meets step Careful {} es := by
  have exactly : Meets step KeepsSelf {} es →
      (Always step ClosedOnce {} es ↔ Meets step Careful {} es) :=
    always_iff_meets_of (fun _ _ _ inv _ => carefulInv_step inv) (fun _ => closedOnce_of_inv)
      (fun _ _ _ => not_closedOnce_of_careless) carefulInv_init
  constructor
  · rintro ⟨always, keeps⟩
    exact (exactly keeps).mp always
  · intro careful
    have keeps : Meets step KeepsSelf {} es := fun pre e s₁ s₂ hpre h₁ h₂ =>
      keepsSelf_of_careful (careful pre e s₁ s₂ hpre h₁ h₂)
    exact ⟨(exactly keeps).mpr careful, keeps⟩

/-- Two sockets, with the descriptors 5 and 6; the second is assigned to the first, then both are
destroyed. -/
def assignedRun : List SocketEvent :=
  let addr : SocketAddr := ⟨.v4 ⟨2, htons 20589, .replicate 4 0, .replicate 8 0⟩, 16⟩
  [.construct 0 5 addr ⟨5, true, true, true⟩, .construct 1 6 addr ⟨6, true, true, true⟩,
    .moveAssign 0 1, .destroy 0, .destroy 1]

/-- A socket with the descriptor 5 is assigned to itself. -/
def selfRun : List SocketEvent :=
  [.construct 0 5 ⟨.v4 ⟨2, htons 20589, .replicate 4 0, .replicate 8 0⟩, 16⟩ ⟨5, true, true, true⟩,
    .moveAssign 0 0]

/-- The descriptor 5 is never closed; and the socket assigned to itself has lost it. -/
theorem not_closedOnce_assigned :
    ¬ Always step ClosedOnce {} assignedRun ∧ ¬ Meets step KeepsSelf {} selfRun := by
  constructor
  · intro always
    have gone : ∀ o, ((exec step {} assignedRun).get rfl).objects o = none
      | 0 => rfl
      | 1 => rfl
      | o + 2 => rfl
    have count := (always.final (Option.some_get rfl).symm).settled gone 0 (by decide)
    revert count
    decide
  · intro keeps
    have same := keeps selfRun.dropLast (.moveAssign 0 0) _ _ ⟨[], rfl⟩ rfl rfl 0 rfl _ rfl
    revert same
    decide

end CoNet.Net.SocketHeap
