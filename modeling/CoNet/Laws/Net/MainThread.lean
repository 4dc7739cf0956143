import CoNet.Net.MainThread

/-!
# The closes of the main thread

`ClosesOnce` is what one state of the main thread should satisfy: every close request a destructor
submitted names the descriptor of an accepted connection that the destroyed object still held, none
is submitted for the same connection twice or for a released one, and no accepted connection is
lost, so that once all objects are gone each one never released has been closed exactly once.

The move constructor and the move assignment copy `ownership_in_sys_ring_` and leave it set in the
object moved from, whose destructor then closes descriptor -1, and the assignment overwrites what
its target owned. `Careful` names the operations that meet neither. `closesOnce_iff_careful`: a run
of the main thread keeps `ClosesOnce` in all its states exactly when all its operations are careful.

The proof carries one invariant (`Inv`) that says how the fields of each object show what the
ledger says it holds; each operation keeps it (`inv_step`).
-/

set_option autoImplicit false

namespace CoNet.Net.MainThread

open CoNet.Io Transition

/-- What one state of the main thread should satisfy. -/
structure ClosesOnce (s : MainThread) : Prop where
  /-- A close names a descriptor that the destroyed object still owned. -/
  owned : ∀ r ∈ s.closes, 0 ≤ r.fd ∧ ∃ a, r.held = some a ∧ s.accepted[a]? = some r.fd
  /-- No accepted connection is submitted for close twice. -/
  once : s.closed.Nodup
  /-- A released connection is not closed. -/
  kept : ∀ a ∈ s.released, a ∉ s.closed
  /-- No accepted connection is lost: it is released, closed, or held by an object. -/
  covered : ∀ a < s.accepted.length, a ∈ s.released ∨ a ∈ s.closed ∨
    ∃ o c, s.objects o = some c ∧ s.ledger.holds o = some a ∧ c.ownershipInSysRing = true ∧
      s.accepted[a]? = some c.socket
  /-- Once all objects are gone, each connection never released was closed exactly once. -/
  settled : (∀ o, s.objects o = none) → ∀ a < s.accepted.length, a ∉ s.released →
    s.closed.count a = 1

/-- The operations that go right: an object that is destroyed is not one that was moved from with
its flag still set, and a move assignment does not overwrite an owned descriptor. -/
def Careful (s : MainThread) : MainEvent → Prop
  | .destroy o => ∀ c, s.objects o = some c → c.ownershipInSysRing = true → c.socket ≠ -1
  | .moveAssign dst src =>
    dst ≠ src → ∀ c, s.objects dst = some c → c.ownershipInSysRing = true → c.socket = -1
  | _ => True

/-! ## The invariant -/

/-- How an object's fields show what it holds. -/
structure Shows (accepted : List Int) (c : TcpConnection) (held : Option Nat) : Prop where
  this : c.directFdInThisRing = -1
  holding : ∀ a, held = some a →
    c.ownershipInSysRing = true ∧ 0 ≤ c.socket ∧ accepted[a]? = some c.socket
  empty : held = none → c.ownershipInSysRing = true → c.socket = -1

structure Inv (s : MainThread) : Prop where
  balanced : s.ledger.Balanced
  acquired : s.ledger.acquired = s.accepted.length
  closed_eq : s.closed = s.ledger.met .closed
  dead : ∀ o, s.objects o = none → s.ledger.holds o = none
  live : ∀ o c, s.objects o = some c → Shows s.accepted c (s.ledger.holds o)

variable {s s' : MainThread}

theorem inv_init : Inv init where
  balanced := Ledger.balanced_empty
  acquired := rfl
  closed_eq := rfl
  dead _ _ := rfl
  live _ _ h := nomatch h

/-- An object moved from holds nothing. -/
theorem Shows.movedFrom {accepted : List Int} {c : TcpConnection} :
    Shows accepted c.movedFrom none :=
  ⟨rfl, fun _ h => (nomatch h), fun _ _ => rfl⟩

/-- A later acceptance changes no earlier one. -/
theorem Shows.append {accepted : List Int} {c : TcpConnection} {held : Option Nat} (slot : Int)
    (h : Shows accepted c held) : Shows (accepted ++ [slot]) c held := by
  refine ⟨h.this, fun a ha => ?_, h.empty⟩
  obtain ⟨ho, hs, hget⟩ := h.holding a ha
  refine ⟨ho, hs, ?_⟩
  rw [List.getElem?_append_left (List.getElem?_eq_some_iff.mp hget).1, hget]

theorem Shows.of_owned {accepted : List Int} {c : TcpConnection} {held : Option Nat}
    (h : Shows accepted c held) (ho : c.ownershipInSysRing = true) (hs : c.socket ≠ -1) :
    ∃ a, held = some a ∧ 0 ≤ c.socket ∧ accepted[a]? = some c.socket := by
  cases held with
  | none => exact absurd (h.empty rfl ho) hs
  | some a => exact ⟨a, rfl, (h.holding a rfl).2⟩

/-- What an accepted descriptor's object shows. -/
theorem Shows.accept {accepted : List Int} {slot : Int} (h : 0 ≤ slot) :
    Shows (accepted ++ [slot]) (.ofDirectSocket slot) (some accepted.length) := by
  refine ⟨rfl, fun a ha => ?_, fun hn => nomatch hn⟩
  obtain rfl := Option.some.inj ha
  exact ⟨rfl, h, List.getElem?_concat_length⟩

/-- A destructor submits a close exactly for an object with the flag. -/
theorem Shows.destroy {accepted : List Int} {c : TcpConnection} {held : Option Nat}
    (h : Shows accepted c held) :
    (c.ownershipInSysRing = true ∧ c.destroy = some ⟨.sysUringLoop, .closeDirect, c.socket⟩) ∨
      (c.ownershipInSysRing = false ∧ held = none ∧ c.destroy = none) := by
  cases ho : c.ownershipInSysRing with
  | true => exact .inl ⟨rfl, TcpConnection.destroy_owned ho⟩
  | false =>
    refine .inr ⟨rfl, ?_, TcpConnection.destroy_none ho h.this⟩
    cases hh : held with
    | none => rfl
    | some a =>
      have := (h.holding a hh).1
      rw [ho] at this
      cases this

/-! ## What each operation does -/

/-- The steps of the main thread, one constructor an outcome of an operation. -/
inductive Does (s : MainThread) : MainEvent → MainThread → Prop where
  | accept {o slot} (free : s.objects o = none) (pos : 0 ≤ slot) :
    Does s (.accept o slot) { s with
      objects := Function.update s.objects o (some (.ofDirectSocket slot))
      accepted := s.accepted ++ [slot]
      ledger := s.ledger.acquire o }
  | construct {dst src c} (free : s.objects dst = none) (hsrc : s.objects src = some c) :
    Does s (.moveConstruct dst src) { s with
      objects := Function.update (Function.update s.objects dst (some c)) src (some c.movedFrom)
      ledger := s.ledger.transfer dst src }
  | assign {dst src d c} (ne : dst ≠ src) (hdst : s.objects dst = some d)
      (hsrc : s.objects src = some c) :
    Does s (.moveAssign dst src) { s with
      objects := Function.update (Function.update s.objects dst (some c)) src (some c.movedFrom)
      ledger := s.ledger.transfer dst src }
  | assignSelf {o} : Does s (.moveAssign o o) s
  | release {o c} (hc : s.objects o = some c) (owned : c.ownershipInSysRing = true) :
    Does s (.release o) { s with
      objects := Function.update s.objects o
        (some { c with directFdInSysRing := -1, ownershipInSysRing := false })
      ledger := s.ledger.giveUp o .released }
  | releaseThrows {o} : Does s (.release o) s
  | destroySilent {o c} (hc : s.objects o = some c) (hd : c.destroy = none) :
    Does s (.destroy o) { s with objects := Function.update s.objects o none }
  | destroyCloses {o c r} (hc : s.objects o = some c) (hd : c.destroy = some r) :
    Does s (.destroy o) { s with
      objects := Function.update s.objects o none
      closes := s.closes ++ [⟨r.fd, s.ledger.holds o⟩]
      ledger := s.ledger.giveUp o .closed }

theorem does_of_step {e : MainEvent} (h : s.step e = some s') : Does s e s' := by
  cases e with
  | accept o slot =>
    simp only [step] at h
    split at h
    · cases h
    · split at h
      · cases h
        exact .accept ‹_› ‹_›
      · cases h
  | moveConstruct dst src =>
    simp only [step] at h
    split at h
    · cases h
      exact .construct ‹_› ‹_›
    · cases h
  | moveAssign dst src =>
    simp only [step] at h
    split at h
    · rename_i d c hdst hsrc
      split at h
      · rename_i same
        subst same
        rw [TcpConnection.moveAssignSelf_eq, ← hsrc, Function.update_eq_self] at h
        cases h
        exact .assignSelf
      · rename_i ne
        cases h
        exact .assign ne hdst hsrc
    · cases h
  | release o =>
    simp only [step] at h
    split at h
    · cases h
    · rename_i c hc
      cases hr : c.release with
      | error msg =>
        simp only [hr] at h
        cases h
        exact .releaseThrows
      | ok c' =>
        simp only [hr] at h
        obtain ⟨owned, rfl⟩ := TcpConnection.release_eq_ok hr
        cases h
        exact .release hc owned
  | destroy o =>
    simp only [step] at h
    split at h
    · cases h
    · rename_i c hc
      cases hd : c.destroy with
      | none =>
        simp only [hd] at h
        cases h
        exact .destroySilent hc hd
      | some r =>
        simp only [hd] at h
        cases h
        exact .destroyCloses hc hd

/-- The invariant after a move onto another place, constructed or assigned. -/
theorem inv_move {dst src : ObjId} {c : TcpConnection} (inv : Inv s) (ne : dst ≠ src)
    (hsrc : s.objects src = some c) :
    Inv { s with
      objects := Function.update (Function.update s.objects dst (some c)) src (some c.movedFrom)
      ledger := s.ledger.transfer dst src } where
  balanced := inv.balanced.transfer dst src
  acquired := inv.acquired
  closed_eq := inv.closed_eq
  dead o ho := by
    by_cases hs : o = src
    · subst hs
      simp only [Function.update_self, reduceCtorEq] at ho
    · by_cases hd : o = dst
      · subst hd
        simp only [Function.update_of_ne hs, Function.update_self, reduceCtorEq] at ho
      · simp only [Function.update_of_ne hs, Function.update_of_ne hd] at ho
        simp only [Ledger.transfer_holds_of_ne hd hs]
        exact inv.dead o ho
  live o c' ho := by
    by_cases hs : o = src
    · subst hs
      simp only [Function.update_self, Option.some.injEq] at ho
      subst ho
      simp only [Ledger.transfer_holds_src]
      exact Shows.movedFrom
    · by_cases hd : o = dst
      · subst hd
        simp only [Function.update_of_ne hs, Function.update_self, Option.some.injEq] at ho
        subst ho
        simp only [Ledger.transfer_holds_dst hs]
        exact inv.live src c hsrc
      · simp only [Function.update_of_ne hs, Function.update_of_ne hd] at ho
        simp only [Ledger.transfer_holds_of_ne hd hs]
        exact inv.live o c' ho

/-- A close request is recorded for what the ledger gives up as closed. -/
theorem closed_giveUp {o : ObjId} {fd : Int} (h : s.closed = s.ledger.met .closed) :
    (s.closes ++ [CloseRecord.mk fd (s.ledger.holds o)]).filterMap (·.held) =
      (s.ledger.giveUp o .closed).met .closed := by
  have hr : [CloseRecord.mk fd (s.ledger.holds o)].filterMap (·.held) =
      (s.ledger.holds o).toList := by
    cases s.ledger.holds o <;> rfl
  rw [List.filterMap_append, hr, Ledger.met_giveUp, if_pos rfl, ← h]
  rfl

/-- **Every operation keeps the invariant**, careful or not. -/
theorem inv_step {e : MainEvent} (inv : Inv s) (h : s.step e = some s') : Inv s' := by
  cases does_of_step h with
  | @accept o slot free pos =>
    refine ⟨inv.balanced.acquire o, ?_, inv.closed_eq, ?_, ?_⟩
    · simp only [Ledger.acquire, List.length_append, List.length_cons, List.length_nil, inv.acquired]
    · intro o' ho'
      by_cases ho : o' = o
      · subst ho
        simp only [Function.update_self, reduceCtorEq] at ho'
      · simp only [Function.update_of_ne ho] at ho'
        simp only [Ledger.acquire_holds_of_ne ho]
        exact inv.dead o' ho'
    · intro o' c' ho'
      by_cases ho : o' = o
      · subst ho
        simp only [Function.update_self, Option.some.injEq] at ho'
        subst ho'
        simp only [Ledger.acquire_holds_self, inv.acquired]
        exact Shows.accept pos
      · simp only [Function.update_of_ne ho] at ho'
        simp only [Ledger.acquire_holds_of_ne ho]
        exact (inv.live o' c' ho').append slot
  | @construct dst src c free hsrc =>
    have ne : dst ≠ src := fun e => by
      rw [e, hsrc] at free
      cases free
    exact inv_move inv ne hsrc
  | assign ne hdst hsrc => exact inv_move inv ne hsrc
  | assignSelf => exact inv
  | releaseThrows => exact inv
  | @release o c hc owned =>
    refine ⟨inv.balanced.giveUp o .released, inv.acquired, ?_, ?_, ?_⟩
    · rw [Ledger.met_giveUp, if_neg (by decide), List.append_nil]
      exact inv.closed_eq
    · intro o' ho'
      by_cases ho : o' = o
      · subst ho
        simp only [Function.update_self, reduceCtorEq] at ho'
      · simp only [Function.update_of_ne ho] at ho'
        simp only [Ledger.giveUp_holds_of_ne _ ho]
        exact inv.dead o' ho'
    · intro o' c' ho'
      by_cases ho : o' = o
      · subst ho
        simp only [Function.update_self, Option.some.injEq] at ho'
        subst ho'
        simp only [Ledger.giveUp_holds_self]
        exact ⟨(inv.live o' c hc).this, fun _ hn => (nomatch hn), fun _ hf => (nomatch hf)⟩
      · simp only [Function.update_of_ne ho] at ho'
        simp only [Ledger.giveUp_holds_of_ne _ ho]
        exact inv.live o' c' ho'
  | @destroySilent o c hc hd =>
    have none_held : s.ledger.holds o = none := by
      rcases (inv.live o c hc).destroy with ⟨-, hcl⟩ | ⟨-, hn, -⟩
      · rw [hd] at hcl
        cases hcl
      · exact hn
    refine ⟨inv.balanced, inv.acquired, inv.closed_eq, ?_, ?_⟩
    · intro o' ho'
      by_cases ho : o' = o
      · exact ho ▸ none_held
      · simp only [Function.update_of_ne ho] at ho'
        exact inv.dead o' ho'
    · intro o' c' ho'
      by_cases ho : o' = o
      · subst ho
        simp only [Function.update_self, reduceCtorEq] at ho'
      · simp only [Function.update_of_ne ho] at ho'
        exact inv.live o' c' ho'
  | @destroyCloses o c r hc hd =>
    refine ⟨inv.balanced.giveUp o .closed, inv.acquired, closed_giveUp inv.closed_eq, ?_, ?_⟩
    · intro o' ho'
      by_cases ho : o' = o
      · subst ho
        exact Ledger.giveUp_holds_self ..
      · simp only [Function.update_of_ne ho] at ho'
        simp only [Ledger.giveUp_holds_of_ne _ ho]
        exact inv.dead o' ho'
    · intro o' c' ho'
      by_cases ho : o' = o
      · subst ho
        simp only [Function.update_self, reduceCtorEq] at ho'
      · simp only [Function.update_of_ne ho] at ho'
        simp only [Ledger.giveUp_holds_of_ne _ ho]
        exact inv.live o' c' ho'

/-! ## Exactness -/

/-- The invariant of a run whose operations are all careful. -/
structure CarefulInv (s : MainThread) : Prop extends Inv s where
  covered : s.ledger.Covered
  owned : ∀ r ∈ s.closes, 0 ≤ r.fd ∧ ∃ a, r.held = some a ∧ s.accepted[a]? = some r.fd

theorem carefulInv_init : CarefulInv init :=
  { inv_init with
    covered := Ledger.covered_empty
    owned := fun _ h => (nomatch h) }

/-- A held connection is held by an object that shows it. -/
theorem Inv.holder (inv : Inv s) {o : ObjId} {a : Nat} (h : s.ledger.holds o = some a) :
    ∃ c, s.objects o = some c ∧ c.ownershipInSysRing = true ∧ 0 ≤ c.socket ∧
      s.accepted[a]? = some c.socket := by
  cases hc : s.objects o with
  | none =>
    rw [inv.dead o hc] at h
    cases h
  | some c => exact ⟨c, rfl, (inv.live o c hc).holding a h⟩

/-- **What a careful run keeps is what its states should satisfy.** -/
theorem closesOnce_of_inv (inv : CarefulInv s) : ClosesOnce s where
  owned := inv.owned
  once := inv.closed_eq ▸ inv.balanced.met_nodup .closed
  kept a ha hc := inv.balanced.not_both ha (inv.closed_eq ▸ hc)
  covered a ha := by
    rcases inv.covered a (inv.acquired ▸ ha) with h | ⟨o, h⟩
    · rcases Ledger.met_of_gone h with h | h
      · exact .inl h
      · exact .inr (.inl (inv.closed_eq ▸ h))
    · obtain ⟨c, hc, hf, -, hget⟩ := inv.holder h
      exact .inr (.inr ⟨o, c, hc, h, hf, hget⟩)
  settled gone a ha hr := by
    rw [inv.closed_eq]
    exact Ledger.closed_once inv.balanced inv.covered (fun o => inv.dead o (gone o))
      (inv.acquired ▸ ha) hr

/-- A careful move assignment's target holds nothing. -/
theorem holds_of_careful {dst src : ObjId} {d : TcpConnection} (inv : Inv s)
    (careful : Careful s (.moveAssign dst src)) (ne : dst ≠ src)
    (hdst : s.objects dst = some d) : s.ledger.holds dst = none := by
  cases hh : s.ledger.holds dst with
  | none => rfl
  | some a =>
    obtain ⟨hf, hpos, -⟩ := (inv.live dst d hdst).holding a hh
    have := careful ne d hdst hf
    omega

/-- **A careful operation keeps the careful invariant.** -/
theorem carefulInv_step {e : MainEvent} (inv : CarefulInv s) (careful : Careful s e)
    (h : s.step e = some s') : CarefulInv s' := by
  have inv' := inv_step inv.toInv h
  cases does_of_step h with
  | @accept o slot free pos =>
    refine { inv' with covered := inv.covered.acquire (inv.dead o free), owned := ?_ }
    intro r hr
    obtain ⟨hpos, a, ha, hget⟩ := inv.owned r hr
    refine ⟨hpos, a, ha, ?_⟩
    rw [List.getElem?_append_left (List.getElem?_eq_some_iff.mp hget).1, hget]
  | @construct dst src c free hsrc =>
    have ne : dst ≠ src := fun e => by
      rw [e, hsrc] at free
      cases free
    exact { inv' with covered := inv.covered.transfer ne (inv.dead dst free), owned := inv.owned }
  | assign ne hdst hsrc =>
    have hd := holds_of_careful inv.toInv careful ne hdst
    exact { inv' with covered := inv.covered.transfer ne hd, owned := inv.owned }
  | assignSelf => exact inv
  | releaseThrows => exact inv
  | @release o => exact { inv' with covered := inv.covered.giveUp o .released, owned := inv.owned }
  | destroySilent => exact { inv' with covered := inv.covered, owned := inv.owned }
  | @destroyCloses o c r hc hd =>
    refine { inv' with covered := inv.covered.giveUp o .closed, owned := ?_ }
    intro r' hr'
    rcases List.mem_append.mp hr' with hr' | hr'
    · exact inv.owned r' hr'
    · obtain rfl := List.mem_singleton.mp hr'
      rcases (inv.live o c hc).destroy with ⟨hf, hcl⟩ | ⟨-, -, hcl⟩
      · rw [hd, Option.some.injEq] at hcl
        subst hcl
        obtain ⟨a, ha, hpos, hget⟩ := (inv.live o c hc).of_owned hf (careful c hc hf)
        exact ⟨hpos, a, ha, hget⟩
      · rw [hd] at hcl
        cases hcl

/-- **A careless operation leaves the property false**: a destructor closes descriptor -1, or an
assignment loses the connection its target held. -/
theorem not_closesOnce_of_careless {e : MainEvent} (inv : CarefulInv s) (careless : ¬ Careful s e)
    (h : s.step e = some s') : ¬ ClosesOnce s' := by
  intro once
  cases does_of_step h with
  | accept | construct | release | releaseThrows => exact careless trivial
  | assignSelf => exact careless fun ne => absurd rfl ne
  | @assign dst src d c ne hdst hsrc =>
    obtain ⟨hf, hs⟩ : d.ownershipInSysRing = true ∧ d.socket ≠ -1 := by
      by_contra hcon
      refine careless fun _ d' hd' hf => ?_
      obtain rfl := Option.some.inj (hdst.symm.trans hd')
      by_contra hs
      exact hcon ⟨hf, hs⟩
    obtain ⟨a, ha, -, -⟩ := (inv.live dst d hdst).of_owned hf hs
    have lost : ¬ (s.ledger.transfer dst src).Covered := inv.balanced.not_covered_transfer ha
    refine lost fun b hb => ?_
    rcases once.covered b (inv.acquired ▸ hb) with hr | hc | ⟨o, -, -, ho, -⟩
    · exact .inl (Ledger.gone_of_met hr)
    · exact .inl (Ledger.gone_of_met (inv.closed_eq ▸ hc))
    · exact .inr ⟨o, ho⟩
  | @destroySilent o c hc hd =>
    refine careless fun c' hc' hf => ?_
    obtain rfl := Option.some.inj (hc.symm.trans hc')
    rw [TcpConnection.destroy_owned hf] at hd
    cases hd
  | @destroyCloses o c r hc hd =>
    obtain ⟨hf, hs⟩ : c.ownershipInSysRing = true ∧ c.socket = -1 := by
      by_contra hcon
      refine careless fun c' hc' hf hs => hcon ?_
      obtain rfl := Option.some.inj (hc.symm.trans hc')
      exact ⟨hf, hs⟩
    rw [TcpConnection.destroy_owned hf, Option.some.injEq] at hd
    subst hd
    have := (once.owned _ (List.mem_append_right _ (List.mem_singleton_self _))).1
    simp only [hs] at this
    omega

/-- **A run of the main thread closes every accepted descriptor exactly once exactly when its
operations are all careful.** -/
theorem closesOnce_iff_careful (es : List MainEvent) :
    Always step ClosesOnce init es ↔ Meets step Careful init es :=
  always_iff_meets (fun _ _ _ => carefulInv_step) (fun _ => closesOnce_of_inv)
    (fun _ _ _ => not_closesOnce_of_careless) carefulInv_init

/-- An accepted connection is moved once and the object moved from is destroyed: its destructor
closes descriptor -1, which the kernel reads as the process's ordinary descriptor 0. -/
theorem not_closesOnce_movedFrom :
    ∃ s, exec step init [.accept 0 5, .moveConstruct 1 0, .destroy 0] = some s ∧
      s.closes = [⟨-1, none⟩] ∧ prepCloseDirect (-1) = .ordinary 0 ∧ ¬ ClosesOnce s :=
  ⟨_, rfl, rfl, rfl, fun h => absurd (h.owned ⟨-1, none⟩ (by decide)).1 (by decide)⟩

end CoNet.Net.MainThread
