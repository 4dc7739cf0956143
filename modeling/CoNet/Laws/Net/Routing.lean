import CoNet.Net.Routing

/-!
# Requests go to the ring that allocated their descriptor

`Routed` is what one state should satisfy: every request submitted so far went to the ring whose
table allocated the number it names. The number an object holds is always from the table of its own
thread's ring (`Inv`), and reads, writes and receives go to that ring. A destructor with
`ownership_in_sys_ring_` set closes on the main ring: right for an object that holds a descriptor on
the main thread, wrong for one on a worker, which the multishot hand-off makes with the flag set
(`impl_handle_msg_conn` clears it through `set_subring_socket`), and wrong for an object that was
moved from. `routed_iff_ownRing`: a run routes all its requests right exactly when each of its steps
is one that goes right.
-/

set_option autoImplicit false

namespace CoNet.Net.Routing

open CoNet.Io Transition

/-- Every request went to the ring whose table allocated the number it names. -/
def Routed (s : Routing) : Prop := ∀ r ∈ s.submitted, r.table = some r.ring

/-- The steps that go right: a read, write or receive of an object that holds a descriptor, and a
destruction whose flag, if it is set, is that of an object of the main thread that holds one. -/
def OwnRing (s : Routing) : RoutingEvent → Prop
  | .read o | .write o | .receive o => ∀ p, s.objects o = some p → p.conn.socket ≠ -1
  | .destroy o => ∀ p, s.objects o = some p → p.conn.ownershipInSysRing = true →
      p.thread = .main ∧ p.conn.socket ≠ -1
  | _ => True

/-! ## The invariant of the objects -/

/-- The number an object holds is from the table of its thread's ring. -/
structure Owns (p : Placed) : Prop where
  held : p.conn.socket ≠ -1 → p.table = some p.thread
  empty : p.conn.socket = -1 → p.table = none
  sub : -1 < p.conn.directFdInThisRing → p.conn.socket ≠ -1

def Inv (s : Routing) : Prop := ∀ o p, s.objects o = some p → Owns p

variable {s s' : Routing}

/-- The steps, one constructor an outcome. -/
inductive Does (s : Routing) : RoutingEvent → Routing → Prop where
  | create {e o p} (owns : Owns p) (quiet : OwnRing s e)
      (flag : p.thread ≠ .main → p.conn.ownershipInSysRing = true →
        ∃ o w slot, e = .maccTask o w slot) :
    Does s e { s with objects := Function.update s.objects o (some p) }
  | move {e dst src p} (hsrc : s.objects src = some p) (quiet : OwnRing s e) :
    Does s e (s.move dst src p.conn p.conn.movedFrom p)
  | same {e} (quiet : OwnRing s e) : Does s e s
  | transfer {e o p} (make : TcpConnection → Request) (hp : s.objects o = some p)
      (ring : (make p.conn).ring = .localUringLoop)
      (right : OwnRing s e ↔ p.conn.socket ≠ -1) : Does s e (s.submit p (make p.conn))
  | silent {o p} (hp : s.objects o = some p) (hd : p.conn.destroy = none) :
    Does s (.destroy o) { s with objects := Function.update s.objects o none }
  | closes {o p r} (hp : s.objects o = some p) (hd : p.conn.destroy = some r) :
    Does s (.destroy o)
      (({ s with objects := Function.update s.objects o none } : Routing).submit p r)

theorem owns_accept {slot : Int} (h : 0 ≤ slot) :
    Owns ⟨.ofDirectSocket slot, .main, some .main⟩ :=
  ⟨fun _ => rfl, fun hs => absurd hs (by simp only [TcpConnection.ofDirectSocket]; omega),
    fun hs => absurd hs (Int.lt_irrefl (-1))⟩

theorem owns_msgConn {slot : Int} (w : Nat) (h : 0 ≤ slot) :
    Owns ⟨msgConnConnection slot, .worker w, some (.worker w)⟩ := by
  have hs : (msgConnConnection slot).socket ≠ -1 := by
    simp only [msgConnConnection, TcpConnection.setSubringSocket]
    omega
  exact ⟨fun _ => rfl, fun he => absurd he hs, fun _ => hs⟩

theorem owns_maccTask {slot : Int} (w : Nat) (h : 0 ≤ slot) :
    Owns ⟨maccTaskConnection slot, .worker w, some (.worker w)⟩ :=
  ⟨fun _ => rfl,
    fun hs => absurd hs (by simp only [maccTaskConnection, TcpConnection.ofDirectSocket]; omega),
    fun hs => absurd hs (Int.lt_irrefl (-1))⟩

/-- A release keeps what an object holds. -/
theorem Owns.release {p : Placed} {c : TcpConnection} (h : Owns p) (hc : p.conn.release = .ok c) :
    Owns { p with conn := c } := by
  obtain ⟨-, rfl⟩ := TcpConnection.release_eq_ok hc
  exact ⟨h.held, h.empty, h.sub⟩

/-- An object moved from holds nothing. -/
theorem owns_movedFrom (p : Placed) : Owns { p with conn := p.conn.movedFrom, table := none } :=
  ⟨fun h => absurd rfl h, fun _ => rfl, fun h => absurd h (Int.lt_irrefl (-1))⟩

theorem place_eq_some {o : Nat} {p : Placed} (h : s.place o p = some s') :
    s' = { s with objects := Function.update s.objects o (some p) } := by
  unfold place at h
  split at h
  · cases h
  · exact (Option.some.inj h).symm

theorem request_does {e : RoutingEvent} {o : Nat} (make : TcpConnection → Request)
    (ring : ∀ c, (make c).ring = .localUringLoop)
    (right : OwnRing s e = ∀ p, s.objects o = some p → p.conn.socket ≠ -1)
    (h : s.request o make = some s') : Does s e s' := by
  obtain ⟨p, hp, rfl⟩ := Option.map_eq_some_iff.mp h
  refine .transfer make hp (ring p.conn) ?_
  rw [right]
  refine ⟨fun hall => hall p hp, fun hs p' hp' => ?_⟩
  obtain rfl := Option.some.inj (hp.symm.trans hp')
  exact hs

theorem does_of_step {e : RoutingEvent} (inv : Inv s) (h : s.step e = some s') : Does s e s' := by
  cases e with
  | accept o slot =>
    simp only [step] at h
    split at h
    · rw [place_eq_some h]
      exact .create (owns_accept ‹_›) trivial fun hm => absurd rfl hm
    · cases h
  | msgConn o w slot =>
    simp only [step] at h
    split at h
    · rw [place_eq_some h]
      exact .create (owns_msgConn w ‹_›) trivial fun _ hf => nomatch hf
    · cases h
  | maccTask o w slot =>
    simp only [step] at h
    split at h
    · rw [place_eq_some h]
      exact .create (owns_maccTask w ‹_›) trivial fun _ _ => ⟨o, w, slot, rfl⟩
    · cases h
  | moveConstruct dst src =>
    simp only [step] at h
    split at h
    · cases h
      exact .move ‹_› trivial
    · cases h
  | moveAssign dst src =>
    simp only [step] at h
    split at h
    · rename_i d p hdst hsrc
      split at h
      · rename_i same
        subst same
        rw [TcpConnection.moveAssignSelf_eq, ← hsrc, Function.update_eq_self] at h
        cases h
        exact .same trivial
      · split at h
        · cases h
          exact .move hsrc trivial
        · cases h
    · cases h
  | release o =>
    simp only [step] at h
    split at h
    · cases h
    · rename_i p hp
      cases hr : p.conn.release with
      | error msg =>
        simp only [hr] at h
        cases h
        exact .same trivial
      | ok c =>
        simp only [hr] at h
        cases h
        refine .create ((inv o p hp).release hr) trivial fun _ hf => ?_
        obtain ⟨-, rfl⟩ := TcpConnection.release_eq_ok hr
        cases hf
  | read o => exact request_does _ (fun _ => rfl) rfl h
  | write o => exact request_does _ (fun _ => rfl) rfl h
  | receive o => exact request_does _ (fun _ => rfl) rfl h
  | destroy o =>
    simp only [step] at h
    split at h
    · cases h
    · rename_i p hp
      cases hd : p.conn.destroy with
      | none =>
        simp only [hd] at h
        cases h
        exact .silent hp hd
      | some r =>
        simp only [hd] at h
        cases h
        exact .closes hp hd

/-- An object gone or replaced by one that owns its number keeps the invariant. -/
theorem Inv.update {o : Nat} {p : Option Placed} (inv : Inv s) (hp : ∀ q, p = some q → Owns q) :
    Inv { s with objects := Function.update s.objects o p } := by
  intro o' q hq
  by_cases ho : o' = o
  · subst ho
    simp only [Function.update_self] at hq
    exact hp q hq
  · simp only [Function.update_of_ne ho] at hq
    exact inv o' q hq

/-- **Every step keeps the invariant of the objects.** -/
theorem inv_step {e : RoutingEvent} (inv : Inv s) (h : s.step e = some s') : Inv s' := by
  cases does_of_step inv h with
  | create owns quiet =>
    refine inv.update fun q hq => ?_
    obtain rfl := Option.some.inj hq
    exact owns
  | @move _ dst src p hsrc =>
    have target : Inv { s with objects := Function.update s.objects dst (some p) } :=
      inv.update fun q hq => Option.some.inj hq ▸ inv src p hsrc
    refine target.update fun q hq => ?_
    obtain rfl := Option.some.inj hq
    exact owns_movedFrom p
  | same => exact inv
  | transfer make hp ring right => exact inv
  | silent hp hd => exact inv.update fun _ hq => nomatch hq
  | closes hp hd => exact inv.update fun _ hq => nomatch hq

/-- A step other than a multishot hand-off sets the flag of no object of a worker. -/
theorem flag_step {e : RoutingEvent} (inv : Inv s) (h : s.step e = some s')
    (other : ∀ o w slot, e ≠ .maccTask o w slot)
    (clear : ∀ o p, s.objects o = some p → p.thread ≠ .main → p.conn.ownershipInSysRing = false) :
    ∀ o p, s'.objects o = some p → p.thread ≠ .main → p.conn.ownershipInSysRing = false := by
  have update : ∀ (objects : Nat → Option Placed) (o : Nat) (new : Option Placed),
      (∀ o p, objects o = some p → p.thread ≠ .main → p.conn.ownershipInSysRing = false) →
      (∀ p, new = some p → p.thread ≠ .main → p.conn.ownershipInSysRing = false) →
      ∀ o' p, Function.update objects o new o' = some p → p.thread ≠ .main →
        p.conn.ownershipInSysRing = false := by
    intro objects o new hobj hnew o' p hp
    by_cases ho : o' = o
    · subst ho
      rw [Function.update_self] at hp
      exact hnew p hp
    · rw [Function.update_of_ne ho] at hp
      exact hobj o' p hp
  cases does_of_step inv h with
  | @create _ o p owns quiet flag =>
    refine update _ _ _ clear fun q hq hm => ?_
    obtain rfl := Option.some.inj hq
    by_contra hf
    obtain ⟨o, w, slot, rfl⟩ := flag hm (by simpa using hf)
    exact other o w slot rfl
  | @move _ dst src p hsrc =>
    have target := update _ dst (some p) clear
      fun q hq hm => Option.some.inj hq ▸ clear src p hsrc (Option.some.inj hq ▸ hm)
    refine update _ _ _ target fun q hq hm => ?_
    obtain rfl := Option.some.inj hq
    exact clear src p hsrc hm
  | same => exact clear
  | transfer => exact clear
  | silent => exact update _ _ _ clear fun _ hq => nomatch hq
  | closes => exact update _ _ _ clear fun _ hq => nomatch hq

/-- **The flag on a worker is the mark of a multishot hand-off**: in a run without one, no object of
a worker has it. -/
theorem flag_clear_without_maccTask (es : List RoutingEvent)
    (other : ∀ o w slot, .maccTask o w slot ∉ es) :
    Always step (fun s => ∀ o p, s.objects o = some p → p.thread ≠ .main →
      p.conn.ownershipInSysRing = false) init es := by
  refine always_of_meets
    (fun s e s' (inv : Inv s ∧ _) (ho : ∀ o w slot, e ≠ .maccTask o w slot) h =>
      ⟨inv_step inv.1 h, flag_step inv.1 h ho inv.2⟩)
    (fun _ inv => inv.2) ⟨fun _ _ h => (nomatch h), fun _ _ h => (nomatch h)⟩ ?_
  intro pre e s₁ s₂ hpre _ _ o w slot he
  have : e ∈ es := hpre.subset (List.mem_append_right _ (List.mem_singleton_self e))
  exact other o w slot (he ▸ this)

/-! ## Exactness -/

/-- The ring a destructor's close goes to is the one that allocated the number exactly when the
destruction is one that goes right. -/
theorem close_right {o : Nat} {p : Placed} {r : Request} (owns : Owns p)
    (hp : s.objects o = some p) (hd : p.conn.destroy = some r) :
    OwnRing s (.destroy o) ↔ p.table = some (p.thread.resolve r.ring) := by
  have back : OwnRing s (.destroy o) ↔
      (p.conn.ownershipInSysRing = true → p.thread = .main ∧ p.conn.socket ≠ -1) := by
    refine ⟨fun hall => hall p hp, fun hs p' hp' => ?_⟩
    obtain rfl := Option.some.inj (hp.symm.trans hp')
    exact hs
  rw [back]
  cases hf : p.conn.ownershipInSysRing with
  | true =>
    rw [TcpConnection.destroy_owned hf] at hd
    obtain rfl := Option.some.inj hd
    simp only [Thread.resolve, true_imp_iff]
    by_cases hs : p.conn.socket = -1
    · simp [hs, owns.empty hs]
    · simp [hs, owns.held hs]
  | false =>
    have hsub : -1 < p.conn.directFdInThisRing := by
      by_contra hn
      have : p.conn.destroy = none := by
        simp [TcpConnection.destroy, hf, hn]
      rw [this] at hd
      cases hd
    rw [TcpConnection.destroy_sub hf hsub] at hd
    obtain rfl := Option.some.inj hd
    simp [Thread.resolve, owns.held (owns.sub hsub)]

/-- What one more request does to the property. -/
theorem routed_submit {p : Placed} {r : Request} :
    Routed (s.submit p r) ↔ Routed s ∧ p.table = some (p.thread.resolve r.ring) := by
  simp only [Routed, submit, List.mem_append, List.mem_singleton, or_imp, forall_and,
    forall_eq]

/-- **A step's request is routed right exactly when the step is one that goes right.** -/
theorem routed_step {e : RoutingEvent} (inv : Inv s) (h : s.step e = some s') :
    Routed s' ↔ Routed s ∧ OwnRing s e := by
  cases does_of_step inv h with
  | create owns quiet => exact (and_iff_left quiet).symm
  | move hsrc quiet => exact (and_iff_left quiet).symm
  | same quiet => exact (and_iff_left quiet).symm
  | @transfer _ o p make hp ring right =>
    rw [routed_submit, right, ring]
    refine and_congr_right fun _ => ?_
    by_cases hs : p.conn.socket = -1
    · simp [hs, (inv o p hp).empty hs]
    · simp [hs, (inv o p hp).held hs, Thread.resolve]
  | @silent o p hp hd =>
    refine (and_iff_left fun p' hp' hf => ?_).symm
    obtain rfl := Option.some.inj (hp.symm.trans hp')
    rw [TcpConnection.destroy_owned hf] at hd
    cases hd
  | @closes o p r hp hd =>
    rw [routed_submit, close_right (inv o p hp) hp hd]
    rfl

/-- What a run of such steps keeps. -/
def RightInv (s : Routing) : Prop := Inv s ∧ Routed s

theorem rightInv_init : RightInv init :=
  ⟨fun _ _ h => (nomatch h), fun _ h => (nomatch h)⟩

theorem rightInv_step {e : RoutingEvent} (inv : RightInv s) (own : OwnRing s e)
    (h : s.step e = some s') : RightInv s' :=
  ⟨inv_step inv.1 h, (routed_step inv.1 h).mpr ⟨inv.2, own⟩⟩

theorem not_routed_step {e : RoutingEvent} (inv : RightInv s) (wrong : ¬ OwnRing s e)
    (h : s.step e = some s') : ¬ Routed s' :=
  fun routed => wrong ((routed_step inv.1 h).mp routed).2

/-- **Every request of a run goes to the ring that allocated its descriptor exactly when all the
run's steps are ones that go right.** -/
theorem routed_iff_ownRing (es : List RoutingEvent) :
    Always step Routed init es ↔ Meets step OwnRing init es :=
  always_iff_meets (fun _ _ _ => rightInv_step) (fun _ inv => inv.2)
    (fun _ _ _ => not_routed_step) rightInv_init

/-- Main slot 7 is one connection's and worker 0's slot 7 another's: the destructor of the second
one, on the worker, closes slot 7 of the main ring. -/
theorem not_routed_maccTask :
    ∃ s, exec step init [.accept 0 7, .maccTask 1 0 7, .read 1, .destroy 1] = some s ∧
      s.submitted = [⟨.worker 0, ⟨.localUringLoop, .read, 7⟩, some (.worker 0)⟩,
        ⟨.main, ⟨.sysUringLoop, .closeDirect, 7⟩, some (.worker 0)⟩] ∧
      ¬ Routed s :=
  ⟨_, rfl, rfl, fun h => absurd (h _ (List.mem_cons_of_mem _ List.mem_cons_self)) (by decide)⟩

end CoNet.Net.Routing
