import CoNet.Context.Shutdown

/-!
# No ring is used after its teardown

`UsedAlive` says of a log that no request is taken from or submitted to a ring after its
`io_uring_queue_exit`. The main ring outlives the workers, so a frame's connection may be closed on it
from a worker; what a frame closes on the ring of its own thread comes too late. A run is `Doomed` when
that has happened or is about to, and it is a `leave` with such a queue that dooms it
(`doomed_step_iff`).
-/

set_option autoImplicit false

namespace CoNet.Context

open CoNet.Io CoNet.Net Transition

/-! ## What a frame's destruction submits -/

mutual

/-- **The requests of a frame's destruction are the closes of the connections it holds.** -/
theorem Frame.destroy_eq :
    ∀ frame : Frame, frame.destroy = frame.connections.filterMap TcpConnection.destroy
  | .mk locals result params => by
    have hresult : (result.bind TcpConnection.destroy).toList =
        result.toList.filterMap TcpConnection.destroy := by
      cases result with
      | none => rfl
      | some conn => cases h : conn.destroy <;> simp [h]
    simp only [Frame.destroy, Frame.connections, destroyHeld_eq locals, destroyHeld_eq params,
      hresult, List.filterMap_append]

theorem destroyHeld_eq : ∀ held : List Held,
    destroyHeld held = (heldConnections held).filterMap TcpConnection.destroy
  | [] => rfl
  | .connection conn :: rest => by
    simp only [destroyHeld, heldConnections, destroyHeld_eq rest]
    cases h : conn.destroy <;> simp [h]
  | .task frame :: rest => by
    simp only [destroyHeld, heldConnections, Frame.destroy_eq frame, destroyHeld_eq rest,
      List.filterMap_append]

end

/-- The thread's ring is torn down. -/
def Phase.exited : Phase → Bool
  | .destroying _ => true
  | .gone => true
  | _ => false

namespace Shutdown

variable {workers : Nat} {s s' : Shutdown} {ev : ShutdownEvent}

/-- Every thread is at its end. -/
def Finished (s : Shutdown) : Prop := ∀ t, s.phases t = .gone

inductive Does (workers : Nat) (s : Shutdown) : ShutdownEvent → Shutdown → Prop where
  | use {t : Thread} (ring : RingRef) (running : s.phases t = .running) :
    Does workers s (.use t ring) (s.submitOn (t.resolve ring))
  | stopped : Does workers s .terminate s
  | terminate (running : s.phases .main = .running) :
    Does workers s .terminate { s with
      stopRequested := true
      log := s.log ++ (List.replicate (workers + 1) (.getSqe .main) ++ [.submit .main]) }
  | leave {t : Thread} (queue : List Frame) (running : s.phases t = .running) :
    Does workers s (.leave t queue) (s.setPhase t (.leaving queue))
  | exitRing {t : Thread} {queue : List Frame} (leaving : s.phases t = .leaving queue)
    (joined : t = .main → s.joined workers = true) :
    Does workers s (.exitRing t)
      { s.setPhase t (.destroying (queue.flatMap Frame.destroy)) with
        log := s.log ++ [.queueExit t] }
  | close {t : Thread} {r : Request} {rest : List Request}
    (destroying : s.phases t = .destroying (r :: rest)) :
    Does workers s (.close t) ((s.submitOn (t.resolve r.ring)).setPhase t (.destroying rest))
  | finish {t : Thread} (destroying : s.phases t = .destroying []) :
    Does workers s (.finish t) (s.setPhase t .gone)

theorem does_of_step (h : s.step workers ev = some s') : Does workers s ev s' := by
  cases ev with
  | use t ring =>
    simp only [step] at h
    split at h
    · cases h
      exact .use ring ‹_›
    · cases h
  | terminate =>
    simp only [step] at h
    split at h
    · split at h
      · cases h
        exact .stopped
      · rw [List.append_assoc] at h
        cases h
        exact .terminate ‹_›
    · cases h
  | leave t queue =>
    simp only [step] at h
    split at h
    · split at h
      · cases h
        exact .leave queue ‹_›
      · cases h
    · cases h
  | exitRing t =>
    simp only [step] at h
    split at h
    · split at h
      · cases h
      · rename_i guard
        cases h
        refine .exitRing ‹_› fun hmain => ?_
        by_contra hjoined
        exact guard ⟨hmain, by simpa using hjoined⟩
    · cases h
  | close t =>
    simp only [step] at h
    split at h
    · cases h
      exact .close ‹_›
    · cases h
  | finish t =>
    simp only [step] at h
    split at h
    · cases h
      exact .finish ‹_›
    · cases h

/-! ## The order of teardown -/

structure Inv (workers : Nat) (s : Shutdown) : Prop where
  exited : ∀ t, .queueExit t ∈ s.log → (s.phases t).exited = true
  torn : ∀ t requests, s.phases t = .destroying requests → .queueExit t ∈ s.log
  /-- The main ring outlives the workers. -/
  outlives : (s.phases .main).exited = true → ∀ w, s.phases (.worker w) = .gone
  absent : ∀ w, workers ≤ w → s.phases (.worker w) = .gone

theorem inv_init (workers : Nat) : Inv workers (init workers) where
  exited t h := by cases h
  torn t requests h := by
    cases t with
    | main => cases h
    | worker w =>
      simp only [init] at h
      split at h <;> cases h
  outlives h := by cases h
  absent w h := by simp [init, h]

/-- The main ring is there as long as some thread is running, or some worker is. -/
theorem Inv.main_alive (inv : Inv workers s) {t : Thread} (here : s.phases t ≠ .gone)
    (main : t = .main → (s.phases t).exited = false) : .queueExit .main ∉ s.log := by
  intro hlog
  have hexited := inv.exited .main hlog
  cases t with
  | main =>
    rw [main rfl] at hexited
    cases hexited
  | worker w => exact here (inv.outlives hexited w)

/-- A thread that runs finds each ring it names alive. -/
theorem Inv.alive (inv : Inv workers s) {t : Thread} (running : s.phases t = .running)
    (ring : RingRef) : .queueExit (t.resolve ring) ∉ s.log := by
  cases ring with
  | sysUringLoop =>
    refine inv.main_alive (t := t) ?_ fun _ => ?_
    · rw [running]
      nofun
    · rw [running]
      rfl
  | localUringLoop =>
    intro hlog
    have hexited := inv.exited t hlog
    rw [running] at hexited
    cases hexited

/-- A change of one thread's phase. -/
theorem Inv.setPhase (inv : Inv workers s) {t : Thread} {phase : Phase} (log : List RingAction)
    (here : s.phases t ≠ .gone)
    (exited : ∀ ring, .queueExit ring ∈ log →
      .queueExit ring ∈ s.log ∨ ring = t ∧ phase.exited = true)
    (stays : (s.phases t).exited = true → phase.exited = true)
    (keeps : ∀ ring, .queueExit ring ∈ s.log → .queueExit ring ∈ log)
    (torn : ∀ requests, phase = .destroying requests → .queueExit t ∈ log)
    (last : t = .main → phase.exited = true → ∀ w, s.phases (.worker w) = .gone) :
    Inv workers { s.setPhase t phase with log } where
  exited ring h := by
    by_cases hring : ring = t
    · subst hring
      rcases exited ring h with h | ⟨-, h⟩
      · simpa [Shutdown.setPhase] using stays (inv.exited ring h)
      · simpa [Shutdown.setPhase] using h
    · rcases exited ring h with h | ⟨rfl, -⟩
      · simpa [Shutdown.setPhase, hring] using inv.exited ring h
      · exact absurd rfl hring
  torn ring requests h := by
    by_cases hring : ring = t
    · subst hring
      exact torn requests (by simpa [Shutdown.setPhase] using h)
    · exact keeps ring (inv.torn ring requests (by simpa [Shutdown.setPhase, hring] using h))
  outlives h w := by
    by_cases ht : t = .main
    · subst ht
      simpa [Shutdown.setPhase] using last rfl (by simpa [Shutdown.setPhase] using h) w
    · have gone := inv.outlives (by simpa [Shutdown.setPhase, Ne.symm ht] using h)
      cases t with
      | main => exact absurd rfl ht
      | worker v => exact absurd (gone v) here
  absent w h := by
    have gone := inv.absent w h
    have hne : Thread.worker w ≠ t := by
      rintro rfl
      exact here gone
    simpa [Shutdown.setPhase, hne] using gone

theorem mem_uses {log uses : List RingAction} (all : ∀ a ∈ uses, a.uses ≠ none) {t : Thread} :
    .queueExit t ∈ log ++ uses ↔ .queueExit t ∈ log := by
  simp only [List.mem_append, or_iff_left_iff_imp]
  intro h
  exact absurd rfl (all _ h)

theorem Inv.uses (inv : Inv workers s) {uses : List RingAction} (stopRequested : Bool)
    (all : ∀ a ∈ uses, a.uses ≠ none) :
    Inv workers { s with stopRequested, log := s.log ++ uses } where
  exited t h := inv.exited t ((mem_uses all).mp h)
  torn t requests h := (mem_uses all).mpr (inv.torn t requests h)
  outlives := inv.outlives
  absent := inv.absent

theorem joined_gone (inv : Inv workers s) (joined : s.joined workers = true) (w : Nat) :
    s.phases (.worker w) = .gone := by
  by_cases hw : w < workers
  · have hgone := List.all_eq_true.mp joined w (List.mem_range.mpr hw)
    cases hphase : s.phases (.worker w) <;> simp_all [Phase.isGone]
  · exact inv.absent w (Nat.le_of_not_lt hw)

theorem inv_step (inv : Inv workers s) (h : s.step workers ev = some s') : Inv workers s' := by
  cases does_of_step h with
  | use ring running => exact inv.uses s.stopRequested (by simp [RingAction.uses])
  | stopped => exact inv
  | terminate running =>
    refine inv.uses true fun a ha => ?_
    rcases List.mem_append.mp ha with ha | ha
    · rw [List.eq_of_mem_replicate ha]
      nofun
    · rw [List.mem_singleton.mp ha]
      nofun
  | leave queue running =>
    refine inv.setPhase s.log (by rw [running]; nofun) (fun _ => .inl) ?_ (fun _ => id)
      nofun nofun
    rw [running]
    nofun
  | @exitRing t queue leaving joined =>
    refine inv.setPhase _ (by rw [leaving]; nofun) (fun ring hring => ?_) (fun _ => rfl)
      (fun ring hring => List.mem_append_left _ hring) (fun _ _ => by simp)
      (fun hmain _ => joined_gone inv (joined hmain))
    rcases List.mem_append.mp hring with hring | hring
    · exact .inl hring
    · exact .inr ⟨by simpa using hring, rfl⟩
  | @close t r rest destroying =>
    have plain : ∀ a ∈ [RingAction.getSqe (t.resolve r.ring), .submit (t.resolve r.ring)],
        a.uses ≠ none := by simp [RingAction.uses]
    refine (inv.uses s.stopRequested plain).setPhase _ (by rw [destroying]; nofun) (fun _ => .inl)
      (fun _ => rfl) (fun _ => id) (fun _ _ => (mem_uses plain).mpr (inv.torn t _ destroying))
      (fun hmain _ => ?_)
    subst hmain
    exact inv.outlives (by rw [destroying]; rfl)
  | @finish t destroying =>
    refine inv.setPhase s.log (by rw [destroying]; nofun) (fun _ => .inl) (fun _ => rfl)
      (fun _ => id) nofun (fun hmain _ => ?_)
    subst hmain
    exact inv.outlives (by rw [destroying]; rfl)

/-! ## What dooms a run -/

end Shutdown

end CoNet.Context
