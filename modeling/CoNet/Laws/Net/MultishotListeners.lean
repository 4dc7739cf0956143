import CoNet.Laws.Io.Uring
import CoNet.Net.MultishotListeners

/-!
# Connections, listeners and handlers

`Served` is what one state should satisfy: every dispatch is by the task of the listener that
accepted the connection and sends that listener's handler, a completion wakes its own listener's
task, no accepted connection is lost or dispatched twice, and the task of a listener with a waiting
connection is ready. The token and the list of accepted descriptors are shared, so this holds along
a run exactly when every step finds them its own (`served_iff_own`).
-/

set_option autoImplicit false

namespace CoNet.Net.MultishotListeners

open CoNet.Io CoNet.Context Transition

variable {ℓ φ : Type} {workers : List Int} {handlers : ℓ → φ} {s s' : MultishotListeners ℓ φ}
  {e : ListenerEvent ℓ}

/-- Every connection is dispatched by its own listener's task, with its own listener's handler. -/
structure Served (handlers : ℓ → φ) (s : MultishotListeners ℓ φ) : Prop where
  own : ∀ d ∈ s.dispatched,
    d.dispatcher = d.acceptedOn ∧ d.handoff.func = some (handlers d.acceptedOn)
  wakes : ∀ w ∈ s.woken, w.2 = w.1
  once : s.accepted.map (fun a => (a.1, some a.2)) =
    s.dispatched.map (fun d => (d.acceptedOn, d.handoff.fd)) ++
      s.awaitingOn.zip (s.ring.awaitingDirectFd.map some)
  ready : ∀ l ∈ s.awaitingOn, s.pending l = false

/-- What the shared token and list are before a step: the token names the listener that completes,
and a task that dispatches finds one descriptor at most, its own listener's. -/
def Own (s : MultishotListeners ℓ φ) : ListenerEvent ℓ → Prop
  | .resume l => s.armed l → s.awaitingOn.length ≤ 1 ∧ ∀ o ∈ s.awaitingOn, o = l
  | .complete l _ _ => s.token.chainTask = some l

/-- What every run keeps, and `Served`. -/
structure Inv (handlers : ℓ → φ) (s : MultishotListeners ℓ φ) : Prop extends Served handlers s where
  length : s.awaitingOn.length = s.ring.awaitingDirectFd.length
  token : ∀ l, s.armed l → s.token.op = .multishotAccept ∧ s.token.chainTask ≠ none

theorem inv_init : Inv handlers ({} : MultishotListeners ℓ φ) where
  own d hd := absurd hd (by simp)
  wakes w hw := absurd hw (by simp)
  once := rfl
  ready l hl := absurd hl (by simp)
  length := rfl
  token l hl := absurd hl (by simp)

/-- An accept completion pushes its descriptor and wakes the task the token names. -/
theorem handleRequest_accept {token : CompletionToken ℓ} {ring : Uring} {res : Int}
    {flags : BitVec 32} {task : ℓ} (hop : token.op = .multishotAccept)
    (htask : token.chainTask = some task) (hflags : flags &&& netIoringCqeFTask = 0) :
    ring.handleRequest token (acceptCqe token res flags : Cqe Unit φ ℓ Unit) =
      some (ring.pushAwaiting res, [.setPending task false]) := by
  have hm : ∀ type, Uring.isMessage (acceptCqe token res flags : Cqe Unit φ ℓ Unit) type = false :=
    fun type => by simp [Uring.isMessage, acceptCqe, hflags]
  rw [Uring.handleRequest_token (by simp only [Uring.isTaskMessage, hm, Bool.or_self]) rfl]
  simp only [Uring.handleToken, hop, htask, acceptCqe]

/-! ## The list and its listeners -/

/-- Pairing the descriptors with their listeners forgets nothing: the lists are of one length. -/
theorem zipWith_sent {owners : List ℓ} {l : ℓ} {handoffs : List (Handoff Unit φ ℓ Nat)} :
    (owners.zipWith (⟨·, l, ·⟩) handoffs).map
        (fun d : Dispatch ℓ φ => (d.acceptedOn, d.handoff.fd)) =
      owners.zip (handoffs.map Handoff.fd) := by
  rw [List.map_zipWith, List.zip, List.zipWith_map_right]

/-- A descriptor pushed with its listener goes to the end of both lists. -/
theorem zip_pushAwaiting {owners : List ℓ} {ring : Uring} {l : ℓ} {res : Int}
    (length : owners.length = ring.awaitingDirectFd.length) :
    (owners ++ if 0 ≤ res then [l] else []).zip
        ((ring.pushAwaiting res).awaitingDirectFd.map some) =
      owners.zip (ring.awaitingDirectFd.map some) ++
        (if 0 ≤ res then [(l, res)] else []).map fun a => (a.1, some a.2) := by
  rw [Uring.pushAwaiting_awaiting, List.map_append, List.zip_append (by simpa using length)]
  split <;> rfl

/-- A task that finds one descriptor at most, its own listener's, serves it. -/
theorem own_send {owners : List ℓ} {fds : List Int} {l : ℓ} {current current' : Int}
    {heap heap' : Nat} {handoffs : List (Handoff Unit φ ℓ Nat)}
    (one : owners.length ≤ 1) (mine : ∀ o ∈ owners, o = l)
    (length : owners.length = fds.length)
    (sent : sendAwaitingFds workers current heap (some (handlers l)) fds =
      some (current', heap', handoffs)) :
    ∀ d ∈ owners.zipWith (fun o h => (⟨o, l, h⟩ : Dispatch ℓ φ)) handoffs,
      d.dispatcher = d.acceptedOn ∧ d.handoff.func = some (handlers d.acceptedOn) := by
  intro d hd
  match owners, fds, length, one, mine with
  | [], _, _, _, _ => simp at hd
  | [o], [fd], _, _, mine =>
    obtain rfl := mine o (by simp)
    have hfunc : handoffs.map Handoff.func = [some (handlers o)] := sendAwaitingFds_func sent
    obtain ⟨h, rest, rfl, hh, hrest⟩ := List.map_eq_cons_iff.mp hfunc
    obtain rfl : d = ⟨o, o, h⟩ := by simpa using hd
    exact ⟨rfl, hh⟩

/-- **A task that finds another listener's descriptor, or two, serves one wrongly.** -/
theorem not_own_send {owners : List ℓ} {fds : List Int} {l : ℓ} {current current' : Int}
    {heap heap' : Nat} {handoffs : List (Handoff Unit φ ℓ Nat)}
    (other : ¬ (owners.length ≤ 1 ∧ ∀ o ∈ owners, o = l))
    (length : owners.length = fds.length)
    (sent : sendAwaitingFds workers current heap (some (handlers l)) fds =
      some (current', heap', handoffs)) :
    ∃ d ∈ owners.zipWith (fun o h => (⟨o, l, h⟩ : Dispatch ℓ φ)) handoffs,
      ¬ (d.dispatcher = d.acceptedOn ∧ d.handoff.func = some (handlers d.acceptedOn)) := by
  have hfunc := sendAwaitingFds_func sent
  match owners, fds, length with
  | [], [], _ => exact absurd ⟨by simp, by simp⟩ other
  | [o], [fd], _ =>
    -- one descriptor: it is another listener's
    obtain ⟨h, rest, rfl, -, -⟩ := List.map_eq_cons_iff.mp hfunc
    refine ⟨⟨o, l, h⟩, by simp, fun served => other ⟨by simp, fun o' ho' => ?_⟩⟩
    obtain rfl := List.mem_singleton.mp ho'
    exact served.1.symm
  | o :: o₂ :: owners, fd :: fd₂ :: fds, _ =>
    -- two descriptors: the second is sent with an empty function
    obtain ⟨h, rest, rfl, -, hrest⟩ := List.map_eq_cons_iff.mp hfunc
    obtain ⟨h₂, rest, rfl, hnone, -⟩ := List.map_eq_cons_iff.mp hrest
    exact ⟨⟨o₂, l, h₂⟩, by simp, fun served => absurd (hnone.symm.trans served.2) (by simp)⟩

/-! ## Along a run -/

section Run

variable [DecidableEq ℓ]

/-- **What a step does**: it arms a listener; a task sends the whole list with its own handler; or a
completion is pushed and wakes the task the token names. -/
inductive Does (workers : List Int) (handlers : ℓ → φ) (s : MultishotListeners ℓ φ) :
    ListenerEvent ℓ → MultishotListeners ℓ φ → Prop where
  | arm {l : ℓ} (ready : s.pending l = false) (fresh : s.armed l = false) :
    Does workers handlers s (.resume l)
      { s with
        token := awaitMultishotAccept s.token l
        armed := Function.update s.armed l true }
  | send {l : ℓ} {current : Int} {heap : Nat} {handoffs : List (Handoff Unit φ ℓ Nat)}
    (ready : s.pending l = false) (armed : s.armed l = true)
    (sent : sendAwaitingFds workers s.current s.heap (some (handlers l)) s.ring.awaitingDirectFd =
      some (current, heap, handoffs)) :
    Does workers handlers s (.resume l)
      { s with
        ring := { s.ring with awaitingDirectFd := [] }, current, heap
        pending := Function.update s.pending l true
        awaitingOn := []
        dispatched := s.dispatched ++ s.awaitingOn.zipWith (⟨·, l, ·⟩) handoffs }
  | complete {l task : ℓ} {res : Int} {flags : BitVec 32} (armed : s.armed l = true)
    (named : s.token.chainTask = some task) :
    Does workers handlers s (.complete l res flags)
      { s with
        ring := s.ring.pushAwaiting res
        pending := Function.update s.pending task false
        accepted := s.accepted ++ if 0 ≤ res then [(l, res)] else []
        awaitingOn := s.awaitingOn ++ if 0 ≤ res then [l] else []
        woken := s.woken ++ [(l, task)] }

theorem does_of_step (token : ∀ l, s.armed l → s.token.op = .multishotAccept ∧
    s.token.chainTask ≠ none) (h : s.step workers handlers e = some s') :
    Does workers handlers s e s' := by
  cases e with
  | resume l =>
    simp only [step] at h
    split at h
    · cases h
    · rename_i ready
      have ready : s.pending l = false := by simpa using ready
      split at h
      · rename_i armed
        split at h
        · cases h
        · rename_i ring current heap handoffs hsend
          obtain ⟨rfl, sent⟩ := mshotAcceptSend_eq hsend
          cases h
          exact .send ready armed sent
      · rename_i fresh
        cases h
        exact .arm ready (by simpa using fresh)
  | complete l res flags =>
    simp only [step] at h
    split at h
    · cases h
    · rename_i guard
      have guard : s.armed l = true ∧ flags &&& netIoringCqeFTask = 0 := by
        simpa only [not_or, Bool.not_eq_false, ne_eq, not_not] using guard
      obtain ⟨hop, hsome⟩ := token l guard.1
      obtain ⟨task, named⟩ := Option.ne_none_iff_exists'.mp hsome
      rw [handleRequest_accept hop named guard.2] at h
      cases h
      exact .complete guard.1 named

/-- **What a step that finds the token and the list its own keeps.** -/
theorem inv_step (inv : Inv handlers s) (own : Own s e)
    (h : s.step workers handlers e = some s') : Inv handlers s' := by
  cases does_of_step inv.token h with
  | @arm l ready fresh =>
    exact {
      toServed := ⟨inv.own, inv.wakes, inv.once, inv.ready⟩
      length := inv.length
      token := fun _ _ => ⟨rfl, by simp [awaitMultishotAccept]⟩ }
  | @send l current heap handoffs ready armed sent =>
    obtain ⟨one, mine⟩ := own armed
    refine {
      own := fun d hd => ?_
      wakes := inv.wakes
      once := ?_
      ready := fun _ ho => absurd ho (by simp)
      length := rfl
      token := inv.token }
    · rcases List.mem_append.mp hd with hd | hd
      · exact inv.own d hd
      · exact own_send one mine inv.length sent d hd
    · rw [inv.once, List.map_append, zipWith_sent, sendAwaitingFds_fd sent, List.append_assoc]
      simp
  | @complete l task res flags armed named =>
    obtain rfl : l = task := Option.some.inj (own.symm.trans named)
    refine {
      own := inv.own
      wakes := fun w hw => ?_
      once := ?_
      ready := fun o ho => ?_
      length := ?_
      token := inv.token }
    · rcases List.mem_append.mp hw with hw | hw
      · exact inv.wakes w hw
      · rw [List.mem_singleton.mp hw]
    · rw [List.map_append, inv.once, zip_pushAwaiting inv.length, List.append_assoc]
    · show Function.update s.pending l false o = false
      by_cases hol : o = l
      · rw [hol, Function.update_self]
      · rw [Function.update_of_ne hol]
        rcases List.mem_append.mp ho with ho | ho
        · exact inv.ready o ho
        · split at ho
          · exact absurd (List.mem_singleton.mp ho) hol
          · cases ho
    · show (s.awaitingOn ++ _).length = _
      rw [Uring.pushAwaiting_awaiting, List.length_append, List.length_append, inv.length]
      split <;> rfl

/-- **A step that finds the token or the list another's serves or wakes wrongly.** -/
theorem not_served_step (inv : Inv handlers s) (other : ¬ Own s e)
    (h : s.step workers handlers e = some s') : ¬ Served handlers s' := by
  intro served
  cases does_of_step inv.token h with
  | @arm l ready fresh => exact other fun armed => absurd armed (by simp [fresh])
  | @send l current heap handoffs ready armed sent =>
    obtain ⟨d, hd, wrong⟩ := not_own_send (fun own => other fun _ => own) inv.length sent
    exact wrong (served.own d (List.mem_append_right _ hd))
  | @complete l task res flags armed named =>
    have hw : task = l := served.wakes (l, task) (List.mem_append_right _ (by simp))
    exact other (named.trans (congrArg some hw))

/-- **Every connection is served by its own listener exactly in the runs whose every completion
finds the token, and every dispatch the list, its own.** -/
theorem served_iff_own (workers : List Int) (handlers : ℓ → φ) (es : List (ListenerEvent ℓ)) :
    Always (step workers handlers) (Served handlers) {} es ↔
      Meets (step workers handlers) Own {} es :=
  always_iff_meets (fun _ _ _ => inv_step) (fun _ inv => inv.toServed)
    (fun _ _ _ => not_served_step) inv_init

/-- Two listeners are armed and wait; the first one's connection, on descriptor 5, wakes the second
one's task, which sends it with its own handler. -/
theorem not_served_two_listeners :
    ∃ s : MultishotListeners Bool Bool,
      exec (step [7] id) {} [.resume false, .resume true, .resume false, .resume true,
        .complete false 5 0, .resume true] = some s ∧
      s.woken = [(false, true)] ∧
      s.dispatched.map (fun d => (d.acceptedOn, d.dispatcher, d.handoff.func)) =
        [(false, true, some true)] ∧
      ¬ Served id s :=
  ⟨_, rfl, by decide, by decide, fun h => absurd (h.wakes (false, true) (by decide)) (by decide)⟩

end Run

end CoNet.Net.MultishotListeners
