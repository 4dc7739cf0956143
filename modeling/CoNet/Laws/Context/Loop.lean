import CoNet.Laws.Context.Kernel

/-!
# What the loops do to a hand-over

The completion that a ring's loop handles next is the first one a stage has for that ring, and what
handling it submits, stores and schedules is what the next stage has (`inv_handle`).
-/

set_option autoImplicit false

namespace CoNet.Context

open CoNet.Io CoNet.Net Transition

variable {φ : Type}

namespace System

variable {rings : Rings} {s s' e : System φ} {stage : Nat → Stage φ} {a b : Nat} {st : Stage φ}

/-! ## The loops -/

/-- The completions about a connection are the ones its stage has. -/
theorem Inv.completions_cons (inv : Inv rings s stage) {ring : Int} {cqe : Cqe Unit φ Unit Addr}
    {rest : List (Cqe Unit φ Unit Addr)} (hcq : s.cq ring = cqe :: rest)
    (about : aboutCqe cqe = some a) :
    (stage a).completions rings a (s.fdOf a) ring = cqe :: rest.filter (aboutCqe · = some a) := by
  rw [← (inv.at_ a).cq, cqOf_cons hcq, if_pos about]

/-- What a loop submits about one connection is not about another. -/
theorem filter_about_other {new : List (Submission φ)} (sub : ∀ c ∈ new, c.about = some a)
    (ne : b ≠ a) : new.filter (·.about = some b) = [] :=
  List.filter_eq_nil_iff.mpr fun c hc => by simp [sub c hc, ne.symm]

theorem filter_about_own {new : List (Submission φ)} (sub : ∀ c ∈ new, c.about = some a) :
    new.filter (·.about = some a) = new :=
  List.filter_eq_self.mpr fun c hc => by simp [sub c hc]

/-- The other connections see nothing of a completion that a loop handles. -/
theorem frame_handled {ring : Int} {cqe : Cqe Unit φ Unit Addr} {rest : List (Cqe Unit φ Unit Addr)}
    {uring : Uring} {new : List (Submission φ)} {notes : List (Note φ)}
    (hcq : s.cq ring = cqe :: rest) (about : aboutCqe cqe = some a)
    (sub : ∀ c ∈ new, c.about = some a) (conn : ∀ n ∈ notes, n.conn = a)
    (map : ∀ key, key ≠ s.fdOf a → uring.directMap key = (s.uring ring).directMap key)
    (occupies : st.Occupies) :
    Frame s { s with
        cq := Function.update s.cq ring rest, uring := Function.update s.uring ring uring
        sq := s.sq ++ new, log := s.log ++ notes } a st where
  fd _ _ := rfl
  table _ _ _ _ h := h
  map ring' key := by
    by_cases hr : ring' = ring
    · subst hr
      by_cases hkey : key = s.fdOf a
      · exact .inr ⟨occupies, hkey⟩
      · refine .inl ?_
        simp only [Function.update_self]
        exact map key hkey
    · exact .inl (by simp only [Function.update_of_ne hr])
  sq b ne := by simp only [sqOf, List.filter_append, filter_about_other sub ne, List.append_nil]
  cq b ne ring' := by
    by_cases hr : ring' = ring
    · subst hr
      have not_b : aboutCqe cqe ≠ some b := by
        rw [about]
        exact fun h => ne (Option.some.inj h).symm
      rw [cqOf_cons hcq b, if_neg not_b]
      simp only [cqOf, Function.update_self]
    · simp only [cqOf, Function.update_of_ne hr]
  log b ne := by rw [notesOf_append, notesOf_other conn ne, List.append_nil]

/-- **A loop handles a connection's completion.** It takes it off its queue and leaves the tables
alone; what it submits, logs and does to its map has to be what the next stage has. -/
theorem Inv.handled {ring : Int} {cqe : Cqe Unit φ Unit Addr} {rest : List (Cqe Unit φ Unit Addr)}
    {uring : Uring} {new : List (Submission φ)} {notes : List (Note φ)}
    (inv : Inv rings s stage) (hcq : s.cq ring = cqe :: rest) (about : aboutCqe cqe = some a)
    (sub : ∀ c ∈ new, c.about = some a) (conn : ∀ n ∈ notes, n.conn = a)
    (map : ∀ key, key ≠ s.fdOf a → uring.directMap key = (s.uring ring).directMap key)
    (occupies : (stage a).Occupies ∧ st.Occupies)
    (worker : ∀ w, st.worker = some w → w ∈ rings.workers)
    (installed : ∀ j, st.installed = some j → (stage a).installed = some j)
    (stored : ∀ slot, uring.directMap (s.fdOf a) = some slot →
      ∃ j, st.stored = some j ∧ j.worker = ring)
    (here : ∀ j, (stage a).stored = some j → j.worker = ring)
    (own_stored : ∀ j, st.stored = some j →
      j.worker = ring ∧ uring.directMap (s.fdOf a) = some j.slot)
    (submissions : (stage a).submissions rings a (s.fdOf a) ++ new =
      st.submissions rings a (s.fdOf a))
    (completions : st.completions rings a (s.fdOf a) ring = rest.filter (aboutCqe · = some a))
    (completions_other : ∀ ring', ring' ≠ ring →
      st.completions rings a (s.fdOf a) ring' = (stage a).completions rings a (s.fdOf a) ring')
    (notes_eq : (stage a).notes rings a (s.fdOf a) ++ notes = st.notes rings a (s.fdOf a)) :
    Inv rings { s with
        cq := Function.update s.cq ring rest, uring := Function.update s.uring ring uring
        sq := s.sq ++ new, log := s.log ++ notes }
      (Function.update stage a st) := by
  have own := inv.at_ a
  have occ := own.slot occupies.1
  have cq_same : ∀ ring', ring' ≠ ring → Function.update s.cq ring rest ring' = s.cq ring' :=
    fun ring' ne => Function.update_of_ne ne ..
  have frame := frame_handled hcq about sub conn map occupies.1
  refine inv.touch frame ?_ inv.main ?_ (fun b _ h => h) ?_ ?_ ?_ ?_
  · -- the connection itself
    refine ⟨fun _ => occ, worker, fun j hj => own.installed j (installed j hj), ?_, ?_, ?_, ?_⟩
    · intro j hj
      obtain ⟨rfl, h⟩ := own_stored j hj
      simp only [Function.update_self]
      exact h
    · rw [sqOf, List.filter_append, filter_about_own sub]
      exact (congrArg (· ++ new) own.sq).trans submissions
    · intro ring'
      by_cases hr : ring' = ring
      · subst hr
        simp only [cqOf, Function.update_self]
        exact completions.symm
      · simp only [cqOf, cq_same ring' hr]
        exact (own.cq ring').trans (completions_other ring' hr).symm
    · rw [notesOf_append, notesOf_own conn, own.log]
      exact notes_eq
  · refine inv.born fun h => ?_
    rw [h] at occupies
    exact occupies.1
  · intro o b hb
    refine .inr ⟨?_, o, hb⟩
    rintro rfl
    have h := inv.completions_cons hcq about
    rw [inv.held o b hb] at h
    cases h
  · intro ring' key slot h
    by_cases hr : ring' = ring
    · subst hr
      simp only [Function.update_self] at h
      by_cases hkey : key = s.fdOf a
      · subst hkey
        obtain ⟨j, hj, hw⟩ := stored slot h
        exact .inl ⟨j, hj, hw, rfl⟩
      · rw [map key hkey] at h
        exact .inr (inv.stored_other h fun _ _ _ hfd => hkey hfd.symm)
    · simp only [Function.update_of_ne hr] at h
      refine .inr (inv.stored_other h ?_)
      exact fun j hj hw _ => hr (hw.symm.trans (here j hj))
  · intro c hc hnone
    rcases List.mem_append.mp hc with h | h
    · exact inv.sq_other c h hnone
    · rw [sub c h] at hnone
      cases hnone
  · exact fun ring' cqe' hc hnone => inv.cq_other ring' cqe' (mem_of_taken hcq hc) hnone

/-- The worker's map has nothing under the slot of a connection that is not stored. -/
theorem Inv.not_stored (inv : Inv rings s stage) (occ : (stage a).Occupies)
    (h : (stage a).stored = none) (ring : Int) : (s.uring ring).directMap (s.fdOf a) = none := by
  cases hmap : (s.uring ring).directMap (s.fdOf a) with
  | none => rfl
  | some slot =>
    obtain ⟨b, j, hj, -, hfd⟩ := inv.only_stored ring _ slot hmap
    by_cases ne : b = a
    · subst ne
      rw [h] at hj
      cases hj
    · exact absurd hfd (inv.fd_ne occ (Stage.occupies_of_stored hj) ne)

section Loop

variable {ring : Int} {cqe : Cqe Unit φ Unit Addr} {rest : List (Cqe Unit φ Unit Addr)} {j : Job φ}

/-- What handling the sender's own completion does. -/
theorem handleRequest_sender (uring : Uring) :
    uring.handleRequest {} (senderCqe a : Cqe Unit φ Unit Addr) =
      some (uring, [.delete ⟨.sender, a⟩]) := rfl

theorem handleRequest_fd (uring : Uring) (fd slot : Int) :
    uring.handleRequest {} (fdCqe a fd slot : Cqe Unit φ Unit Addr) =
      some ({ uring with directMap := Function.update uring.directMap fd (some slot) },
        [.delete ⟨.receiver, a⟩]) := by
  refine (Uring.handleRequest_token ?_ rfl).trans rfl
  simp [Uring.isTaskMessage, Uring.isMessage, fdCqe]

theorem handleRequest_task (uring : Uring) (fd : Int) (func : φ) :
    uring.handleRequest {} (taskCqe a fd func : Cqe Unit φ Unit Addr) =
      some ({ uring with directMap := Function.update uring.directMap fd none },
        [.delete ⟨.helper, a⟩, .schedule func (msgConnConnection ((uring.directMap fd).getD 0)),
          .notifyMainRingReleaseFd fd]) := by
  refine (Uring.handleRequest_ringFuncTask ?_).trans rfl
  simp only [Uring.isMessage, taskCqe, beq_self_eq_true, Bool.true_and]
  decide

theorem handleRequest_notice (uring : Uring) (fd : Int) :
    uring.handleRequest {} (noticeCqe a fd : Cqe Unit φ Unit Addr) =
      some (uring, [.closeDirectSocket fd, .delete ⟨.notice, a⟩]) := by
  refine (Uring.handleRequest_token ?_ rfl).trans rfl
  simp [Uring.isTaskMessage, Uring.isMessage, noticeCqe]

/-- A loop handles the completion of a sender's own request. -/
theorem Inv.handled_other (inv : Inv rings s stage) (hcq : s.cq ring = cqe :: rest)
    (about : aboutCqe cqe = none) :
    Inv rings { s with
      cq := Function.update s.cq ring rest
      uring := Function.update s.uring ring (s.uring ring) } stage := by
  rw [Function.update_eq_self]
  refine { inv with at_ := fun b => { inv.at_ b with cq := ?_ }, cq_other := ?_ }
  · intro ring'
    refine Eq.trans ?_ ((inv.at_ b).cq ring')
    by_cases hr : ring' = ring
    · subst hr
      rw [cqOf_cons hcq b, about, if_neg fun h => nomatch h]
      simp only [cqOf, Function.update_self]
    · simp only [cqOf, Function.update_of_ne hr]
  · exact fun ring' cqe' hc hnone => inv.cq_other ring' cqe' (mem_of_taken hcq hc) hnone

theorem handleStep_eq {uring : Uring} {effects : List (Effect Unit φ Unit Addr)}
    (hcq : s.cq ring = cqe :: rest) (about : aboutCqe cqe = some a)
    (hh : (s.uring ring).handleRequest {} cqe = some (uring, effects))
    (h : s.handleStep rings ring = some s') :
    s' = { s with
      cq := Function.update s.cq ring rest, uring := Function.update s.uring ring uring
      sq := s.sq ++ effects.flatMap (submissions rings ring a)
      log := s.log ++ (s.lookupNotes ring a cqe ++ effects.flatMap (effectNotes ring a)) } := by
  simp only [handleStep, hcq, hh, about, Option.bind_eq_bind, Option.bind_some,
    Option.some.injEq] at h
  rw [← h, List.append_assoc]

/-- The worker stores the slot under the main ring's number, where nothing was. The task may have
been posted behind the descriptor. -/
theorem Inv.fd_handled {st : Stage φ} (inv : Inv rings s stage)
    (hcq : s.cq j.worker = cqe :: rest) (about : aboutCqe cqe = some a)
    (hst : stage a = .fdPosted j ∧ st = .fdStored j ∨ stage a = .bothPosted j ∧ st = .taskPosted j)
    (h : s.handleStep rings j.worker = some s') : Inv rings s' (Function.update stage a st) := by
  have posted := inv.completions_cons hcq about
  have own := inv.at_ a
  have occ : (stage a).Occupies ∧ (stage a).stored = none := by
    rcases hst with ⟨hst, -⟩ | ⟨hst, -⟩ <;> rw [hst] <;> exact ⟨trivial, rfl⟩
  have free := inv.not_stored occ.1 occ.2 j.worker
  have hcqe : cqe = fdCqe a (s.fdOf a) j.slot := by
    rcases hst with ⟨hst, -⟩ | ⟨hst, -⟩ <;>
      simp only [hst, Stage.completions, if_true, List.cons.injEq] at posted <;> exact posted.1.symm
  subst hcqe
  obtain rfl := handleStep_eq hcq rfl (handleRequest_fd _ _ _) h
  refine inv.handled hcq rfl ?_ ?_ ?_ ?_ ?_ ?_ ?_ ?_ ?_ ?_ ?_ ?_ ?_
  · exact fun c hc => absurd hc List.not_mem_nil
  · intro n hn
    obtain rfl := List.mem_singleton.mp hn
    rfl
  · exact fun key ne => Function.update_of_ne ne ..
  · rcases hst with ⟨hst, rfl⟩ | ⟨hst, rfl⟩ <;> exact ⟨occ.1, trivial⟩
  · intro w hw
    rcases hst with ⟨hst, rfl⟩ | ⟨hst, rfl⟩ <;> exact own.worker w (by rw [hst]; exact hw)
  · intro j' hj'
    rcases hst with ⟨hst, rfl⟩ | ⟨hst, rfl⟩ <;> rw [hst] <;> exact hj'
  · intro slot hslot
    rcases hst with ⟨-, rfl⟩ | ⟨-, rfl⟩ <;> exact ⟨j, rfl, rfl⟩
  · intro j' hj'
    rw [occ.2] at hj'
    cases hj'
  · intro j' hj'
    rcases hst with ⟨-, rfl⟩ | ⟨-, rfl⟩ <;> cases hj' <;> exact ⟨rfl, Function.update_self ..⟩
  · rcases hst with ⟨hst, rfl⟩ | ⟨hst, rfl⟩ <;> rw [hst] <;> rfl
  · rcases hst with ⟨hst, rfl⟩ | ⟨hst, rfl⟩ <;>
      simp only [hst, Stage.completions, if_true, List.cons.injEq] at posted ⊢ <;> exact posted.2
  · intro ring' ne
    rcases hst with ⟨hst, rfl⟩ | ⟨hst, rfl⟩ <;> rw [hst] <;> simp only [Stage.completions, if_neg ne]
  · rcases hst with ⟨hst, rfl⟩ | ⟨hst, rfl⟩ <;>
      simp [hst, Stage.notes, story, lookupNotes, fdCqe, free, effectNotes]

/-- The task finds the slot that was installed for its connection, and is scheduled with it. -/
theorem Inv.task_handled (inv : Inv rings s stage) (hcq : s.cq j.worker = cqe :: rest)
    (about : aboutCqe cqe = some a) (hst : stage a = .taskPosted j)
    (h : s.handleStep rings j.worker = some s') :
    Inv rings s' (Function.update stage a (.scheduled j)) := by
  have posted := inv.completions_cons hcq about
  have own := inv.at_ a
  rw [hst] at own
  simp only [hst, Stage.completions, if_true, List.cons.injEq] at posted
  obtain ⟨rfl, rest_nil⟩ := posted
  have found := own.stored j rfl
  have holder := own.installed j rfl
  obtain rfl := handleStep_eq hcq rfl (handleRequest_task _ _ _) h
  refine inv.handled hcq rfl ?_ ?_ ?_ ?_ ?_ ?_ ?_ ?_ ?_ ?_ ?_ ?_ ?_
  · intro c hc
    obtain rfl := List.mem_singleton.mp hc
    rfl
  · intro n hn
    simp only [lookupNotes, taskCqe, effectNotes, List.flatMap_cons, List.flatMap_nil,
      List.nil_append, List.append_nil, List.cons_append, List.mem_cons, List.not_mem_nil,
      or_false] at hn
    rcases hn with rfl | rfl <;> rfl
  · exact fun key ne => Function.update_of_ne ne ..
  · exact ⟨hst ▸ trivial, trivial⟩
  · rintro w ⟨⟩
    exact own.worker _ rfl
  · intro j' hj'
    cases hj'
  · intro slot hslot
    simp only [Function.update_self, reduceCtorEq] at hslot
  · intro j' hj'
    rw [hst] at hj'
    cases hj'
    rfl
  · intro j' hj'
    cases hj'
  · rw [hst]
    rfl
  · exact rest_nil
  · intro ring' ne
    simp only [hst, Stage.completions, if_neg ne]
  · simp [hst, Stage.notes, story, lookupNotes, taskCqe, found, holder, effectNotes]

/-- The main ring submits the close of its slot, on the worker's notice. -/
theorem Inv.notice_handled (inv : Inv rings s stage) (hcq : s.cq rings.main = cqe :: rest)
    (about : aboutCqe cqe = some a) (hst : stage a = .noticePosted j)
    (h : s.handleStep rings rings.main = some s') :
    Inv rings s' (Function.update stage a (.closing (some j))) := by
  have posted := inv.completions_cons hcq about
  have free := inv.not_stored (a := a) (by rw [hst]; trivial) (by rw [hst]; rfl) rings.main
  simp only [hst, Stage.completions, if_true, List.cons.injEq] at posted
  obtain ⟨rfl, rest_nil⟩ := posted
  obtain rfl := handleStep_eq hcq rfl (handleRequest_notice _ _) h
  refine inv.handled hcq rfl ?_ ?_ ?_ ?_ ?_ ?_ ?_ ?_ ?_ ?_ ?_ ?_ ?_
  · intro c hc
    obtain rfl := List.mem_singleton.mp hc
    rfl
  · intro n hn
    obtain rfl := List.mem_singleton.mp hn
    rfl
  · exact fun _ _ => rfl
  · exact ⟨hst ▸ trivial, trivial⟩
  · intro w hw
    cases hw
  · intro j' hj'
    cases hj'
  · intro slot hslot
    rw [free] at hslot
    cases hslot
  · intro j' hj'
    rw [hst] at hj'
    cases hj'
  · intro j' hj'
    cases hj'
  · rw [hst]
    rfl
  · exact rest_nil
  · intro ring' ne
    simp only [hst, Stage.completions, if_neg ne]
  · simp [hst, Stage.notes, story, lookupNotes, noticeCqe, effectNotes]

/-- **A loop takes a connection to its next stage**, whatever completion it handles next. -/
theorem inv_handle (inv : Inv rings s stage) (h : s.handleStep rings ring = some s') :
    ∃ stage', Inv rings s' stage' := by
  cases hcq : s.cq ring with
  | nil =>
    simp only [handleStep, hcq] at h
    cases h
  | cons cqe rest =>
    cases about : aboutCqe cqe with
    | none =>
      obtain ⟨b, rfl⟩ := inv.cq_other ring cqe (hcq ▸ List.mem_cons_self) about
      simp only [handleStep, hcq, handleRequest_sender, about, Option.bind_eq_bind,
        Option.bind_some] at h
      obtain rfl := Option.some.inj h
      exact ⟨stage, inv.handled_other hcq about⟩
    | some a =>
      have posted := inv.completions_cons hcq about
      cases hst : stage a <;> rw [hst] at posted
      case fdPosted j =>
        obtain rfl : ring = j.worker := ring_of_posted posted
        exact ⟨_, inv.fd_handled hcq about (.inl ⟨hst, rfl⟩) h⟩
      case bothPosted j =>
        obtain rfl : ring = j.worker := ring_of_posted posted
        exact ⟨_, inv.fd_handled hcq about (.inr ⟨hst, rfl⟩) h⟩
      case taskPosted j =>
        obtain rfl : ring = j.worker := ring_of_posted posted
        exact ⟨_, inv.task_handled hcq about hst h⟩
      case noticePosted j =>
        obtain rfl : ring = rings.main := ring_of_posted posted
        exact ⟨_, inv.notice_handled hcq about hst h⟩
      all_goals cases posted

end Loop

end System

end CoNet.Context
