import CoNet.Laws.Context.Loop

/-!
# Every spawned connection is handed over once

The main thread accepts a connection, closes it (`inv_main`) or spawns a task with it (`inv_spawn`),
and the destruction of a scheduled connection changes no stage (`inv_destroy`). With what the kernel
and the loops do, every event keeps the invariant, and `handedOver_always` is what the stages say.
-/

set_option autoImplicit false

namespace CoNet.Context

open CoNet.Io CoNet.Net Transition

variable {φ : Type}

namespace System

variable {rings : Rings} {s s' e : System φ} {stage : Nat → Stage φ} {a b : Nat} {st : Stage φ}

/-! ## A worker's connection -/

/-- A scheduled connection is past the stages at which its worker's slot matters. -/
theorem Inv.installed_of_scheduled (inv : Inv rings s stage) {ring : Int} {func : φ}
    {object : TcpConnection} (h : .scheduled a ring func object ∈ s.log) :
    (stage a).installed = none := by
  have mem : Note.scheduled a ring func object ∈ (stage a).notes rings a (s.fdOf a) := by
    rw [← (inv.at_ a).log]
    exact List.mem_filter.mpr ⟨h, decide_eq_true rfl⟩
  cases hst : stage a <;> rw [hst] at mem <;> first
    | rfl
    | simp [Stage.notes, story] at mem

theorem wasScheduled_iff {ring : Int} {object : TcpConnection} :
    s.wasScheduled ring a object = true ↔ ∃ func, .scheduled a ring func object ∈ s.log := by
  simp only [wasScheduled, List.any_eq_true]
  constructor
  · rintro ⟨n, hn, h⟩
    split at h
    · simp only [Bool.and_eq_true, beq_iff_eq] at h
      obtain ⟨⟨rfl, rfl⟩, rfl⟩ := h
      exact ⟨_, hn⟩
    · cases h
  · rintro ⟨func, hn⟩
    exact ⟨_, hn, by simp⟩

/-- The destruction of a scheduled connection changes no stage. -/
theorem inv_destroy {ring : Int} {object : TcpConnection} (inv : Inv rings s stage)
    (h : s.destroyStep rings ring a object = some s') : Inv rings s' stage := by
  unfold destroyStep at h
  split at h
  · rename_i fd hd
    split at h
    · rename_i guard
      obtain ⟨worker, scheduled, holder⟩ := guard
      obtain ⟨func, scheduled⟩ := wasScheduled_iff.mp scheduled
      obtain rfl := Option.some.inj h
      have not_main : rings.main ≠ ring := fun hr => rings.main_not_mem (hr ▸ worker)
      refine { inv with at_ := fun b => { inv.at_ b with slot := ?_, installed := ?_ } }
      · intro occ
        refine ⟨((inv.at_ b).slot occ).1, ?_⟩
        exact (setSlot_other (.inl not_main)).trans ((inv.at_ b).slot occ).2
      · intro j hj
        apply setSlot_kept ((inv.at_ b).installed j hj)
        rw [holder]
        intro hab
        obtain rfl := Option.some.inj hab
        rw [inv.installed_of_scheduled scheduled] at hj
        cases hj
    · cases h
  · cases h

/-! ## The main thread -/

/-- Objects move, and the ones that hold nothing close descriptor -1: no connection is at another
stage. -/
theorem Inv.moved {main : MainThread} {extra : List (Submission φ)} (inv : Inv rings s stage)
    (main_inv : main.Inv) (accepted : main.accepted = s.main.accepted)
    (holders : ∀ o b, main.ledger.holds o = some b → ∃ o', s.main.ledger.holds o' = some b)
    (extra_eq : ∀ c ∈ extra, c.about = none ∧ c.ring = rings.main ∧ c.chain = [closeSqe (-1)]) :
    Inv rings { s with main, sq := s.sq ++ extra } stage := by
  have fd : ∀ b, fdOf { s with main, sq := s.sq ++ extra } b = s.fdOf b :=
    fun b => by simp only [fdOf, accepted]
  refine ⟨main_inv, ?_, ?_, ?_, ?_, ?_, inv.cq_other⟩
  · intro b hb
    rw [accepted] at hb
    exact inv.unborn b hb
  · intro o b hb
    obtain ⟨o', h⟩ := holders o b hb
    exact inv.held o' b h
  · intro b
    have own := inv.at_ b
    refine ⟨?_, own.worker, own.installed, ?_, ?_, ?_, ?_⟩ <;> rw [fd]
    · exact own.slot
    · exact own.stored
    · have : extra.filter (·.about = some b) = [] :=
        List.filter_eq_nil_iff.mpr fun c hc => by simp [(extra_eq c hc).1]
      rw [sqOf, List.filter_append, this, List.append_nil]
      exact own.sq
    · exact own.cq
    · exact own.log
  · intro ring key slot h
    obtain ⟨b, j, hj, hw, hfd⟩ := inv.only_stored ring key slot h
    exact ⟨b, j, hj, hw, by rw [fd, hfd]⟩
  · intro c hc hnone
    rcases List.mem_append.mp hc with h | h
    · exact inv.sq_other c h hnone
    · exact (extra_eq c h).2

/-- **The main thread hands a connection on.** The object that held it gives it up, and a request
about it is submitted. -/
theorem Inv.givenUp (st : Stage φ) {main : MainThread} {o : ObjId} {fate : Ledger.Fate} {c : Submission φ}
    {current : Int} {note : Note φ} (inv : Inv rings s stage) (main_inv : main.Inv)
    (accepted : main.accepted = s.main.accepted)
    (ledger : main.ledger = s.main.ledger.giveUp o fate)
    (holder : s.main.ledger.holds o = some a) (worker : ∀ w, st.worker = some w → w ∈ rings.workers) (installed : st.installed = none)
    (stored : st.stored = none) (about : c.about = some a)
    (submissions : st.submissions rings a (s.fdOf a) = [c])
    (completions : ∀ ring, st.completions rings a (s.fdOf a) ring = []) (conn : note.conn = a)
    (notes : st.notes rings a (s.fdOf a) = [note]) :
    Inv rings { s with main, current, sq := s.sq ++ [c], log := s.log ++ [note] }
      (Function.update stage a st) := by
  have hst := inv.held o a holder
  have own := inv.at_ a
  rw [hst] at own
  have fd : ∀ b, fdOf { s with main, current, sq := s.sq ++ [c], log := s.log ++ [note] } b =
      s.fdOf b := fun b => by simp only [fdOf, accepted]
  have conn' : ∀ n ∈ [note], n.conn = a := fun n hn => List.mem_singleton.mp hn ▸ conn
  refine inv.touch ?_ ?_ main_inv ?_ ?_ ?_ ?_ ?_ inv.cq_other
  · -- the other connections
    refine ⟨fun b _ => fd b, fun _ _ _ _ h => h, fun _ _ => .inl rfl, ?_, fun _ _ _ => rfl, ?_⟩
    · intro b ne
      have : [c].filter (·.about = some b) = [] :=
        List.filter_eq_nil_iff.mpr fun d hd => by simp [List.mem_singleton.mp hd, about, ne.symm]
      simp only [sqOf, List.filter_append, this, List.append_nil]
    · intro b ne
      rw [notesOf_append, notesOf_other conn' ne, List.append_nil]
  · -- the connection itself
    refine ⟨?_, worker, ?_, ?_, ?_, ?_, ?_⟩ <;> try rw [fd]
    · exact fun _ => own.slot trivial
    · intro j hj
      rw [installed] at hj
      cases hj
    · intro j hj
      rw [stored] at hj
      cases hj
    · have : [c].filter (·.about = some a) = [c] :=
        List.filter_eq_self.mpr fun d hd => by simp [List.mem_singleton.mp hd, about]
      rw [sqOf, List.filter_append, this, submissions]
      exact congrArg (· ++ [c]) own.sq
    · intro ring
      rw [completions]
      exact own.cq ring
    · rw [notesOf_append, notesOf_own conn', own.log, notes]
      rfl
  · rw [accepted]
    refine inv.born fun h => ?_
    rw [hst] at h
    cases h
  · intro b _ hb
    rwa [accepted] at hb
  · intro o' b hb
    rw [ledger] at hb
    obtain ⟨ne, hb⟩ := Ledger.holds_of_giveUp hb
    refine .inr ⟨?_, o', hb⟩
    intro hba
    exact ne (inv.main.balanced.injective o' o a (hba ▸ hb) holder)
  · intro ring key slot h
    rw [fd]
    exact inv.stored_same h (by rw [stored, hst]; rfl)
  · intro d hd hnone
    rcases List.mem_append.mp hd with h | h
    · exact inv.sq_other d h hnone
    · rw [List.mem_singleton.mp h, about] at hnone
      cases hnone

/-- A connection is accepted into a free slot. -/
theorem Inv.accepted {main : MainThread} {o : ObjId} {slot : Int} (inv : Inv rings s stage)
    (main_inv : main.Inv) (accepted : main.accepted = s.main.accepted ++ [slot])
    (ledger : main.ledger = s.main.ledger.acquire o) (pos : 0 ≤ slot)
    (free : s.table rings.main slot = none) :
    Inv rings { s with
        main
        table := setSlot s.table rings.main slot (some s.main.accepted.length) }
      (Function.update stage s.main.accepted.length .held) := by
  have hst := inv.unborn _ (Nat.le_refl s.main.accepted.length)
  have own := inv.at_ s.main.accepted.length
  rw [hst] at own
  have fd_new : main.accepted.getD s.main.accepted.length (-1) = slot := by
    rw [accepted]
    simp
  refine inv.touch ?_ ?_ main_inv ?_ ?_ ?_ ?_ inv.sq_other inv.cq_other
  · refine ⟨?_, ?_, fun _ _ => .inl rfl, fun _ _ => rfl, fun _ _ _ => rfl, fun _ _ => rfl⟩
    · intro b ne
      simp only [fdOf, accepted, List.getD_eq_getElem?_getD]
      rcases Nat.lt_or_gt_of_ne ne with h | h
      · rw [List.getElem?_append_left h]
      · rw [List.getElem?_eq_none (by simp; omega), List.getElem?_eq_none (by omega)]
    · intro b _ ring slot' h
      exact setSlot_kept h (by rw [free]; exact fun h => nomatch h)
  · refine ⟨fun _ => ?_, fun _ h => (nomatch h), fun _ h => (nomatch h), fun _ h => (nomatch h),
      own.sq, own.cq, own.log⟩
    simp only [fdOf, fd_new]
    exact ⟨pos, setSlot_self ..⟩
  · simp [accepted]
  · intro b _ hb
    simp only [accepted, List.length_append, List.length_cons, List.length_nil] at hb
    omega
  · intro o' b hb
    rw [ledger] at hb
    rcases Ledger.holds_of_acquire hb with ⟨-, hb⟩ | ⟨-, hb⟩
    · exact .inl ⟨hb.trans inv.main.acquired, rfl⟩
    · refine .inr ⟨?_, o', hb⟩
      have := inv.main.balanced.held_lt o' b hb
      rw [inv.main.acquired] at this
      omega
  · intro ring key slot' h
    refine .inr (inv.stored_other h ?_)
    intro j hj
    rw [hst] at hj
    cases hj

/-- An operation of the main thread that submits no close. -/
theorem mainStep_quiet {ev : MainEvent} {main : MainThread}
    (not_accept : ∀ o slot, ev ≠ .accept o slot) (hm : s.main.step ev = some main)
    (closes : main.closes = s.main.closes) (h : s.mainStep rings ev = some s') :
    s' = { s with main, sq := s.sq ++ [] } := by
  have htable : s.acceptSlot rings ev = some s.table := by
    cases ev with
    | accept o slot => exact absurd rfl (not_accept o slot)
    | _ => rfl
  simp only [mainStep, htable, hm, newCloses, closes, List.drop_length, Option.bind_eq_bind,
    Option.bind_some, List.map_nil, List.filterMap_nil, List.append_nil, Option.some.injEq] at h
  rw [← h, List.append_nil]

/-- **The main thread accepts a connection, closes it or moves its object**, and every other
connection stays at its stage. -/
theorem inv_main {ev : MainEvent} (inv : Inv rings s stage) (h : s.mainStep rings ev = some s') :
    ∃ stage', Inv rings s' stage' := by
  obtain ⟨table, htable, main, hm, heq⟩ : ∃ table, s.acceptSlot rings ev = some table ∧
      ∃ main, s.main.step ev = some main ∧ s' = { s with
        main, table
        sq := s.sq ++ (newCloses s.main main).map fun r => ⟨rings.main, r.held, [closeSqe r.fd]⟩
        log := s.log ++ (newCloses s.main main).filterMap fun r =>
          r.held.map fun a => .closedByObject a r.fd } := by
    simp only [mainStep, Option.bind_eq_bind, Option.bind_eq_some_iff] at h
    obtain ⟨table, htable, main, hm, heq⟩ := h
    exact ⟨table, htable, main, hm, (Option.some.inj heq).symm⟩
  have main_inv := MainThread.inv_step inv.main hm
  have no_extra : ∀ c ∈ ([] : List (Submission φ)),
      c.about = none ∧ c.ring = rings.main ∧ c.chain = [closeSqe (-1)] :=
    fun _ hc => absurd hc List.not_mem_nil
  cases MainThread.does_of_step hm with
  | @accept o slot unused pos =>
    simp only [acceptSlot] at htable
    split at htable
    · rename_i free
      obtain rfl := Option.some.inj htable
      simp only [newCloses, List.drop_length, List.map_nil, List.filterMap_nil,
        List.append_nil] at heq
      subst heq
      exact ⟨_, inv.accepted main_inv rfl rfl pos free⟩
    · cases htable
  | construct | assign =>
    obtain rfl := mainStep_quiet (fun _ _ h => by cases h) hm rfl h
    refine ⟨stage, inv.moved main_inv rfl ?_ no_extra⟩
    intro o b hb
    obtain ⟨-, ⟨-, hb⟩ | ⟨-, hb⟩⟩ := Ledger.holds_of_transfer hb
    · exact ⟨_, hb⟩
    · exact ⟨_, hb⟩
  | assignSelf | releaseThrows | destroySilent =>
    obtain rfl := mainStep_quiet (fun _ _ h => by cases h) hm rfl h
    exact ⟨stage, inv.moved main_inv rfl (fun o b hb => ⟨o, hb⟩) no_extra⟩
  | release =>
    obtain rfl := mainStep_quiet (fun _ _ h => by cases h) hm rfl h
    exact ⟨stage, inv.moved main_inv rfl (fun o b hb => ⟨o, (Ledger.holds_of_giveUp hb).2⟩) no_extra⟩
  | @destroyCloses o c r hc hd =>
    obtain rfl := Option.some.inj htable
    have shows := inv.main.live o c hc
    obtain ⟨owned, rfl⟩ : c.ownershipInSysRing = true ∧
        r = ⟨.sysUringLoop, .closeDirect, c.socket⟩ := by
      rcases shows.destroy with ⟨owned, hdc⟩ | ⟨-, -, hdc⟩
      · exact ⟨owned, Option.some.inj (hd.symm.trans hdc)⟩
      · rw [hd] at hdc
        cases hdc
    simp only [newCloses, List.drop_left] at heq
    cases holder : s.main.ledger.holds o with
    | none =>
      -- the object was moved from, and closes descriptor -1
      have socket := shows.empty holder owned
      simp only [holder, socket, List.map_cons, List.map_nil, List.filterMap_cons,
        List.filterMap_nil, Option.map_none, List.append_nil] at heq
      subst heq
      refine ⟨stage, inv.moved (socket ▸ holder ▸ main_inv) rfl ?_ ?_⟩
      · exact fun o' b hb => ⟨o', (Ledger.holds_of_giveUp hb).2⟩
      · intro d hd'
        obtain rfl := List.mem_singleton.mp hd'
        exact ⟨rfl, rfl, rfl⟩
    | some a =>
      have hfd : s.fdOf a = c.socket := by
        rw [fdOf, List.getD_eq_getElem?_getD, (shows.holding a holder).2.2, Option.getD_some]
      simp only [holder, List.map_cons, List.map_nil, List.filterMap_cons, List.filterMap_nil,
        Option.map_some] at heq
      subst heq
      refine ⟨_, inv.givenUp (.closing none) (holder ▸ main_inv) rfl rfl holder
        (fun _ h => absurd h (by simp [Stage.worker])) rfl rfl rfl ?_ (fun _ => rfl) rfl ?_⟩
      · rw [hfd]
        rfl
      · rw [hfd]
        rfl

/-! ## Spawns -/

theorem inv_spawn {o : ObjId} {func : φ} (inv : Inv rings s stage)
    (h : s.spawn rings o func = some s') : ∃ stage', Inv rings s' stage' := by
  simp only [spawn, Option.bind_eq_bind, Option.bind_eq_some_iff] at h
  obtain ⟨conn, hobj, a, holder, ⟨conn', current, sqes⟩, hspawn, main, hm, worker, hw, heq⟩ := h
  obtain ⟨-, worker', mem, rfl⟩ := parallelSpawn_eq hspawn
  obtain rfl : worker' = worker := Option.some.inj hw
  obtain rfl := (Option.some.inj heq).symm
  have shows := (inv.main.live o conn hobj).holding a holder
  have hfd : s.fdOf a = conn.socket := by
    rw [fdOf, List.getD_eq_getElem?_getD, shows.2.2, Option.getD_some]
  have main_inv := MainThread.inv_step inv.main hm
  cases MainThread.does_of_step hm with
  | release =>
    refine ⟨_, inv.givenUp (.sent worker' func) main_inv rfl rfl holder ?_ rfl rfl rfl ?_
      (fun _ => rfl) rfl rfl⟩
    · rintro w ⟨⟩
      exact mem
    · rw [hfd]
      rfl
  | releaseThrows =>
    simp only [MainThread.step, hobj, TcpConnection.release, shows.1, Bool.true_eq_false,
      if_false, Option.some.injEq] at hm
    have held := congrArg (fun m => m.ledger.holds o) hm
    simp only [Ledger.giveUp_holds_self, holder, reduceCtorEq] at held

/-! ## Runs -/

/-- **Every event keeps the invariant.** -/
theorem inv_step {ev : SystemEvent φ} (inv : Inv rings s stage) (h : s.step rings ev = some s') :
    ∃ stage', Inv rings s' stage' := by
  cases ev with
  | main e => exact inv_main inv h
  | spawn o func => exact inv_spawn inv h
  | kernel k slot => exact inv_kernel inv h
  | handle ring => exact inv_handle inv h
  | destroy ring a object => exact ⟨stage, inv_destroy inv h⟩

end System

end CoNet.Context
