import CoNet.Laws.Context.Stage

/-!
# What the kernel does to a hand-over

The request that the kernel executes next is the one a stage has, and its effects are what the next
stage has (`inv_kernel`). A close of descriptor -1 is about no connection.
-/

set_option autoImplicit false

namespace CoNet.Context

open CoNet.Io CoNet.Net Transition

variable {φ : Type}

namespace System

variable {rings : Rings} {s s' e : System φ} {stage : Nat → Stage φ} {a b : Nat} {st : Stage φ}

/-- The submissions about a connection are the ones its stage has. -/
theorem Inv.mem_submissions (inv : Inv rings s stage) {c : Submission φ} (hc : c ∈ s.sq)
    (about : c.about = some a) : c ∈ (stage a).submissions rings a (s.fdOf a) := by
  rw [← (inv.at_ a).sq]
  exact List.mem_filter.mpr ⟨hc, decide_eq_true about⟩

/-- A stage has one submission at most. -/
theorem Stage.submissions_eq {c : Submission φ} {fd : Int}
    (h : c ∈ st.submissions rings a fd) : st.submissions rings a fd = [c] := by
  cases st <;> first
    | exact absurd h List.not_mem_nil
    | (obtain rfl := List.mem_singleton.mp h; rfl)

/-- The submission about a connection is the one its stage has. -/
theorem Inv.only_submission (inv : Inv rings s stage) {k : Nat} {c d : Submission φ}
    (hk : s.sq[k]? = some c) (about : c.about = some a)
    (only : (stage a).submissions rings a (s.fdOf a) = [d]) : c = d := by
  have mem := inv.mem_submissions (List.mem_of_getElem? hk) about
  rw [only] at mem
  exact List.mem_singleton.mp mem

/-- A connection with a stage of its own was accepted. -/
theorem Inv.born (inv : Inv rings s stage) (h : stage a ≠ .unborn) :
    a < s.main.accepted.length := by
  by_contra hn
  exact h (inv.unborn a (by omega))

/-! ## The kernel -/

/-- What a `post` adds to a queue. -/
def posted (target : Int) (cqe : Cqe Unit φ Unit Addr) (ring : Int) :
    List (Cqe Unit φ Unit Addr) :=
  if ring = target then [cqe] else []

theorem post_cq (target : Int) (cqe : Cqe Unit φ Unit Addr) (ring : Int) :
    (s.post target cqe).cq ring = s.cq ring ++ posted target cqe ring := by
  by_cases h : ring = target
  · subst h
    simp only [post, posted, Function.update_self, if_true]
  · simp only [post, posted, Function.update_of_ne h, h, if_false, List.append_nil]

theorem mem_posted {target ring : Int} {cqe cqe' : Cqe Unit φ Unit Addr}
    (h : cqe' ∈ posted target cqe ring) : cqe' = cqe := by
  unfold posted at h
  split at h
  · exact List.mem_singleton.mp h
  · cases h

theorem filter_posted {target : Int} {cqe : Cqe Unit φ Unit Addr} (h : aboutCqe cqe = some a)
    (ring : Int) : (posted target cqe ring).filter (aboutCqe · = some a) = posted target cqe ring :=
  List.filter_eq_self.mpr fun _ hc => by simp [mem_posted hc, h]

theorem setSlot_self (table : Int → Int → Option Nat) (ring slot : Int) (conn : Option Nat) :
    setSlot table ring slot conn ring slot = conn := by
  simp only [setSlot, Function.update_self]

/-- Setting a slot changes no other one. -/
theorem setSlot_other {table : Int → Int → Option Nat} {ring slot ring' slot' : Int}
    {conn : Option Nat} (h : ring' ≠ ring ∨ slot' ≠ slot) :
    setSlot table ring slot conn ring' slot' = table ring' slot' := by
  unfold setSlot
  by_cases hr : ring' = ring
  · subst hr
    rw [Function.update_self, Function.update_of_ne (h.resolve_left fun hn => hn rfl)]
  · rw [Function.update_of_ne hr]

/-- Setting a slot that was another connection's, or free, takes none from a connection. -/
theorem setSlot_kept {table : Int → Int → Option Nat} {ring slot ring' slot' : Int}
    {conn : Option Nat} (h : table ring' slot' = some b) (other : table ring slot ≠ some b) :
    setSlot table ring slot conn ring' slot' = some b := by
  rw [setSlot_other, h]
  by_contra hn
  rw [not_or, not_not, not_not] at hn
  rw [hn.1, hn.2] at h
  exact other h

/-- The descriptor of a connection is installed in a free slot of the worker. -/
theorem execute_sendFd {worker fd slot : Int} {func : φ} (holder : s.table rings.main fd = some a)
    (h : s.execute rings.main (spawnSqes worker fd (spawnAddrs a) func).sendFd slot = some e) :
    s.table worker slot = none ∧
      e = (({ s with
        table := setSlot s.table worker slot (some a)
        log := s.log ++ [Note.installed a worker slot] }).post worker (fdCqe a fd slot)).post rings.main
          (senderCqe a) := by
  simp only [execute, spawnSqes, holder] at h
  split at h
  · rename_i b holder' free
    obtain rfl := Option.some.inj holder'
    split at h
    · exact ⟨free, (Option.some.inj h).symm⟩
    · cases h
  · cases h

/-- The close of a connection's slot. -/
theorem execute_close {ring fd slot : Int} (pos : 0 ≤ fd) (holder : s.table ring fd = some a)
    (h : s.execute ring (closeSqe fd) slot = some e) :
    e = { s with
      table := setSlot s.table ring fd none, log := s.log ++ [.closed a ring fd] } := by
  simp only [execute, closeSqe, if_pos pos, holder] at h
  exact (Option.some.inj h).symm

/-- The other connections see nothing of a connection's request. -/
theorem frame_executed {k : Nat} {c : Submission φ} {rest : List (Sqe Unit φ Unit Addr)}
    {notes : List (Note φ)} {posted : Int → List (Cqe Unit φ Unit Addr)}
    (hk : s.sq[k]? = some c) (about : c.about = some a)
    (main : e.main = s.main) (uring : e.uring = s.uring) (log : e.log = s.log ++ notes)
    (conn : ∀ n ∈ notes, n.conn = a) (cq : ∀ ring, e.cq ring = s.cq ring ++ posted ring)
    (posted_about : ∀ ring, ∀ cqe ∈ posted ring, aboutCqe cqe = some a ∨ cqe = senderCqe a)
    (table : ∀ b, b ≠ a → ∀ ring slot, s.table ring slot = some b → e.table ring slot = some b) :
    Frame s { e with sq := s.sq.take k ++ remaining c rest ++ s.sq.drop (k + 1) } a st where
  fd b _ := by simp only [fdOf, main]
  table := table
  map ring key := .inl (by rw [uring])
  sq b ne := by
    apply (sqOf_splice { e with
      sq := s.sq.take k ++ remaining c rest ++ s.sq.drop (k + 1) } hk rfl).1 b
    rw [about]
    exact fun h => ne (Option.some.inj h).symm
  cq b ne ring := by
    have not_about : (posted ring).filter (aboutCqe · = some b) = [] := by
      refine List.filter_eq_nil_iff.mpr fun cqe hc => ?_
      rcases posted_about ring cqe hc with h | rfl
      · simp [h, ne.symm]
      · simp [aboutCqe, senderCqe]
    have appended := cqOf_append (cq ring) b
    rwa [not_about, List.append_nil] at appended
  log b ne := by rw [log, notesOf_append, notesOf_other conn ne, List.append_nil]

/-- **The kernel executes a connection's request.** It posts completions to the ends of the queues
and leaves the maps alone; what it does to the tables, the log and the queues has to be what the next
stage has. -/
theorem Inv.executed {k : Nat} {c : Submission φ} {rest : List (Sqe Unit φ Unit Addr)}
    (notes : List (Note φ)) (posted : Int → List (Cqe Unit φ Unit Addr))
    (inv : Inv rings s stage) (hk : s.sq[k]? = some c) (about : c.about = some a)
    (main : e.main = s.main) (uring : e.uring = s.uring) (log : e.log = s.log ++ notes)
    (conn : ∀ n ∈ notes, n.conn = a) (cq : ∀ ring, e.cq ring = s.cq ring ++ posted ring)
    (posted_about : ∀ ring, ∀ cqe ∈ posted ring, aboutCqe cqe = some a ∨ cqe = senderCqe a)
    (table : ∀ b, b ≠ a → ∀ ring slot, s.table ring slot = some b → e.table ring slot = some b)
    (slot : st.Occupies → 0 ≤ s.fdOf a ∧ e.table rings.main (s.fdOf a) = some a)
    (worker : ∀ w, st.worker = some w → w ∈ rings.workers)
    (installed : ∀ j, st.installed = some j → e.table j.worker j.slot = some a)
    (stored : st.stored = (stage a).stored)
    (submissions : remaining c rest = st.submissions rings a (s.fdOf a))
    (completions : ∀ ring, (stage a).completions rings a (s.fdOf a) ring ++
      (posted ring).filter (aboutCqe · = some a) = st.completions rings a (s.fdOf a) ring)
    (notes_eq : (stage a).notes rings a (s.fdOf a) ++ notes = st.notes rings a (s.fdOf a)) :
    Inv rings { e with sq := s.sq.take k ++ remaining c rest ++ s.sq.drop (k + 1) }
      (Function.update stage a st) := by
  have mem := inv.mem_submissions (List.mem_of_getElem? hk) about
  have fd : ∀ b, fdOf { e with sq := s.sq.take k ++ remaining c rest ++ s.sq.drop (k + 1) } b =
      s.fdOf b := fun b => by simp only [fdOf, main]
  have splice := sqOf_splice { e with
    sq := s.sq.take k ++ remaining c rest ++ s.sq.drop (k + 1) } hk rfl
  refine inv.touch (frame_executed hk about main uring log conn cq posted_about table) ?_ ?_ ?_ ?_ ?_
    ?_ ?_ ?_
  · -- the connection itself
    refine ⟨?_, worker, installed, ?_, ?_, ?_, ?_⟩
    · rw [fd]
      exact slot
    · intro j hj
      rw [fd, uring]
      exact (inv.at_ a).stored j (stored ▸ hj)
    · rw [fd, ← submissions]
      exact splice.2 a (by rw [(inv.at_ a).sq, Stage.submissions_eq mem])
    · intro ring
      rw [fd, ← completions, ← (inv.at_ a).cq]
      exact cqOf_append (cq ring) a
    · rw [fd, ← notes_eq, ← (inv.at_ a).log, log, notesOf_append, notesOf_own conn]
  · rw [main]
    exact inv.main
  · rw [main]
    refine inv.born fun h => ?_
    rw [h] at mem
    cases mem
  · intro b _ hb
    rwa [main] at hb
  · intro o b hb
    rw [main] at hb
    refine .inr ⟨?_, o, hb⟩
    intro hba
    have := inv.held o b hb
    rw [hba] at this
    rw [this] at mem
    cases mem
  · intro ring key slot h
    rw [fd]
    rw [uring] at h
    exact inv.stored_same h stored
  · intro d hd hnone
    rcases mem_splice hd with h | ⟨h, -⟩
    · exact inv.sq_other d h hnone
    · rw [hnone, about] at h
      cases h
  · intro ring cqe hc hnone
    rw [cq ring] at hc
    rcases List.mem_append.mp hc with h | h
    · exact inv.cq_other ring cqe h hnone
    · rcases posted_about ring cqe h with h | h
      · rw [hnone] at h
        cases h
      · exact ⟨a, h⟩

section Kernel

variable {k : Nat} {slot : Int} {c : Submission φ} {sqe : Sqe Unit φ Unit Addr}
  {rest : List (Sqe Unit φ Unit Addr)} {j : Job φ} {by_ : Option (Job φ)}
  (inv : Inv rings s stage) (hk : s.sq[k]? = some c) (chain : c.chain = sqe :: rest)
  (he : s.execute c.ring sqe slot = some e)

include inv hk chain he

/-- A close of descriptor -1 is about no connection. -/
theorem Inv.executed_other (about : c.about = none) :
    Inv rings { e with sq := s.sq.take k ++ remaining c rest ++ s.sq.drop (k + 1) } stage := by
  have hc := (inv.sq_other c (List.mem_of_getElem? hk) about).2
  rw [chain] at hc
  obtain ⟨rfl, rfl⟩ := List.cons.inj hc
  obtain rfl : s = e := Option.some.inj he
  have splice := sqOf_splice { s with
    sq := s.sq.take k ++ remaining c [] ++ s.sq.drop (k + 1) } hk rfl
  refine { inv with at_ := fun b => { inv.at_ b with sq := ?_ }, sq_other := ?_ }
  · refine (splice.1 b ?_).trans (inv.at_ b).sq
    rw [about]
    exact fun h => nomatch h
  · intro d hd hnone
    rcases mem_splice hd with h | ⟨-, h⟩
    · exact inv.sq_other d h hnone
    · exact absurd rfl h

/-- The descriptor is installed, and posted to the worker. -/
theorem Inv.sent_fdPosted {worker : Int} {func : φ} (about : c.about = some a)
    (hst : stage a = .sent worker func) :
    Inv rings { e with sq := s.sq.take k ++ remaining c rest ++ s.sq.drop (k + 1) }
      (Function.update stage a (.fdPosted ⟨worker, func, slot⟩)) := by
  have own := inv.at_ a
  rw [hst] at own
  obtain rfl := inv.only_submission hk about (by rw [hst]; rfl)
  obtain ⟨rfl, rfl⟩ := List.cons.inj chain
  have occ := own.slot trivial
  obtain ⟨free, rfl⟩ := execute_sendFd occ.2 he
  have hw : worker ∈ rings.workers := own.worker worker rfl
  have ne : rings.main ≠ worker := fun h => rings.main_not_mem (h ▸ hw)
  refine inv.executed [.installed a worker slot]
    (fun ring => posted worker (fdCqe a (s.fdOf a) slot) ring ++ posted rings.main (senderCqe a) ring)
    hk about rfl rfl rfl ?_ ?_ ?_ ?_ ?_ ?_ ?_ ?_ rfl ?_ ?_
  · intro n hn
    obtain rfl := List.mem_singleton.mp hn
    rfl
  · intro ring
    rw [post_cq, post_cq, List.append_assoc]
  · intro ring cqe hc
    rcases List.mem_append.mp hc with h | h
    · rw [mem_posted h]
      exact .inl rfl
    · exact .inr (mem_posted h)
  · intro b _ ring slot' h
    exact setSlot_kept h (by rw [free]; exact fun h => nomatch h)
  · exact fun _ => ⟨occ.1, setSlot_kept occ.2 (by rw [free]; exact fun h => nomatch h)⟩
  · rintro w ⟨⟩
    exact hw
  · rintro j ⟨⟩
    exact setSlot_self ..
  · rw [hst]
    rfl
  · intro ring
    rw [hst, List.filter_append, filter_posted rfl]
    have : (posted rings.main (senderCqe a : Cqe Unit φ Unit Addr) ring).filter
        (aboutCqe · = some a) = [] :=
      List.filter_eq_nil_iff.mpr fun cqe hc => by simp [mem_posted hc, aboutCqe, senderCqe]
    rw [this, List.append_nil]
    rfl
  · rw [hst]
    rfl

/-- A message about the connection is posted, and its last submission with it. -/
theorem Inv.message (target : Int) (cqe : Cqe Unit φ Unit Addr) (about : c.about = some a)
    (last : rest = []) (sent : e = s.post target cqe) (about_cqe : aboutCqe cqe = some a)
    (occupies : st.Occupies → (stage a).Occupies) (worker : st.worker = (stage a).worker)
    (installed : st.installed = (stage a).installed) (stored : st.stored = (stage a).stored)
    (submissions : st.submissions rings a (s.fdOf a) = [])
    (completions : ∀ ring, (stage a).completions rings a (s.fdOf a) ring ++
      posted target cqe ring = st.completions rings a (s.fdOf a) ring)
    (notes : st.notes rings a (s.fdOf a) = (stage a).notes rings a (s.fdOf a)) :
    Inv rings { e with sq := s.sq.take k ++ remaining c rest ++ s.sq.drop (k + 1) }
      (Function.update stage a st) := by
  subst last sent
  have own := inv.at_ a
  refine inv.executed [] (posted target cqe) hk about rfl rfl ?_ ?_
    (post_cq target cqe) ?_ ?_ ?_ ?_ ?_ stored ?_ ?_ ?_
  · exact (List.append_nil _).symm
  · exact fun _ h => absurd h List.not_mem_nil
  · intro ring cqe' h
    rw [mem_posted h]
    exact .inl about_cqe
  · exact fun _ _ _ _ h => h
  · exact fun h => own.slot (occupies h)
  · exact fun w h => own.worker w (worker ▸ h)
  · exact fun j h => own.installed j (installed ▸ h)
  · exact submissions.symm
  · intro ring
    rw [filter_posted about_cqe, completions]
  · rw [List.append_nil, notes]

/-- The task is posted, behind the descriptor if that was not handled yet. -/
theorem Inv.task_posted (about : c.about = some a)
    (hst : stage a = .fdPosted j ∧ st = .bothPosted j ∨ stage a = .fdStored j ∧ st = .taskPosted j) :
    Inv rings { e with sq := s.sq.take k ++ remaining c rest ++ s.sq.drop (k + 1) }
      (Function.update stage a st) := by
  have only : (stage a).submissions rings a (s.fdOf a) =
      [⟨rings.main, some a, [(spawnSqes j.worker (s.fdOf a) (spawnAddrs a) j.func).sendTask]⟩] := by
    rcases hst with ⟨h, -⟩ | ⟨h, -⟩ <;> rw [h] <;> rfl
  obtain rfl := inv.only_submission hk about only
  obtain ⟨rfl, rfl⟩ := List.cons.inj chain
  refine inv.message hk chain he j.worker (taskCqe a (s.fdOf a) j.func) about rfl
    (Option.some.inj he).symm rfl ?_ ?_ ?_ ?_ ?_ ?_ ?_
  · rcases hst with ⟨h, -⟩ | ⟨h, -⟩ <;> exact fun _ => h ▸ trivial
  · rcases hst with ⟨h, rfl⟩ | ⟨h, rfl⟩ <;> rw [h] <;> rfl
  · rcases hst with ⟨h, rfl⟩ | ⟨h, rfl⟩ <;> rw [h] <;> rfl
  · rcases hst with ⟨h, rfl⟩ | ⟨h, rfl⟩ <;> rw [h] <;> rfl
  · rcases hst with ⟨-, rfl⟩ | ⟨-, rfl⟩ <;> rfl
  · intro ring
    rcases hst with ⟨h, rfl⟩ | ⟨h, rfl⟩ <;> rw [h] <;> simp only [Stage.completions, posted]
    · split <;> rfl
    · rw [List.nil_append]
  · rcases hst with ⟨h, rfl⟩ | ⟨h, rfl⟩ <;> rw [h] <;> rfl

/-- The worker's notice is posted to the main ring. -/
theorem Inv.scheduled_noticePosted (about : c.about = some a) (hst : stage a = .scheduled j) :
    Inv rings { e with sq := s.sq.take k ++ remaining c rest ++ s.sq.drop (k + 1) }
      (Function.update stage a (.noticePosted j)) := by
  obtain rfl := inv.only_submission hk about (by rw [hst]; rfl)
  obtain ⟨rfl, rfl⟩ := List.cons.inj chain
  refine inv.message hk chain he rings.main (noticeCqe a (s.fdOf a)) about rfl
    (Option.some.inj he).symm rfl ?_ ?_ ?_ ?_ rfl ?_ ?_
  · exact fun _ => hst ▸ trivial
  · rw [hst]; rfl
  · rw [hst]; rfl
  · rw [hst]; rfl
  · intro ring
    rw [hst]
    simp only [Stage.completions, posted, List.nil_append]
  · rw [hst]; rfl

/-- The main ring's slot is closed. -/
theorem Inv.closing_closed (about : c.about = some a) (hst : stage a = .closing by_) :
    Inv rings { e with sq := s.sq.take k ++ remaining c rest ++ s.sq.drop (k + 1) }
      (Function.update stage a (.closed by_)) := by
  have own := inv.at_ a
  rw [hst] at own
  obtain rfl := inv.only_submission hk about (by rw [hst]; rfl)
  obtain ⟨rfl, rfl⟩ := List.cons.inj chain
  have occ := own.slot trivial
  obtain rfl := execute_close occ.1 occ.2 he
  refine inv.executed [.closed a rings.main (s.fdOf a)] (fun _ => []) hk about
    rfl rfl rfl ?_ ?_ ?_ ?_ ?_ ?_ ?_ ?_ rfl ?_ ?_
  · intro n hn
    obtain rfl := List.mem_singleton.mp hn
    rfl
  · exact fun _ => (List.append_nil _).symm
  · exact fun _ _ h => absurd h List.not_mem_nil
  · intro b ne ring slot' h
    exact setSlot_kept h (by rw [occ.2]; exact fun h => ne (Option.some.inj h).symm)
  · exact fun h => h.elim
  · exact fun w h => nomatch h
  · exact fun j h => nomatch h
  · rw [hst]; rfl
  · intro ring
    rw [hst]; rfl
  · rw [hst]
    cases by_ <;> rfl

end Kernel

/-- **The kernel takes a connection to its next stage**, whatever request it executes next. -/
theorem inv_kernel {k : Nat} {slot : Int} (inv : Inv rings s stage)
    (h : s.kernelStep k slot = some s') : ∃ stage', Inv rings s' stage' := by
  unfold kernelStep at h
  split at h
  · cases h
  · rename_i c hk
    split at h
    · cases h
    · rename_i sqe rest chain
      obtain ⟨e, he, rfl⟩ := Option.map_eq_some_iff.mp h
      cases about : c.about with
      | none => exact ⟨stage, inv.executed_other hk chain he about⟩
      | some a =>
        have mem := inv.mem_submissions (List.mem_of_getElem? hk) about
        cases hst : stage a with
        | sent worker func => exact ⟨_, inv.sent_fdPosted hk chain he about hst⟩
        | fdPosted j => exact ⟨_, inv.task_posted hk chain he about (.inl ⟨hst, rfl⟩)⟩
        | fdStored j => exact ⟨_, inv.task_posted hk chain he about (.inr ⟨hst, rfl⟩)⟩
        | scheduled j => exact ⟨_, inv.scheduled_noticePosted hk chain he about hst⟩
        | closing j => exact ⟨_, inv.closing_closed hk chain he about hst⟩
        | _ =>
          rw [hst] at mem
          cases mem

end System

end CoNet.Context
