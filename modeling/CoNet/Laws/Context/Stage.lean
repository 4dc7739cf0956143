import CoNet.Context.ParallelSpawn
import CoNet.Laws.Io.Uring
import CoNet.Laws.Net.MainThread

/-!
# Stages of a hand-over

`story` is what should happen to a spawned connection, in order: its descriptor is installed in a
slot of the worker's ring, that slot is stored under the main ring's slot number where nothing was,
the task finds it and is scheduled with it, and the main ring's slot is closed. `HandedOver` says
that what has happened to each spawned connection is a beginning of its story, and all of it once
nothing is left to do.

Each accepted connection is at a `Stage`. A stage says which requests and completions about the
connection there are, what its worker's map and the tables have for it, and what was logged
(`AtStage`). An event is about one connection at most: it takes that one to its next stage and
leaves the others where they are (`Inv.touch`).
-/

set_option autoImplicit false

namespace CoNet.Context

open CoNet.Io CoNet.Net Transition

variable {φ : Type}

/-! ## What should happen -/

/-- The worker, the function and the worker's slot of a hand-over. -/
structure Job (φ : Type) where
  worker : Int
  func : φ
  slot : Int

def story (rings : Rings) (a : Nat) (fd : Int) (j : Job φ) : List (Note φ) :=
  [.spawned a j.worker j.func,
    .installed a j.worker j.slot,
    .stored a j.worker fd j.slot none,
    .taken a j.worker (some j.slot) (some a),
    .scheduled a j.worker j.func (msgConnConnection j.slot),
    .closeRequested a fd,
    .closed a rings.main fd]

/-- The connection a note is about. -/
def Note.conn : Note φ → Nat
  | .spawned a .. | .installed a .. | .stored a .. | .taken a .. | .scheduled a ..
  | .closeRequested a .. | .closedByObject a .. | .closed a .. => a

def notesOf (a : Nat) (log : List (Note φ)) : List (Note φ) := log.filter (·.conn = a)

@[simp] theorem notesOf_append (a : Nat) (log notes : List (Note φ)) :
    notesOf a (log ++ notes) = notesOf a log ++ notesOf a notes := List.filter_append ..

theorem notesOf_own {a : Nat} {notes : List (Note φ)} (h : ∀ n ∈ notes, n.conn = a) :
    notesOf a notes = notes :=
  List.filter_eq_self.mpr fun n hn => decide_eq_true (h n hn)

theorem notesOf_other {a b : Nat} {notes : List (Note φ)} (h : ∀ n ∈ notes, n.conn = a)
    (ne : b ≠ a) : notesOf b notes = [] :=
  List.filter_eq_nil_iff.mpr fun n hn => by simp [h n hn, ne.symm]

namespace System

end System

/-! ## Stages of a connection -/

inductive Stage (φ : Type) where
  | unborn
  /-- accepted, and not spawned -/
  | held
  | sent (worker : Int) (func : φ)
  | fdPosted (j : Job φ)
  | bothPosted (j : Job φ)
  | fdStored (j : Job φ)
  | taskPosted (j : Job φ)
  | scheduled (j : Job φ)
  | noticePosted (j : Job φ)
  /-- The close of the main ring's slot is submitted, by an object if there is no job. -/
  | closing (j : Option (Job φ))
  | closed (j : Option (Job φ))

def fdCqe (a : Nat) (fd slot : Int) : Cqe Unit φ Unit Addr :=
  ⟨slot, 0, some (⟨.receiver, a⟩, .token { op := .ringFdReceiver, cqeRes := fd })⟩

def taskCqe (a : Nat) (fd : Int) (func : φ) : Cqe Unit φ Unit Addr :=
  ⟨RingMsgType.ringFuncTask.value, netIoringCqeFTask,
    some (⟨.helper, a⟩, .ringMsgConnTaskHelper func fd)⟩

def noticeCqe (a : Nat) (fd : Int) : Cqe Unit φ Unit Addr :=
  ⟨fd, 0, some (⟨.notice, a⟩, .token { op := .mainRingCloseDirectSocket })⟩

def senderCqe (a : Nat) : Cqe Unit φ Unit Addr :=
  ⟨0, 0, some (⟨.sender, a⟩, .token { op := .ringFdSender })⟩

namespace Stage

/-- The main ring's slot is the connection's. -/
def Occupies : Stage φ → Prop
  | .unborn | .closed _ => False
  | _ => True

def worker : Stage φ → Option Int
  | .sent worker _ => some worker
  | .fdPosted j | .bothPosted j | .fdStored j | .taskPosted j | .scheduled j | .noticePosted j =>
    some j.worker
  | _ => none

/-- The worker's slot is the connection's. -/
def installed : Stage φ → Option (Job φ)
  | .fdPosted j | .bothPosted j | .fdStored j | .taskPosted j => some j
  | _ => none

/-- The worker's map has the slot. -/
def stored : Stage φ → Option (Job φ)
  | .fdStored j | .taskPosted j => some j
  | _ => none

/-- The submissions about the connection. -/
def submissions (rings : Rings) (a : Nat) (fd : Int) : Stage φ → List (Submission φ)
  | .sent worker func =>
    let sqes := spawnSqes worker fd (spawnAddrs a) func
    [⟨rings.main, some a, [sqes.sendFd, sqes.sendTask]⟩]
  | .fdPosted j | .fdStored j =>
    [⟨rings.main, some a, [(spawnSqes j.worker fd (spawnAddrs a) j.func).sendTask]⟩]
  | .scheduled j => [⟨j.worker, some a, [noticeSqe rings.main a fd]⟩]
  | .closing _ => [⟨rings.main, some a, [closeSqe fd]⟩]
  | _ => []

/-- The completions about the connection, posted to this ring. -/
def completions (rings : Rings) (a : Nat) (fd ring : Int) : Stage φ → List (Cqe Unit φ Unit Addr)
  | .fdPosted j => if ring = j.worker then [fdCqe a fd j.slot] else []
  | .bothPosted j => if ring = j.worker then [fdCqe a fd j.slot, taskCqe a fd j.func] else []
  | .taskPosted j => if ring = j.worker then [taskCqe a fd j.func] else []
  | .noticePosted _ => if ring = rings.main then [noticeCqe a fd] else []
  | _ => []

/-- What has happened to the connection. -/
def notes (rings : Rings) (a : Nat) (fd : Int) : Stage φ → List (Note φ)
  | .unborn | .held => []
  | .sent worker func => [.spawned a worker func]
  | .fdPosted j | .bothPosted j => (story rings a fd j).take 2
  | .fdStored j | .taskPosted j => (story rings a fd j).take 3
  | .scheduled j | .noticePosted j => (story rings a fd j).take 5
  | .closing (some j) => (story rings a fd j).take 6
  | .closed (some j) => story rings a fd j
  | .closing none => [.closedByObject a fd]
  | .closed none => [.closedByObject a fd, .closed a rings.main fd]

end Stage

namespace System

/-- The main ring's slot of an accepted connection. -/
def fdOf (s : System φ) (a : Nat) : Int := s.main.accepted.getD a (-1)

def sqOf (s : System φ) (a : Nat) : List (Submission φ) := s.sq.filter (·.about = some a)

def cqOf (s : System φ) (ring : Int) (a : Nat) : List (Cqe Unit φ Unit Addr) :=
  (s.cq ring).filter (aboutCqe · = some a)

/-- The connection is at this stage. -/
structure AtStage (rings : Rings) (s : System φ) (a : Nat) (st : Stage φ) : Prop where
  slot : st.Occupies → 0 ≤ s.fdOf a ∧ s.table rings.main (s.fdOf a) = some a
  worker : ∀ w, st.worker = some w → w ∈ rings.workers
  installed : ∀ j, st.installed = some j → s.table j.worker j.slot = some a
  stored : ∀ j, st.stored = some j → (s.uring j.worker).directMap (s.fdOf a) = some j.slot
  sq : s.sqOf a = st.submissions rings a (s.fdOf a)
  cq : ∀ ring, s.cqOf ring a = st.completions rings a (s.fdOf a) ring
  log : notesOf a s.log = st.notes rings a (s.fdOf a)

structure Inv (rings : Rings) (s : System φ) (stage : Nat → Stage φ) : Prop where
  main : s.main.Inv
  unborn : ∀ a, s.main.accepted.length ≤ a → stage a = .unborn
  held : ∀ o a, s.main.ledger.holds o = some a → stage a = .held
  at_ : ∀ a, s.AtStage rings a (stage a)
  only_stored : ∀ ring key slot, (s.uring ring).directMap key = some slot →
    ∃ a j, (stage a).stored = some j ∧ j.worker = ring ∧ s.fdOf a = key
  sq_other : ∀ c ∈ s.sq, c.about = none → c.ring = rings.main ∧ c.chain = [closeSqe (-1)]
  cq_other : ∀ ring, ∀ cqe ∈ s.cq ring, aboutCqe cqe = none → ∃ b, cqe = senderCqe b

variable {rings : Rings} {s s' : System φ} {stage : Nat → Stage φ} {a b : Nat} {st : Stage φ}
  {j : Job φ}

theorem inv_init : Inv rings ({} : System φ) fun _ => .unborn where
  main := MainThread.inv_init
  unborn _ _ := rfl
  held _ _ h := nomatch h
  at_ _ := {
    slot := fun h => h.elim
    worker := fun _ h => nomatch h
    installed := fun _ h => nomatch h
    stored := fun _ h => nomatch h
    sq := rfl
    cq := fun _ => rfl
    log := rfl }
  only_stored _ _ _ h := nomatch h
  sq_other _ h := nomatch h
  cq_other _ _ h := nomatch h

/-- Different connections have different slots of the main ring. -/
theorem Inv.fd_ne (inv : Inv rings s stage) (ha : (stage a).Occupies) (hb : (stage b).Occupies)
    (ne : b ≠ a) : s.fdOf b ≠ s.fdOf a := by
  intro h
  have hslot := ((inv.at_ b).slot hb).2
  rw [h, ((inv.at_ a).slot ha).2] at hslot
  exact ne (Option.some.inj hslot).symm

theorem Stage.occupies_of_stored (h : st.stored = some j) : st.Occupies := by
  cases st <;> trivial

/-! ## Queues -/

/-- What is left of the queues when a loop takes its first completion was there before. -/
theorem mem_of_taken {γ : Type} {cq : Int → List γ} {ring ring' : Int} {x y : γ} {rest : List γ}
    (hcq : cq ring = x :: rest) (h : y ∈ Function.update cq ring rest ring') : y ∈ cq ring' := by
  by_cases hr : ring' = ring
  · subst hr
    rw [Function.update_self] at h
    rw [hcq]
    exact List.mem_cons_of_mem _ h
  · rwa [Function.update_of_ne hr] at h

/-- A stage posts to one ring. -/
theorem ring_of_posted {γ : Type} {ring ring' : Int} {x : γ} {posted rest : List γ}
    (h : (if ring = ring' then posted else []) = x :: rest) : ring = ring' := by
  by_contra hr
  rw [if_neg hr] at h
  cases h

/-- A submission leaves others of its connection in its place. -/
theorem filter_splice {α : Type} {l r : List α} {k : Nat} {c : α} (p : α → Bool)
    (hk : l[k]? = some c) (hr : ∀ d ∈ r, p d = p c) :
    (p c = false → (l.take k ++ r ++ l.drop (k + 1)).filter p = l.filter p) ∧
      (l.filter p = [c] → (l.take k ++ r ++ l.drop (k + 1)).filter p = r) := by
  obtain ⟨hlt, rfl⟩ := List.getElem?_eq_some_iff.mp hk
  have split : l.filter p =
      (l.take k).filter p ++ (if p l[k] then [l[k]] else []) ++ (l.drop (k + 1)).filter p := by
    conv_lhs => rw [← List.take_append_drop k l, List.drop_eq_getElem_cons hlt]
    rw [List.filter_append, List.append_assoc, List.filter_cons]
    split <;> rfl
  have spliced : (l.take k ++ r ++ l.drop (k + 1)).filter p =
      (l.take k).filter p ++ r.filter p ++ (l.drop (k + 1)).filter p := by
    rw [List.filter_append, List.filter_append]
  constructor
  · intro hc
    have hnone : r.filter p = [] :=
      List.filter_eq_nil_iff.mpr fun d hd => by simp [hr d hd, hc]
    rw [spliced, split, hnone, hc]
    rfl
  · intro only
    have hc : p l[k] = true := by
      have : l[k] ∈ l.filter p := by rw [only]; exact List.mem_singleton_self _
      exact (List.mem_filter.mp this).2
    have hall : r.filter p = r := List.filter_eq_self.mpr fun d hd => by rw [hr d hd, hc]
    rw [split, hc, if_pos rfl] at only
    have hlen := congrArg List.length only
    simp only [List.length_append, List.length_cons, List.length_nil] at hlen
    have before : (l.take k).filter p = [] := List.eq_nil_of_length_eq_zero (by omega)
    have after : (l.drop (k + 1)).filter p = [] := List.eq_nil_of_length_eq_zero (by omega)
    rw [spliced, before, after, hall, List.nil_append, List.append_nil]

/-- The kernel takes a request from a submission: the other connections' stay, and what is left of
a connection's only one is all it has. -/
theorem sqOf_splice {k : Nat} {c : Submission φ} {rest : List (Sqe Unit φ Unit Addr)}
    (s' : System φ) (hk : s.sq[k]? = some c)
    (hs' : s'.sq = s.sq.take k ++ remaining c rest ++ s.sq.drop (k + 1)) :
    (∀ b, c.about ≠ some b → s'.sqOf b = s.sqOf b) ∧
      ∀ b, s.sqOf b = [c] → s'.sqOf b = remaining c rest := by
  have hr : ∀ b, ∀ d ∈ remaining c rest, decide (d.about = some b) = decide (c.about = some b) := by
    intro b d hd
    unfold remaining at hd
    split at hd
    · cases hd
    · obtain rfl := List.mem_singleton.mp hd
      rfl
  constructor
  · intro b hb
    rw [sqOf, hs']
    exact (filter_splice _ hk (hr b)).1 (decide_eq_false hb)
  · intro b hb
    rw [sqOf, hs']
    exact (filter_splice _ hk (hr b)).2 hb

theorem mem_splice {k : Nat} {c d : Submission φ} {rest : List (Sqe Unit φ Unit Addr)}
    (h : d ∈ s.sq.take k ++ remaining c rest ++ s.sq.drop (k + 1)) :
    d ∈ s.sq ∨ d.about = c.about ∧ rest ≠ [] := by
  simp only [List.mem_append] at h
  rcases h with (h | h) | h
  · exact .inl (List.mem_of_mem_take h)
  · unfold remaining at h
    split at h
    · cases h
    · rename_i hrest
      obtain rfl := List.mem_singleton.mp h
      exact .inr ⟨rfl, fun hn => hrest (by rw [hn]; rfl)⟩
  · exact .inl (List.mem_of_mem_drop h)

/-- More completions are posted. -/
theorem cqOf_append {ring : Int} {posted : List (Cqe Unit φ Unit Addr)}
    (h : s'.cq ring = s.cq ring ++ posted) (b : Nat) :
    s'.cqOf ring b = s.cqOf ring b ++ posted.filter (aboutCqe · = some b) := by
  rw [cqOf, h, List.filter_append]
  rfl

theorem cqOf_cons {ring : Int} {cqe : Cqe Unit φ Unit Addr} {rest : List (Cqe Unit φ Unit Addr)}
    (h : s.cq ring = cqe :: rest) (b : Nat) :
    s.cqOf ring b =
      if aboutCqe cqe = some b then cqe :: rest.filter (aboutCqe · = some b)
      else rest.filter (aboutCqe · = some b) := by
  simp only [cqOf, h, List.filter_cons, decide_eq_true_eq]

/-! ## Frames -/

/-- An event about a connection leaves the others as they are. -/
structure Frame (s s' : System φ) (a : Nat) (st : Stage φ) : Prop where
  fd : ∀ b, b ≠ a → s'.fdOf b = s.fdOf b
  table : ∀ b, b ≠ a → ∀ ring slot, s.table ring slot = some b → s'.table ring slot = some b
  map : ∀ ring key, (s'.uring ring).directMap key = (s.uring ring).directMap key ∨
    st.Occupies ∧ key = s.fdOf a
  sq : ∀ b, b ≠ a → s'.sqOf b = s.sqOf b
  cq : ∀ b, b ≠ a → ∀ ring, s'.cqOf ring b = s.cqOf ring b
  log : ∀ b, b ≠ a → notesOf b s'.log = notesOf b s.log

/-- A connection that an event is not about stays at its stage. -/
theorem Inv.frame (inv : Inv rings s stage) (frame : Frame s s' a (stage a)) (ne : b ≠ a) :
    s'.AtStage rings b (stage b) where
  slot occ := by
    rw [frame.fd b ne]
    have h := (inv.at_ b).slot occ
    exact ⟨h.1, frame.table b ne _ _ h.2⟩
  worker := (inv.at_ b).worker
  installed j hj := frame.table b ne _ _ ((inv.at_ b).installed j hj)
  stored j hj := by
    rw [frame.fd b ne]
    rcases frame.map j.worker (s.fdOf b) with same | ⟨occ, key⟩
    · rw [same, (inv.at_ b).stored j hj]
    · exact absurd key (inv.fd_ne occ (Stage.occupies_of_stored hj) ne)
  sq := by rw [frame.sq b ne, frame.fd b ne, (inv.at_ b).sq]
  cq ring := by rw [frame.cq b ne, frame.fd b ne, (inv.at_ b).cq]
  log := by rw [frame.log b ne, frame.fd b ne, (inv.at_ b).log]

/-- **One connection at a time.** An event takes the connection it is about to a stage, and leaves
the others at theirs. -/
theorem Inv.touch (inv : Inv rings s stage) (frame : Frame s s' a (stage a))
    (own : s'.AtStage rings a st) (main : s'.main.Inv)
    (born : a < s'.main.accepted.length)
    (unborn : ∀ b, b ≠ a → s'.main.accepted.length ≤ b → s.main.accepted.length ≤ b)
    (held : ∀ o b, s'.main.ledger.holds o = some b →
      b = a ∧ st = .held ∨ b ≠ a ∧ ∃ o', s.main.ledger.holds o' = some b)
    (only_stored : ∀ ring key slot, (s'.uring ring).directMap key = some slot →
      (∃ j, st.stored = some j ∧ j.worker = ring ∧ s'.fdOf a = key) ∨
        ∃ b j, b ≠ a ∧ (stage b).stored = some j ∧ j.worker = ring ∧ s.fdOf b = key)
    (sq_other : ∀ c ∈ s'.sq, c.about = none → c.ring = rings.main ∧ c.chain = [closeSqe (-1)])
    (cq_other : ∀ ring, ∀ cqe ∈ s'.cq ring, aboutCqe cqe = none → ∃ b, cqe = senderCqe b) :
    Inv rings s' (Function.update stage a st) where
  main := main
  unborn b hb := by
    by_cases ne : b = a
    · omega
    · rw [Function.update_of_ne ne]
      exact inv.unborn b (unborn b ne hb)
  held o b hb := by
    rcases held o b hb with ⟨rfl, h⟩ | ⟨ne, o', h⟩
    · rw [Function.update_self, h]
    · rw [Function.update_of_ne ne]
      exact inv.held o' b h
  at_ b := by
    by_cases ne : b = a
    · subst ne
      rw [Function.update_self]
      exact own
    · rw [Function.update_of_ne ne]
      exact inv.frame frame ne
  only_stored ring key slot h := by
    rcases only_stored ring key slot h with ⟨j, hj, hw, hfd⟩ | ⟨b, j, ne, hj, hw, hfd⟩
    · exact ⟨a, j, by rw [Function.update_self, hj], hw, hfd⟩
    · exact ⟨b, j, by rw [Function.update_of_ne ne, hj], hw, by rw [frame.fd b ne, hfd]⟩
  sq_other := sq_other
  cq_other := cq_other

/-- What a map has is of another connection, where it is not this one's. -/
theorem Inv.stored_other (inv : Inv rings s stage) {ring key slot : Int}
    (h : (s.uring ring).directMap key = some slot)
    (not_own : ∀ j, (stage a).stored = some j → j.worker = ring → s.fdOf a ≠ key) :
    ∃ b j, b ≠ a ∧ (stage b).stored = some j ∧ j.worker = ring ∧ s.fdOf b = key := by
  obtain ⟨b, j, hj, hw, hfd⟩ := inv.only_stored ring key slot h
  refine ⟨b, j, ?_, hj, hw, hfd⟩
  intro hb
  subst hb
  exact not_own j hj hw hfd

/-- Where the maps are as they were, what they have is as it was. -/
theorem Inv.stored_same (inv : Inv rings s stage) {ring key slot : Int}
    (h : (s.uring ring).directMap key = some slot) (same : st.stored = (stage a).stored) :
    (∃ j, st.stored = some j ∧ j.worker = ring ∧ s.fdOf a = key) ∨
      ∃ b j, b ≠ a ∧ (stage b).stored = some j ∧ j.worker = ring ∧ s.fdOf b = key := by
  obtain ⟨b, j, hj, hw, hfd⟩ := inv.only_stored ring key slot h
  by_cases ne : b = a
  · subst ne
    exact .inl ⟨j, same.trans hj, hw, hfd⟩
  · exact .inr ⟨b, j, ne, hj, hw, hfd⟩

end System

end CoNet.Context
