import CoNet.Laws.Net.ReceiveStream
import CoNet.Laws.Net.Write
import CoNet.Net.Echo

/-!
# What is received is written back

Each connection's task writes back what its receives return, in order, and waits for the one before it goes on
with the other. So the bytes that the kernel accepts from it are the bytes that it delivered to it, and all
of them whenever the task receives again, exactly in the runs whose writes are whole (`echoes_iff_whole`):
the loop does not look at the number of bytes that `write_all` returns.
-/

set_option autoImplicit false

namespace CoNet.Net

open CoNet.Io Transition

/-! ## Receives -/

namespace ReceiveStream

variable {κ : Type} {cfg : Config} {s s' : ReceiveStream κ} {e : RecvEvent κ} {c : κ}

theorem Inv.moveOut (inv : Inv cfg s) (receiveBuffer : κ → List UInt8) :
    Inv cfg { s with thread := { s.thread with receiveBuffer } } :=
  ⟨inv.whole, inv.ring, inv.entries, inv.length, inv.small, inv.inBuffer, inv.streams⟩

variable [DecidableEq κ]

/-- A task that is resumed gets its bytes. -/
theorem Inv.resume_eq (inv : Inv cfg s) {setup : Int} (h : s.step cfg (.resume c setup) = some s') :
    ∃ res flags, s.thread.phase c = .completed res flags ∧ 1 ≤ res ∧
      s'.thread.phase = Function.update s.thread.phase c .idle ∧
      s'.returned = Function.update s.returned c (s.returned c ++ [s'.thread.receiveBuffer c]) := by
  obtain ⟨thread, step, rfl⟩ := Option.map_eq_some_iff.mp h
  cases Receive.does_of_step step with
  | @throw _ res _ flags completed error =>
    have pos := (inv.completed completed).1
    exact absurd error.1 (by omega)
  | sleep completed => exact absurd completed inv.not_nobufs
  | extendThrow completed => exact absurd completed inv.not_nobufs
  | extend completed => exact absurd completed inv.not_nobufs
  | @repay _ res _ flags received pool completed data =>
    have returns : s.returns c = true := by simp [returns, completed, data]
    refine ⟨res, flags, completed, (inv.completed completed).1, rfl, ?_⟩
    simp only [record, returns, if_true]

/-- Another step is about a call that is made, or was made and has not ended. -/
theorem quiet_step (other : ∀ c setup, e ≠ .resume c setup) (h : s.step cfg e = some s') :
    s'.returned = s.returned ∧ ∃ c p, s'.thread.phase = Function.update s.thread.phase c p ∧
      (e = .call c ∨ s.thread.phase c ≠ .idle) := by
  obtain ⟨thread, step, rfl⟩ := Option.map_eq_some_iff.mp h
  cases Receive.does_of_step step with
  | @call c idle => exact ⟨rfl, c, .submitted, rfl, .inl rfl⟩
  | @post c res flags data pool submitted =>
    refine ⟨rfl, c, .posted res flags, rfl, .inr ?_⟩
    rw [submitted]
    exact RecvPhase.noConfusion
  | @handle c res flags posted =>
    refine ⟨rfl, c, .completed res flags, rfl, .inr ?_⟩
    rw [posted]
    exact RecvPhase.noConfusion
  | @wake c sleeping =>
    refine ⟨rfl, c, .submitted, rfl, .inr ?_⟩
    rw [sleeping]
    exact RecvPhase.noConfusion
  | @throw c => exact absurd rfl (other c _)
  | @sleep c => exact absurd rfl (other c _)
  | @extendThrow c => exact absurd rfl (other c _)
  | @extend c => exact absurd rfl (other c _)
  | @repay c => exact absurd rfl (other c _)

end ReceiveStream

/-! ## The loops -/

/-- What was accepted of the bytes that were received. -/
def EchoPoint.Account (accepted received : List UInt8) : EchoPoint → Prop
  | .receiving | .returned => accepted = received
  | .writing msg => accepted ++ msg = received
  | .threw => accepted <+: received

namespace Echo

variable {κ : Type} {cfg : Config} {conns : κ → TcpConnection} {s s' s₀ : Echo κ} {e : EchoEvent κ}
  {c : κ}

/-- **Nothing is lost, repeated or made up.** -/
structure Echoes (s : Echo κ) : Prop where
  inOrder : ∀ c, s.accepted c <+: s.stream.delivered c
  complete : ∀ c, s.point c = .receiving →
    s.stream.thread.phase c = .idle ∨ s.stream.thread.phase c = .submitted →
    s.accepted c = s.stream.delivered c

/-- A completed receive carries a buffer, with one byte in it at least. -/
def Buffered (cfg : Config) (s : Echo κ) : EchoEvent κ → Prop
  | .receive e => ReceiveStream.Buffered cfg s.stream e
  | .write _ _ => True

instance (cfg : Config) (s : Echo κ) : (e : EchoEvent κ) → Decidable (Buffered cfg s e)
  | .receive e => inferInstanceAs (Decidable (ReceiveStream.Buffered cfg s.stream e))
  | .write _ _ => isTrue trivial

/-- A write is an error, or takes all bytes. -/
def WritesWhole (s : Echo κ) : EchoEvent κ → Prop
  | .receive _ => True
  | .write c res => ∀ msg, s.point c = .writing msg → res.toInt < 0 ∨ res.toInt = msg.length

structure Inv (cfg : Config) (s : Echo κ) : Prop where
  stream : ReceiveStream.Inv cfg s.stream
  busy : ∀ c, s.point c ≠ .receiving → s.stream.thread.phase c = .idle
  account : ∀ c, (s.point c).Account (s.accepted c) (s.stream.returned c).flatten

theorem inv_start {setup : Int} (h : start cfg setup = some s₀) : Inv cfg s₀ := by
  obtain ⟨stream, started, rfl⟩ := Option.map_eq_some_iff.mp h
  refine ⟨ReceiveStream.inv_start started, fun c busy => absurd rfl busy, fun c => ?_⟩
  obtain ⟨thread, -, rfl⟩ := Option.map_eq_some_iff.mp started
  exact (rfl : ([] : List UInt8) = [])

theorem Inv.receiving (inv : Inv cfg s) (call : s.stream.thread.phase c ≠ .idle) :
    s.point c = .receiving := by
  by_contra busy
  exact call (inv.busy c busy)

theorem accepted_of_account {p : EchoPoint} {accepted received : List UInt8}
    (h : p.Account accepted received) : accepted <+: received := by
  cases p with
  | receiving | returned => exact h ▸ List.prefix_refl _
  | writing msg => exact ⟨msg, h⟩
  | threw => exact h

theorem Inv.echoes (inv : Inv cfg s) : Echoes s where
  inOrder c := (accepted_of_account (inv.account c)).trans ⟨_, (inv.stream.streams c).symm⟩
  complete c receiving waits := by
    have account := inv.account c
    rw [receiving] at account
    have all : s.accepted c = (s.stream.returned c).flatten := account
    rw [all]
    exact inv.stream.faithful.complete c waits

variable [DecidableEq κ]

/-- A step of a receive that does not return. -/
theorem Inv.quiet (inv : Inv cfg s) {stream : ReceiveStream κ} {e : RecvEvent κ}
    (other : ∀ c setup, e ≠ .resume c setup) (stepped : s.stream.step cfg e = some stream)
    (buffered : ReceiveStream.Buffered cfg s.stream e)
    (receiving : ∀ c, e = .call c → s.point c = .receiving) : Inv cfg { s with stream } := by
  obtain ⟨returned, c, p, phase, about⟩ := ReceiveStream.quiet_step other stepped
  refine ⟨ReceiveStream.inv_step inv.stream buffered stepped, fun d busy => ?_, fun d => ?_⟩
  · have ne : d ≠ c := by
      rintro rfl
      rcases about with call | call
      · exact busy (receiving d call)
      · exact busy (inv.receiving call)
    show stream.thread.phase d = .idle
    rw [phase, Function.update_of_ne ne]
    exact inv.busy d busy
  · show (s.point d).Account (s.accepted d) (stream.returned d).flatten
    rw [returned]
    exact inv.account d

/-- A receive returns, and its bytes are to be written. -/
theorem Inv.resume (inv : Inv cfg s) {setup : Int}
    (h : s.receive cfg (.resume c setup) = some s') : Inv cfg s' := by
  simp only [Echo.receive, Option.bind_eq_bind, Option.bind_eq_some_iff] at h
  obtain ⟨stream, stepped, h⟩ := h
  obtain ⟨res, flags, completed, pos, phase, returned⟩ := inv.stream.resume_eq stepped
  have receiving : s.point c = .receiving := by
    apply inv.receiving
    rw [completed]
    exact RecvPhase.noConfusion
  have all : s.accepted c = (s.stream.returned c).flatten := by
    have account := inv.account c
    rwa [receiving] at account
  have here : stream.thread.phase c = .idle := by rw [phase, Function.update_self]
  rw [completed] at h
  simp only [resumed, here, if_pos (show 0 ≤ res by omega), afterReceive,
    if_neg (show ¬ res = 0 by omega), moveOutReceived, Option.some.injEq] at h
  subst h
  have buffered : ReceiveStream.Buffered cfg s.stream (.resume c setup) := trivial
  refine ⟨(ReceiveStream.inv_step inv.stream buffered stepped).moveOut _, fun d busy => ?_,
    fun d => ?_⟩
  · replace busy : Function.update s.point c (.writing _) d ≠ .receiving := busy
    show stream.thread.phase d = .idle
    by_cases same : d = c
    · rw [same, here]
    · rw [Function.update_of_ne same] at busy
      rw [phase, Function.update_of_ne same]
      exact inv.busy d busy
  · show ((Function.update s.point c _) d).Account (s.accepted d) (stream.returned d).flatten
    by_cases same : d = c
    · subst same
      rw [Function.update_self, returned, Function.update_self, List.flatten_append,
        List.flatten_singleton]
      exact congrArg (· ++ _) all
    · rw [Function.update_of_ne same, returned, Function.update_of_ne same]
      exact inv.account d

theorem Inv.receive (inv : Inv cfg s) {e : RecvEvent κ}
    (buffered : ReceiveStream.Buffered cfg s.stream e) (h : s.receive cfg e = some s') :
    Inv cfg s' := by
  cases e with
  | resume c setup => exact inv.resume h
  | call c =>
    simp only [Echo.receive, Option.bind_eq_bind, Option.bind_eq_some_iff] at h
    obtain ⟨stream, stepped, h⟩ := h
    split at h
    · rename_i receiving
      cases h
      apply inv.quiet (by simp) stepped buffered
      rintro d ⟨⟩
      exact receiving
    · cases h
  | post c res flags data =>
    obtain ⟨stream, stepped, h⟩ := Option.bind_eq_some_iff.mp h
    cases h
    exact inv.quiet (by simp) stepped buffered (by simp)
  | handle c =>
    obtain ⟨stream, stepped, h⟩ := Option.bind_eq_some_iff.mp h
    cases h
    exact inv.quiet (by simp) stepped buffered (by simp)
  | wake c =>
    obtain ⟨stream, stepped, h⟩ := Option.bind_eq_some_iff.mp h
    cases h
    exact inv.quiet (by simp) stepped buffered (by simp)

/-- **What a write does**: the kernel accepts as many bytes as the result says, and the task goes on unless
it is an error. -/
theorem write_eq {res : BitVec 32} (h : s.write conns c res = some s') :
    ∃ msg, s.point c = .writing msg ∧ res.toInt ≤ msg.length ∧
      s' = { s with
        accepted := Function.update s.accepted c (s.accepted c ++ msg.take res.toInt.toNat)
        point := Function.update s.point c (if res.toInt < 0 then .threw else .receiving) } := by
  unfold write at h
  split at h
  · rename_i msg writing
    obtain ⟨⟨nwrite, kernel⟩, written, h⟩ := Option.bind_eq_some_iff.mp h
    rw [writeAll_eq] at written
    obtain ⟨_, _, head, possible⟩ := prepWriteLen_eq_some written
    cases head
    rw [prepWriteLen_eq rfl possible] at written
    cases written
    have le : (BitVec.ofNat 32 msg.length).toNat ≤ msg.length := by
      rw [BitVec.toNat_ofNat]
      exact Nat.mod_le _ _
    refine ⟨msg, writing, possible.trans (by exact_mod_cast le), ?_⟩
    by_cases error : res.toInt < 0
    · simp only [if_pos error, Option.some.injEq] at h ⊢
      exact h.symm
    · simp only [if_neg error, Option.some.injEq] at h ⊢
      exact h.symm
  · cases h

/-- The task of another connection. -/
theorem Inv.of_update (inv : Inv cfg s) {p : EchoPoint} {bytes : List UInt8}
    (idle : s.stream.thread.phase c = .idle)
    (account : p.Account bytes (s.stream.returned c).flatten) :
    Inv cfg { s with
      accepted := Function.update s.accepted c bytes, point := Function.update s.point c p } where
  stream := inv.stream
  busy d busy := by
    replace busy : Function.update s.point c p d ≠ .receiving := busy
    by_cases same : d = c
    · rw [same]
      exact idle
    · rw [Function.update_of_ne same] at busy
      exact inv.busy d busy
  account d := by
    show (Function.update s.point c p d).Account (Function.update s.accepted c bytes d) _
    by_cases same : d = c
    · subst same
      rw [Function.update_self, Function.update_self]
      exact account
    · rw [Function.update_of_ne same, Function.update_of_ne same]
      exact inv.account d

omit [DecidableEq κ] in
theorem Inv.writing (inv : Inv cfg s) {msg : List UInt8} (writing : s.point c = .writing msg) :
    s.stream.thread.phase c = .idle ∧ s.accepted c ++ msg = (s.stream.returned c).flatten := by
  have account := inv.account c
  rw [writing] at account
  refine ⟨inv.busy c ?_, account⟩
  rw [writing]
  exact EchoPoint.noConfusion

/-- A write that is an error or takes all bytes. -/
theorem Inv.write (inv : Inv cfg s) {res : BitVec 32} (whole : WritesWhole s (.write c res))
    (h : s.write conns c res = some s') : Inv cfg s' := by
  obtain ⟨msg, writing, -, rfl⟩ := write_eq h
  obtain ⟨idle, all⟩ := inv.writing writing
  rcases whole msg writing with error | length
  · have nothing : res.toInt.toNat = 0 := by omega
    rw [if_pos error, nothing, List.take_zero, List.append_nil]
    exact inv.of_update idle ⟨msg, all⟩
  · rw [if_neg (by omega), length, Int.toNat_natCast, List.take_length]
    exact inv.of_update idle all

theorem inv_step (inv : Inv cfg s) (buffered : Buffered cfg s e) (whole : WritesWhole s e)
    (h : s.step cfg conns e = some s') : Inv cfg s' := by
  cases e with
  | receive e => exact inv.receive buffered h
  | write c res => exact inv.write whole h

/-- **A short write is not made up for.** -/
theorem not_echoes_step (inv : Inv cfg s) (short : ¬ WritesWhole s e)
    (h : s.step cfg conns e = some s') : ¬ Echoes s' := by
  cases e with
  | receive e => exact absurd trivial short
  | write c res =>
    obtain ⟨msg, writing, le, rfl⟩ := write_eq h
    obtain ⟨idle, all⟩ := inv.writing writing
    intro echoes
    apply short
    intro msg' writing'
    cases writing.symm.trans writing'
    by_cases error : res.toInt < 0
    · exact .inl error
    · -- the loop receives again, as if all bytes were accepted
      right
      have complete := echoes.complete c
      simp only [if_neg error, Function.update_self, idle, true_or, forall_const] at complete
      have received := inv.stream.faithful.complete c (.inl idle)
      have lengths := congrArg List.length complete
      rw [← received, ← all, List.length_append, List.length_append, List.length_take] at lengths
      omega

/-- **What is received is written back, in order, exactly in the runs whose writes are whole** (runs in which
each completed receive carries a buffer with data). -/
theorem echoes_iff_whole {setup : Int} {es : List (EchoEvent κ)}
    (constructed : start cfg setup = some s₀) (buffered : Meets (step cfg conns) (Buffered cfg) s₀ es) :
    Always (step cfg conns) Echoes s₀ es ↔ Meets (step cfg conns) WritesWhole s₀ es :=
  always_iff_meets_of (fun _ _ _ => inv_step) (fun _ => Inv.echoes)
    (fun _ _ _ inv _ => not_echoes_step inv) (inv_start constructed) buffered

/-- Two connections on one thread; the second one's write is short. -/
def shortWrite : List (EchoEvent Bool) :=
  [.receive (.call false), .receive (.call true), .receive (.post true 2 0x10001 [66, 67]),
    .receive (.post false 1 0x1 [65]), .receive (.handle false), .receive (.handle true),
    .receive (.resume true 0), .receive (.resume false 0), .write false 1, .write true 1]

theorem echoes_iff_whole_shortWrite :
    (exec (step ReceiveStream.twoBuffers fun _ => .ofDirectSocket 4)
        { stream := ReceiveStream.overlappingStart } shortWrite).isSome ∧
      (Always (step ReceiveStream.twoBuffers fun _ => .ofDirectSocket 4) Echoes
          { stream := ReceiveStream.overlappingStart } shortWrite ↔
        Meets (step ReceiveStream.twoBuffers fun _ => .ofDirectSocket 4) WritesWhole
          { stream := ReceiveStream.overlappingStart } shortWrite) := by
  have started : start ReceiveStream.twoBuffers 0 = some
      { stream := (ReceiveStream.overlappingStart : ReceiveStream Bool) } := rfl
  exact ⟨by decide, echoes_iff_whole started (by decide)⟩

end Echo

end CoNet.Net
