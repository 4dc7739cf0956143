import CoNet.Laws.Net.Receive
import CoNet.Net.ReceiveStream

/-!
# The bytes of a connection, in order

What `receive_buffer_` held after each call of a connection, put together, is what the kernel delivered
for it, but for the bytes of a completion whose task was not yet resumed (`faithful_of_buffered`). Those
are in the slice of memory of the buffer that the completion took: the slices of different ids are
apart, the kernel writes only into a buffer that is in the ring, and an id that a call holds is not. And
a call that completed does return when its task is resumed (`returns_of_buffered`).
-/

set_option autoImplicit false

namespace CoNet.Net.ReceiveStream

open CoNet.Io Transition Receive

variable {κ : Type} {cfg : Config} {s s' s₀ : ReceiveStream κ} {e : RecvEvent κ} {c : κ}

/-- **Nothing is lost, repeated or taken from elsewhere.** What was returned is delivered first, and
between two calls it is all that was delivered. -/
structure Faithful (s : ReceiveStream κ) : Prop where
  inOrder : ∀ c, (s.returned c).flatten <+: s.delivered c
  complete : ∀ c, s.thread.phase c = .idle ∨ s.thread.phase c = .submitted →
    (s.returned c).flatten = s.delivered c

/-- A completed receive carries a buffer, with one byte in it at least. -/
def Buffered (cfg : Config) (_ : ReceiveStream κ) : RecvEvent κ → Prop
  | .post _ res flags _ => 1 ≤ res ∧ res ≤ cfg.bufferRingSize ∧ hasBuffer flags = true
  | _ => True

instance (cfg : Config) (s : ReceiveStream κ) :
    (e : RecvEvent κ) → Decidable (Buffered cfg s e)
  | .post _ res flags _ =>
    inferInstanceAs (Decidable (1 ≤ res ∧ res ≤ cfg.bufferRingSize ∧ hasBuffer flags = true))
  | .call _ | .handle _ | .resume _ _ | .wake _ => isTrue trivial

/-- The bytes of a completion whose task is not yet resumed, in the buffer it took. -/
def outstanding (cfg : Config) (buffer : List UInt8) : RecvPhase → List UInt8
  | .posted res flags | .completed res flags =>
    Slices.slice buffer (bufferId flags * cfg.bufferRingSize) res.toNat
  | _ => []

/-- The result of a phase comes with a buffer, and fits in it. -/
def InBuffer (cfg : Config) : RecvPhase → Prop
  | .posted res flags | .completed res flags =>
    1 ≤ res ∧ res ≤ cfg.bufferRingSize ∧ hasBuffer flags = true
  | _ => True

structure Inv (cfg : Config) (s : ReceiveStream κ) : Prop where
  whole : Whole cfg s.thread
  ring : s.thread.pool.br.isSome = true
  entries : ∀ entry ∈ s.thread.pool.br.getD [],
    ∃ id < cfg.nBuffers, entry = RingBuffer.bufEntry cfg (id : Nat)
  length : s.thread.pool.buffer.length = cfg.nBuffers * cfg.bufferRingSize
  small : cfg.nBuffers ≤ 32768
  inBuffer : ∀ c, InBuffer cfg (s.thread.phase c)
  streams : ∀ c, s.delivered c =
    (s.returned c).flatten ++ outstanding cfg s.thread.pool.buffer (s.thread.phase c)

theorem inv_start {setup : Int} (h : start cfg setup = some s₀) : Inv cfg s₀ := by
  obtain ⟨thread, hthread, rfl⟩ := Option.map_eq_some_iff.mp h
  obtain ⟨-, -, idle⟩ := start_eq hthread
  have whole := whole_start hthread
  obtain ⟨pool, hpool, rfl⟩ := Option.map_eq_some_iff.mp hthread
  obtain ⟨hbr, hlength, small⟩ := RingBuffer.construct_eq hpool
  refine ⟨whole, Option.isSome_iff_exists.mpr ⟨_, hbr⟩, fun entry hentry => ?_, hlength, small,
    fun _ => trivial, fun _ => rfl⟩
  rw [hbr, Option.getD_some] at hentry
  obtain ⟨id, hid, rfl⟩ := List.mem_map.mp hentry
  exact ⟨id, List.mem_range.mp hid, rfl⟩

theorem Inv.faithful (inv : Inv cfg s) : Faithful s where
  inOrder c := ⟨_, (inv.streams c).symm⟩
  complete c h := by
    have hstream := inv.streams c
    rcases h with h | h <;> simpa only [h, outstanding, List.append_nil] using hstream.symm

/-- The id of a pool of an accepted size survives the signed shift. -/
theorem bidOf_eq {flags : BitVec 32} (h : bufferId flags < 32768) : bidOf flags = bufferId flags := by
  rw [bufferId_eq_div] at h
  rw [bidOf_eq_div, bufferId_eq_div, BitVec.toInt_eq_toNat_cond flags]
  split <;> omega

/-- A held id is one of the pool's. -/
theorem Inv.held_lt (inv : Inv cfg s) {id : Nat} (h : s.thread.held c = some id) :
    id < cfg.nBuffers := (inv.whole.all id).mpr (.inr ⟨c, h⟩)

theorem InBuffer.held {p : RecvPhase} (h : InBuffer cfg p) {res : Int} {flags : BitVec 32}
    (hp : p = .posted res flags ∨ p = .completed res flags) : p.buffer = some (bufferId flags) := by
  rcases hp with rfl | rfl <;> exact if_pos h.2.2

/-- A write to a buffer that no call holds leaves what is outstanding. -/
theorem outstanding_overwrite {p : RecvPhase} (hp : InBuffer cfg p) {buffer data : List UInt8}
    {id : Nat} (free : p.buffer ≠ some id) (fits : data.length ≤ cfg.bufferRingSize)
    (inside : id * cfg.bufferRingSize + data.length ≤ buffer.length) :
    outstanding cfg (Slices.overwrite buffer (id * cfg.bufferRingSize) data) p =
      outstanding cfg buffer p := by
  cases p with
  | idle | submitted | sleeping => rfl
  | posted res flags | completed res flags =>
    have hne : bufferId flags ≠ id := by
      rintro rfl
      exact free (if_pos hp.2.2)
    have hres := hp.2.1
    apply Slices.slice_overwrite_of_disjoint inside
    rcases Slices.cells_disjoint hne cfg.bufferRingSize with h | h
    · exact .inl (by omega)
    · exact .inr (by omega)

/-- The result a task finds comes with a buffer. -/
theorem Inv.completed (inv : Inv cfg s) {res : Int} {flags : BitVec 32}
    (h : s.thread.phase c = .completed res flags) : 1 ≤ res ∧ hasBuffer flags = true := by
  have hp := inv.inBuffer c
  rw [h] at hp
  exact ⟨hp.1, hp.2.2⟩

theorem Inv.not_nobufs (inv : Inv cfg s) {flags : BitVec 32} :
    s.thread.phase c ≠ .completed (-ENOBUFS) flags :=
  fun h => absurd (inv.completed h).1 (by decide)

/-- No task finds `-ENOBUFS`, so the pool is not extended. -/
theorem Inv.not_extends (inv : Inv cfg s) : ¬ Extends cfg s.thread e := by
  cases e with
  | resume c setup =>
    rintro ⟨-, hresult⟩
    cases hphase : s.thread.phase c with
    | completed res flags =>
      simp only [result, hphase, Option.map_some, Option.some.injEq] at hresult
      rw [hresult] at hphase
      exact inv.not_nobufs hphase
    | _ => simp [result, hphase] at hresult
  | _ => exact id

theorem Inv.carries (inv : Inv cfg s) : Carries s.thread e := by
  cases e with
  | resume c setup =>
    cases hphase : s.thread.phase c with
    | completed res flags =>
      obtain ⟨pos, hbuffer⟩ := inv.completed hphase
      exact (carries_completed hphase).mpr (iff_of_true (by omega) hbuffer)
    | _ => simp [Carries, result, hphase]
  | _ => trivial

/-- The bytes of a completed call are in the memory. -/
theorem Inv.copied (inv : Inv cfg s) {res : Int} {flags : BitVec 32}
    (completed : s.thread.phase c = .completed res flags) :
    ∃ received, s.thread.pool.copyData cfg [] (bidOf flags) res = some received := by
  have hp := inv.inBuffer c
  rw [completed] at hp
  obtain ⟨pos, fits, buffered⟩ := hp
  have hid : bufferId flags < cfg.nBuffers := inv.held_lt (held_buffered completed buffered)
  have start : (0 : Int) ≤ bufferId flags * cfg.bufferRingSize := by
    exact_mod_cast Nat.zero_le (bufferId flags * cfg.bufferRingSize)
  have cell : (bufferId flags * cfg.bufferRingSize + cfg.bufferRingSize : Int) ≤
      s.thread.pool.buffer.length := by
    rw [inv.length]
    exact_mod_cast Slices.cell_inside hid cfg.bufferRingSize
  rw [bidOf_eq (hid.trans_le inv.small), RingBuffer.copyData]
  exact ⟨_, if_pos ⟨start, by omega, by omega⟩⟩

section Step

variable [DecidableEq κ]

/-- A step that changes one call's phase, and neither the memory nor a record. -/
theorem Inv.setPhase (inv : Inv cfg s) {p : RecvPhase} (whole : Whole cfg (s.thread.setPhase c p))
    (hp : InBuffer cfg p)
    (same : outstanding cfg s.thread.pool.buffer p =
      outstanding cfg s.thread.pool.buffer (s.thread.phase c)) :
    Inv cfg { s with thread := s.thread.setPhase c p } where
  whole := whole
  ring := inv.ring
  entries := inv.entries
  length := inv.length
  small := inv.small
  inBuffer d := by
    by_cases hd : d = c
    · subst hd
      simpa [Receive.setPhase] using hp
    · simpa [Receive.setPhase, hd] using inv.inBuffer d
  streams d := by
    by_cases hd : d = c
    · subst hd
      simpa [Receive.setPhase, same] using inv.streams d
    · simpa [Receive.setPhase, hd] using inv.streams d

/-- The kernel's delivery: the bytes are in the buffer it takes, and no other call's bytes are. -/
theorem Inv.post (inv : Inv cfg s) {res : Int} {flags : BitVec 32} {data : List UInt8}
    {pool : RingBuffer} (submitted : s.thread.phase c = .submitted)
    (hp : InBuffer cfg (.posted res flags))
    (posted : kernelPost s.thread.pool res flags data = some pool)
    (whole : Whole cfg { s.thread.setPhase c (.posted res flags) with pool }) :
    Inv cfg { s with
      thread := { s.thread.setPhase c (.posted res flags) with pool }
      delivered := Function.update s.delivered c (s.delivered c ++ data) } := by
  simp only [kernelPost, hp.2.2, if_true, Option.ite_none_left_eq_some, not_or, not_not] at posted
  obtain ⟨⟨-, hlength⟩, taken⟩ := posted
  obtain ⟨entry, hentry, hbid, fits, hbuffer, keeps⟩ := RingBuffer.kernelTake_eq taken
  obtain ⟨id, hid, rfl⟩ := inv.entries entry hentry
  have small := inv.small
  obtain rfl : bufferId flags = id := by
    rw [← hbid]
    simp only [RingBuffer.bufEntry]
    omega
  have hfits : data.length ≤ cfg.bufferRingSize := fits
  have hcell := Slices.cell_inside hid cfg.bufferRingSize
  have inside : bufferId flags * cfg.bufferRingSize + data.length ≤ s.thread.pool.buffer.length := by
    rw [inv.length]
    omega
  have haddr : (RingBuffer.bufEntry cfg (bufferId flags : Nat)).addr.toNat =
      bufferId flags * cfg.bufferRingSize := by
    simp only [RingBuffer.bufEntry]
    exact Int.toNat_natCast (bufferId flags * cfg.bufferRingSize)
  rw [haddr] at hbuffer
  have available := (RingBuffer.kernelTake_available taken).1
  refine ⟨whole, RingBuffer.kernelTake_isSome taken, fun other hother => inv.entries other (keeps other hother),
    ?_, small, ?_, ?_⟩
  · change pool.buffer.length = _
    rw [hbuffer, Slices.length_overwrite inside, inv.length]
  · intro d
    by_cases hd : d = c
    · subst hd
      simpa [Receive.setPhase] using hp
    · simpa [Receive.setPhase, hd] using inv.inBuffer d
  · intro d
    by_cases hd : d = c
    · subst hd
      have hstream := inv.streams d
      rw [submitted] at hstream
      simp [Receive.setPhase, hstream, outstanding, hbuffer, ← hlength,
        Slices.slice_overwrite_self inside]
    · have hfree : (s.thread.phase d).buffer ≠ some (bufferId flags) :=
        fun held => inv.whole.apart d _ held available
      have hout := outstanding_overwrite (inv.inBuffer d) hfree hfits inside
      simpa [Receive.setPhase, hd, hbuffer, hout] using inv.streams d

/-- A call that returns has read its bytes out of its buffer. -/
theorem Inv.giveBack (inv : Inv cfg s) {res : Int} {flags : BitVec 32} {received : List UInt8}
    {pool : RingBuffer} (completed : s.thread.phase c = .completed res flags)
    (copied : s.thread.pool.copyData cfg [] (bidOf flags) res = some received)
    (repaid : s.thread.pool.repay cfg (bidOf flags) = some pool)
    (whole : Whole cfg { s.thread.setPhase c .idle with
      pool, receiveBuffer := Function.update s.thread.receiveBuffer c received }) :
    Inv cfg { s with
      thread := { s.thread.setPhase c .idle with
        pool, receiveBuffer := Function.update s.thread.receiveBuffer c received }
      returned := Function.update s.returned c (s.returned c ++ [received]) } := by
  have hp := inv.inBuffer c
  rw [completed] at hp
  have hid : bufferId flags < cfg.nBuffers := inv.held_lt (held_buffered completed hp.2.2)
  have hbid := bidOf_eq (hid.trans_le inv.small)
  rw [hbid] at copied repaid
  obtain ⟨hentries, hbuffer⟩ := RingBuffer.repay_eq repaid
  refine ⟨whole, RingBuffer.repay_isSome repaid, fun entry hentry => ?_, ?_, inv.small, ?_, ?_⟩
  · change entry ∈ pool.br.getD [] at hentry
    rw [hentries] at hentry
    rcases List.mem_append.mp hentry with hentry | hentry
    · exact inv.entries entry hentry
    · exact ⟨bufferId flags, hid, List.mem_singleton.mp hentry⟩
  · change pool.buffer.length = _
    rw [hbuffer, inv.length]
  · intro d
    by_cases hd : d = c
    · subst hd
      simp [Receive.setPhase, InBuffer]
    · simpa [Receive.setPhase, hd] using inv.inBuffer d
  · intro d
    by_cases hd : d = c
    · subst hd
      have hstream := inv.streams d
      rw [completed] at hstream
      simp [Receive.setPhase, hstream, outstanding, RingBuffer.copyData_eq copied]
    · simpa [Receive.setPhase, hd, hbuffer] using inv.streams d

/-- **Every step keeps the streams**, if every completion that is posted carries a buffer with data. -/
theorem inv_step (inv : Inv cfg s) (buffered : Buffered cfg s e) (h : s.step cfg e = some s') :
    Inv cfg s' := by
  obtain ⟨thread, hstep, rfl⟩ := Option.map_eq_some_iff.mp h
  have whole := whole_step inv.whole inv.not_extends inv.carries hstep
  cases does_of_step hstep with
  | call idle => exact inv.setPhase whole trivial (by rw [idle]; rfl)
  | post submitted posted => exact inv.post submitted buffered posted whole
  | @handle c res flags posted =>
    have hp := inv.inBuffer c
    rw [posted] at hp
    exact inv.setPhase whole hp (by rw [posted]; rfl)
  | throw completed error =>
    have pos := (inv.completed completed).1
    exact absurd error.1 (by omega)
  | sleep completed auto => exact absurd completed inv.not_nobufs
  | extendThrow completed auto failed => exact absurd completed inv.not_nobufs
  | extend completed auto succeeded accepted => exact absurd completed inv.not_nobufs
  | @repay c res setup flags received pool completed data copied repaid =>
    have returns : s.returns c = true := by simp [returns, completed, data]
    simp only [record, returns, if_true, Function.update_self]
    exact inv.giveBack completed copied repaid whole
  | wake sleeping => exact inv.setPhase whole trivial (by rw [sleeping]; rfl)

/-- **What the calls of a connection return is what the kernel delivered for it, in order**, in every
run whose completions each carry a buffer with data. -/
theorem faithful_of_buffered {setup : Int} {es : List (RecvEvent κ)}
    (constructed : start cfg setup = some s₀) (buffered : Meets (step cfg) (Buffered cfg) s₀ es) :
    Always (step cfg) Faithful s₀ es :=
  always_of_meets (fun _ _ _ => inv_step) (fun _ => Inv.faithful) (inv_start constructed) buffered

/-- A completed call that is resumed copies its buffer, repays it and returns. -/
theorem Inv.resume (inv : Inv cfg s) {res : Int} {flags : BitVec 32}
    (completed : s.thread.phase c = .completed res flags) (setup : Int) :
    ∃ s', s.step cfg (.resume c setup) = some s' ∧ s'.thread.phase c = .idle ∧
      (s'.returned c).length = (s.returned c).length + 1 := by
  have pos := (inv.completed completed).1
  obtain ⟨received, copied⟩ := inv.copied completed
  obtain ⟨entries, ring⟩ := Option.isSome_iff_exists.mp inv.ring
  obtain ⟨pool, repaid⟩ : ∃ pool, s.thread.pool.repay cfg (bidOf flags) = some pool :=
    ⟨_, by rw [RingBuffer.repay, ring, Option.map_some]⟩
  have noError : ¬ (res < 0 ∧ res ≠ -ENOBUFS) := by omega
  have found : ¬ res = -ENOBUFS := by
    rintro rfl
    exact absurd pos (by decide)
  have stepped : s.thread.step cfg (.resume c setup) = some { s.thread.setPhase c .idle with
      pool, receiveBuffer := Function.update s.thread.receiveBuffer c received } := by
    simp only [Receive.step, completed, resumeReceive, if_neg noError, if_neg found, copied, repaid,
      Option.bind_eq_bind, Option.bind_some]
  have returns : s.returns c = true := by
    simp only [ReceiveStream.returns, completed, decide_eq_true_eq]
    omega
  refine ⟨_, by rw [step, stepped, Option.map_some], ?_, ?_⟩
  · simp [record, Receive.setPhase]
  · simp [record, returns]

/-- **A completed call returns when its task is resumed**, and all that was delivered is returned then. -/
theorem returns_of_buffered {setup : Int} {es : List (RecvEvent κ)}
    (constructed : start cfg setup = some s₀) (buffered : Meets (step cfg) (Buffered cfg) s₀ es)
    (run : exec (step cfg) s₀ es = some s) {res : Int} {flags : BitVec 32}
    (completed : s.thread.phase c = .completed res flags) (setup' : Int) :
    ∃ s', s.step cfg (.resume c setup') = some s' ∧ (s'.returned c).length = (s.returned c).length + 1 ∧
      (s'.returned c).flatten = s'.delivered c := by
  have inv : Inv cfg s := exec_invariant (fun _ _ _ => inv_step) (inv_start constructed) buffered run
  obtain ⟨s', resumed, idle, more⟩ := inv.resume completed setup'
  have inv' : Inv cfg s' := inv_step inv (show Buffered cfg s (.resume c setup') from trivial) resumed
  exact ⟨s', resumed, more, inv'.faithful.complete c (.inl idle)⟩

end Step

/-- A pool of two buffers of two bytes. -/
def twoBuffers : Config := { bufferRingSize := 2, nBuffers := 2 }

/-- Two connections, whose receives overlap and are resumed in the other order. -/
def overlapping : List (RecvEvent Bool) :=
  [.call false, .call true, .post true 2 0x10001 [66, 67], .post false 1 0x1 [65], .handle false,
    .handle true, .resume true 0, .call true, .post true 1 0x10001 [68], .resume false 0,
    .handle true, .resume true 0]

def overlappingStart : ReceiveStream Bool where
  thread :=
    { pool := { bufCount := 1, br := some [⟨0, 2, 0⟩, ⟨2, 2, 1⟩], brMask := 1, buffer := [0, 0, 0, 0] }
      phase := fun _ => .idle
      receiveBuffer := fun _ => [] }

theorem start_twoBuffers : start twoBuffers 0 = some overlappingStart := rfl

theorem faithful_of_buffered_overlapping :
    ∃ s, exec (step twoBuffers) overlappingStart overlapping = some s ∧
      s.returned false = [[65]] ∧ s.returned true = [[66, 67], [68]] ∧
      Always (step twoBuffers) Faithful overlappingStart overlapping :=
  ⟨_, rfl, rfl, rfl, faithful_of_buffered start_twoBuffers (by decide)⟩

end CoNet.Net.ReceiveStream
