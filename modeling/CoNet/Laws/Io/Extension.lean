import CoNet.Laws.Io.Buffer
import CoNet.Lib.Transition
import Mathlib.Data.Nat.Bitwise

/-!
# Extensions of a pool

`Addressable` is what the ring that an `extend_buffer` asks for should be: of a power of two, with each
id in a place of its own, and each byte of `buffer_` in the buffer of one id. The size is `N_BUFFERS`
times the number of extensions, so this holds for the first, the second and the fourth
(`addressable_iff`).

`AsUsable` is what an `extend_buffer` that throws should leave. It has released its ring by then, so it
never does (`not_asUsable`); and no later extension sets a ring up again, but for one whose size is cut to 32
bits (`dead_of_failed`).
-/

set_option autoImplicit false

namespace CoNet.Io

/-- The first byte after an entry's buffer. -/
def BufEntry.past (e : BufEntry) : Int := e.addr + (e.len : Int)

namespace RingBuffer

open Transition

variable {cfg : Config} {rb rb' : RingBuffer} {res : Int}

/-! ## Sizes -/

/-- The entries that the next `extend_buffer` adds, and the memory they are in. -/
def next (cfg : Config) (rb : RingBuffer) : RingBuffer := (rb.extendBuffer cfg 0).1

structure Addressable (cfg : Config) (rb : RingBuffer) : Prop where
  powerOfTwo : ∃ k, rb.nentries cfg = 2 ^ k
  /-- The ids are 0 to size - 1. -/
  ids : (rb.next cfg).available = List.range (rb.nextSize cfg)
  places : ((List.range (rb.nextSize cfg)).map (slot (rb.next cfg).brMask)).Nodup
  apart : ((rb.next cfg).br.getD []).Pairwise fun e e' => e.past ≤ e'.addr ∨ e'.past ≤ e.addr
  covers : ∀ byte : Nat, byte < (rb.next cfg).buffer.length ↔
    ∃ e ∈ (rb.next cfg).br.getD [], e.addr ≤ byte ∧ byte < e.past

theorem length_resize (buffer : List UInt8) (size : Nat) : (resize buffer size).length = size := by
  simp only [resize, List.length_append, List.length_take, List.length_replicate]
  omega

theorem release_fields (rb : RingBuffer) :
    rb.release.bufCount = rb.bufCount ∧ rb.release.buffer = rb.buffer := by
  unfold release
  split <;> exact ⟨rfl, rfl⟩

/-- What `extend_buffer` leaves when its ring is set up. -/
theorem next_eq (cfg : Config) (rb : RingBuffer) :
    (rb.next cfg).br = some ((List.range (rb.nextSize cfg)).map fun (i : Nat) => bufEntry cfg i) ∧
      (rb.next cfg).brMask = (rb.nextSize cfg : Int) - 1 ∧
      (rb.next cfg).buffer.length = rb.nextSize cfg * cfg.bufferRingSize := by
  have count : (if rb.bufCount ≠ 0 then rb.release else rb).bufCount = rb.bufCount := by
    split
    · exact (release_fields rb).1
    · rfl
  simp only [next, extendBuffer, count, bufRingMask, nextSize, length_resize, Int.lt_irrefl, if_false,
    true_and]
  rw [Nat.mul_right_comm]

/-- The place of an id below a power of two is the id. -/
theorem slot_of_lt {i k : Nat} (hk : k ≤ 16) (hi : i < 2 ^ k) : slot ((2 ^ k : Nat) - 1) i = i := by
  have small : 2 ^ k ≤ 2 ^ 16 := Nat.pow_le_pow_right (by decide) hk
  have pos : 0 < 2 ^ k := Nat.two_pow_pos k
  have mask : BitVec.ofInt 32 ((2 ^ k : Nat) - 1) = BitVec.ofNat 32 (2 ^ k - 1) := by
    rw [show ((2 ^ k : Nat) - 1 : Int) = ((2 ^ k - 1 : Nat) : Int) by omega, BitVec.ofInt_natCast]
  rw [slot, mask, BitVec.toNat_and, BitVec.toNat_ofNat, BitVec.toNat_ofNat,
    Nat.mod_eq_of_lt (by omega), Nat.mod_eq_of_lt (by omega), Nat.and_two_pow_sub_one_eq_mod,
    Nat.mod_eq_of_lt hi]

/-- The buffers of different ids are apart. -/
theorem entries_apart (cfg : Config) (size : Nat) :
    ((List.range size).map fun (i : Nat) => bufEntry cfg i).Pairwise fun e e' =>
      e.past ≤ e'.addr ∨ e'.past ≤ e.addr := by
  refine List.pairwise_map.mpr (List.pairwise_lt_range.imp fun {i j} lt => .inl ?_)
  have cells : i * cfg.bufferRingSize + cfg.bufferRingSize ≤ j * cfg.bufferRingSize :=
    Slices.cell_inside lt cfg.bufferRingSize
  simp only [bufEntry, BufEntry.past]
  exact_mod_cast cells

/-- A byte is in the buffer of its cell's id. -/
theorem entries_cover (cfg : Config) (size byte : Nat) :
    byte < size * cfg.bufferRingSize ↔
      ∃ e ∈ (List.range size).map fun (i : Nat) => bufEntry cfg i,
        e.addr ≤ byte ∧ byte < e.past := by
  constructor
  · intro inside
    have pos : 0 < cfg.bufferRingSize := Nat.pos_of_ne_zero fun zero => by simp [zero] at inside
    refine ⟨bufEntry cfg (byte / cfg.bufferRingSize : Nat), ?_, ?_⟩
    · exact List.mem_map.mpr ⟨_, List.mem_range.mpr ((Nat.div_lt_iff_lt_mul pos).mpr inside), rfl⟩
    · have below : byte / cfg.bufferRingSize * cfg.bufferRingSize ≤ byte := Nat.div_mul_le_self ..
      have above : byte < byte / cfg.bufferRingSize * cfg.bufferRingSize + cfg.bufferRingSize :=
        Nat.lt_div_mul_add pos
      simp only [bufEntry, BufEntry.past]
      exact_mod_cast And.intro below above
  · rintro ⟨e, mem, -, above⟩
    obtain ⟨i, hi, rfl⟩ := List.mem_map.mp mem
    have cell : i * cfg.bufferRingSize + cfg.bufferRingSize ≤ size * cfg.bufferRingSize :=
      Slices.cell_inside (List.mem_range.mp hi) cfg.bufferRingSize
    simp only [bufEntry, BufEntry.past] at above
    have above : byte < i * cfg.bufferRingSize + cfg.bufferRingSize := by exact_mod_cast above
    omega

/-- The ids are those of an `unsigned short`. -/
theorem size_of_ids (h : (rb.next cfg).available = List.range (rb.nextSize cfg)) :
    rb.nextSize cfg ≤ 2 ^ 16 := by
  by_contra large
  obtain ⟨br, -, -⟩ := next_eq cfg rb
  have mem : 2 ^ 16 ∈ (rb.next cfg).available := by
    rw [h]
    exact List.mem_range.mpr (by omega)
  simp only [available, br, Option.getD_some, List.map_map, List.mem_map, List.mem_range] at mem
  obtain ⟨i, -, bid⟩ := mem
  have bid : ((i : Int) % 2 ^ 16).toNat = 2 ^ 16 := bid
  omega

theorem addressable_of_size {k : Nat} (hk : k ≤ 16) (size : rb.nextSize cfg = 2 ^ k) :
    Addressable cfg rb := by
  obtain ⟨br, mask, length⟩ := next_eq cfg rb
  have small : 2 ^ k ≤ 2 ^ 16 := Nat.pow_le_pow_right (by decide) hk
  constructor
  · exact ⟨k, by rw [nentries, size, Nat.mod_eq_of_lt (by omega)]⟩
  · rw [available, br, Option.getD_some, List.map_map]
    refine (List.map_congr_left fun i hi => ?_).trans (List.map_id _)
    have hi : i < rb.nextSize cfg := List.mem_range.mp hi
    show ((i : Int) % 2 ^ 16).toNat = i
    omega
  · have places : (List.range (rb.nextSize cfg)).map (slot (rb.next cfg).brMask) =
        List.range (rb.nextSize cfg) := by
      refine (List.map_congr_left fun i hi => ?_).trans (List.map_id _)
      rw [mask, size]
      exact slot_of_lt hk (size ▸ List.mem_range.mp hi)
    rw [places]
    exact List.nodup_range
  · rw [br]
    exact entries_apart cfg _
  · intro byte
    rw [br, length]
    exact entries_cover cfg _ byte

/-- The number of extensions, for which the size is a power of two of an `unsigned short` at most. -/
theorem size_iff (rb : RingBuffer) :
    (∃ k ≤ 16, rb.nextSize {} = 2 ^ k) ↔ ∃ k ≤ 2, rb.bufCount + 1 = 2 ^ k := by
  have size : rb.nextSize {} = 2 ^ 14 * (rb.bufCount + 1) := rfl
  rw [size]
  constructor
  · rintro ⟨k, hk, h⟩
    have le : 14 ≤ k := by
      by_contra lt
      have := Nat.pow_lt_pow_right (show 1 < 2 by decide) (Nat.not_le.mp lt)
      omega
    refine ⟨k - 14, by omega, ?_⟩
    rw [← Nat.add_sub_cancel' le, Nat.pow_add] at h
    exact Nat.eq_of_mul_eq_mul_left (by decide) h
  · rintro ⟨k, hk, h⟩
    exact ⟨14 + k, by omega, by rw [h, Nat.pow_add]⟩

theorem size_of_addressable (h : Addressable cfg rb) : ∃ k ≤ 16, rb.nextSize cfg = 2 ^ k := by
  have small := size_of_ids h.ids
  obtain ⟨k, hk⟩ := h.powerOfTwo
  rw [nentries, Nat.mod_eq_of_lt (by omega)] at hk
  refine ⟨k, ?_, hk⟩
  exact (Nat.pow_le_pow_iff_right (by decide)).mp (hk ▸ small)

/-- **The next ring is addressable exactly when it is the first, the second or the fourth one.** Every
`extend_buffer` adds one to `buf_count_`. -/
theorem addressable_iff (rb : RingBuffer) :
    Addressable {} rb ↔ ∃ k ≤ 2, rb.bufCount + 1 = 2 ^ k := by
  rw [← size_iff]
  exact ⟨size_of_addressable, fun ⟨_, hk, size⟩ => addressable_of_size hk size⟩

/-- A pool that was constructed and extended once. -/
def extendedOnce : RingBuffer := (((extendBuffer {} {} 0).1).extendBuffer {} 0).1

theorem not_addressable_extendedOnce : ¬ Addressable {} extendedOnce := by
  intro h
  obtain ⟨k, hk, size⟩ := size_of_addressable h
  have count : extendedOnce.bufCount = 2 := by
    rw [extendedOnce, extendBuffer_bufCount, extendBuffer_bufCount]
  have size : 2 ^ 14 * (extendedOnce.bufCount + 1) = 2 ^ k := size
  rw [count] at size
  revert size
  revert k
  decide

/-! ## Failures -/

/-- What is done with a pool. -/
inductive PoolOp where
  | copyData (bid bytes : Int)
  | repay (bid : Int)
  /-- The kernel takes a buffer. -/
  | take (bid : Nat) (data : List UInt8)
  /-- `extend_buffer`, which may throw. -/
  | extend (res : Int)
  deriving DecidableEq, Repr

def poolStep (cfg : Config) (rb : RingBuffer) : PoolOp → Option RingBuffer
  | .copyData bid bytes => (rb.copyData cfg [] bid bytes).map fun _ => rb
  | .repay bid => rb.repay cfg bid
  | .take bid data => rb.kernelTake bid data
  | .extend res => if SetupResult cfg rb res then some (rb.extendBuffer cfg res).1 else none

/-- The pool is as usable after an extension as it was before. -/
structure AsUsable (cfg : Config) (before after : RingBuffer) : Prop where
  registered : after.br ≠ none
  bufCount : after.bufCount = before.bufCount
  brMask : after.brMask = before.brMask
  length : after.buffer.length = before.buffer.length
  /-- Whatever is done later finds a ring. -/
  later : ∀ ops, Always (poolStep cfg) (fun rb => rb.br ≠ none) after ops

/-- A failed extension leaves `br_` null. -/
theorem extendBuffer_br (failed : res < 0) : (rb.extendBuffer cfg res).1.br = none := by
  simp only [extendBuffer, failed, if_true]

/-- A `repay` then goes through the null `br_`. -/
theorem repay_failed (failed : res < 0) (bid : Int) :
    (rb.extendBuffer cfg res).1.repay cfg bid = none := by
  rw [repay, extendBuffer_br failed, Option.map_none]

/-- **A failed extension never leaves the pool as usable.** -/
theorem not_asUsable (cfg : Config) (rb : RingBuffer) (res : Int) (failed : res < 0) :
    ¬ AsUsable cfg rb (rb.extendBuffer cfg res).1 :=
  fun h => h.registered (extendBuffer_br failed)

/-- The size of the next extension is not cut to 32 bits. -/
def Uncut (rb : RingBuffer) : PoolOp → Prop
  | .extend _ => rb.nextSize {} < 2 ^ 32
  | _ => True

/-- No ring, and too many extensions for another. -/
structure Dead (rb : RingBuffer) : Prop where
  br : rb.br = none
  count : 2 ≤ rb.bufCount

theorem dead_step {op : PoolOp} (dead : Dead rb) (uncut : Uncut rb op) (h : poolStep {} rb op = some rb') : Dead rb' := by
  cases op with
  | copyData bid bytes =>
    obtain ⟨_, -, rfl⟩ := Option.map_eq_some_iff.mp h
    exact dead
  | repay bid =>
    simp only [poolStep, repay, dead.br, Option.map_none, reduceCtorEq] at h
  | take bid data =>
    simp only [poolStep, kernelTake, dead.br, reduceCtorEq] at h
  | extend res =>
    simp only [poolStep, Option.ite_none_right_eq_some, Option.some.injEq] at h
    obtain ⟨setup, rfl⟩ := h
    have failed : res < 0 := by
      by_contra ok
      have le := le_of_setupAccepted (setup (Int.not_lt.mp ok))
      rw [nentries, Nat.mod_eq_of_lt uncut] at le
      have size : rb.nextSize {} = 2 ^ 14 * (rb.bufCount + 1) := rfl
      have := dead.count
      omega
    have count := dead.count
    exact ⟨extendBuffer_br failed, by rw [extendBuffer_bufCount]; omega⟩

/-- **After a failed extension there is no ring any more**, whatever is done with the pool, up to `2 ^ 18`
extensions. -/
theorem dead_of_failed (extended : rb.bufCount ≠ 0) (failed : res < 0) {ops : List PoolOp}
    (uncut : Meets (poolStep {}) Uncut (rb.extendBuffer {} res).1 ops) :
    Always (poolStep {}) (fun rb => rb.br = none) (rb.extendBuffer {} res).1 ops := by
  have dead : Dead (rb.extendBuffer {} res).1 :=
    ⟨extendBuffer_br failed, by rw [extendBuffer_bufCount]; omega⟩
  exact always_of_meets (fun _ _ _ => dead_step) (fun _ dead => dead.br) dead uncut

/-- A pool whose second ring cannot be set up: `-ENOMEM`. -/
theorem not_asUsable_constructed :
    ¬ AsUsable {} (extendBuffer {} {} 0).1 (((extendBuffer {} {} 0).1).extendBuffer {} (-12)).1 :=
  not_asUsable {} (extendBuffer {} {} 0).1 (-12) (by decide)

/-- The failed pool has no ring, and a `repay` of a buffer that a task still holds goes through a null
pointer. -/
theorem asUsable_lost : ∃ rb, construct {} 0 = some rb ∧ ¬ AsUsable {} rb (rb.extendBuffer {} (-12)).1 ∧
    (rb.extendBuffer {} (-12)).1.repay {} 3 = none := by
  have accepted : setupAccepted ({} : Config).nBuffers = true := rfl
  obtain ⟨rb, h, -⟩ := construct_of_accepted accepted
  exact ⟨rb, h, fun usable => usable.registered (extendBuffer_br (by decide)),
    repay_failed (by decide) 3⟩

end RingBuffer

end CoNet.Io
