import CoNet.Io.Buffer
import CoNet.Lib.Slices

/-!
# What the operations of a pool do

What each operation does to the list of available ids, and to the entries and the memory behind them.
A caller cites these and does not unfold the operation.
-/

set_option autoImplicit false

namespace CoNet.Io.RingBuffer

variable {cfg : Config} {rb rb' : RingBuffer} {res bid : Int} {id : Nat} {data : List UInt8}

/-- An accepted ring has 32768 entries at most. -/
theorem le_of_setupAccepted {n : Nat} (h : setupAccepted n = true) : n ≤ 32768 := by
  simp only [setupAccepted, Bool.and_eq_true, decide_eq_true_eq] at h
  exact h.2

/-- A ring of the whole size was set up. -/
theorem SetupWhole.accepted (setup : SetupWhole cfg rb res) (succeeded : 0 ≤ res) :
    setupAccepted (rb.nextSize cfg) = true := by
  have accepted := setup.1 succeeded
  rwa [nentries, Nat.mod_eq_of_lt (setup.2 succeeded)] at accepted

/-- `repay` publishes the id. -/
theorem repay_available (h : rb.repay cfg bid = some rb') :
    rb'.available = rb.available ++ [(bid % 2 ^ 16).toNat] ∧ rb'.bufCount = rb.bufCount := by
  simp only [repay, Option.map_eq_some_iff] at h
  obtain ⟨entries, hbr, rfl⟩ := h
  simp [available, hbr, bufEntry]

/-- The kernel takes an available id, and only that one. -/
theorem kernelTake_available (h : rb.kernelTake id data = some rb') :
    id ∈ rb.available ∧ rb'.available = rb.available.erase id ∧ rb'.bufCount = rb.bufCount := by
  unfold kernelTake at h
  cases hbr : rb.br with
  | none => simp only [hbr, reduceCtorEq] at h
  | some entries =>
    simp only [hbr] at h
    cases hfind : entries.find? (·.bid == id) with
    | none => simp only [hfind, reduceCtorEq] at h
    | some entry =>
      simp only [hfind, Option.ite_none_right_eq_some, Option.some.injEq] at h
      obtain ⟨-, rfl⟩ := h
      have hmem := List.mem_of_find?_eq_some hfind
      have hid : entry.bid = id := by simpa using List.find?_some hfind
      refine ⟨?_, ?_, rfl⟩
      · simp only [available, hbr, Option.getD_some, List.mem_map]
        exact ⟨entry, hmem, hid⟩
      · show (entries.eraseP (·.bid == id)).map (·.bid) = (rb.available).erase id
        rw [available, hbr, Option.getD_some, List.erase_eq_eraseP', List.eraseP_map]
        rfl

theorem extendBuffer_bufCount :
    (rb.extendBuffer cfg res).1.bufCount = rb.bufCount + 1 := by
  unfold extendBuffer release
  cases rb.br <;> by_cases h : rb.bufCount = 0 <;> by_cases hres : res < 0 <;> simp [h, hres]

/-- An extension throws exactly when its ring could not be set up. -/
theorem extendBuffer_throws :
    (rb.extendBuffer cfg res).2 = if res < 0 then some "Buffer extend error." else none := by
  by_cases h : res < 0 <;> simp only [extendBuffer, h, if_true, if_false]

/-- A failed extension leaves nothing available. -/
theorem extendBuffer_failed (h : res < 0) : (rb.extendBuffer cfg res).1.available = [] := by
  simp [extendBuffer, available, h]

/-- **A successful extension makes every id of the new size available.** -/
theorem extendBuffer_succeeded (h : 0 ≤ res) (setup : SetupWhole cfg rb res) :
    (rb.extendBuffer cfg res).1.available = List.range (rb.nextSize cfg) := by
  have hle : rb.nextSize cfg ≤ 32768 := le_of_setupAccepted (setup.accepted h)
  have hcount : (if rb.bufCount ≠ 0 then rb.release else rb).bufCount = rb.bufCount := by
    unfold release
    cases rb.br <;> split <;> rfl
  simp only [extendBuffer, if_neg (Int.not_lt.mpr h), available, Option.getD_some, hcount,
    List.map_map]
  refine (List.map_congr_left fun i hi => ?_).trans (List.map_id _)
  -- an id of an accepted ring fits in an `unsigned short`
  have hi : i < rb.nextSize cfg := by simpa [nextSize] using hi
  show ((i : Int) % 2 ^ 16).toNat = i
  omega

/-- A constructed pool offers all its ids. -/
theorem construct_available (h : construct cfg res = some rb) :
    rb.available = List.range cfg.nBuffers ∧ rb.bufCount = 1 := by
  unfold construct at h
  split at h
  · rename_i setup
    split at h
    · rename_i pool hex
      obtain rfl := Option.some.inj h
      have hcount : (extendBuffer cfg {} res).1.bufCount = 1 := extendBuffer_bufCount
      have hthrow : (extendBuffer cfg {} res).2 = _ := extendBuffer_throws
      rw [hex] at hthrow hcount
      have hres : 0 ≤ res := by
        by_contra hneg
        rw [if_pos (Int.not_le.mp hneg)] at hthrow
        cases hthrow
      have havail := extendBuffer_succeeded hres setup
      rw [hex] at havail
      exact ⟨by simpa [nextSize] using havail, hcount⟩
    · cases h
  · cases h

/-- A pool of an accepted size can be constructed. -/
theorem construct_of_accepted (accepted : setupAccepted cfg.nBuffers = true) :
    ∃ rb, construct cfg 0 = some rb ∧ rb.br ≠ none := by
  have le := le_of_setupAccepted accepted
  have size : nextSize cfg {} = cfg.nBuffers := Nat.mul_one _
  have whole : nextSize cfg {} < 2 ^ 32 := by omega
  have setup : SetupWhole cfg {} 0 := by
    refine ⟨fun _ => ?_, fun _ => whole⟩
    rwa [nentries, Nat.mod_eq_of_lt whole, size]
  rw [construct, if_pos setup]
  exact ⟨_, rfl, by simp⟩

/-! ## Entries and memory -/

/-- What a constructed pool is. -/
theorem construct_eq (h : construct cfg res = some rb) :
    rb.br = some ((List.range cfg.nBuffers).map fun (i : Nat) => bufEntry cfg i) ∧
      rb.buffer.length = cfg.nBuffers * cfg.bufferRingSize ∧ cfg.nBuffers ≤ 32768 := by
  unfold construct at h
  split at h
  · rename_i setup
    by_cases hres : res < 0
    · simp [extendBuffer, hres] at h
    · have accepted := le_of_setupAccepted (setup.accepted (Int.not_lt.mp hres))
      simp only [extendBuffer, hres, if_false, Option.some.injEq] at h
      subst h
      simpa [resize, nextSize] using accepted
  · cases h

/-- `copy_data` reads a slice of the memory. -/
theorem copyData_eq {output : List UInt8} {bytes : Int}
    (h : rb.copyData cfg [] (id : Int) bytes = some output) :
    output = Slices.slice rb.buffer (id * cfg.bufferRingSize) bytes.toNat := by
  simp only [copyData, Option.ite_none_right_eq_some, List.nil_append] at h
  obtain ⟨-, heq⟩ := h
  rw [← Option.some.inj heq]
  rfl

theorem repay_eq (h : rb.repay cfg bid = some rb') :
    rb'.br.getD [] = rb.br.getD [] ++ [bufEntry cfg bid] ∧ rb'.buffer = rb.buffer := by
  simp only [repay, Option.map_eq_some_iff] at h
  obtain ⟨entries, hbr, rfl⟩ := h
  simp [hbr]

theorem repay_isSome (h : rb.repay cfg bid = some rb') : rb'.br.isSome = true := by
  simp only [repay, Option.map_eq_some_iff] at h
  obtain ⟨entries, -, rfl⟩ := h
  rfl

theorem kernelTake_isSome (h : rb.kernelTake id data = some rb') : rb'.br.isSome = true := by
  unfold kernelTake at h
  cases hbr : rb.br with
  | none => simp only [hbr, reduceCtorEq] at h
  | some entries =>
    simp only [hbr] at h
    cases hfind : entries.find? (·.bid == id) with
    | none => simp only [hfind, reduceCtorEq] at h
    | some entry =>
      simp only [hfind, Option.ite_none_right_eq_some, Option.some.injEq] at h
      obtain ⟨-, rfl⟩ := h
      rfl

/-- The kernel writes into the buffer of the entry it takes. -/
theorem kernelTake_eq (h : rb.kernelTake id data = some rb') :
    ∃ entry ∈ rb.br.getD [], entry.bid = id ∧ data.length ≤ entry.len ∧
      rb'.buffer = Slices.overwrite rb.buffer entry.addr.toNat data ∧
      ∀ other ∈ rb'.br.getD [], other ∈ rb.br.getD [] := by
  unfold kernelTake at h
  cases hbr : rb.br with
  | none => simp only [hbr, reduceCtorEq] at h
  | some entries =>
    simp only [hbr] at h
    cases hfind : entries.find? (·.bid == id) with
    | none => simp only [hfind, reduceCtorEq] at h
    | some entry =>
      simp only [hfind, Option.ite_none_right_eq_some, Option.some.injEq] at h
      obtain ⟨fits, rfl⟩ := h
      have hid : entry.bid = id := by simpa using List.find?_some hfind
      exact ⟨entry, List.mem_of_find?_eq_some hfind, hid, fits, rfl,
        fun other hother => List.mem_of_mem_eraseP hother⟩

end CoNet.Io.RingBuffer
