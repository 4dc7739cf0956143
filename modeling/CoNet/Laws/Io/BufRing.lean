import CoNet.Io.BufRing
import CoNet.Laws.Io.Buffer

/-!
# The shared ring is the list of its entries

Each operation of a `RingBuffer` does to the ring in memory what the same operation does to the list of its
entries, whatever the counters are, as long as the ring has no more entries than places: the places of
entries wrap at the size of the ring, and the counters at 16 bits.
-/

set_option autoImplicit false

namespace CoNet.Io

open RingBuffer Circular

variable {cfg : Config} {res bid : Int} {id n : Nat} {data : List UInt8}

namespace BufRing

variable {br br' : BufRing} {entry : BufEntry}

/-- An accepted size is a power of two, so that the counters wrap with the places. -/
theorem exists_pow (h : setupAccepted n = true) : ∃ k ≤ 15, n = 2 ^ k := by
  have le := le_of_setupAccepted h
  simp only [setupAccepted, Bool.and_eq_true, decide_eq_true_eq] at h
  obtain ⟨k, rfl⟩ := (Nat.and_sub_one_eq_zero_iff_isPowerOfTwo h.1.1).mp h.1.2
  exact ⟨k, (Nat.pow_le_pow_iff_right (by decide)).mp le, rfl⟩

theorem divides_of_accepted (h : setupAccepted n = true) : n ∣ 2 ^ 16 ∧ n < 2 ^ 16 := by
  obtain ⟨k, le, rfl⟩ := exists_pow h
  exact ⟨Nat.pow_dvd_pow 2 (by omega), Nat.pow_lt_pow_right (by decide) (by omega)⟩

/-- **The place of an entry** is the slot of its counter, though it is computed in 32 bits. -/
theorem place_eq (accepted : setupAccepted n = true) (tail : BitVec 16) (bufOffset : Nat) :
    place tail (bufRingMask n) bufOffset = slot n (tail + BitVec.ofNat 16 bufOffset) := by
  obtain ⟨divides, -⟩ := divides_of_accepted accepted
  obtain ⟨k, le, rfl⟩ := exists_pow accepted
  have pos : 0 < 2 ^ k := Nat.two_pow_pos k
  have mask : BitVec.ofInt 32 (bufRingMask (2 ^ k)) = BitVec.ofNat 32 (2 ^ k - 1) := by
    have sub : bufRingMask (2 ^ k) = ((2 ^ k - 1 : Nat) : Int) := by
      unfold bufRingMask
      omega
    rw [sub, BitVec.ofInt_natCast]
  have small : 2 ^ k - 1 < 2 ^ 32 := by
    have := Nat.pow_le_pow_right (show 0 < 2 by decide) le
    omega
  have divides32 : 2 ^ k ∣ 2 ^ 32 := Nat.pow_dvd_pow 2 (by omega)
  rw [place, mask, BitVec.toNat_and, BitVec.toNat_ofNat, Nat.mod_eq_of_lt small,
    Nat.and_two_pow_sub_one_eq_mod, Queue.slot_add divides, BitVec.toNat_add,
    BitVec.toNat_setWidth, BitVec.toNat_ofNat, Nat.mod_mod_of_dvd _ divides32, Nat.add_mod,
    Nat.mod_mod_of_dvd _ divides32, Nat.mod_mod_of_dvd _ divides32, ← Nat.add_mod]

/-- An entry is added in its slot, which is inside the array. -/
theorem add_eq (br : BufRing) (accepted : setupAccepted br.nentries = true) (entry : BufEntry)
    (bufOffset : Nat) :
    br.add entry (bufRingMask br.nentries) bufOffset =
      some { br with bufs := br.bufs.put br.nentries bufOffset entry } := by
  obtain ⟨k, -, size⟩ := exists_pow accepted
  have pos : 0 < br.nentries := size ▸ Nat.two_pow_pos k
  rw [add, place_eq accepted]
  exact if_pos (Nat.mod_lt _ pos)

/-- The loop of `extend_buffer`. -/
theorem foldlM_add (br : BufRing) (accepted : setupAccepted br.nentries = true) (f : Nat → BufEntry)
    (k : Nat) :
    (List.range k).foldlM (fun br' i => br'.add (f i) (bufRingMask br.nentries) i) br =
      some { br with bufs := br.bufs.fill br.nentries f k } := by
  induction k with
  | zero => rfl
  | succ k ih =>
    have last := add_eq { br with bufs := br.bufs.fill br.nentries f k } accepted (f k) k
    rw [List.range_succ, List.foldlM_append, ih, Option.bind_eq_bind, Option.bind_some,
      List.foldlM_cons, last, Queue.fill_succ]
    rfl

theorem length_entries (br : BufRing) : br.entries.length = br.bufs.count := Queue.length_entries _

/-- The kernel sees the entries that are published. -/
theorem isEmpty_iff : br.isEmpty = true ↔ br.entries = [] := by
  rw [isEmpty, beq_iff_eq, entries, Queue.entries_eq_nil]

/-- The kernel takes the first entry. -/
theorem select_eq (h : br.select = some (entry, br')) :
    br.entries = entry :: br'.entries ∧ br'.nentries = br.nentries ∧
      br'.bufs.count + 1 = br.bufs.count := by
  unfold select at h
  split at h
  · cases h
  · rename_i some_entry
    rw [isEmpty, beq_iff_eq] at some_entry
    cases h
    exact ⟨Queue.entries_pop some_entry, rfl, Queue.count_pop some_entry⟩

end BufRing

namespace SharedBuffer

variable {rb rb' : SharedBuffer} {br : BufRing}

/-- A ring that is registered, and has no more entries than places. -/
structure Fits (cfg : Config) (rb : SharedBuffer) (br : BufRing) : Prop where
  size : br.nentries = cfg.nBuffers * rb.bufCount
  accepted : setupAccepted br.nentries = true
  mask : rb.brMask = bufRingMask br.nentries
  room : br.bufs.count ≤ br.nentries

def Registered (cfg : Config) (rb : SharedBuffer) : Prop := ∀ br, rb.br = some br → Fits cfg rb br

theorem toRingBuffer_br (h : rb.br = some br) : rb.toRingBuffer.br = some br.entries := by
  rw [toRingBuffer, h]
  rfl

theorem available_eq (h : rb.br = some br) :
    rb.toRingBuffer.available = br.entries.map (·.bid) := by
  rw [available, toRingBuffer_br h]
  rfl

theorem noBuffer_iff : rb.noBuffer = true ↔ rb.toRingBuffer.available = [] := by
  cases h : rb.br with
  | none => simp [noBuffer, available, toRingBuffer, h]
  | some br => simp [noBuffer, available_eq h, h, BufRing.isEmpty_iff]

/-- **A repay, if there is a place left**, adds one entry to the list. -/
theorem repay_refines (registered : Registered cfg rb)
    (room : rb.toRingBuffer.available.length < cfg.nBuffers * rb.bufCount)
    (h : rb.repay cfg bid = some rb') :
    rb.toRingBuffer.repay cfg bid = some rb'.toRingBuffer ∧ Registered cfg rb' := by
  simp only [repay, Option.bind_eq_bind, Option.bind_eq_some_iff] at h
  obtain ⟨br, found, br', added, eq⟩ := h
  have fits := registered br found
  rw [fits.mask, BufRing.add_eq br fits.accepted] at added
  cases added
  cases eq
  rw [available_eq found, List.length_map, BufRing.length_entries, ← fits.size] at room
  obtain ⟨divides, lt⟩ := BufRing.divides_of_accepted fits.accepted
  have count : (br.bufs.push br.nentries (bufEntry cfg bid)).count = br.bufs.count + 1 :=
    Queue.count_push (by omega)
  have pushed := Queue.entries_push divides lt (a := bufEntry cfg bid) room
  constructor
  · rw [RingBuffer.repay, toRingBuffer_br found, Option.map_some, BufRing.entries, ← pushed]
    rfl
  · intro br' here
    cases here
    exact ⟨fits.size, fits.accepted, fits.mask, count.le.trans room⟩

/-- **The kernel takes the first entry** of the list. -/
theorem kernelTake_refines (registered : Registered cfg rb) (h : rb.kernelTake id data = some rb') :
    rb.toRingBuffer.kernelTake id data = some rb'.toRingBuffer ∧ Registered cfg rb' := by
  simp only [kernelTake, Option.bind_eq_bind, Option.bind_eq_some_iff] at h
  obtain ⟨br, found, ⟨entry, br'⟩, selected, taken⟩ := h
  obtain ⟨entries, size, count⟩ := BufRing.select_eq selected
  have fits := registered br found
  dsimp only at taken
  split at taken
  · rename_i guard
    obtain ⟨rfl, short⟩ := guard
    cases taken
    constructor
    · simp only [RingBuffer.kernelTake, toRingBuffer_br found, entries, List.find?_cons, beq_self_eq_true,
        if_pos short, List.eraseP_cons, cond_true]
      rfl
    · intro br'' here
      cases here
      have room : br'.bufs.count ≤ br'.nentries := by
        have before := fits.room
        omega
      exact ⟨size ▸ fits.size, size ▸ fits.accepted, size ▸ fits.mask, room⟩
  · cases taken

/-- What `extend_buffer` does first. -/
theorem freed_toRingBuffer (rb : SharedBuffer) :
    (if rb.bufCount ≠ 0 then rb.release else rb).toRingBuffer =
      if rb.toRingBuffer.bufCount ≠ 0 then rb.toRingBuffer.release else rb.toRingBuffer := by
  obtain ⟨_ | count, _ | br, mask, buffer⟩ := rb <;> rfl

theorem freed_bufCount (rb : SharedBuffer) :
    (if rb.bufCount ≠ 0 then rb.release else rb).bufCount = rb.bufCount := by
  obtain ⟨_ | count, _ | br, mask, buffer⟩ := rb <;> rfl

/-- A fresh ring, filled. -/
theorem entries_filled (accepted : setupAccepted n = true) (f : Nat → BufEntry) :
    (((BufRing.setup n).bufs.fill n f n).advance n).entries n = (List.range n).map f ∧
      (((BufRing.setup n).bufs.fill n f n).advance n).count = n := by
  obtain ⟨divides, lt⟩ := BufRing.divides_of_accepted accepted
  have empty : (BufRing.setup n).bufs.count = 0 := by simp [BufRing.setup, Queue.count]
  have none : (BufRing.setup n).bufs.entries n = [] := List.length_eq_zero_iff.mp (by simp [empty])
  rw [Queue.advance_fill, Queue.entries_pushAll divides lt (by omega),
    Queue.count_pushAll (by omega), empty, none, Nat.zero_add]
  exact ⟨rfl, rfl⟩

/-- **An extension lists the ids of the new ring.** -/
theorem extendBuffer_refines {exn : Option String}
    (setup : rb.SetupWhole cfg res) (h : rb.extendBuffer cfg res = some (rb', exn)) :
    rb.toRingBuffer.extendBuffer cfg res = (rb'.toRingBuffer, exn) ∧ Registered cfg rb' := by
  have freed := freed_toRingBuffer rb
  have count := freed_bufCount rb
  simp only [extendBuffer] at h
  simp only [RingBuffer.extendBuffer, ← freed]
  generalize (if rb.bufCount ≠ 0 then rb.release else rb) = start at h count ⊢
  by_cases failed : res < 0
  · simp only [if_pos failed] at h ⊢
    cases h
    refine ⟨rfl, fun br here => ?_⟩
    cases here
  · simp only [if_neg failed, Option.bind_eq_bind, Option.bind_eq_some_iff] at h ⊢
    obtain ⟨br, filled, eq⟩ := h
    have size : setupAccepted (cfg.nBuffers * (start.bufCount + 1)) = true := by
      rw [count]
      exact RingBuffer.SetupWhole.accepted setup (Int.not_lt.mp failed)
    have same : start.toRingBuffer.bufCount = start.bufCount := rfl
    rw [same]
    generalize size_eq : cfg.nBuffers * (start.bufCount + 1) = n at size filled eq ⊢
    have all := BufRing.foldlM_add (BufRing.setup n) size (fun i => bufEntry cfg i) n
    obtain ⟨entries, full⟩ := entries_filled size fun i => bufEntry cfg i
    cases all.symm.trans filled
    cases eq
    constructor
    · rw [← entries]
      rfl
    · intro br here
      cases here
      exact ⟨size_eq.symm, size, rfl, full.le⟩

end SharedBuffer

end CoNet.Io
