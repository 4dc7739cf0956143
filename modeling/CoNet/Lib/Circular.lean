import Mathlib.Data.BitVec
import Mathlib.Data.List.Range
import Mathlib.Logic.Function.Basic

/-!
# A queue in a circle of slots

Two counters of `w` bits run over `size` slots and wrap on their own, so `size` divides `2 ^ w`. What is in
the slots from the head to the tail is in the queue (`entries`). While there is room, `push` puts behind the
last entry and keeps the others (`entries_push`), `pop` takes the first one (`entries_pop`), and entries that
are written behind the tail before it is moved once are pushed one after the other (`pushAll_eq`).
-/

set_option autoImplicit false

namespace Circular

variable {α : Type*} {w size : Nat}

structure Queue (α : Type*) (w : Nat) where
  slots : Nat → α
  head : BitVec w
  tail : BitVec w

/-- The slot of a counter. -/
def slot (size : Nat) (counter : BitVec w) : Nat := counter.toNat % size

namespace Queue

variable {q : Queue α w}

def count (q : Queue α w) : Nat := (q.tail - q.head).toNat

/-- The first entry first. -/
def entries (size : Nat) (q : Queue α w) : List α :=
  (List.range q.count).map fun i => q.slots (slot size (q.head + BitVec.ofNat w i))

/-- Writes behind the tail. -/
def put (size : Nat) (q : Queue α w) (offset : Nat) (a : α) : Queue α w :=
  { q with slots := Function.update q.slots (slot size (q.tail + BitVec.ofNat w offset)) a }

def advance (q : Queue α w) (n : Nat) : Queue α w := { q with tail := q.tail + BitVec.ofNat w n }

def push (size : Nat) (q : Queue α w) (a : α) : Queue α w := (q.put size 0 a).advance 1

/-- Takes the entry at the head. -/
def pop (q : Queue α w) : Queue α w := { q with head := q.head + 1 }

@[simp] theorem length_entries (q : Queue α w) : (q.entries size).length = q.count := by
  simp [entries]

theorem count_lt (q : Queue α w) : q.count < 2 ^ w := (q.tail - q.head).isLt

theorem entries_eq_nil : q.entries size = [] ↔ q.head = q.tail := by
  rw [← List.length_eq_zero_iff, length_entries, count, ← BitVec.toNat_zero (w := w)]
  rw [BitVec.toNat_inj, BitVec.sub_eq_iff_eq_add, BitVec.zero_add, eq_comm]

/-- The tail is as many places behind the head as there are entries. -/
theorem tail_eq (q : Queue α w) : q.tail = q.head + BitVec.ofNat w q.count := by
  rw [count, BitVec.ofNat_toNat, BitVec.setWidth_eq, BitVec.add_comm, BitVec.sub_add_cancel]

theorem slot_add (divides : size ∣ 2 ^ w) (counter : BitVec w) (n : Nat) :
    slot size (counter + BitVec.ofNat w n) = (counter.toNat + n) % size := by
  rw [slot, BitVec.toNat_add, BitVec.toNat_ofNat, Nat.mod_mod_of_dvd _ divides, Nat.add_mod,
    Nat.mod_mod_of_dvd _ divides, ← Nat.add_mod]

/-- Places that are less than a round apart have different slots. -/
theorem slot_ne (divides : size ∣ 2 ^ w) (counter : BitVec w) {i j : Nat} (lt : i < j)
    (near : j < i + size) :
    slot size (counter + BitVec.ofNat w i) ≠ slot size (counter + BitVec.ofNat w j) := by
  rw [slot_add divides, slot_add divides]
  intro same
  have divides_gap : size ∣ (counter.toNat + j) - (counter.toNat + i) :=
    Nat.dvd_of_mod_eq_zero (Nat.sub_mod_eq_zero_of_mod_eq same.symm)
  have le := Nat.le_of_dvd (by omega) divides_gap
  omega

theorem count_push {a : α} (more : q.count + 1 < 2 ^ w) : (q.push size a).count = q.count + 1 := by
  show (q.tail + BitVec.ofNat w 1 - q.head).toNat = _
  rw [add_sub_right_comm, BitVec.toNat_add, BitVec.toNat_ofNat, Nat.add_mod_mod]
  exact Nat.mod_eq_of_lt more

theorem count_pop (some_entry : q.head ≠ q.tail) : q.pop.count + 1 = q.count := by
  have pos : q.tail - q.head ≠ 0 := sub_ne_zero.mpr some_entry.symm
  have lt := q.pop.count_lt
  have back : q.tail - q.head = q.tail - (q.head + BitVec.ofNat w 1) + BitVec.ofNat w 1 := by
    rw [← sub_sub, sub_add_cancel]
  by_cases last : q.pop.count + 1 = 2 ^ w
  · -- a counter that wraps would be zero
    apply absurd _ pos
    apply BitVec.eq_of_toNat_eq
    rw [back, BitVec.toNat_add, BitVec.toNat_ofNat, Nat.add_mod_mod]
    show (q.pop.count + 1) % 2 ^ w = _
    rw [last, Nat.mod_self]
    exact BitVec.toNat_zero.symm
  · show _ = (q.tail - q.head).toNat
    rw [back, BitVec.toNat_add, BitVec.toNat_ofNat, Nat.add_mod_mod]
    show _ = (q.pop.count + 1) % 2 ^ w
    rw [Nat.mod_eq_of_lt (by omega)]

/-- **There is room**: the entry comes behind the others. -/
theorem entries_push (divides : size ∣ 2 ^ w) (lt : size < 2 ^ w) {a : α} (room : q.count < size) :
    (q.push size a).entries size = q.entries size ++ [a] := by
  have count : (q.push size a).count = q.count + 1 := count_push (by omega)
  have here : slot size (q.tail + BitVec.ofNat w 0) = slot size (q.head + BitVec.ofNat w q.count) := by
    rw [← tail_eq, BitVec.add_zero]
  rw [entries, count, List.range_succ, List.map_append, List.map_singleton]
  congr 1
  · apply List.map_congr_left
    intro i mem
    have other := slot_ne divides q.head (List.mem_range.mp mem) (by omega)
    rw [← here] at other
    exact Function.update_of_ne other _ _
  · show [Function.update q.slots _ a (slot size (q.head + BitVec.ofNat w q.count))] = _
    rw [← here, Function.update_self]

/-- **The first entry is taken.** -/
theorem entries_pop (some_entry : q.head ≠ q.tail) :
    q.entries size = q.slots (slot size q.head) :: q.pop.entries size := by
  rw [entries, ← count_pop some_entry, List.range_succ_eq_map, List.map_cons, List.map_map]
  congr 1
  · rw [BitVec.add_zero]
  · apply List.map_congr_left
    intro i mem
    show q.slots (slot size _) = q.slots (slot size (q.head + 1 + _))
    rw [Nat.succ_eq_add_one, Nat.add_comm, BitVec.ofNat_add, ← BitVec.add_assoc]
    rfl

/-! ## Several entries at once -/

variable {f : Nat → α}

/-- Entries that are written behind the tail, which stays where it is. -/
def fill (size : Nat) (q : Queue α w) (f : Nat → α) (n : Nat) : Queue α w :=
  (List.range n).foldl (fun q i => q.put size i (f i)) q

def pushAll (size : Nat) (q : Queue α w) (f : Nat → α) (n : Nat) : Queue α w :=
  (List.range n).foldl (fun q i => q.push size (f i)) q

theorem fill_succ (q : Queue α w) (n : Nat) :
    q.fill size f (n + 1) = (q.fill size f n).put size n (f n) := by
  rw [fill, List.range_succ, List.foldl_append]
  rfl

theorem pushAll_succ (q : Queue α w) (n : Nat) :
    q.pushAll size f (n + 1) = (q.pushAll size f n).push size (f n) := by
  rw [pushAll, List.range_succ, List.foldl_append]
  rfl

/-- **To write entries and move the tail once is to push them.** -/
theorem advance_fill (q : Queue α w) (n : Nat) :
    (q.fill size f n).advance n = q.pushAll size f n := by
  induction n with
  | zero => simp [fill, pushAll, advance]
  | succ n ih =>
    rw [pushAll_succ, ← ih, fill_succ]
    simp only [advance, push, put, BitVec.add_zero, BitVec.ofNat_add, BitVec.add_assoc]

theorem count_pushAll {n : Nat} (more : q.count + n < 2 ^ w) :
    (q.pushAll size f n).count = q.count + n := by
  induction n with
  | zero => rfl
  | succ n ih =>
    have before := ih (by omega)
    rw [pushAll_succ, count_push (by omega), before, Nat.add_assoc]

theorem entries_pushAll (divides : size ∣ 2 ^ w) (lt : size < 2 ^ w) {n : Nat}
    (room : q.count + n ≤ size) :
    (q.pushAll size f n).entries size = q.entries size ++ (List.range n).map f := by
  induction n with
  | zero => exact (List.append_nil _).symm
  | succ n ih =>
    have before : (q.pushAll size f n).count = q.count + n := count_pushAll (by omega)
    rw [pushAll_succ, entries_push divides lt (by omega), ih (by omega), List.append_assoc,
      List.range_succ, List.map_append]
    rfl

end Queue

end Circular
