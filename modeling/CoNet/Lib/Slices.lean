import Mathlib.Data.List.Basic

/-!
# Slices of a memory

A memory is a list, a slice of it so many elements from an offset on. `overwrite` writes a list over
a part of the memory. A slice reads back what was written over it, and does not change by a write
elsewhere; cells of one size at multiples of it are apart.
-/

set_option autoImplicit false

namespace Slices

variable {α : Type*} {memory data : List α} {addr off size : Nat}

def slice (memory : List α) (off size : Nat) : List α := (memory.drop off).take size

def overwrite (memory : List α) (addr : Nat) (data : List α) : List α :=
  memory.take addr ++ data ++ memory.drop (addr + data.length)

theorem getElem?_slice (i : Nat) :
    (slice memory off size)[i]? = if i < size then memory[off + i]? else none := by
  simp only [slice, List.getElem?_take, List.getElem?_drop]

/-- A write inside the memory keeps its length. -/
theorem length_overwrite (inside : addr + data.length ≤ memory.length) :
    (overwrite memory addr data).length = memory.length := by
  simp only [overwrite, List.length_append, List.length_take, List.length_drop]
  omega

/-- What was written is read back. -/
theorem slice_overwrite_self (inside : addr + data.length ≤ memory.length) :
    slice (overwrite memory addr data) addr data.length = data := by
  have before : (memory.take addr).length = addr := by
    rw [List.length_take]
    omega
  unfold slice overwrite
  rw [List.append_assoc, List.drop_append_of_le_length (by omega), List.drop_of_length_le (by omega),
    List.nil_append, List.take_append_of_le_length (Nat.le_refl _), List.take_length]

theorem getElem?_overwrite_outside {i : Nat} (inside : addr + data.length ≤ memory.length)
    (outside : i < addr ∨ addr + data.length ≤ i) :
    (overwrite memory addr data)[i]? = memory[i]? := by
  have before : (memory.take addr).length = addr := by
    rw [List.length_take]
    omega
  unfold overwrite
  rcases outside with hi | hi
  · rw [List.append_assoc, List.getElem?_append_left (by omega), List.getElem?_take, if_pos hi]
  · rw [List.getElem?_append_right (by rw [List.length_append]; omega), List.getElem?_drop,
      List.length_append]
    congr 1
    omega

/-- A write elsewhere leaves a slice. -/
theorem slice_overwrite_of_disjoint (inside : addr + data.length ≤ memory.length)
    (disjoint : off + size ≤ addr ∨ addr + data.length ≤ off) :
    slice (overwrite memory addr data) off size = slice memory off size := by
  apply List.ext_getElem?
  intro i
  rw [getElem?_slice, getElem?_slice]
  split
  · exact getElem?_overwrite_outside inside (by omega)
  · rfl

/-- Different cells of one size are apart. -/
theorem cells_disjoint {i j : Nat} (ne : i ≠ j) (size : Nat) :
    i * size + size ≤ j * size ∨ j * size + size ≤ i * size := by
  rcases Nat.lt_or_gt_of_ne ne with h | h
  · exact .inl (by rw [← Nat.succ_mul]; exact Nat.mul_le_mul_right size h)
  · exact .inr (by rw [← Nat.succ_mul]; exact Nat.mul_le_mul_right size h)

/-- A cell of the memory is inside of it. -/
theorem cell_inside {i n : Nat} (h : i < n) (size : Nat) : i * size + size ≤ n * size := by
  rw [← Nat.succ_mul]
  exact Nat.mul_le_mul_right size h

end Slices
