/-
  A buffer as cells numbered from 0.

  A cell always holds something, whether it was written or not, so memory that was
  never written, and memory behind the buffer, is there to be read. `slice` is what
  a stretch of cells holds; the lemmas say what `memmove` and a write leave in it.
-/
import Mathlib.Data.List.Basic
import Mathlib.Tactic.Common

namespace Lib.Cells

variable {α : Type}

/-- The `n` cells from `i` on. -/
def slice (m : Nat → α) (i n : Nat) : List α := (List.range' i n).map m

/-- `memmove` of `n` cells from `src` to `dst`. -/
def memmove (m : Nat → α) (dst src n : Nat) (j : Nat) : α :=
  if dst ≤ j ∧ j < dst + n then m (src + (j - dst)) else m j

/-- `xs` is written from cell `i` on. -/
def write (m : Nat → α) (i : Nat) (xs : List α) (j : Nat) : α :=
  if i ≤ j then xs[j - i]?.getD (m j) else m j

@[simp] theorem length_slice (m : Nat → α) (i n : Nat) : (slice m i n).length = n := by
  simp [slice]

@[simp] theorem slice_zero (m : Nat → α) (i : Nat) : slice m i 0 = [] := rfl

theorem slice_succ (m : Nat → α) (i n : Nat) : slice m i (n + 1) = m i :: slice m (i + 1) n := rfl

theorem slice_add (m : Nat → α) (i a b : Nat) :
    slice m i (a + b) = slice m i a ++ slice m (i + a) b := by
  unfold slice
  rw [← List.map_append, List.range'_append_1]

theorem getElem?_slice (m : Nat → α) {i n j : Nat} (h : j < n) :
    (slice m i n)[j]? = some (m (i + j)) := by
  simp [slice, h]

theorem drop_slice (m : Nat → α) {i n j : Nat} (h : j ≤ n) :
    (slice m i n).drop j = slice m (i + j) (n - j) := by
  obtain ⟨d, rfl⟩ := Nat.exists_eq_add_of_le h
  rw [slice_add, List.drop_left' (length_slice m i j), Nat.add_sub_cancel_left]

theorem slice_congr {m m' : Nat → α} {i n : Nat} (h : ∀ j, i ≤ j → j < i + n → m j = m' j) :
    slice m i n = slice m' i n := by
  unfold slice
  refine List.map_congr_left fun j hj => ?_
  obtain ⟨hle, hlt⟩ := List.mem_range'_1.mp hj
  exact h j hle hlt

/-- The cells that were moved hold what the others held, even where the two overlap. -/
theorem slice_memmove (m : Nat → α) (dst src n : Nat) :
    slice (memmove m dst src n) dst n = slice m src n := by
  refine List.ext_getElem? fun j => ?_
  by_cases hj : j < n
  · rw [getElem?_slice _ hj, getElem?_slice _ hj, memmove, if_pos ⟨by omega, by omega⟩,
      Nat.add_sub_cancel_left]
  · rw [List.getElem?_eq_none (by simp; omega), List.getElem?_eq_none (by simp; omega)]

theorem slice_write (m : Nat → α) (i : Nat) (xs : List α) :
    slice (write m i xs) i xs.length = xs := by
  refine List.ext_getElem? fun j => ?_
  by_cases hj : j < xs.length
  · rw [getElem?_slice _ hj, write, if_pos (Nat.le_add_right i j), Nat.add_sub_cancel_left,
      List.getElem?_eq_getElem hj, Option.getD_some]
  · rw [List.getElem?_eq_none (by simp; omega), List.getElem?_eq_none (by omega)]

/-- What stands before a write stays. -/
theorem slice_write_of_le (m : Nat → α) {i n j : Nat} (xs : List α) (h : i + n ≤ j) :
    slice (write m j xs) i n = slice m i n := by
  refine slice_congr fun k _ hk => ?_
  rw [write, if_neg (by omega)]

/-- What is written behind a stretch makes it longer. -/
theorem slice_write_append (m : Nat → α) (i n : Nat) (xs : List α) :
    slice (write m (i + n) xs) i (n + xs.length) = slice m i n ++ xs := by
  rw [slice_add, slice_write_of_le m xs (Nat.le_refl _), slice_write]

/-- Two writes, one behind the other, are one. -/
theorem write_append (m : Nat → α) (i : Nat) (xs ys : List α) :
    write (write m i xs) (i + xs.length) ys = write m i (xs ++ ys) := by
  ext j
  unfold write
  rcases Nat.lt_or_ge j (i + xs.length) with hlt | hge
  · rw [if_neg (by omega)]
    split
    · rw [List.getElem?_append_left (by omega)]
    · rfl
  · rw [if_pos hge, if_pos (by omega), if_pos (by omega), List.getElem?_append_right (by omega),
      List.getElem?_eq_none (show xs.length ≤ j - i by omega), Nat.sub_add_eq]
    rfl

end Lib.Cells
