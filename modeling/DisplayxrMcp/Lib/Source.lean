/-
  A byte source that delivers its input in pieces of its own choosing.

  `sizes k` is what the read that finds `k` items left would deliver; the buffer
  offered may allow less. `k` falls with every read, so each read has a size of
  its own, and every way to cut the input is some `sizes`.
-/
import Mathlib.Data.List.Basic
import Mathlib.Tactic.Common

namespace Lib

/-- The input not read yet, and the sizes of the reads to come. -/
structure Source (α : Type) where
  rest : List α
  sizes : Nat → Nat

namespace Source

variable {α : Type}

/-- A read into a buffer of `cap` items; it delivers nothing only at the end of the input. -/
def read (s : Source α) (cap : Nat) : List α × Source α :=
  let n := min (max 1 (s.sizes s.rest.length)) cap
  (s.rest.take n, { s with rest := s.rest.drop n })

theorem read_append (s : Source α) (cap : Nat) : (s.read cap).1 ++ (s.read cap).2.rest = s.rest :=
  List.take_append_drop _ _

@[simp] theorem read_sizes (s : Source α) (cap : Nat) : (s.read cap).2.sizes = s.sizes := rfl

theorem read_length_le (s : Source α) (cap : Nat) : (s.read cap).1.length ≤ cap := by
  simp only [read, List.length_take]
  omega

theorem read_eq_nil_iff (s : Source α) {cap : Nat} (hcap : 0 < cap) :
    (s.read cap).1 = [] ↔ s.rest = [] := by
  have hn : min (max 1 (s.sizes s.rest.length)) cap ≠ 0 := by omega
  simp only [read, List.take_eq_nil_iff, hn, false_or]

theorem read_rest_lt (s : Source α) {cap : Nat} (h : (s.read cap).1 ≠ []) :
    (s.read cap).2.rest.length < s.rest.length := by
  have hlen := congrArg List.length (s.read_append cap)
  have hpos := List.length_pos_of_ne_nil h
  rw [List.length_append] at hlen
  omega

theorem read_rest_nil (s : Source α) {cap : Nat} (h : s.rest = []) :
    (s.read cap).2.rest = [] := by
  simp [read, h]

/-- Read until `n` items have come, or the input ends. -/
def readFull (s : Source α) (n : Nat) : Option (List α × Source α) :=
  if n = 0 then some ([], s)
  else
    if _h : (s.read n).1 = [] then none
    else ((s.read n).2.readFull (n - (s.read n).1.length)).map fun p => ((s.read n).1 ++ p.1, p.2)
termination_by s.rest.length
decreasing_by exact s.read_rest_lt _h

/-- However it is cut, `n` items arrive if and only if that many are left. -/
theorem readFull_eq (s : Source α) (n : Nat) :
    s.readFull n =
      if n ≤ s.rest.length then some (s.rest.take n, { s with rest := s.rest.drop n }) else none := by
  fun_induction readFull s n with
  | case1 s => simp
  | case2 s n hn h =>
      rw [read_eq_nil_iff s (by omega)] at h
      simp [h, hn]
  | case3 s n hn h ih =>
      have happ := s.read_append n
      have hle := s.read_length_le n
      rw [ih, ← happ, List.length_append]
      split
      · next hm =>
          rw [if_pos (by omega), Option.map_some, List.take_append, List.drop_append,
            List.take_of_length_le hle, List.drop_of_length_le hle]
          rfl
      · next hm =>
          rw [if_neg (by omega), Option.map_none]

end Source

end Lib
