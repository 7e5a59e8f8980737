/-
  Where the iterates of a function lead.

  `Until f Q P s`: going on from `s` by `f`, a state with `P` is reached, and all
  states before it have `Q`. A program cut into steps is followed by it loop by loop:
  what one loop leads to is where the next one starts (`Until.trans`).
-/
import Mathlib.Logic.Function.Iterate

namespace Lib

variable {α : Type} {f : α → α} {Q P P' : α → Prop} {s : α}

/-- From `s`, by `f`, through states with `Q`, a state with `P` is reached. -/
inductive Until (f : α → α) (Q P : α → Prop) : α → Prop where
  | here {s : α} : P s → Until f Q P s
  | next {s : α} : Q s → Until f Q P (f s) → Until f Q P s

namespace Until

theorem trans (h : Until f Q P s) (hP : ∀ t, P t → Until f Q P' t) : Until f Q P' s := by
  induction h with
  | here hs => exact hP _ hs
  | next hq _ ih => exact .next hq ih

theorem mono (h : Until f Q P s) (hP : ∀ t, P t → P' t) : Until f Q P' s :=
  h.trans fun t ht => .here (hP t ht)

/-- The number of steps. -/
theorem exists_iterate (h : Until f Q P s) : ∃ n, (∀ k < n, Q (f^[k] s)) ∧ P (f^[n] s) := by
  induction h with
  | here hs => exact ⟨0, fun k hk => absurd hk (Nat.not_lt_zero k), hs⟩
  | next hq _ ih =>
      obtain ⟨n, hbefore, hn⟩ := ih
      refine ⟨n + 1, fun k hk => ?_, hn⟩
      cases k with
      | zero => exact hq
      | succ k => exact hbefore k (Nat.lt_of_succ_lt_succ hk)

end Until

end Lib
