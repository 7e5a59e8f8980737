/-
  A ring of `n` slots that keeps the last `n` values of a sequence.

  Value `k` of the sequence is written to slot `k % n`. `Window` says which of
  the values are still there: those that fewer than `n` later ones have followed.
-/
import Mathlib.Logic.Function.Basic
import Mathlib.Data.Fin.Basic
import Mathlib.Tactic.Common

namespace Lib.Ring

universe u

variable {α : Type u} {n : Nat}

/-- The slot of value `k`. -/
def slot (n : Nat) (k : Nat) (hn : 0 < n) : Fin n := ⟨k % n, Nat.mod_lt _ hn⟩

/-- The values of `v` from `first` on and below `next` that the ring still holds. -/
def Window (ring : Fin n → α) (hn : 0 < n) (v : Nat → α) (first next : Nat) : Prop :=
  ∀ k, first ≤ k → k < next → next ≤ k + n → ring (slot n k hn) = v k

/-- Two values less than `n` apart have different slots. -/
theorem slot_ne (hn : 0 < n) {j k : Nat} (hlt : j < k) (hk : k < j + n) :
    slot n j hn ≠ slot n k hn := by
  intro h
  have hmod : j % n = k % n := congrArg Fin.val h
  have hdvd : n ∣ k - j := Nat.dvd_of_mod_eq_zero (Nat.sub_mod_eq_zero_of_mod_eq hmod.symm)
  have hle := Nat.le_of_dvd (by omega) hdvd
  omega

theorem Window.empty (ring : Fin n → α) (hn : 0 < n) (v : Nat → α) (first : Nat) :
    Window ring hn v first first := by
  intro k hk hlt
  omega

/-- Writing the next value moves the window on by one. -/
theorem Window.push {ring : Fin n → α} {hn : 0 < n} {v : Nat → α} {first next : Nat}
    (h : Window ring hn v first next) (a : α) (ha : a = v next) :
    Window (Function.update ring (slot n next hn) a) hn v first (next + 1) := by
  intro k hk hlt hle
  by_cases he : k = next
  · subst he
    rw [Function.update_self, ha]
  · have hne := slot_ne hn (show k < next by omega) (show next < k + n by omega)
    rw [Function.update_of_ne hne]
    exact h k hk (by omega) (by omega)

theorem Window.congr {ring : Fin n → α} {hn : 0 < n} {v w : Nat → α} {first next : Nat}
    (h : Window ring hn v first next) (hvw : ∀ k, first ≤ k → k < next → v k = w k) :
    Window ring hn w first next := by
  intro k hk hlt hle
  rw [← hvw k hk hlt]
  exact h k hk hlt hle

end Lib.Ring
