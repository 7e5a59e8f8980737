/-
  Bounded slot tables: an array of `n` slots, each free or holding an entry.

  `firstFree` and `findUsed` are the two linear searches a C program makes over
  such an array (first unused slot, first used slot with a property), `put` and
  `clear` the two writes. The lemmas say what each search returns and how each
  write reads back, so that later proofs never unfold a search.
-/
import Mathlib.Data.Fintype.Card
import Mathlib.Data.List.FinRange
import Mathlib.Logic.Function.Basic
import Mathlib.Tactic.Common

namespace Lib

universe u

/-- A table of `n` slots. -/
abbrev Slots (n : Nat) (α : Type u) := Fin n → Option α

namespace Slots

variable {n : Nat} {α : Type u}

/-- The table with every slot free. -/
def empty (n : Nat) (α : Type u) : Slots n α := fun _ => none

/-- Index of the first free slot. -/
def firstFree (t : Slots n α) : Option (Fin n) :=
  (List.finRange n).find? fun i => (t i).isNone

/-- Index of the first used slot whose entry satisfies `p`. -/
def findUsed (t : Slots n α) (p : α → Bool) : Option (Fin n) :=
  (List.finRange n).find? fun i => (t i).any p

/-- Fill slot `i`. -/
def put (t : Slots n α) (i : Fin n) (a : α) : Slots n α := Function.update t i (some a)

/-- Free slot `i`. -/
def clear (t : Slots n α) (i : Fin n) : Slots n α := Function.update t i none

@[simp] theorem empty_apply (i : Fin n) : empty n α i = none := rfl

@[simp] theorem put_same (t : Slots n α) (i : Fin n) (a : α) : t.put i a i = some a := by
  simp [put]

theorem put_ne (t : Slots n α) {i j : Fin n} (a : α) (h : j ≠ i) : t.put i a j = t j := by
  simp [put, h]

theorem put_apply (t : Slots n α) (i j : Fin n) (a : α) :
    t.put i a j = if j = i then some a else t j := by
  simp [put, Function.update_apply]

@[simp] theorem clear_same (t : Slots n α) (i : Fin n) : t.clear i i = none := by
  simp [clear]

theorem clear_ne (t : Slots n α) {i j : Fin n} (h : j ≠ i) : t.clear i j = t j := by
  simp [clear, h]

theorem clear_apply (t : Slots n α) (i j : Fin n) :
    t.clear i j = if j = i then none else t j := by
  simp [clear, Function.update_apply]

/-- An entry after filling slot `i` is the new one or was there before. -/
theorem put_some {t : Slots n α} {i j : Fin n} {a b : α} (h : t.put i a j = some b) :
    (j = i ∧ b = a) ∨ t j = some b := by
  rw [put_apply] at h
  split at h
  · next he => exact Or.inl ⟨he, (Option.some.inj h).symm⟩
  · exact Or.inr h

/-- An entry after freeing slot `i` was there before. -/
theorem clear_some {t : Slots n α} {i j : Fin n} {b : α} (h : t.clear i j = some b) :
    t j = some b := by
  rw [clear_apply] at h
  split at h
  · cases h
  · exact h

/-- Filling a free slot and freeing it again changes nothing. -/
theorem clear_put_of_free (t : Slots n α) {i : Fin n} (a : α) (h : t i = none) :
    (t.put i a).clear i = t := by
  funext j
  by_cases hj : j = i
  · rw [hj, clear_same, h]
  · rw [clear_ne _ hj, put_ne _ _ hj]

theorem firstFree_some {t : Slots n α} {i : Fin n} (h : t.firstFree = some i) : t i = none := by
  have := List.find?_some h
  simpa using this

theorem firstFree_none {t : Slots n α} : t.firstFree = none ↔ ∀ i, t i ≠ none := by
  simp [firstFree, List.find?_eq_none]

theorem firstFree_isSome {t : Slots n α} : t.firstFree.isSome ↔ ∃ i, t i = none := by
  rw [Option.isSome_iff_ne_none, ne_eq, firstFree_none]
  push Not
  rfl

theorem findUsed_some {t : Slots n α} {p : α → Bool} {i : Fin n} (h : t.findUsed p = some i) :
    ∃ a, t i = some a ∧ p a = true := by
  have := List.find?_some h
  simpa [Option.any_eq_true] using this

theorem findUsed_none {t : Slots n α} {p : α → Bool} :
    t.findUsed p = none ↔ ∀ i a, t i = some a → p a = false := by
  simp only [findUsed, List.find?_eq_none, List.mem_finRange, forall_true_left,
    Option.any_eq_true, not_exists, not_and, Bool.not_eq_true]

/-- When at most one used entry satisfies `p`, the search finds that one. -/
theorem findUsed_eq {t : Slots n α} {p : α → Bool} {i : Fin n} {a : α} (hi : t i = some a)
    (hp : p a = true) (huniq : ∀ j b, t j = some b → p b = true → j = i) :
    t.findUsed p = some i := by
  cases h : t.findUsed p with
  | none =>
      have := findUsed_none.mp h i a hi
      rw [hp] at this
      cases this
  | some j =>
      obtain ⟨b, hb, hpb⟩ := findUsed_some h
      rw [huniq j b hb hpb]

/-! ## How many are used -/

/-- The number of used slots. -/
def used (t : Slots n α) : Nat := (Finset.univ.filter fun i => (t i).isSome).card

theorem used_le (t : Slots n α) : t.used ≤ n := by
  have h := Finset.card_filter_le Finset.univ fun i => (t i).isSome = true
  rwa [Finset.card_univ, Fintype.card_fin] at h

theorem used_eq_zero {t : Slots n α} : t.used = 0 ↔ ∀ i, t i = none := by
  simp [used, Finset.card_eq_zero, Finset.filter_eq_empty_iff]

theorem used_put {t : Slots n α} {i : Fin n} (a : α) (h : t i = none) :
    (t.put i a).used = t.used + 1 := by
  have hset : (Finset.univ.filter fun j => (t.put i a j).isSome) =
      insert i (Finset.univ.filter fun j => (t j).isSome) := by
    ext j
    by_cases hj : j = i
    · simp [hj]
    · simp [put_ne _ _ hj, hj]
  unfold used
  rw [hset, Finset.card_insert_of_notMem (by simp [h])]

theorem used_clear {t : Slots n α} {i : Fin n} {a : α} (h : t i = some a) :
    (t.clear i).used + 1 = t.used := by
  have hput : (t.clear i).put i a = t := by
    funext j
    by_cases hj : j = i
    · rw [hj, put_same, h]
    · rw [put_ne _ _ hj, clear_ne _ hj]
  rw [← used_put a (clear_same t i), hput]

end Slots

end Lib
