/-
  Ledgers: tokens lying at places, each at most once.

  A ledger maps a place to the token lying there, if any. `Once` says that no
  token lies at two places. A step that relocates tokens (never copying one)
  keeps `Once`: every token of the new ledger is traced back to the place it
  came from, and two places never trace back to one (`Once.relocate`). Dropping
  tokens and putting a fresh one are the two special cases in daily use.
-/
import Mathlib.Logic.Function.Basic
import Mathlib.Tactic.Common

namespace Lib

universe u v

/-- No token lies at two places. -/
def Once {P : Type u} {τ : Type v} (L : P → Option τ) : Prop :=
  ∀ p q k, L p = some k → L q = some k → p = q

variable {P : Type u} {τ : Type v} {L L' : P → Option τ}

/-- Tokens traced back by `f` to distinct places stay unique. -/
theorem Once.relocate (h : Once L) (f : P → P) (hf : ∀ p k, L' p = some k → L (f p) = some k)
    (hinj : ∀ p q k, L' p = some k → L' q = some k → f p = f q → p = q) : Once L' := by
  intro p q k hp hq
  exact hinj p q k hp hq (h (f p) (f q) k (hf p k hp) (hf q k hq))

/-- Dropping tokens keeps the others unique. -/
theorem Once.drop (h : Once L) (hsub : ∀ p k, L' p = some k → L p = some k) : Once L' :=
  h.relocate id hsub fun _ _ _ _ _ e => e

/-- A fresh token may be put anywhere. -/
theorem Once.put (h : Once L) (dst : P) (k₀ : τ) (hfresh : ∀ p, L p ≠ some k₀)
    (hsub : ∀ p k, L' p = some k → (p = dst ∧ k = k₀) ∨ L p = some k) : Once L' := by
  intro p q k hp hq
  rcases hsub p k hp with ⟨rfl, rfl⟩ | hp'
  · rcases hsub q k hq with ⟨rfl, _⟩ | hq'
    · rfl
    · exact absurd hq' (hfresh q)
  · rcases hsub q k hq with ⟨rfl, rfl⟩ | hq'
    · exact absurd hp' (hfresh p)
    · exact h p q k hp' hq'

/-- One token moves from `src` to `dst`; others stay or are dropped. -/
theorem Once.move (h : Once L) (src dst : P)
    (hdst : ∀ k, L' dst = some k → L src = some k)
    (hsub : ∀ p k, p ≠ dst → L' p = some k → p ≠ src ∧ L p = some k) : Once L' := by
  classical
  refine h.relocate (fun p => if p = dst then src else p) ?_ ?_
  · intro p k hp
    by_cases hd : p = dst
    · subst hd
      simpa using hdst k hp
    · simpa [hd] using (hsub p k hd hp).2
  · intro p q k hp hq he
    by_cases hpd : p = dst
    · by_cases hqd : q = dst
      · rw [hpd, hqd]
      · have hq' := (hsub q k hqd hq).1
        simp only [hpd, hqd, if_true, if_false] at he
        exact absurd he.symm hq'
    · have hp' := (hsub p k hpd hp).1
      by_cases hqd : q = dst
      · simp only [hpd, hqd, if_true, if_false] at he
        exact absurd he hp'
      · simpa [hpd, hqd] using he

end Lib
