/-
  `strtol` in base 10.

  The width of `long` is a parameter: a number that does not fit becomes the nearest one
  that does. `strtol_some` takes a string apart the way a successful conversion does;
  `strtol_none` says what keeps the conversion from starting.
-/
import DisplayxrMcp.Lib.Decimal
import Mathlib.Data.List.TakeWhile
import Mathlib.Algebra.Order.Group.Int

namespace Lib

/-- The byte `-`. -/
abbrev minus : UInt8 := 45

/-- The byte `+`. -/
abbrev plus : UInt8 := 43

/-- The nearest `long` of `w` bits. -/
def saturate (w : Nat) (v : ℤ) : ℤ := max (-2 ^ (w - 1)) (min (2 ^ (w - 1) - 1) v)

/-- `strtol(s, &end, 10)`: the number and what stands from `end` on, `none` when there is no
    number and `end` is `s`. -/
def strtol (w : Nat) (s : CStr) : Option (ℤ × CStr) :=
  let signed := takeSign (s.dropWhile isSpace)
  let ds := signed.2.takeWhile isDigit
  if ds = [] then none
  else some (saturate w (if signed.1 then -digitsValue ds else digitsValue ds),
    signed.2.dropWhile isDigit)

/-- What `takeSign` takes off is empty, a `+` or a `-`. -/
theorem takeSign_cases (s : CStr) :
    (∃ t, s = minus :: t ∧ takeSign s = (true, t)) ∨
      (∃ t, s = plus :: t ∧ takeSign s = (false, t)) ∨
      (s.head? ≠ some minus ∧ s.head? ≠ some plus ∧ takeSign s = (false, s)) := by
  unfold takeSign
  split
  · next t => exact Or.inl ⟨t, rfl, rfl⟩
  · next t => exact Or.inr (Or.inl ⟨t, rfl, rfl⟩)
  · next hminus hplus =>
      refine Or.inr (Or.inr ⟨?_, ?_, rfl⟩)
      · intro h
        obtain ⟨t, rfl⟩ := List.head?_eq_some_iff.mp h
        exact hminus t rfl
      · intro h
        obtain ⟨t, rfl⟩ := List.head?_eq_some_iff.mp h
        exact hplus t rfl

theorem head?_dropWhile_not {p : UInt8 → Bool} {s : CStr} :
    ∀ c ∈ (s.dropWhile p).head?, p c = false := by
  intro c hc
  have h := List.head?_dropWhile_not p s
  rw [hc] at h
  exact h

/-- White space, a sign, digits, and something that is no digit. -/
structure Scanned (s sp sign ds rest : CStr) : Prop where
  eq : s = sp ++ (sign ++ (ds ++ rest))
  space : ∀ c ∈ sp, isSpace c = true
  signs : sign = [] ∨ sign = [plus] ∨ sign = [minus]
  ne_nil : ds ≠ []
  digits : ∀ c ∈ ds, isDigit c = true
  stop : ∀ c ∈ rest.head?, isDigit c = false

theorem Scanned.length_lt {s sp sign ds rest : CStr} (h : Scanned s sp sign ds rest) :
    rest.length < s.length := by
  have hpos := List.length_pos_iff.mpr h.ne_nil
  rw [h.eq, List.length_append, List.length_append, List.length_append]
  omega

theorem strtol_some {w : Nat} {s rest : CStr} {v : ℤ} (h : strtol w s = some (v, rest)) :
    ∃ sp sign ds, Scanned s sp sign ds rest ∧
      v = saturate w (if sign = [minus] then -digitsValue ds else digitsValue ds) := by
  unfold strtol at h
  dsimp only at h
  split at h
  · cases h
  · next hne =>
      have hspace : ∀ c ∈ s.takeWhile isSpace, isSpace c = true :=
        fun c hc => List.mem_takeWhile_imp hc
      have hsplit : s.takeWhile isSpace ++ s.dropWhile isSpace = s := List.takeWhile_append_dropWhile
      rcases takeSign_cases (s.dropWhile isSpace) with ⟨t, ht, hsign⟩ | ⟨t, ht, hsign⟩ |
        ⟨-, -, hsign⟩
      · rw [hsign] at h hne
        cases h
        refine ⟨s.takeWhile isSpace, [minus], t.takeWhile isDigit, ⟨?_, hspace, Or.inr (Or.inr rfl),
          hne, fun c hc => List.mem_takeWhile_imp hc, head?_dropWhile_not⟩, rfl⟩
        rw [List.takeWhile_append_dropWhile, List.singleton_append, ← ht, hsplit]
      · rw [hsign] at h hne
        cases h
        refine ⟨s.takeWhile isSpace, [plus], t.takeWhile isDigit, ⟨?_, hspace, Or.inr (Or.inl rfl),
          hne, fun c hc => List.mem_takeWhile_imp hc, head?_dropWhile_not⟩, rfl⟩
        rw [List.takeWhile_append_dropWhile, List.singleton_append, ← ht, hsplit]
      · rw [hsign] at h hne
        cases h
        refine ⟨s.takeWhile isSpace, [], (s.dropWhile isSpace).takeWhile isDigit, ⟨?_, hspace,
          Or.inl rfl, hne, fun c hc => List.mem_takeWhile_imp hc, head?_dropWhile_not⟩, rfl⟩
        rw [List.takeWhile_append_dropWhile, List.nil_append, hsplit]

/-- A sign is no white space and is taken off; without one there is a digit. -/
theorem Scanned.signed {s sp sign ds rest : CStr} (h : Scanned s sp sign ds rest) :
    s.dropWhile isSpace = sign ++ (ds ++ rest) ∧
      takeSign (sign ++ (ds ++ rest)) = (decide (sign = [minus]), ds ++ rest) := by
  obtain ⟨d, ds', hd⟩ := List.exists_cons_of_ne_nil h.ne_nil
  have hdig : isDigit d = true := h.digits d (hd ▸ List.mem_cons_self)
  obtain ⟨hspace, hminus, hplus⟩ := not_isSpace_of_isDigit hdig
  rw [h.eq, List.dropWhile_append_of_pos h.space]
  rcases h.signs with hs | hs | hs
  · rw [hs, hd, List.nil_append, List.cons_append, List.dropWhile_cons, hspace,
      if_neg Bool.false_ne_true]
    refine ⟨rfl, ?_⟩
    rcases takeSign_cases (d :: (ds' ++ rest)) with ⟨t, ht, -⟩ | ⟨t, ht, -⟩ | ⟨-, -, hsign⟩
    · exact absurd (List.cons.inj ht).1 hminus
    · exact absurd (List.cons.inj ht).1 hplus
    · exact hsign
  · rw [hs]
    exact ⟨rfl, rfl⟩
  · rw [hs]
    exact ⟨rfl, rfl⟩

theorem strtol_scanned {s sp sign ds rest : CStr} (h : Scanned s sp sign ds rest) (w : Nat) :
    strtol w s =
      some (saturate w (if sign = [minus] then -digitsValue ds else digitsValue ds), rest) := by
  obtain ⟨hdrop, hsign⟩ := h.signed
  unfold strtol
  simp only [hdrop, hsign, takeWhile_isDigit_append h.digits h.stop,
    dropWhile_isDigit_append h.digits h.stop, if_neg h.ne_nil, decide_eq_true_eq]

theorem takeWhile_isDigit_ne_nil {c : UInt8} (h : isDigit c = true) (s : CStr) :
    (c :: s).takeWhile isDigit ≠ [] := by
  rw [List.takeWhile_cons, if_pos h]
  exact List.cons_ne_nil _ _

/-- No number at the start: no digit there, and no digit behind a minus there. -/
theorem strtol_none {w : Nat} {c : UInt8} {s : CStr} (h : strtol w (c :: s) = none) :
    isDigit c = false ∧ (c = minus → ∀ d ∈ s.head?, isDigit d = false) := by
  have hnil : (takeSign ((c :: s).dropWhile isSpace)).2.takeWhile isDigit = [] := by
    unfold strtol at h
    dsimp only at h
    split at h
    · assumption
    · cases h
  constructor
  · rw [Bool.eq_false_iff]
    intro hc
    obtain ⟨hspace, hminus, hplus⟩ := not_isSpace_of_isDigit hc
    rw [List.dropWhile_cons, hspace, if_neg Bool.false_ne_true] at hnil
    rcases takeSign_cases (c :: s) with ⟨t, ht, -⟩ | ⟨t, ht, -⟩ | ⟨-, -, hsign⟩
    · exact hminus (List.cons.inj ht).1
    · exact hplus (List.cons.inj ht).1
    · rw [hsign] at hnil
      exact takeWhile_isDigit_ne_nil hc s hnil
  · rintro rfl d hd
    rw [Bool.eq_false_iff]
    intro hdig
    obtain ⟨t, rfl⟩ := List.head?_eq_some_iff.mp hd
    have hspace : isSpace minus = false := by decide
    rw [List.dropWhile_cons, hspace, if_neg Bool.false_ne_true] at hnil
    exact takeWhile_isDigit_ne_nil hdig t hnil

end Lib
