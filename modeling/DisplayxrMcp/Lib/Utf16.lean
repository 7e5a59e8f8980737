/-
  Reading UTF-16.

  `decode` yields the characters of a list of code units, and nothing where a surrogate
  stands alone. It reads back what `utf16` writes (`decode_utf16`).
-/
import DisplayxrMcp.Lib.Rfc8259

namespace Rfc8259

/-- A high surrogate. -/
def IsHigh (u : UInt16) : Prop := 0xD800 ≤ u.toNat ∧ u.toNat ≤ 0xDBFF

/-- A low surrogate. -/
def IsLow (u : UInt16) : Prop := 0xDC00 ≤ u.toNat ∧ u.toNat ≤ 0xDFFF

instance (u : UInt16) : Decidable (IsHigh u) := inferInstanceAs (Decidable (_ ∧ _))

instance (u : UInt16) : Decidable (IsLow u) := inferInstanceAs (Decidable (_ ∧ _))

/-- The code point of a surrogate pair. -/
def pairValue (u v : UInt16) : Nat := 0x10000 + (u.toNat - 0xD800) * 0x400 + (v.toNat - 0xDC00)

/-- The characters that code units stand for. -/
def decode : List UInt16 → Option (List Char)
  | [] => some []
  | u :: us =>
      if IsHigh u then
        match us with
        | [] => none
        | v :: us => if IsLow v then (Char.ofNat (pairValue u v) :: ·) <$> decode us else none
      else if IsLow u then none
      else (Char.ofNat u.toNat :: ·) <$> decode us

theorem decode_single {u : UInt16} (hhigh : ¬ IsHigh u) (hlow : ¬ IsLow u) (us : List UInt16) :
    decode (u :: us) = (Char.ofNat u.toNat :: ·) <$> decode us := by
  conv_lhs => unfold decode
  rw [if_neg hhigh, if_neg hlow]

theorem decode_pair {u v : UInt16} (hhigh : IsHigh u) (hlow : IsLow v) (us : List UInt16) :
    decode (u :: v :: us) = (Char.ofNat (pairValue u v) :: ·) <$> decode us := by
  conv_lhs => unfold decode
  rw [if_pos hhigh]
  dsimp only
  rw [if_pos hlow]

theorem decode_low {u : UInt16} (h : IsLow u) (us : List UInt16) : decode (u :: us) = none := by
  have hhigh : ¬ IsHigh u := fun h' => absurd h'.2 (by have := h.1; omega)
  unfold decode
  rw [if_neg hhigh, if_pos h]

theorem decode_high {u : UInt16} (h : IsHigh u) {us : List UInt16} {cs : List Char}
    (hd : decode (u :: us) = some cs) : ∃ v us', us = v :: us' ∧ IsLow v := by
  unfold decode at hd
  rw [if_pos h] at hd
  cases us with
  | nil => cases hd
  | cons v us =>
      dsimp only at hd
      split at hd
      · next hlow => exact ⟨v, us, rfl, hlow⟩
      · cases hd

theorem utf16_small {c : Char} (h : c.toNat < 0x10000) : utf16 c = [c.toNat.toUInt16] := if_pos h

theorem utf16_large {c : Char} (h : ¬ c.toNat < 0x10000) :
    utf16 c = [(0xD800 + (c.toNat - 0x10000) / 0x400).toUInt16,
      (0xDC00 + (c.toNat - 0x10000) % 0x400).toUInt16] := if_neg h

theorem toNat_toUInt16 {n : Nat} (h : n < 0x10000) : n.toUInt16.toNat = n := by
  rw [Nat.toUInt16_eq, UInt16.toNat_ofNat', Nat.mod_eq_of_lt h]

/-- A character is no surrogate. -/
theorem char_range (c : Char) : c.toNat < 0xD800 ∨ 0xDFFF < c.toNat ∧ c.toNat < 0x110000 := c.valid

/-- The first code unit of a character is no low surrogate. -/
theorem utf16_head (c : Char) : ∃ u us, utf16 c = u :: us ∧ ¬ IsLow u := by
  have hc := char_range c
  by_cases h : c.toNat < 0x10000
  · refine ⟨_, _, utf16_small h, fun hlow => ?_⟩
    unfold IsLow at hlow
    rw [toNat_toUInt16 h] at hlow
    omega
  · refine ⟨_, _, utf16_large h, fun hlow => ?_⟩
    unfold IsLow at hlow
    rw [toNat_toUInt16 (by omega)] at hlow
    omega

theorem decode_utf16 (c : Char) (us : List UInt16) :
    decode (utf16 c ++ us) = (c :: ·) <$> decode us := by
  have hc := char_range c
  by_cases h : c.toNat < 0x10000
  · have hvalue := toNat_toUInt16 h
    rw [utf16_small h, List.singleton_append, decode_single, hvalue, Char.ofNat_toNat]
    · unfold IsHigh
      omega
    · unfold IsLow
      omega
  · have hu : (0xD800 + (c.toNat - 0x10000) / 0x400).toUInt16.toNat =
        0xD800 + (c.toNat - 0x10000) / 0x400 := toNat_toUInt16 (by omega)
    have hv : (0xDC00 + (c.toNat - 0x10000) % 0x400).toUInt16.toNat =
        0xDC00 + (c.toNat - 0x10000) % 0x400 := toNat_toUInt16 (by omega)
    have hvalue : pairValue (0xD800 + (c.toNat - 0x10000) / 0x400).toUInt16
        (0xDC00 + (c.toNat - 0x10000) % 0x400).toUInt16 = c.toNat := by
      unfold pairValue
      omega
    rw [utf16_large h, List.cons_append, List.singleton_append, decode_pair, hvalue,
      Char.ofNat_toNat]
    · unfold IsHigh
      omega
    · unfold IsLow
      omega

end Rfc8259
