/-
  cJSON number text: `print_number` and `parse_number`.

  `numberBuffer` is what `print_number` leaves in its 26 bytes; `length_numberBuffer`:
  it fits there for every double, so that `sprintf` stays inside. `parseNumber` copies
  up to 63 bytes and gives them to `strtod`: a number of RFC 8259 of that length is
  read whole (`parseNumber_number`), and so is every printed number, as the double
  that `Cjson.reparse` says (`parseNumber_numberBuffer`).
-/
import DisplayxrMcp.Lib.Decfloat
import DisplayxrMcp.Cjson.Number

namespace Cjson

open Lib Rfc8259

/-- How a call ends without a result: it returns `false`, or it reads or writes outside its
    memory. -/
inductive Halt where
  | fail
  | fault
  deriving DecidableEq

abbrev Returns (α : Type) := Except Halt α

namespace Returns

variable {α β : Type} {x : Returns α} {f : α → Returns β}

theorem ok_bind (a : α) : (Except.ok a : Returns α) >>= f = f a := rfl

theorem bind_ok {b : β} (h : x >>= f = .ok b) : ∃ a, x = .ok a ∧ f a = .ok b := by
  cases x with
  | error e => cases h
  | ok a => exact ⟨a, rfl, h⟩

theorem bind_safe (hx : x ≠ .error .fault) (hf : ∀ a, x = .ok a → f a ≠ .error .fault) :
    x >>= f ≠ .error .fault := by
  intro h
  cases x with
  | error e =>
      cases e with
      | fail => cases h
      | fault => exact hx rfl
  | ok a => exact hf a rfl h

end Returns

/-! ## print_number -/

/-- `strtod`. -/
def strtod (s : CStr) : Option (Dbl × CStr) := (scanFloat s).map fun r => (toDouble r.1, r.2)

/-- The digits that a precision of `k` keeps: `m * 10 ^ e`. -/
def keptDigits (k : Nat) (q : ℚ) : Nat × ℤ :=
  let e := lead 10 q - (k - 1 : ℤ)
  (if 0 < e then roundDiv q.num.natAbs (q.den * 10 ^ e.toNat)
    else roundDiv (q.num.natAbs * 10 ^ (-e).toNat) q.den, e)

/-- `sprintf("%1.kg", d)`. -/
def sprintfG (k : Nat) (q : ℚ) : CStr :=
  bytes (formatG k (decide (q.num < 0)) (keptDigits k q).1 (keptDigits k q).2)

/-- `number_buffer` in `print_number`. -/
def numberBuffer : Dbl → CStr
  | .inf _ => ascii "null"
  | .fin q =>
      if q.den = 1 ∧ -2147483648 ≤ q.num ∧ q.num ≤ 2147483647 then bytes (formatD q.num)
      else
        match strtod (sprintfG 15 q) with
        | none => sprintfG 17 q
        | some (test, _) => if compareDouble test q then sprintfG 15 q else sprintfG 17 q

/-! ## parse_number -/

/-- A byte that `parse_number` copies. -/
def isNumberByte (c : UInt8) : Bool :=
  isDigit c || c == 43 || c == 45 || c == 101 || c == 69 || c == 46

/-- `number_c_string`: 63 bytes and a NUL. -/
def numberCString (s : CStr) : CStr := (s.take 63).takeWhile isNumberByte

/-- `parse_number`, on what is left of the content. -/
def parseNumber (s : CStr) : Returns (Dbl × CStr) :=
  match strtod (numberCString s) with
  | none => throw .fail
  | some (number, afterEnd) => pure (number, s.drop ((numberCString s).length - afterEnd.length))

/-! ## What is printed -/

/-- Rounding yields a whole multiple of `B ^ e`. -/
theorem roundAt_eq {B : Nat} (hB : 0 < B) (e : ℤ) (q : ℚ) :
    ∃ m : Nat, m = (if 0 < e then roundDiv q.num.natAbs (q.den * B ^ e.toNat)
        else roundDiv (q.num.natAbs * B ^ (-e).toNat) q.den) ∧
      roundAt B e q = if q.num < 0 then -((m : ℚ) * (B : ℚ) ^ e) else (m : ℚ) * (B : ℚ) ^ e := by
  refine ⟨_, rfl, ?_⟩
  have hBq : (B : ℚ) ≠ 0 := by exact_mod_cast hB.ne'
  have hround : roundAt B e q = if q.num < 0 then -_ else _ := rfl
  rw [hround]
  by_cases he : 0 < e
  · obtain ⟨n, rfl⟩ := Int.eq_ofNat_of_zero_le (Int.le_of_lt he)
    rw [if_pos he, if_pos he, Int.toNat_natCast, Rat.mkRat_eq_div, zpow_natCast]
    push_cast
    rw [div_one]
  · obtain ⟨n, rfl⟩ : ∃ n : Nat, e = -n := ⟨(-e).toNat, by omega⟩
    rw [if_neg he, if_neg he, neg_neg, Int.toNat_natCast, Rat.mkRat_eq_div, zpow_neg, zpow_natCast]
    push_cast
    rw [div_eq_mul_inv]

theorem sigDigits_keptDigits (k : Nat) (q : ℚ) :
    sigDigits 10 k q =
      if q.num < 0 then -(((keptDigits k q).1 : ℚ) * 10 ^ (keptDigits k q).2)
      else ((keptDigits k q).1 : ℚ) * 10 ^ (keptDigits k q).2 := by
  obtain ⟨m, hm, hround⟩ := roundAt_eq (by decide : 0 < 10) (lead 10 q - (k - 1 : ℤ)) q
  have hkept : keptDigits k q = (m, lead 10 q - (k - 1 : ℤ)) := by
    rw [hm]
    rfl
  rw [hkept]
  exact hround

theorem sprintfG_number (k : Nat) (q : ℚ) :
    ∃ cs, sprintfG k q = bytes cs ∧ IsNumber cs (sigDigits 10 k q) := by
  refine ⟨_, rfl, ?_⟩
  rw [sigDigits_keptDigits]
  have h := formatG_number k (decide (q.num < 0)) (keptDigits k q).1 (keptDigits k q).2
  simp only [decide_eq_true_eq] at h
  exact h

/-- It is read back as the double nearest to the digits that are kept. -/
theorem strtod_sprintfG (k : Nat) (q : ℚ) :
    strtod (sprintfG k q) = some (toDouble (sigDigits 10 k q), []) := by
  obtain ⟨cs, hcs, hnum⟩ := sprintfG_number k q
  have h := scanFloat_number hnum ends_nil
  rw [List.append_nil, ← hcs] at h
  unfold strtod
  rw [h]
  rfl

/-- The text of a finite number is a number of RFC 8259, of value `printNumber`. -/
theorem numberBuffer_number (q : ℚ) :
    ∃ cs, numberBuffer (.fin q) = bytes cs ∧ IsNumber cs (printNumber q) := by
  simp only [numberBuffer, printNumber, strtod_sprintfG]
  split
  · next hint =>
      refine ⟨_, rfl, ?_⟩
      have h := formatD_number q.num
      rwa [Rat.coe_int_num_of_den_eq_one hint.1] at h
  · split
    · exact sprintfG_number 15 q
    · exact sprintfG_number 17 q

/-! ## It fits its buffer -/

/-- Zero, or of a size that a double can have. -/
def InRange (q : ℚ) : Prop := q = 0 ∨ (2 ^ 1074 : ℚ)⁻¹ ≤ |q| ∧ |q| < 2 ^ 1024

def Dbl.InRange : Dbl → Prop
  | .fin q => Cjson.InRange q
  | .inf _ => True

theorem le_leadPos {B : Nat} (hB : 1 < B) : ∀ (fuel n : Nat), n < B ^ fuel → 0 < n →
    B ^ leadPos B fuel n ≤ n ∧ n < B ^ (leadPos B fuel n + 1)
  | 0, n, hn, hpos => by simp at hn; omega
  | fuel + 1, n, hn, hpos => by
      unfold leadPos
      split
      · next hlt => simpa using ⟨hpos, hlt⟩
      · next hge =>
          have hdiv : n / B < B ^ fuel := by
            rw [Nat.div_lt_iff_lt_mul (by omega), ← Nat.pow_succ]
            exact hn
          obtain ⟨hlo, hhi⟩ := le_leadPos hB fuel (n / B) hdiv
            (Nat.div_pos (Nat.le_of_not_lt hge) (by omega))
          refine ⟨?_, ?_⟩
          · rw [Nat.pow_succ]
            exact (Nat.le_div_iff_mul_le (by omega)).mp hlo
          · rw [Nat.pow_succ]
            exact (Nat.div_lt_iff_lt_mul (by omega)).mp hhi

theorem ceilPos_le {B : Nat} (hB : 1 < B) : ∀ (fuel n : Nat), n ≤ B ^ fuel → 0 < n →
    n ≤ B ^ ceilPos B fuel n ∧ ∀ j, n ≤ B ^ j → ceilPos B fuel n ≤ j
  | 0, n, hn, hpos => by
      refine ⟨hn, fun j _ => Nat.zero_le j⟩
  | fuel + 1, n, hn, hpos => by
      unfold ceilPos
      split
      · next hle => exact ⟨by simpa using hle, fun j _ => Nat.zero_le j⟩
      · next hgt =>
          have hceil : ∀ j, n ≤ B ^ (j + 1) ↔ (n + B - 1) / B ≤ B ^ j := by
            intro j
            rw [Nat.pow_succ, ← Nat.lt_add_one_iff (m := (n + B - 1) / B),
              Nat.div_lt_iff_lt_mul (by omega), Nat.succ_mul]
            omega
          have hpos' : 0 < (n + B - 1) / B := Nat.div_pos (by omega) (by omega)
          obtain ⟨hle, hmin⟩ := ceilPos_le hB fuel _ ((hceil fuel).mp hn) hpos'
          refine ⟨(hceil _).mpr hle, fun j hj => ?_⟩
          obtain ⟨i, rfl⟩ : ∃ i, j = i + 1 := ⟨j - 1, by
            rcases Nat.eq_zero_or_pos j with rfl | h
            · simp at hj
              omega
            · omega⟩
          exact Nat.succ_le_succ (hmin i ((hceil i).mp hj))

/-- The exponent of the leading digit, for a number of a size that the fuel covers. -/
theorem lead_spec {B : Nat} (hB : 1 < B) {q : ℚ} (hq : q ≠ 0)
    (hlo : ((B : ℚ) ^ digitFuel)⁻¹ ≤ |q|) (hhi : |q| < (B : ℚ) ^ digitFuel) :
    (B : ℚ) ^ lead B q ≤ |q| ∧ |q| < (B : ℚ) ^ (lead B q + 1) := by
  have hBq : (0 : ℚ) < B := by exact_mod_cast (by omega : 0 < B)
  have hb : 0 < q.den := q.den_pos
  have hbq : (0 : ℚ) < q.den := by exact_mod_cast hb
  have ha : 0 < q.num.natAbs := Int.natAbs_pos.mpr (Rat.num_ne_zero.mpr hq)
  have haq : (0 : ℚ) < q.num.natAbs := by exact_mod_cast ha
  rw [abs_eq_div] at hlo hhi ⊢
  rw [div_lt_iff₀ hbq] at hhi
  rw [inv_le_iff_one_le_mul₀ (by positivity), div_mul_eq_mul_div, one_le_div hbq] at hlo
  unfold lead
  dsimp only
  split
  · next hab =>
      have hn : q.num.natAbs / q.den < B ^ digitFuel := by
        rw [Nat.div_lt_iff_lt_mul hb]
        exact_mod_cast hhi
      obtain ⟨h1, h2⟩ := le_leadPos hB _ _ hn (Nat.div_pos hab hb)
      rw [Nat.le_div_iff_mul_le hb] at h1
      rw [Nat.div_lt_iff_lt_mul hb] at h2
      rw [le_div_iff₀ hbq, div_lt_iff₀ hbq, zpow_natCast]
      exact ⟨by exact_mod_cast h1, by exact_mod_cast h2⟩
  · next hab =>
      have hceil : ∀ j, (q.den + q.num.natAbs - 1) / q.num.natAbs ≤ B ^ j ↔
          q.den ≤ B ^ j * q.num.natAbs := by
        intro j
        rw [← Nat.lt_add_one_iff (m := (q.den + q.num.natAbs - 1) / q.num.natAbs),
          Nat.div_lt_iff_lt_mul ha, Nat.succ_mul]
        omega
      have hn : (q.den + q.num.natAbs - 1) / q.num.natAbs ≤ B ^ digitFuel := by
        rw [hceil, Nat.mul_comm]
        exact_mod_cast hlo
      obtain ⟨h1, h2⟩ := ceilPos_le hB _ _ hn (Nat.div_pos (by omega) ha)
      generalize ceilPos B digitFuel ((q.den + q.num.natAbs - 1) / q.num.natAbs) = j at h1 h2
      rw [hceil] at h1
      obtain ⟨i, rfl⟩ : ∃ i, j = i + 1 := ⟨j - 1, by
        rcases Nat.eq_zero_or_pos j with rfl | h
        · simp at h1
          omega
        · omega⟩
      have h3 : ¬ q.den ≤ B ^ i * q.num.natAbs := fun h => by
        have := h2 i ((hceil i).mpr h)
        omega
      rw [le_div_iff₀ hbq, div_lt_iff₀ hbq, zpow_neg, zpow_natCast,
        show -((i + 1 : Nat) : ℤ) + 1 = -(i : ℤ) by push_cast; ring, zpow_neg, zpow_natCast,
        inv_mul_le_iff₀ (by positivity), lt_inv_mul_iff₀ (by positivity)]
      exact ⟨by exact_mod_cast h1, by exact_mod_cast not_le.mp h3⟩

theorem roundDiv_bounds {a b : Nat} (hb : 0 < b) {lo hi : Nat} (hlo : lo * b ≤ a)
    (hhi : a ≤ hi * b) : lo ≤ roundDiv a b ∧ roundDiv a b ≤ hi := by
  have h1 : lo ≤ a / b := (Nat.le_div_iff_mul_le hb).mpr hlo
  have h2 : a / b ≤ hi := Nat.div_le_of_le_mul (Nat.mul_comm hi b ▸ hhi)
  have h3 : a / b = hi → a % b = 0 := by
    intro h
    have := Nat.div_add_mod a b
    rw [h, Nat.mul_comm] at this
    omega
  have hmod := Nat.mod_lt a hb
  unfold roundDiv
  split
  · omega
  · split
    · omega
    · refine ⟨by omega, ?_⟩
      rcases Nat.lt_or_eq_of_le h2 with hlt | heq
      · omega
      · have := h3 heq
        omega

/-- The digits that are kept: `k` of them, or a one and `k` zeros. -/
theorem keptDigits_bounds {k : Nat} (hk : 0 < k) {q : ℚ}
    (hlead : (10 : ℚ) ^ lead 10 q ≤ |q| ∧ |q| < (10 : ℚ) ^ (lead 10 q + 1)) :
    10 ^ (k - 1) ≤ (keptDigits k q).1 ∧ (keptDigits k q).1 ≤ 10 ^ k := by
  obtain ⟨hlo, hhi⟩ := hlead
  have hb : 0 < q.den := q.den_pos
  have hbq : (0 : ℚ) < q.den := by exact_mod_cast hb
  rw [abs_eq_div] at hlo hhi
  rw [le_div_iff₀ hbq] at hlo
  rw [div_lt_iff₀ hbq] at hhi
  obtain ⟨j, rfl⟩ : ∃ j, k = j + 1 := ⟨k - 1, by omega⟩
  unfold keptDigits
  dsimp only
  rw [show lead 10 q - (((j + 1 : Nat) : ℤ) - 1) = lead 10 q - j by push_cast; ring,
    Nat.add_sub_cancel]
  split
  · next he =>
      obtain ⟨n, hn⟩ : ∃ n : Nat, lead 10 q = (n + j : Nat) := ⟨(lead 10 q - j).toNat, by omega⟩
      rw [hn] at hlo hhi ⊢
      rw [show ((n + j : Nat) : ℤ) - j = n by push_cast; ring, Int.toNat_natCast]
      refine roundDiv_bounds (Nat.mul_pos hb (Nat.pow_pos (by decide))) ?_ ?_
      · rw [zpow_natCast] at hlo
        have : 10 ^ (n + j) * q.den ≤ q.num.natAbs := by exact_mod_cast hlo
        calc 10 ^ j * (q.den * 10 ^ n) = 10 ^ (n + j) * q.den := by ring
          _ ≤ q.num.natAbs := this
      · have : q.num.natAbs < 10 ^ (n + j + 1) * q.den := by exact_mod_cast hhi
        calc q.num.natAbs ≤ 10 ^ (n + j + 1) * q.den := Nat.le_of_lt this
          _ = 10 ^ (j + 1) * (q.den * 10 ^ n) := by ring
  · next he =>
      obtain ⟨n, hn⟩ : ∃ n : Nat, lead 10 q - j = -(n : ℤ) := ⟨(j - lead 10 q).toNat, by omega⟩
      rw [hn, neg_neg, Int.toNat_natCast]
      have hpos : (0 : ℚ) < 10 ^ n := by positivity
      have hshift : (10 : ℚ) ^ lead 10 q * 10 ^ n = 10 ^ j := by
        rw [← zpow_natCast, ← zpow_natCast, ← zpow_add₀ (by norm_num),
          show lead 10 q + (n : ℤ) = j by omega]
      refine roundDiv_bounds hb ?_ ?_
      · have h := mul_le_mul_of_nonneg_right hlo hpos.le
        rw [mul_right_comm, hshift] at h
        exact_mod_cast h
      · have h := mul_lt_mul_of_pos_right hhi hpos
        rw [mul_right_comm, zpow_add_one₀ (by norm_num), mul_right_comm _ (10 : ℚ), hshift,
          ← pow_succ] at h
        exact Nat.le_of_lt (by exact_mod_cast h)

/-- The decimal exponent of a double. -/
theorem InRange.lead {q : ℚ} (h : InRange q) (hq : q ≠ 0) :
    ((10 : ℚ) ^ lead 10 q ≤ |q| ∧ |q| < (10 : ℚ) ^ (lead 10 q + 1)) ∧
      -400 < lead 10 q ∧ lead 10 q < 400 := by
  have hlo : (2 ^ 1074 : ℚ)⁻¹ ≤ |q| := (h.resolve_left hq).1
  have hhi : |q| < 2 ^ 1024 := (h.resolve_left hq).2
  have hten : ∀ n : Nat, (2 : ℚ) ^ (3 * n) ≤ 10 ^ n := by
    intro n
    rw [pow_mul]
    exact pow_le_pow_left₀ (by norm_num) (by norm_num) n
  have hsmall : ((10 : ℚ) ^ 358)⁻¹ ≤ (2 ^ 1074)⁻¹ := inv_anti₀ (by positivity) (hten 358)
  have hbig : (2 : ℚ) ^ 1024 ≤ 10 ^ 342 :=
    le_trans (pow_le_pow_right₀ (by norm_num) (by norm_num)) (hten 342)
  have hfuel : ∀ n : Nat, n ≤ digitFuel → (10 : ℚ) ^ n ≤ ((10 : Nat) : ℚ) ^ digitFuel :=
    fun n hn => pow_le_pow_right₀ (by norm_num) hn
  have hspec := lead_spec (B := 10) (by decide) hq
    (le_trans (inv_anti₀ (by positivity) (hfuel 358 (by decide))) (le_trans hsmall hlo))
    (lt_of_lt_of_le hhi (le_trans hbig (hfuel 342 (by decide))))
  push_cast at hspec
  refine ⟨hspec, ?_, ?_⟩
  · have hlt : (10 : ℚ) ^ (-358 : ℤ) < 10 ^ (Cjson.lead 10 q + 1) :=
      lt_of_le_of_lt (le_trans hsmall hlo) hspec.2
    have := (zpow_lt_zpow_iff_right₀ (by norm_num : (1 : ℚ) < 10)).mp hlt
    omega
  · have hlt : (10 : ℚ) ^ Cjson.lead 10 q < 10 ^ (342 : ℤ) :=
      lt_of_le_of_lt hspec.1 (lt_of_lt_of_le hhi hbig)
    have := (zpow_lt_zpow_iff_right₀ (by norm_num : (1 : ℚ) < 10)).mp hlt
    omega

theorem length_sprintfG {k : Nat} (hk : 1 < k) {q : ℚ} (h : InRange q) (hq : q ≠ 0) :
    (sprintfG k q).length ≤ k + 7 := by
  obtain ⟨hlead, hlo, hhi⟩ := h.lead hq
  obtain ⟨hmin, hmax⟩ := keptDigits_bounds (by omega : 0 < k) hlead
  have hge : ¬ (Nat.toDigits 10 (keptDigits k q).1).length ≤ k - 1 := by
    rw [Nat.length_toDigits_le_iff (by decide) (by omega)]
    omega
  have hle : (Nat.toDigits 10 (keptDigits k q).1).length ≤ k + 1 := by
    rw [Nat.length_toDigits_le_iff (by decide) (by omega), Nat.pow_succ]
    have := Nat.pow_pos (n := k) (by decide : 0 < 10)
    omega
  have hexp : (keptDigits k q).2 = Cjson.lead 10 q - (k - 1 : ℤ) := rfl
  unfold sprintfG bytes
  rw [List.length_map]
  exact formatG_length (by omega) _ _ hmax (by omega) (by omega)

/-- `print_number` never runs over its 26 bytes: the text of a double has at most 24. -/
theorem length_numberBuffer {d : Dbl} (h : d.InRange) : (numberBuffer d).length ≤ 24 := by
  unfold numberBuffer
  split
  · decide
  · next q =>
      split
      · next hint =>
          have hlen : (Nat.toDigits 10 q.num.natAbs).length ≤ 10 :=
            (Nat.length_toDigits_le_iff (by decide) (by decide)).mpr (by omega)
          unfold bytes formatD
          rw [List.length_map, List.length_append]
          split
          · rw [List.length_singleton]
            omega
          · rw [List.length_nil]
            omega
      · next hint =>
          have hq : q ≠ 0 := by
            rintro rfl
            exact hint ⟨rfl, by decide, by decide⟩
          have h15 := length_sprintfG (k := 15) (by decide) h hq
          have h17 := length_sprintfG (k := 17) (by decide) h hq
          split
          · exact h17
          · split
            · omega
            · exact h17

/-! ## What is read -/

theorem isNumberByte_bytes {cs : List Char} {q : ℚ} (h : IsNumber cs q) :
    ∀ b ∈ bytes cs, isNumberByte b = true := by
  intro b hb
  obtain ⟨c, hc, rfl⟩ := List.mem_map.mp hb
  unfold isNumberByte
  rcases number_chars h c hc with hd | rfl | rfl | rfl | rfl | rfl
  · rw [(isDigit_byte hd).1]
    rfl
  · decide
  · decide
  · decide
  · decide
  · decide

/-- A number of up to 63 characters is copied whole. -/
theorem numberCString_number {cs : List Char} {q : ℚ} (h : IsNumber cs q) (hlen : cs.length ≤ 63)
    {tail : CStr} (htail : ∀ c ∈ tail.head?, isNumberByte c = false) :
    numberCString (bytes cs ++ tail) = bytes cs := by
  have hbytes : (bytes cs).length = cs.length := List.length_map _
  unfold numberCString
  rw [List.take_append, List.take_of_length_le (by omega),
    List.takeWhile_append_of_pos (isNumberByte_bytes h)]
  cases tail with
  | nil => rw [List.take_nil, List.takeWhile_nil, List.append_nil]
  | cons c tail =>
      cases 63 - (bytes cs).length with
      | zero => rw [List.take_zero, List.takeWhile_nil, List.append_nil]
      | succ n =>
          rw [List.take_succ_cons, List.takeWhile_cons, htail c rfl, if_neg Bool.false_ne_true,
            List.append_nil]

/-- It is read whole, as the nearest double. -/
theorem parseNumber_number {cs : List Char} {q : ℚ} (h : IsNumber cs q) (hlen : cs.length ≤ 63)
    {tail : CStr} (htail : ∀ c ∈ tail.head?, isNumberByte c = false) :
    parseNumber (bytes cs ++ tail) = .ok (toDouble q, tail) := by
  have hread := scanFloat_number h ends_nil
  rw [List.append_nil] at hread
  unfold parseNumber strtod
  rw [numberCString_number h hlen htail, hread]
  change Except.ok (toDouble q, (bytes cs ++ tail).drop (bytes cs).length) = _
  rw [List.drop_left]

/-- A printed number is read back as `reparse` says. -/
theorem parseNumber_numberBuffer {q : ℚ} (h : InRange q) {tail : CStr}
    (htail : ∀ c ∈ tail.head?, isNumberByte c = false) :
    parseNumber (numberBuffer (.fin q) ++ tail) = .ok (reparse q, tail) := by
  have hlen := length_numberBuffer (d := .fin q) h
  obtain ⟨cs, hcs, hnum⟩ := numberBuffer_number q
  rw [hcs] at hlen ⊢
  unfold bytes at hlen
  rw [List.length_map] at hlen
  exact parseNumber_number hnum (by omega) htail

/-- What `strtod` yields is a double. -/
theorem toDouble_inRange (q : ℚ) : (toDouble q).InRange := by
  unfold toDouble
  dsimp only
  split
  · trivial
  · next hbig =>
      obtain ⟨m, -, hround⟩ := roundAt_eq (by decide : 0 < 2) (max (lead 2 q - 52) (-1074)) q
      have habs : |roundAt 2 (max (lead 2 q - 52) (-1074)) q| =
          (m : ℚ) * 2 ^ max (lead 2 q - 52) (-1074) := by
        rw [hround]
        have hpos : (0 : ℚ) ≤ (m : ℚ) * 2 ^ max (lead 2 q - 52) (-1074) :=
          mul_nonneg (Nat.cast_nonneg m) (zpow_nonneg (by norm_num) _)
        split
        · rw [abs_neg]
          exact abs_of_nonneg hpos
        · exact abs_of_nonneg hpos
      rcases Nat.eq_zero_or_pos m with rfl | hm
      · rw [Nat.cast_zero, zero_mul] at habs
        exact Or.inl (abs_eq_zero.mp habs)
      · refine Or.inr ⟨?_, not_le.mp hbig⟩
        have hone : (1 : ℚ) ≤ m := by exact_mod_cast hm
        calc (2 ^ 1074 : ℚ)⁻¹ = 2 ^ (-1074 : ℤ) := by rw [zpow_neg]; rfl
          _ ≤ 2 ^ max (lead 2 q - 52) (-1074) :=
              zpow_le_zpow_right₀ (by norm_num) (le_max_right _ _)
          _ ≤ (m : ℚ) * 2 ^ max (lead 2 q - 52) (-1074) :=
              le_mul_of_one_le_left (zpow_nonneg (by norm_num) _) hone
          _ = |roundAt 2 (max (lead 2 q - 52) (-1074)) q| := habs.symm

/-- What `parse_number` leaves, and what it has read. -/
theorem parseNumber_ok {s t : CStr} {d : Dbl} (h : parseNumber s = .ok (d, t)) :
    t <:+ s ∧ (t.length < s.length) ∧ d.InRange := by
  unfold parseNumber at h
  split at h
  · cases h
  · next number afterEnd hread =>
      cases h
      obtain ⟨⟨q, u⟩, hscan, he⟩ := Option.map_eq_some_iff.mp hread
      cases he
      have hlt := scanFloat_length hscan
      have hcopy : (numberCString s).length ≤ s.length := by
        unfold numberCString
        exact Nat.le_trans (List.takeWhile_prefix _).length_le (List.take_prefix _ _).length_le
      refine ⟨List.drop_suffix _ _, ?_, toDouble_inRange q⟩
      rw [List.length_drop]
      dsimp only
      omega

theorem parseNumber_safe (s : CStr) : parseNumber s ≠ .error .fault := by
  unfold parseNumber
  split
  · exact fun h => nomatch h
  · exact fun h => nomatch h

end Cjson
