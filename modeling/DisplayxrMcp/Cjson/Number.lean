/-
  cJSON numbers: the double a number node holds and the text it is printed as.

  A node's `valuedouble` is a finite double (a rational) or an infinity; cJSON's
  parser never yields a NaN. `printNumber` is `print_number` of
  external/cjson/cJSON.c: `%d` when the value is an `int`, else 15 significant
  digits when `compare_double` accepts them, else 17. `compare_double` is
  relative, one part in 2^52, so from 2^52 on a last digit of 1 or 9 is lost:
  4503599627370499 is printed as 4503599627370500 (`reparse_first_loss`), and
  below 2^52 + 3 every natural number survives (`reparse_natCast`).
-/
import Mathlib.Data.Rat.Defs
import Mathlib.Data.Rat.Cast.Defs
import Mathlib.Algebra.Order.Ring.Unbundled.Rat
import Mathlib.Algebra.Order.Field.Basic
import Mathlib.Algebra.Order.Ring.Abs
import Mathlib.Tactic.NormNum
import Mathlib.Tactic.Ring
import Mathlib.Tactic.Linarith

namespace Cjson

/-- A double other than a NaN. -/
inductive Dbl where
  | fin (q : ℚ)
  | inf (neg : Bool)
  deriving DecidableEq

/-! ## Rounding to significant digits -/

/-- `a / b` rounded to the nearest integer, ties to even. -/
def roundDiv (a b : Nat) : Nat :=
  if 2 * (a % b) < b then a / b
  else if b < 2 * (a % b) then a / b + 1
  else a / b + (a / b) % 2

/-- Position of the leading base-`B` digit of `n` (0 for a single digit). -/
def leadPos (B : Nat) : Nat → Nat → Nat
  | 0, _ => 0
  | fuel + 1, n => if n < B then 0 else leadPos B fuel (n / B) + 1

/-- Least `j` with `n ≤ B ^ j`. -/
def ceilPos (B : Nat) : Nat → Nat → Nat
  | 0, _ => 0
  | fuel + 1, n => if n ≤ 1 then 0 else ceilPos B fuel ((n + B - 1) / B) + 1

/-- More base-2 digits than any double has. -/
def digitFuel : Nat := 2200

/-- Exponent of the leading base-`B` digit of `|q|`. -/
def lead (B : Nat) (q : ℚ) : ℤ :=
  let a := q.num.natAbs
  let b := q.den
  if b ≤ a then (leadPos B digitFuel (a / b) : ℤ)
  else -(ceilPos B digitFuel ((b + a - 1) / a) : ℤ)

/-- `q` rounded to a multiple of `B ^ e`. -/
def roundAt (B : Nat) (e : ℤ) (q : ℚ) : ℚ :=
  let a := q.num.natAbs
  let b := q.den
  let m : ℚ :=
    if 0 < e then mkRat (roundDiv a (b * B ^ e.toNat) * B ^ e.toNat : ℕ) 1
    else mkRat (roundDiv (a * B ^ (-e).toNat) b : ℕ) (B ^ (-e).toNat)
  if q.num < 0 then -m else m

/-- `q` rounded to `k` significant base-`B` digits. -/
def sigDigits (B k : Nat) (q : ℚ) : ℚ := roundAt B (lead B q - (k - 1 : ℤ)) q

/-- The double nearest to `q` (`strtod`): 53 binary digits, subnormals from `2 ^ -1074`. -/
def toDouble (q : ℚ) : Dbl :=
  let r := roundAt 2 (max (lead 2 q - 52) (-1074)) q
  if (2 : ℚ) ^ 1024 ≤ |r| then .inf (q.num < 0) else .fin r

/-! ## print_number -/

/-- `<=` on magnitudes. -/
def Dbl.ble : Dbl → Dbl → Bool
  | _, .inf _ => true
  | .inf _, .fin _ => false
  | .fin d, .fin e => decide (d ≤ e)

/-- `compare_double`: equal up to one part in `2 ^ 52`, both sides rounded to doubles. An infinite
    `a` gives an infinite tolerance. -/
def compareDouble (a : Dbl) (b : ℚ) : Bool :=
  match a with
  | .inf _ => true
  | .fin a => (toDouble |a - b|).ble (toDouble (max |a| |b| / 2 ^ 52))

/-- The number denoted by the text `print_number` produces for a finite double. -/
def printNumber (q : ℚ) : ℚ :=
  if q.den = 1 ∧ -2147483648 ≤ q.num ∧ q.num ≤ 2147483647 then q
  else if compareDouble (toDouble (sigDigits 10 15 q)) q then sigDigits 10 15 q
  else sigDigits 10 17 q

/-- The double the reader of that text gets. -/
def reparse (q : ℚ) : Dbl := toDouble (printNumber q)

/-- `(uint64_t)d`: truncation where the result is representable; elsewhere C leaves the
    conversion undefined, and `ub` stands for what the platform does. -/
def castU64 (ub : Dbl → Nat) (d : Dbl) : Nat :=
  match d with
  | .inf _ => ub d
  | .fin q => if -1 < q ∧ q < 2 ^ 64 then (q.num.tdiv q.den).toNat else ub d

/-! ## Natural numbers -/

theorem roundDiv_mul {b : Nat} (hb : 0 < b) (c : Nat) : roundDiv (c * b) b = c := by
  rw [roundDiv, Nat.mul_mod_left, Nat.mul_div_cancel _ hb, if_pos (by omega)]

theorem leadPos_lt {B : Nat} (hB : 0 < B) :
    ∀ (k fuel n : Nat), 0 < k → n < B ^ k → leadPos B fuel n < k
  | 0, _, _, hk, _ => absurd hk (Nat.lt_irrefl 0)
  | _ + 1, 0, _, _, _ => Nat.succ_pos _
  | 1, fuel + 1, n, _, hn => by
      have : n < B := by simpa using hn
      simp [leadPos, this]
  | k + 2, fuel + 1, n, _, hn => by
      unfold leadPos
      split
      · exact Nat.succ_pos _
      · have hdiv : n / B < B ^ (k + 1) := by
          rw [Nat.div_lt_iff_lt_mul hB, ← Nat.pow_succ]
          exact hn
        have := leadPos_lt hB (k + 1) fuel (n / B) (Nat.succ_pos k) hdiv
        omega

/-- The exponent of a natural number with at most `k` digits is below `k`. -/
theorem lead_natCast_lt {B k n : Nat} (hB : 0 < B) (hk : 0 < k) (hn : n < B ^ k) :
    lead B (n : ℚ) < k := by
  have h := leadPos_lt hB k digitFuel n hk hn
  simp only [lead, Rat.num_natCast, Rat.den_natCast, Int.natAbs_natCast, Nat.div_one]
  split <;> omega

/-- A multiple of `B ^ e` is left alone. -/
theorem roundAt_exact {B : Nat} (hB : 0 < B) {e : ℤ} (he : e ≤ 0) {q : ℚ} {c : Nat}
    (hq : q = (c : ℚ) / (B ^ (-e).toNat : ℕ)) : roundAt B e q = q := by
  have hD : ((B ^ (-e).toNat : ℕ) : ℚ) ≠ 0 := by
    exact_mod_cast (Nat.pow_pos hB).ne'
  have hnonneg : 0 ≤ q := by
    rw [hq]
    exact div_nonneg (Nat.cast_nonneg _) (Nat.cast_nonneg _)
  have hnum : ¬ q.num < 0 := not_lt.mpr (Rat.num_nonneg.mpr hnonneg)
  have hcross : q.num.natAbs * B ^ (-e).toNat = c * q.den := by
    have hden : (q.den : ℚ) ≠ 0 := by exact_mod_cast q.den_nz
    have hfrac : ((q.num.natAbs : ℕ) : ℚ) / q.den = (c : ℚ) / (B ^ (-e).toNat : ℕ) := by
      rw [← hq, ← Int.cast_natCast, Int.natAbs_of_nonneg (not_lt.mp hnum), Rat.num_div_den]
    rw [div_eq_div_iff hden hD] at hfrac
    exact_mod_cast hfrac
  have hpos : ¬ 0 < e := by omega
  simp only [roundAt, if_neg hnum, if_neg hpos, hcross, roundDiv_mul q.den_pos, Rat.mkRat_eq_div]
  rw [hq]
  rfl

theorem roundAt_natCast {B : Nat} (hB : 0 < B) {e : ℤ} (he : e ≤ 0) (n : Nat) :
    roundAt B e (n : ℚ) = n := by
  refine roundAt_exact hB he (c := n * B ^ (-e).toNat) ?_
  have hne : ((B ^ (-e).toNat : ℕ) : ℚ) ≠ 0 := by
    exact_mod_cast (Nat.pow_pos hB).ne'
  rw [Nat.cast_mul, mul_div_cancel_right₀ _ hne]

theorem sigDigits_natCast {B k n : Nat} (hB : 0 < B) (hk : 0 < k) (hn : n < B ^ k) :
    sigDigits B k (n : ℚ) = n := by
  have := lead_natCast_lt hB hk hn
  exact roundAt_natCast hB (by omega) n

/-- Every natural number below `2 ^ 53` is a double. -/
theorem toDouble_natCast {n : Nat} (hn : n < 2 ^ 53) : toDouble (n : ℚ) = .fin n := by
  have hlead := lead_natCast_lt (by norm_num : 0 < 2) (by norm_num : 0 < 53) hn
  have hr : roundAt 2 (max (lead 2 (n : ℚ) - 52) (-1074)) (n : ℚ) = n :=
    roundAt_natCast (by norm_num) (by omega) n
  have hbig : ¬ (2 : ℚ) ^ 1024 ≤ |(n : ℚ)| := by
    have hlt : (n : ℚ) < 2 ^ 53 := by exact_mod_cast hn
    have hle : (2 : ℚ) ^ 53 ≤ 2 ^ 1024 := pow_le_pow_right₀ (by norm_num) (by norm_num)
    rw [Nat.abs_cast]
    exact not_le.mpr (lt_of_lt_of_le hlt hle)
  simp only [toDouble, hr, if_neg hbig]

theorem abs_eq_div (q : ℚ) : |q| = (q.num.natAbs : ℚ) / q.den := by
  conv_lhs => rw [← Rat.num_div_den q]
  rw [abs_div, Nat.abs_cast, Nat.cast_natAbs]
  push_cast
  rfl

theorem lead_nonpos {B : Nat} (hB : 0 < B) {q : ℚ} (hq : |q| < B) : lead B q ≤ 0 := by
  unfold lead
  dsimp only
  split
  · have hdiv : q.num.natAbs / q.den < B ^ 1 := by
      rw [Nat.div_lt_iff_lt_mul q.den_pos, pow_one]
      have hden : (0 : ℚ) < q.den := by exact_mod_cast q.den_pos
      rw [abs_eq_div, div_lt_iff₀ hden] at hq
      exact_mod_cast hq
    have := leadPos_lt hB 1 digitFuel _ Nat.one_pos hdiv
    omega
  · omega

/-- A tolerance is a double. -/
theorem toDouble_scaled {n : Nat} (hn : n < 2 ^ 53) :
    toDouble ((n : ℚ) / 2 ^ 52) = .fin ((n : ℚ) / 2 ^ 52) := by
  have hlt : (n : ℚ) / 2 ^ 52 < 2 := by
    rw [div_lt_iff₀ (by positivity)]
    calc (n : ℚ) < ((2 ^ 53 : ℕ) : ℚ) := by exact_mod_cast hn
      _ = 2 * 2 ^ 52 := by norm_num
  have habs : |(n : ℚ) / 2 ^ 52| = (n : ℚ) / 2 ^ 52 := 
    abs_of_nonneg (div_nonneg (Nat.cast_nonneg _) (by positivity))
  have hlead := lead_nonpos (B := 2) (by norm_num) (q := (n : ℚ) / 2 ^ 52) (by
    rw [habs]
    exact_mod_cast hlt)
  -- the last binary digit of a double in this range stands for `2 ^ -52` at most
  obtain ⟨k, hk⟩ : ∃ k : Nat, max (lead 2 ((n : ℚ) / 2 ^ 52) - 52) (-1074) = -(52 + k : ℕ) :=
    ⟨(-(max (lead 2 ((n : ℚ) / 2 ^ 52) - 52) (-1074)) - 52).toNat, by omega⟩
  have hr : roundAt 2 (-(52 + k : ℕ)) ((n : ℚ) / 2 ^ 52) = (n : ℚ) / 2 ^ 52 := by
    refine roundAt_exact (by norm_num) (by omega) (c := n * 2 ^ k) ?_
    have hk : ((2 ^ k : ℕ) : ℚ) ≠ 0 := by exact_mod_cast (Nat.pow_pos two_pos).ne'
    rw [neg_neg, Int.toNat_natCast, pow_add, Nat.cast_mul, Nat.cast_mul,
      mul_div_mul_right _ _ hk, Nat.cast_pow, Nat.cast_ofNat]
  have hbig : ¬ (2 : ℚ) ^ 1024 ≤ |(n : ℚ) / 2 ^ 52| := by
    rw [habs]
    exact not_le.mpr (lt_of_lt_of_le hlt (le_self_pow₀ (by norm_num) (by norm_num)))
  unfold toDouble
  dsimp only
  rw [hk, hr, if_neg hbig]

/-- Sixteen decimal digits to fifteen: round to a multiple of ten. -/
theorem sigDigits_sixteen {n : Nat} (h15 : 10 ^ 15 ≤ n) (h16 : n < 10 ^ 16) :
    sigDigits 10 15 (n : ℚ) = (roundDiv n 10 * 10 : ℕ) := by
  have hpos : ∀ (k fuel m : Nat), k ≤ fuel → 10 ^ k ≤ m → k ≤ leadPos 10 fuel m := by
    intro k
    induction k with
    | zero => intro _ _ _ _; exact Nat.zero_le _
    | succ k ih =>
        intro fuel m hf hm
        cases fuel with
        | zero => omega
        | succ fuel =>
            have hten : ¬ m < 10 := by
              have := Nat.one_le_pow k 10 (by norm_num)
              rw [Nat.pow_succ] at hm
              omega
            have hdiv : 10 ^ k ≤ m / 10 := by
              rw [Nat.le_div_iff_mul_le (by norm_num), ← Nat.pow_succ]
              exact hm
            have := ih fuel (m / 10) (by omega) hdiv
            simp only [leadPos, if_neg hten]
            omega
  have hge := hpos 15 digitFuel n (by norm_num [digitFuel]) h15
  have hlt := leadPos_lt (by norm_num : 0 < 10) 16 digitFuel n (by norm_num) h16
  have heq : leadPos 10 digitFuel n = 15 := by omega
  have hone : 1 ≤ n := by omega
  have hlead : lead 10 (n : ℚ) = 15 := by
    simp only [lead, Rat.num_natCast, Rat.den_natCast, Int.natAbs_natCast, Nat.div_one,
      if_pos hone, heq]
    norm_num
  have hneg : ¬ (n : ℤ) < 0 := by omega
  simp only [sigDigits, hlead, roundAt, Rat.num_natCast, Rat.den_natCast, Int.natAbs_natCast,
    if_neg hneg]
  norm_num [Rat.mkRat_eq_div]

theorem compareDouble_natCast {t n : Nat} (ht : t < 2 ^ 53) (hn : n < 2 ^ 53) :
    compareDouble (.fin t) (n : ℚ) = true ↔
      (t - n) * 2 ^ 52 ≤ max t n ∧ (n - t) * 2 ^ 52 ≤ max t n := by
  have habs : |(t : ℚ) - n| = ((max (t - n) (n - t) : ℕ) : ℚ) := by
    rcases le_total n t with h | h
    · rw [← Nat.cast_sub h, Nat.abs_cast, Nat.sub_eq_zero_of_le h, Nat.max_zero]
    · rw [abs_sub_comm, ← Nat.cast_sub h, Nat.abs_cast, Nat.sub_eq_zero_of_le h, Nat.zero_max]
  simp only [compareDouble, habs, Nat.abs_cast]
  rw [← Nat.cast_max, toDouble_natCast (by omega), toDouble_scaled (by omega)]
  simp only [Dbl.ble, decide_eq_true_eq]
  rw [le_div_iff₀ (by positivity), show ((2 : ℚ) ^ 52) = ((2 ^ 52 : ℕ) : ℚ) by norm_num,
    ← Nat.cast_mul, Nat.cast_le]
  omega

/-- Below `2 ^ 52 + 3` a natural number is printed exactly. -/
theorem printNumber_natCast {n : Nat} (hn : n < 2 ^ 52 + 3) : printNumber (n : ℚ) = n := by
  unfold printNumber
  split
  · rfl
  · rcases Nat.lt_or_ge n (10 ^ 15) with h15 | h15
    · rw [sigDigits_natCast (by norm_num) (by norm_num) h15,
        sigDigits_natCast (by norm_num) (by norm_num) (lt_trans h15 (by norm_num))]
      split <;> rfl
    · have h16 : n < 10 ^ 16 := lt_trans hn (by norm_num)
      rw [sigDigits_sixteen h15 h16, sigDigits_natCast (by norm_num) (by norm_num)
        (lt_trans h16 (by norm_num))]
      have ht : roundDiv n 10 * 10 ≤ n + 5 ∧ n ≤ roundDiv n 10 * 10 + 5 := by
        unfold roundDiv
        split
        · omega
        · split <;> omega
      rw [toDouble_natCast (by omega)]
      split
      · next hc =>
          -- the accepted difference is below one, or one at a multiple of ten from 2^52 on
          rw [compareDouble_natCast (by omega) (by omega)] at hc
          have : roundDiv n 10 * 10 = n := by omega
          rw [this]
      · rfl

/-- A natural number below `2 ^ 52 + 3` survives being printed and read back. -/
theorem reparse_natCast {n : Nat} (hn : n < 2 ^ 52 + 3) : reparse (n : ℚ) = .fin n := by
  rw [reparse, printNumber_natCast hn, toDouble_natCast (by omega)]

/-- The first natural number that does not: its last digit is rounded away. -/
theorem reparse_first_loss : reparse 4503599627370499 = .fin 4503599627370500 := by
  decide +kernel

theorem castU64_natCast (ub : Dbl → Nat) {n : Nat} (hn : n < 2 ^ 64) :
    castU64 ub (.fin n) = n := by
  have h1 : (-1 : ℚ) < n := by
    have : (0 : ℚ) ≤ n := Nat.cast_nonneg n
    linarith
  have h2 : (n : ℚ) < 2 ^ 64 := by exact_mod_cast hn
  simp [castU64, h1, h2]

end Cjson
