/-
  Decimal numbers in C text: `%zu` and `strtoul`.

  `strtoul` skips white space, takes a sign and reads digits, without looking at
  any line structure; out of range is out of the platform's `unsigned long` (`Abi`).
  `strtoul_line` says when it stays within its line: some byte before the line feed is
  not white space. If none is, it goes on behind the line feed (`strtoul_blank`).
  `NumberEnds` says when it stays within a text that need not be a line.
-/
import DisplayxrMcp.Lib.CStr
import Mathlib.Algebra.Group.Nat.Defs
import Mathlib.Data.List.TakeWhile

namespace Lib

/-- The two platforms: POSIX and Windows. -/
inductive Abi where
  | lp64
  | llp64
  deriving DecidableEq

attribute [class] Abi

/-- The width of `long`. -/
def Abi.long : Abi → Nat
  | .lp64 => 64
  | .llp64 => 32

/-- What fits 32 bits fits a `long` of either. -/
theorem Abi.pow_le (abi : Abi) : 2 ^ 32 ≤ 2 ^ abi.long :=
  Nat.pow_le_pow_right (by decide) (by cases abi <;> decide)

namespace Lp64

/-- For what is run: POSIX. -/
scoped instance posix : Abi := .lp64

end Lp64

/-- `isspace` in the C locale. -/
def isSpace (c : UInt8) : Bool := c == 32 || (9 ≤ c && c ≤ 13)

/-- `isdigit`. -/
def isDigit (c : UInt8) : Bool := 48 ≤ c && c ≤ 57

/-- The number a string of digits stands for. -/
def digitsValue (ds : CStr) : Nat := ds.foldl (fun n d => 10 * n + (d.toNat - 48)) 0

/-- An optional sign. -/
def takeSign : CStr → Bool × CStr
  | 45 :: s => (true, s)
  | 43 :: s => (false, s)
  | s => (false, s)

/-- `strtoul(s, NULL, 10)`: out of range is `ULONG_MAX`. -/
def strtoul [abi : Abi] (s : CStr) : Nat :=
  let signed := takeSign (s.dropWhile isSpace)
  let v := digitsValue (signed.2.takeWhile isDigit)
  if 2 ^ abi.long ≤ v then 2 ^ abi.long - 1
  else if signed.1 then (2 ^ abi.long - v) % 2 ^ abi.long
  else v

/-! ## What it reads -/

theorem takeWhile_isDigit_line (t m : CStr) :
    (t ++ 10 :: m).takeWhile isDigit = t.takeWhile isDigit := by
  induction t with
  | nil => rfl
  | cons c t ih =>
      simp only [List.cons_append, List.takeWhile_cons, ih]

theorem takeSign_append {t : CStr} (ht : t ≠ []) (m : CStr) :
    takeSign (t ++ m) = ((takeSign t).1, (takeSign t).2 ++ m) := by
  cases t with
  | nil => exact absurd rfl ht
  | cons c t =>
      simp only [List.cons_append]
      unfold takeSign
      split <;> split <;> simp_all

theorem dropWhile_isSpace_line {t : CStr} (ht : t.all isSpace = false) (m : CStr) :
    (t ++ m).dropWhile isSpace = t.dropWhile isSpace ++ m ∧ t.dropWhile isSpace ≠ [] := by
  induction t with
  | nil => cases ht
  | cons c t ih =>
      by_cases hc : isSpace c = true
      · rw [List.all_cons, hc, Bool.true_and] at ht
        simpa [List.dropWhile_cons, hc] using ih ht
      · simp [hc]

/-- With a byte that is not white space before the line feed, only what stands before the line
    feed is read. -/
theorem strtoul_line [Abi] {t : CStr} (ht : t.all isSpace = false) (m : CStr) :
    strtoul (t ++ 10 :: m) = strtoul t := by
  obtain ⟨hdrop, hne⟩ := dropWhile_isSpace_line ht (10 :: m)
  unfold strtoul
  simp only [hdrop, takeSign_append hne, takeWhile_isDigit_line]

theorem strtoul_blank [Abi] {t : CStr} (ht : t.all isSpace = true) (m : CStr) :
    strtoul (t ++ 10 :: m) = strtoul m := by
  have hdrop : (t ++ 10 :: m).dropWhile isSpace = m.dropWhile isSpace := by
    induction t with
    | nil => rfl
    | cons c t ih =>
        rw [List.all_cons, Bool.and_eq_true] at ht
        rw [List.cons_append, List.dropWhile_cons, if_pos ht.1, ih ht.2]
  unfold strtoul
  rw [hdrop]

/-- Behind white space, a sign and digits there is a byte of `s` at which the number ends. -/
def NumberEnds (s : CStr) : Prop := (takeSign (s.dropWhile isSpace)).2.dropWhile isDigit ≠ []

instance (s : CStr) : Decidable (NumberEnds s) := inferInstanceAs (Decidable (_ ≠ _))

theorem numberEnds_nil : ¬ NumberEnds [] := fun h => h rfl

theorem numberEnds_space {c : UInt8} (hc : isSpace c = true) (s : CStr) :
    NumberEnds (c :: s) ↔ NumberEnds s := by
  unfold NumberEnds
  rw [List.dropWhile_cons, if_pos hc]

theorem strtoul_space [Abi] {c : UInt8} (hc : isSpace c = true) (s : CStr) :
    strtoul (c :: s) = strtoul s := by
  unfold strtoul
  rw [List.dropWhile_cons, if_pos hc]

/-- Digits are read from behind the sign. -/
theorem numberEnds_sign {c : UInt8} (hc : c = 45 ∨ c = 43) (s : CStr) :
    NumberEnds (c :: s) ↔ s.dropWhile isDigit ≠ [] := by
  rcases hc with rfl | rfl <;> rfl

theorem takeSign_unsigned {c : UInt8} (hminus : c ≠ 45) (hplus : c ≠ 43) (s : CStr) :
    takeSign (c :: s) = (false, c :: s) := by
  unfold takeSign
  split
  · next he => exact absurd (List.cons.inj he).1 hminus
  · next he => exact absurd (List.cons.inj he).1 hplus
  · rfl

theorem numberEnds_digits {c : UInt8} (hspace : ¬ isSpace c = true) (hminus : c ≠ 45)
    (hplus : c ≠ 43) (s : CStr) :
    NumberEnds (c :: s) ↔ (c :: s).dropWhile isDigit ≠ [] := by
  unfold NumberEnds
  rw [List.dropWhile_cons, if_neg hspace, takeSign_unsigned hminus hplus]

theorem takeWhile_append_of_dropWhile {p : UInt8 → Bool} {t : CStr} (h : t.dropWhile p ≠ [])
    (m : CStr) : (t ++ m).takeWhile p = t.takeWhile p := by
  rw [List.takeWhile_append, if_neg]
  intro hlen
  have happ := congrArg List.length (List.takeWhile_append_dropWhile (p := p) (l := t))
  rw [List.length_append, hlen] at happ
  exact h (List.length_eq_zero_iff.mp (by omega))

/-- What follows the end of the number is not read. -/
theorem strtoul_append [Abi] {s : CStr} (h : NumberEnds s) (m : CStr) :
    strtoul (s ++ m) = strtoul s := by
  have hall : s.all isSpace = false := by
    rw [Bool.eq_false_iff]
    intro hs
    have hnil : s.dropWhile isSpace = [] :=
      List.dropWhile_eq_nil_iff.mpr (List.all_eq_true.mp hs)
    unfold NumberEnds at h
    rw [hnil] at h
    exact h rfl
  obtain ⟨hdrop, hne⟩ := dropWhile_isSpace_line hall m
  unfold NumberEnds at h
  unfold strtoul
  simp only [hdrop, takeSign_append hne, takeWhile_append_of_dropWhile h]

/-- A byte of the line that is not white space is enough. -/
theorem numberEnds_line {t : CStr} (ht : t.all isSpace = false) (m : CStr) :
    NumberEnds (t ++ 10 :: m) := by
  obtain ⟨hdrop, hne⟩ := dropWhile_isSpace_line ht (10 :: m)
  unfold NumberEnds
  rw [hdrop, takeSign_append hne]
  intro hnil
  have hall := List.dropWhile_eq_nil_iff.mp hnil 10 (by simp)
  cases hall

/-! ## Printing and reading back -/

theorem toNat_toUInt8_of_isDigit {c : Char} (hc : c.isDigit = true) :
    c.toNat.toUInt8.toNat = c.toNat ∧ 48 ≤ c.toNat ∧ c.toNat ≤ 57 := by
  simp only [Char.isDigit, Bool.and_eq_true, decide_eq_true_eq] at hc
  obtain ⟨h1, h2⟩ := hc
  have h1' : 48 ≤ c.toNat := h1
  have h2' : c.toNat ≤ 57 := h2
  refine ⟨?_, h1', h2'⟩
  rw [Nat.toUInt8_eq, UInt8.toNat_ofNat']
  omega

theorem isDigit_of_mem_toDigits {n : Nat} {c : Char} (h : c ∈ Nat.toDigits 10 n) :
    c.isDigit = true :=
  Nat.isDigit_of_mem_toDigits (by decide) (by decide) h

theorem decimal_isDigit (n : Nat) : ∀ c ∈ decimal n, isDigit c = true := by
  intro c hc
  obtain ⟨d, hd, rfl⟩ := List.mem_map.mp hc
  obtain ⟨hn, h1, h2⟩ := toNat_toUInt8_of_isDigit (isDigit_of_mem_toDigits hd)
  simp only [isDigit, Bool.and_eq_true, decide_eq_true_eq, UInt8.le_iff_toNat_le, hn]
  exact ⟨h1, h2⟩

theorem decimal_ne_nil (n : Nat) : decimal n ≠ [] := by
  unfold decimal
  rw [Ne, List.map_eq_nil_iff]
  exact Nat.toDigits_ne_nil

theorem digitsValue_decimal (n : Nat) : digitsValue (decimal n) = n := by
  have hfold : ∀ (ds : List Char) (init : Nat), (∀ c ∈ ds, c.isDigit = true) →
      (ds.map fun c => c.toNat.toUInt8).foldl (fun v d => 10 * v + (d.toNat - 48)) init =
        Nat.ofDigitChars 10 ds init := by
    intro ds
    induction ds with
    | nil =>
        intro init _
        rw [Nat.ofDigitChars_nil]
        rfl
    | cons c ds ih =>
        intro init hds
        obtain ⟨hn, -, -⟩ := toNat_toUInt8_of_isDigit (hds c List.mem_cons_self)
        rw [List.map_cons, List.foldl_cons, hn, Nat.ofDigitChars_cons]
        exact ih _ fun d hd => hds d (List.mem_cons_of_mem _ hd)
  unfold digitsValue decimal
  rw [hfold _ _ fun c hc => isDigit_of_mem_toDigits hc, Nat.ofDigitChars_ten_toDigits]

theorem not_isSpace_of_isDigit {c : UInt8} (h : isDigit c = true) :
    isSpace c = false ∧ c ≠ 45 ∧ c ≠ 43 := by
  simp only [isDigit, Bool.and_eq_true, decide_eq_true_eq, UInt8.le_iff_toNat_le] at h
  have hlo : 48 ≤ c.toNat := h.1
  refine ⟨?_, ?_, ?_⟩
  · rw [Bool.eq_false_iff]
    intro hs
    simp only [isSpace, Bool.or_eq_true, beq_iff_eq, Bool.and_eq_true, decide_eq_true_eq,
      UInt8.le_iff_toNat_le] at hs
    rcases hs with rfl | ⟨-, hs⟩
    · exact absurd hlo (by decide)
    · have hhi : c.toNat ≤ 13 := hs
      omega
  · rintro rfl
    exact absurd hlo (by decide)
  · rintro rfl
    exact absurd hlo (by decide)

theorem takeWhile_isDigit_append {ds tail : CStr} (hds : ∀ c ∈ ds, isDigit c = true)
    (htail : ∀ c ∈ tail.head?, isDigit c = false) : (ds ++ tail).takeWhile isDigit = ds := by
  rw [List.takeWhile_append_of_pos hds]
  cases tail with
  | nil => exact List.append_nil ds
  | cons c tail =>
      rw [List.takeWhile_cons, htail c rfl, if_neg Bool.false_ne_true, List.append_nil]

theorem dropWhile_isDigit_append {ds tail : CStr} (hds : ∀ c ∈ ds, isDigit c = true)
    (htail : ∀ c ∈ tail.head?, isDigit c = false) : (ds ++ tail).dropWhile isDigit = tail := by
  rw [List.dropWhile_append_of_pos hds]
  cases tail with
  | nil => rfl
  | cons c tail => rw [List.dropWhile_cons, htail c rfl, if_neg Bool.false_ne_true]

/-- White space and digits up to a byte that is no digit: the digits are read. -/
theorem strtoul_digits [abi : Abi] {sp ds tail : CStr} (hsp : ∀ c ∈ sp, isSpace c = true)
    (hne : ds ≠ []) (hds : ∀ c ∈ ds, isDigit c = true) (htail : ∀ c ∈ tail.head?, isDigit c = false) :
    strtoul (sp ++ ds ++ tail) =
      if 2 ^ abi.long ≤ digitsValue ds then 2 ^ abi.long - 1 else digitsValue ds := by
  have htake := takeWhile_isDigit_append hds htail
  obtain ⟨d, ds', rfl⟩ := List.exists_cons_of_ne_nil hne
  obtain ⟨hspace, hminus, hplus⟩ := not_isSpace_of_isDigit (hds d List.mem_cons_self)
  have hdrop : (sp ++ (d :: ds') ++ tail).dropWhile isSpace = d :: ds' ++ tail := by
    rw [List.append_assoc, List.dropWhile_append_of_pos hsp, List.cons_append, List.dropWhile_cons,
      hspace, if_neg (by decide)]
  have hsign : takeSign (d :: ds' ++ tail) = (false, d :: ds' ++ tail) := by
    rw [List.cons_append]
    unfold takeSign
    split <;> simp_all
  unfold strtoul
  simp only [hdrop, hsign, htake]
  rfl

theorem strtoul_nil [abi : Abi] : strtoul [] = 0 := by
  cases abi <;> decide

/-- One digit. -/
theorem strtoul_digit [abi : Abi] {c : UInt8} (hc : isDigit c = true) :
    strtoul [c] = c.toNat - 48 := by
  have htail : ∀ d ∈ ([] : CStr).head?, isDigit d = false := by simp
  have hread := strtoul_digits (List.forall_mem_nil _) (List.cons_ne_nil c [])
    (List.forall_mem_singleton.mpr hc) htail
  have hvalue : digitsValue [c] = c.toNat - 48 := Nat.zero_add _
  have hlt : c.toNat < 2 ^ 32 := c.toNat_lt.trans (by decide)
  have hfits : ¬ 2 ^ abi.long ≤ c.toNat - 48 :=
    Nat.not_le_of_lt ((Nat.sub_le ..).trans_lt (hlt.trans_le abi.pow_le))
  rw [List.nil_append, List.append_nil, hvalue, if_neg hfits] at hread
  exact hread

/-- A printed number is read back, whatever follows that is no digit. -/
theorem strtoul_decimal [abi : Abi] {n : Nat} (hn : n < 2 ^ 32) {c : UInt8} (hc : isDigit c = false)
    (m : CStr) : strtoul (decimal n ++ c :: m) = n := by
  have htail : ∀ d ∈ (c :: m).head?, isDigit d = false := by simpa using hc
  have hread := strtoul_digits (List.forall_mem_nil _) (decimal_ne_nil n) (decimal_isDigit n) htail
  have hfits : ¬ 2 ^ abi.long ≤ n := Nat.not_le_of_lt (hn.trans_le abi.pow_le)
  rw [List.nil_append, digitsValue_decimal, if_neg hfits] at hread
  exact hread

end Lib
