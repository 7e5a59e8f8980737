/-
  Decimal floating point in C text: what `strtod` reads and what `%g` writes.

  `scanFloat` is the number at the front of a text of digits, signs, points and
  exponents, and what follows it. `scanFloat_number`: every number of RFC 8259
  is read whole. `formatG` is the text of `%g` for `m * 10 ^ e`, `m` the digits
  the precision keeps: `formatG_number` says that it is such a number and
  `formatG_length` how long it gets.
-/
import DisplayxrMcp.Lib.Decimal
import DisplayxrMcp.Lib.Rfc8259
import Mathlib.Tactic.FieldSimp
import Mathlib.Tactic.Ring
import Mathlib.Tactic.NormNum

namespace Lib

open Rfc8259

/-! ## Reading -/

/-- A fraction: its digits, and what follows. -/
def scanFraction : CStr → CStr × CStr
  | 46 :: t => (t.takeWhile isDigit, t.dropWhile isDigit)
  | s => ([], s)

/-- An exponent, and what follows. Without a digit there is none. -/
def scanExponent (s : CStr) : ℤ × CStr :=
  match s with
  | [] => (0, [])
  | c :: t =>
      let signed := takeSign t
      let ds := signed.2.takeWhile isDigit
      if (c = 101 ∨ c = 69) ∧ ds ≠ [] then
        (if signed.1 then -(digitsValue ds : ℤ) else digitsValue ds, signed.2.dropWhile isDigit)
      else (0, s)

/-- What `strtod` reads of a decimal number, and what follows it. -/
def scanFloat (s : CStr) : Option (ℚ × CStr) :=
  let signed := takeSign s
  let int := signed.2.takeWhile isDigit
  let frac := scanFraction (signed.2.dropWhile isDigit)
  if int = [] ∧ frac.1 = [] then none
  else
    let exp := scanExponent frac.2
    let v : ℚ := (digitsValue (int ++ frac.1) / 10 ^ frac.1.length) * 10 ^ exp.1
    some (if signed.1 then -v else v, exp.2)

theorem length_takeSign (s : CStr) : (takeSign s).2.length ≤ s.length := by
  unfold takeSign
  split
  · exact Nat.le_succ _
  · exact Nat.le_succ _
  · exact Nat.le_refl _

/-- Something is read. -/
theorem scanFloat_length {s t : CStr} {q : ℚ} (h : scanFloat s = some (q, t)) :
    t.length < s.length := by
  have hsign := length_takeSign s
  have hfrac : ∀ u : CStr, (scanFraction u).1.length + (scanFraction u).2.length ≤ u.length := by
    intro u
    unfold scanFraction
    split
    · next v =>
        have := congrArg List.length (List.takeWhile_append_dropWhile (p := isDigit) (l := v))
        rw [List.length_append] at this
        dsimp only
        rw [List.length_cons]
        omega
    · exact Nat.le_of_eq (Nat.zero_add _)
  have hexp : ∀ u : CStr, (scanExponent u).2.length ≤ u.length := by
    intro u
    unfold scanExponent
    split
    · exact Nat.le_refl _
    · next c v =>
        dsimp only
        split
        · have hv := length_takeSign v
          have := (List.dropWhile_suffix (l := (takeSign v).2) isDigit).length_le
          dsimp only
          rw [List.length_cons]
          omega
        · exact Nat.le_refl _
  unfold scanFloat at h
  dsimp only at h
  split at h
  · cases h
  · next hne =>
      cases h
      have hint := congrArg List.length
        (List.takeWhile_append_dropWhile (p := isDigit) (l := (takeSign s).2))
      rw [List.length_append] at hint
      have h1 := hfrac ((takeSign s).2.dropWhile isDigit)
      have h2 := hexp (scanFraction ((takeSign s).2.dropWhile isDigit)).2
      have h3 : 0 < ((takeSign s).2.takeWhile isDigit).length +
          (scanFraction ((takeSign s).2.dropWhile isDigit)).1.length := by
        by_contra hzero
        exact hne ⟨List.length_eq_zero_iff.mp (by omega), List.length_eq_zero_iff.mp (by omega)⟩
      omega

/-- The bytes of ASCII characters. -/
def bytes (cs : List Char) : CStr := cs.map fun c => c.toNat.toUInt8

/-- A byte that a number may go on with. -/
def goesOn (c : UInt8) : Bool := isDigit c || c == 46 || c == 101 || c == 69

/-- A text that a number in front of it does not run into. -/
def Ends (tail : CStr) : Prop := ∀ c ∈ tail.head?, goesOn c = false

theorem ends_nil : Ends [] := fun _ hc => nomatch hc

theorem Ends.not_isDigit {tail : CStr} (h : Ends tail) : ∀ c ∈ tail.head?, isDigit c = false := by
  intro c hc
  have := h c hc
  unfold goesOn at this
  rw [Bool.or_eq_false_iff, Bool.or_eq_false_iff, Bool.or_eq_false_iff] at this
  exact this.1.1.1

theorem digitsValue_append (a b : CStr) :
    digitsValue (a ++ b) = digitsValue a * 10 ^ b.length + digitsValue b := by
  have hfold : ∀ (b : CStr) (init : Nat),
      b.foldl (fun n d => 10 * n + (d.toNat - 48)) init =
        init * 10 ^ b.length + b.foldl (fun n d => 10 * n + (d.toNat - 48)) 0 := by
    intro b
    induction b with
    | nil => intro init; simp
    | cons c b ih =>
        intro init
        rw [List.foldl_cons, List.foldl_cons, ih, ih (10 * 0 + (c.toNat - 48)), List.length_cons,
          pow_succ]
        ring
  unfold digitsValue
  rw [List.foldl_append, hfold]

/-! ## Digits as characters -/

theorem isDigit_byte {c : Char} (h : IsDigit c) :
    isDigit c.toNat.toUInt8 = true ∧ c.toNat.toUInt8.toNat = c.toNat ∧ c.toNat < 0x80 := by
  have hall : ∀ n : Nat, n < 0x3A → 0x30 ≤ n →
      isDigit n.toUInt8 = true ∧ n.toUInt8.toNat = n ∧ n < 0x80 := by
    decide
  obtain ⟨hlo, hhi⟩ := h
  exact hall c.toNat (by omega) hlo

theorem isDigit_bytes {ds : List Char} (h : ∀ c ∈ ds, IsDigit c) :
    ∀ b ∈ bytes ds, isDigit b = true := by
  intro b hb
  obtain ⟨c, hc, rfl⟩ := List.mem_map.mp hb
  exact (isDigit_byte (h c hc)).1

theorem digitsValue_bytes {ds : List Char} (h : ∀ c ∈ ds, IsDigit c) :
    digitsValue (bytes ds) = digits ds := by
  have hfold : ∀ (ds : List Char) (init : Nat), (∀ c ∈ ds, IsDigit c) →
      (bytes ds).foldl (fun n d => 10 * n + (d.toNat - 48)) init =
        ds.foldl (fun n d => 10 * n + (d.toNat - 0x30)) init := by
    intro ds
    induction ds with
    | nil => intro init _; rfl
    | cons c ds ih =>
        intro init h
        obtain ⟨-, hn, -⟩ := isDigit_byte (h c List.mem_cons_self)
        unfold bytes
        rw [List.map_cons, List.foldl_cons, List.foldl_cons, hn]
        exact ih _ fun d hd => h d (List.mem_cons_of_mem _ hd)
  exact hfold ds 0 h

theorem bytes_append (a b : List Char) : bytes (a ++ b) = bytes a ++ bytes b := List.map_append

theorem bytes_ne_nil {ds : List Char} (h : ds ≠ []) : bytes ds ≠ [] := by
  unfold bytes
  rwa [Ne, List.map_eq_nil_iff]

/-! ## Reading a number of RFC 8259 -/

theorem IsInt_digits {cs : List Char} {n : Nat} (h : IsInt cs n) :
    cs ≠ [] ∧ (∀ c ∈ cs, IsDigit c) ∧ digits cs = n := by
  cases h with
  | zero => exact ⟨by decide, List.forall_mem_singleton.mpr (by decide), by decide⟩
  | pos hd hne hds =>
      exact ⟨List.cons_ne_nil _ _, List.forall_mem_cons.mpr ⟨hd, hds⟩, rfl⟩

theorem scanExponent_digits {e : UInt8} (he : e = 101 ∨ e = 69) (sgn ds : CStr) {tail : CStr}
    {neg : Bool} (hsgn : takeSign (sgn ++ ds ++ tail) = (neg, ds ++ tail)) (hne : ds ≠ [])
    (hds : ∀ c ∈ ds, isDigit c = true) (htail : Ends tail) :
    scanExponent (e :: (sgn ++ ds ++ tail)) =
      (if neg then -(digitsValue ds : ℤ) else digitsValue ds, tail) := by
  unfold scanExponent
  dsimp only
  rw [hsgn]
  dsimp only
  rw [takeWhile_isDigit_append hds htail.not_isDigit,
    dropWhile_isDigit_append hds htail.not_isDigit, if_pos ⟨he, hne⟩]

theorem takeSign_digits {ds : CStr} (hne : ds ≠ []) (hds : ∀ c ∈ ds, isDigit c = true)
    (tail : CStr) : takeSign (ds ++ tail) = (false, ds ++ tail) := by
  obtain ⟨d, ds, rfl⟩ := List.exists_cons_of_ne_nil hne
  obtain ⟨-, hminus, hplus⟩ := not_isSpace_of_isDigit (hds d List.mem_cons_self)
  exact takeSign_unsigned hminus hplus _

theorem scanExponent_ends {tail : CStr} (h : Ends tail) : scanExponent tail = (0, tail) := by
  cases tail with
  | nil => rfl
  | cons c t =>
      have hc := h c rfl
      unfold scanExponent
      refine if_neg fun hexp => ?_
      rcases hexp.1 with rfl | rfl
      · exact absurd hc (by decide)
      · exact absurd hc (by decide)

theorem exp_byte {e : Char} (he : e = 'e' ∨ e = 'E') :
    e.toNat.toUInt8 = 101 ∨ e.toNat.toUInt8 = 69 := by
  rcases he with rfl | rfl
  · exact Or.inl (by decide)
  · exact Or.inr (by decide)

theorem scanExponent_exp {cs : List Char} {k : ℤ} (h : IsExp cs k) {tail : CStr}
    (htail : Ends tail) : scanExponent (bytes cs ++ tail) = (k, tail) := by
  cases h with
  | none => exact scanExponent_ends htail
  | @plain e ds he hne hds =>
      have hsgn := takeSign_digits (bytes_ne_nil hne) (isDigit_bytes hds) tail
      have hread := scanExponent_digits (exp_byte he) [] (bytes ds) hsgn (bytes_ne_nil hne)
        (isDigit_bytes hds) htail
      rw [digitsValue_bytes hds] at hread
      exact hread
  | @plus e ds he hne hds =>
      have hsgn : takeSign ([43] ++ bytes ds ++ tail) = (false, bytes ds ++ tail) := rfl
      have hread := scanExponent_digits (exp_byte he) [43] (bytes ds) hsgn (bytes_ne_nil hne)
        (isDigit_bytes hds) htail
      rw [digitsValue_bytes hds] at hread
      exact hread
  | @minus e ds he hne hds =>
      have hsgn : takeSign ([45] ++ bytes ds ++ tail) = (true, bytes ds ++ tail) := rfl
      have hread := scanExponent_digits (exp_byte he) [45] (bytes ds) hsgn (bytes_ne_nil hne)
        (isDigit_bytes hds) htail
      rw [digitsValue_bytes hds] at hread
      exact hread

theorem exp_head {cs : List Char} {k : ℤ} (h : IsExp cs k) {tail : CStr} (htail : Ends tail) :
    ∀ c ∈ (bytes cs ++ tail).head?, isDigit c = false ∧ c ≠ 46 := by
  have hexp : ∀ {e : Char}, e = 'e' ∨ e = 'E' →
      isDigit e.toNat.toUInt8 = false ∧ e.toNat.toUInt8 ≠ 46 := by
    intro e he
    rcases he with rfl | rfl
    · exact ⟨by decide, by decide⟩
    · exact ⟨by decide, by decide⟩
  intro c hc
  cases h with
  | none =>
      refine ⟨htail.not_isDigit c hc, ?_⟩
      rintro rfl
      exact absurd (htail 46 hc) (by decide)
  | plain he hne hds => cases hc; exact hexp he
  | plus he hne hds => cases hc; exact hexp he
  | minus he hne hds => cases hc; exact hexp he

theorem scanFraction_frac {cs : List Char} {x : ℚ} (h : IsFrac cs x) {tail : CStr}
    (htail : ∀ c ∈ tail.head?, isDigit c = false ∧ c ≠ 46) :
    ∃ ds, scanFraction (bytes cs ++ tail) = (ds, tail) ∧
      (digitsValue ds : ℚ) / 10 ^ ds.length = x := by
  have hdigit : ∀ c ∈ tail.head?, isDigit c = false := fun c hc => (htail c hc).1
  cases h with
  | none =>
      refine ⟨[], ?_, by simp [digitsValue]⟩
      cases tail with
      | nil => rfl
      | cons c t =>
          have hc := (htail c rfl).2
          change scanFraction (c :: t) = _
          unfold scanFraction
          split
          · next he => exact absurd (List.cons.inj he).1 hc
          · rfl
  | @some ds hne hds =>
      refine ⟨bytes ds, ?_, ?_⟩
      · change ((bytes ds ++ tail).takeWhile isDigit, (bytes ds ++ tail).dropWhile isDigit) = _
        rw [takeWhile_isDigit_append (isDigit_bytes hds) hdigit,
          dropWhile_isDigit_append (isDigit_bytes hds) hdigit]
      · rw [digitsValue_bytes hds]
        unfold bytes
        rw [List.length_map]

theorem frac_head {cs : List Char} {x : ℚ} (h : IsFrac cs x) {tail : CStr}
    (htail : ∀ c ∈ tail.head?, isDigit c = false) :
    ∀ c ∈ (bytes cs ++ tail).head?, isDigit c = false := by
  intro c hc
  cases h with
  | none => exact htail c hc
  | some hne hds => cases hc; decide

/-- Behind a sign, a number is read whole. -/
theorem scanFloat_unsigned {i f e : List Char} {n : Nat} {x : ℚ} {k : ℤ} (hi : IsInt i n)
    (hf : IsFrac f x) (he : IsExp e k) {tail s : CStr} {neg : Bool} (htail : Ends tail)
    (hs : takeSign s = (neg, bytes (i ++ f ++ e) ++ tail)) :
    scanFloat s = some (if neg then -((n + x) * 10 ^ k) else (n + x) * 10 ^ k, tail) := by
  obtain ⟨hne, hds, hn⟩ := IsInt_digits hi
  obtain ⟨ds, hscan, hx⟩ := scanFraction_frac hf (exp_head he htail)
  have hhead := frac_head hf fun c hc => (exp_head he htail c hc).1
  have hsplit : bytes (i ++ f ++ e) ++ tail = bytes i ++ (bytes f ++ (bytes e ++ tail)) := by
    rw [bytes_append, bytes_append, List.append_assoc, List.append_assoc]
  have hvalue : (digitsValue (bytes i ++ ds) : ℚ) / 10 ^ ds.length = n + x := by
    rw [digitsValue_append, digitsValue_bytes hds, hn, ← hx]
    push_cast
    field_simp
  unfold scanFloat
  rw [hs, hsplit]
  dsimp only
  rw [takeWhile_isDigit_append (isDigit_bytes hds) hhead,
    dropWhile_isDigit_append (isDigit_bytes hds) hhead, hscan]
  dsimp only
  rw [if_neg fun h => bytes_ne_nil hne h.1, scanExponent_exp he htail, hvalue]

/-- A number of RFC 8259 is read whole, with its value. -/
theorem scanFloat_number {cs : List Char} {q : ℚ} (h : IsNumber cs q) {tail : CStr}
    (htail : Ends tail) : scanFloat (bytes cs ++ tail) = some (q, tail) := by
  cases h with
  | @pos i f e n x k hi hf he =>
      obtain ⟨hne, hds, -⟩ := IsInt_digits hi
      have hsgn : takeSign (bytes (i ++ f ++ e) ++ tail) =
          (false, bytes (i ++ f ++ e) ++ tail) := by
        rw [bytes_append, bytes_append, List.append_assoc, List.append_assoc]
        exact takeSign_digits (bytes_ne_nil hne) (isDigit_bytes hds) _
      exact scanFloat_unsigned hi hf he htail hsgn
  | @neg i f e n x k hi hf he =>
      have hsgn : takeSign (bytes ('-' :: (i ++ f ++ e)) ++ tail) =
          (true, bytes (i ++ f ++ e) ++ tail) := rfl
      exact scanFloat_unsigned hi hf he htail hsgn

/-! ## Writing -/

/-- `m * 10 ^ e` without the zeros at the end of `m`. -/
def stripZeros : Nat → Nat → ℤ → Nat × ℤ
  | 0, m, e => (m, e)
  | fuel + 1, m, e => if m % 10 = 0 then stripZeros fuel (m / 10) (e + 1) else (m, e)

/-- The exponent: a sign and at least two digits. -/
def exponentText (x : ℤ) : List Char :=
  'e' :: (if x < 0 then '-' else '+') ::
    ((if x.natAbs < 10 then ['0'] else []) ++ Nat.toDigits 10 x.natAbs)

/-- `%f` of the digits `ds` of `ds * 10 ^ e`, without zeros behind the point. -/
def fixedText (ds : List Char) (e : ℤ) : List Char :=
  if 0 ≤ e then ds ++ List.replicate e.toNat '0'
  else if 0 < e + ds.length then
    ds.take (e + ds.length).toNat ++ '.' :: ds.drop (e + ds.length).toNat
  else '0' :: '.' :: (List.replicate (-(e + ds.length)).toNat '0' ++ ds)

/-- `%e` of them. -/
def scientificText (ds : List Char) (e : ℤ) : List Char :=
  ds.take 1 ++ (if ds.length ≤ 1 then [] else '.' :: ds.drop 1) ++
    exponentText (e + ds.length - 1)

/-- `%.kg` of `m * 10 ^ e`, where `m` has the `k` digits that are kept. -/
def formatG (k : Nat) (neg : Bool) (m : Nat) (e : ℤ) : List Char :=
  let stripped := stripZeros (Nat.toDigits 10 m).length m e
  let ds := Nat.toDigits 10 stripped.1
  let x := stripped.2 + ds.length - 1
  (if neg then ['-'] else []) ++
    if m = 0 then ['0']
    else if -4 ≤ x ∧ x < k then fixedText ds stripped.2
    else scientificText ds stripped.2

/-- `%d`. -/
def formatD (n : ℤ) : List Char := (if n < 0 then ['-'] else []) ++ Nat.toDigits 10 n.natAbs

/-! ## What is written is a number -/

/-- An RFC 8259 number without a sign. -/
def IsUnsigned (cs : List Char) (q : ℚ) : Prop :=
  ∃ i f e n x k, IsInt i n ∧ IsFrac f x ∧ IsExp e k ∧ cs = i ++ f ++ e ∧ q = (n + x) * 10 ^ k

theorem IsUnsigned.signed {cs : List Char} {q : ℚ} (h : IsUnsigned cs q) (neg : Bool) :
    IsNumber ((if neg then ['-'] else []) ++ cs) (if neg then -q else q) := by
  obtain ⟨i, f, e, n, x, k, hi, hf, he, rfl, rfl⟩ := h
  cases neg with
  | false => exact .pos hi hf he
  | true => exact .neg hi hf he

theorem digits_eq (ds : List Char) : digits ds = Nat.ofDigitChars 10 ds 0 := rfl

theorem digits_append (a b : List Char) :
    digits (a ++ b) = 10 ^ b.length * digits a + digits b := by
  rw [digits_eq, digits_eq, digits_eq, Nat.ofDigitChars_append,
    Nat.ofDigitChars_eq_ofDigitChars_zero]

theorem digits_zeros (n : Nat) : digits (List.replicate n '0') = 0 := by
  rw [digits_eq, Nat.ofDigitChars_replicate_zero, Nat.mul_zero]

theorem digits_toDigits (n : Nat) : digits (Nat.toDigits 10 n) = n := Nat.ofDigitChars_ten_toDigits

theorem isDigit_toDigits (n : Nat) : ∀ c ∈ Nat.toDigits 10 n, IsDigit c := by
  intro c hc
  obtain ⟨-, hlo, hhi⟩ := toNat_toUInt8_of_isDigit (isDigit_of_mem_toDigits hc)
  exact ⟨hlo, hhi⟩

theorem isDigit_zeros (n : Nat) : ∀ c ∈ List.replicate n '0', IsDigit c := by
  intro c hc
  rw [List.eq_of_mem_replicate hc]
  decide

/-- The first digit of a positive number is not zero. -/
theorem toDigits_head {n : Nat} (hn : 0 < n) : (Nat.toDigits 10 n).head? ≠ some '0' := by
  induction n using Nat.strong_induction_on with
  | _ n ih =>
      rcases Nat.lt_or_ge n 10 with hlt | hge
      · rw [Nat.toDigits_of_lt_base hlt, List.head?_cons]
        intro h
        have := Nat.digitChar_eq_zero.mp (Option.some.inj h)
        omega
      · rw [Nat.toDigits_of_base_le (by decide) hge, List.head?_append_of_ne_nil _
          Nat.toDigits_ne_nil]
        exact ih (n / 10) (by omega) (by omega)

/-- A number with digits and no leading zero. -/
theorem isInt_of_head {ds : List Char} (hds : ∀ c ∈ ds, IsDigit c) (hne : ds ≠ [])
    (hhead : ds.head? ≠ some '0') : IsInt ds (digits ds) := by
  obtain ⟨d, ds, rfl⟩ := List.exists_cons_of_ne_nil hne
  refine .pos (hds d List.mem_cons_self) (fun hd => hhead ?_)
    fun c hc => hds c (List.mem_cons_of_mem _ hc)
  rw [hd]
  rfl

theorem isInt_toDigits (n : Nat) : IsInt (Nat.toDigits 10 n) n := by
  rcases Nat.eq_zero_or_pos n with rfl | hn
  · rw [Nat.toDigits_zero]
    exact .zero
  · have h := isInt_of_head (isDigit_toDigits n) Nat.toDigits_ne_nil (toDigits_head hn)
    rwa [digits_toDigits] at h

theorem exponentText_exp (x : ℤ) : IsExp (exponentText x) x := by
  have hds : ∀ c ∈ (if x.natAbs < 10 then ['0'] else []) ++ Nat.toDigits 10 x.natAbs,
      IsDigit c := by
    intro c hc
    rcases List.mem_append.mp hc with hc | hc
    · split at hc
      · rw [List.mem_singleton.mp hc]
        decide
      · exact absurd hc List.not_mem_nil
    · exact isDigit_toDigits _ c hc
  have hne : (if x.natAbs < 10 then ['0'] else []) ++ Nat.toDigits 10 x.natAbs ≠ [] :=
    List.append_ne_nil_of_right_ne_nil _ Nat.toDigits_ne_nil
  have hvalue : digits ((if x.natAbs < 10 then ['0'] else []) ++ Nat.toDigits 10 x.natAbs) =
      x.natAbs := by
    rw [digits_append, digits_toDigits]
    split
    · exact Nat.zero_add _
    · exact Nat.zero_add _
  unfold exponentText
  split
  · next hx =>
      have h := IsExp.minus (Or.inl rfl) hne hds
      rwa [hvalue, show (-(x.natAbs : ℤ)) = x by omega] at h
  · next hx =>
      have h := IsExp.plus (Or.inl rfl) hne hds
      rwa [hvalue, show (x.natAbs : ℤ) = x by omega] at h

section Digits

variable {ds : List Char} (hds : ∀ c ∈ ds, IsDigit c) (hne : ds ≠ []) (hhead : ds.head? ≠ some '0')
include hds hne hhead

theorem take_isInt {n : Nat} (hn : 0 < n) : IsInt (ds.take n) (digits (ds.take n)) := by
  refine isInt_of_head (fun c hc => hds c (List.mem_of_mem_take hc)) ?_ ?_
  · intro h
    rcases List.take_eq_nil_iff.mp h with h | h
    · omega
    · exact hne h
  · rw [List.head?_take, if_neg (by omega)]
    exact hhead

theorem fixedText_number (e : ℤ) : IsUnsigned (fixedText ds e) (digits ds * 10 ^ e) := by
  unfold fixedText
  split
  · next he =>
      obtain ⟨n, rfl⟩ := Int.eq_ofNat_of_zero_le he
      have hint : IsInt (ds ++ List.replicate n '0') (digits (ds ++ List.replicate n '0')) := by
        refine isInt_of_head ?_ (List.append_ne_nil_of_left_ne_nil hne _) ?_
        · exact fun c hc => (List.mem_append.mp hc).elim (hds c) (isDigit_zeros n c)
        · rwa [List.head?_append_of_ne_nil _ hne]
      refine ⟨_, [], [], _, 0, 0, hint, .none, .none, by simp, ?_⟩
      rw [digits_append, digits_zeros, List.length_replicate]
      push_cast
      simp [mul_comm]
  · next he =>
      split
      · next hpos =>
          have hlen : (ds.drop (e + ds.length).toNat).length = (-e).toNat := by
            rw [List.length_drop]
            omega
          have hfrac : IsFrac ('.' :: ds.drop (e + ds.length).toNat) _ := .some
            (fun h => by rw [h] at hlen; simp only [List.length_nil] at hlen; omega)
            fun c hc => hds c (List.mem_of_mem_drop hc)
          have hint := take_isInt hds hne hhead (n := (e + ds.length).toNat) (by omega)
          refine ⟨_, _, [], _, _, 0, hint, hfrac, .none, by simp, ?_⟩
          have hsplit := digits_append (ds.take (e + ds.length).toNat)
            (ds.drop (e + ds.length).toNat)
          rw [List.take_append_drop, hlen] at hsplit
          obtain ⟨n, hn⟩ : ∃ n : Nat, e = -n := ⟨(-e).toNat, by omega⟩
          rw [hsplit, hlen, hn, neg_neg, Int.toNat_natCast, zpow_neg, zpow_natCast, zpow_zero,
            mul_one]
          push_cast
          field_simp
      · next hpos =>
          have hfrac : IsFrac ('.' :: (List.replicate (-(e + ds.length)).toNat '0' ++ ds)) _ := .some
            (List.append_ne_nil_of_right_ne_nil _ hne)
            fun c hc => (List.mem_append.mp hc).elim (isDigit_zeros _ c) (hds c)
          refine ⟨['0'], _, [], 0, _, 0, .zero, hfrac, .none, by simp, ?_⟩
          rw [digits_append, digits_zeros, List.length_append, List.length_replicate]
          obtain ⟨n, hn⟩ : ∃ n : Nat, e = -n := ⟨(-e).toNat, by omega⟩
          have hlen : (-(e + (ds.length : ℤ))).toNat + ds.length = n := by omega
          rw [hlen, hn, zpow_neg, zpow_natCast, zpow_zero, mul_one]
          push_cast
          ring

theorem scientificText_number (e : ℤ) : IsUnsigned (scientificText ds e) (digits ds * 10 ^ e) := by
  have hlen : 0 < ds.length := List.length_pos_iff.mpr hne
  have hint := take_isInt hds hne hhead (n := 1) (by decide)
  have hsplit := digits_append (ds.take 1) (ds.drop 1)
  rw [List.take_append_drop, List.length_drop] at hsplit
  obtain ⟨n, hn⟩ : ∃ n : Nat, ds.length = n + 1 := ⟨ds.length - 1, by omega⟩
  have hpow : (10 : ℚ) ^ (e + ds.length - 1) = 10 ^ e * 10 ^ n := by
    rw [hn, show e + ((n + 1 : Nat) : ℤ) - 1 = e + n by push_cast; ring,
      zpow_add₀ (by norm_num), zpow_natCast]
  unfold scientificText
  split
  · next h1 =>
      have hzero : n = 0 := by omega
      refine ⟨_, [], _, _, 0, _, hint, .none, exponentText_exp _, rfl, ?_⟩
      rw [hpow, hzero, List.take_of_length_le h1]
      ring
  · next h1 =>
      have hfrac : IsFrac ('.' :: ds.drop 1) _ := .some
        (fun h => by
          have := congrArg List.length h
          rw [List.length_drop, List.length_nil] at this
          omega)
        fun c hc => hds c (List.mem_of_mem_drop hc)
      refine ⟨_, _, _, _, _, _, hint, hfrac, exponentText_exp _, rfl, ?_⟩
      rw [hpow, hsplit, List.length_drop, hn, Nat.add_sub_cancel]
      push_cast
      field_simp

end Digits

theorem stripZeros_value (fuel m : Nat) (e : ℤ) :
    ((stripZeros fuel m e).1 : ℚ) * 10 ^ (stripZeros fuel m e).2 = m * 10 ^ e := by
  induction fuel generalizing m e with
  | zero => rfl
  | succ fuel ih =>
      unfold stripZeros
      split
      · next hm =>
          obtain ⟨d, rfl⟩ : ∃ d, m = 10 * d := ⟨m / 10, by omega⟩
          rw [ih, Nat.mul_div_cancel_left d (by decide), zpow_add₀ (by norm_num), zpow_one]
          push_cast
          ring
      · rfl

theorem stripZeros_pos (fuel : Nat) {m : Nat} (e : ℤ) (hm : 0 < m) :
    0 < (stripZeros fuel m e).1 := by
  induction fuel generalizing m e with
  | zero => exact hm
  | succ fuel ih =>
      unfold stripZeros
      split
      · exact ih _ (by omega)
      · exact hm

/-- What `%g` writes is a number of RFC 8259 with the value of the digits that are kept. -/
theorem formatG_number (k : Nat) (neg : Bool) (m : Nat) (e : ℤ) :
    IsNumber (formatG k neg m e) (if neg then -(m * 10 ^ e) else m * 10 ^ e) := by
  unfold formatG
  refine IsUnsigned.signed ?_ neg
  split
  · next hm =>
      rw [hm, Nat.cast_zero, zero_mul]
      exact ⟨['0'], [], [], 0, 0, 0, .zero, .none, .none, rfl, by simp⟩
  · next hm =>
      have hpos := stripZeros_pos (Nat.toDigits 10 m).length e (Nat.pos_of_ne_zero hm)
      have hvalue := stripZeros_value (Nat.toDigits 10 m).length m e
      have hhead := toDigits_head hpos
      rw [← hvalue]
      split
      · have h := fixedText_number (isDigit_toDigits _) Nat.toDigits_ne_nil hhead
          (stripZeros (Nat.toDigits 10 m).length m e).2
        rwa [digits_toDigits] at h
      · have h := scientificText_number (isDigit_toDigits _) Nat.toDigits_ne_nil hhead
          (stripZeros (Nat.toDigits 10 m).length m e).2
        rwa [digits_toDigits] at h

/-- What `%d` writes is one. -/
theorem formatD_number (n : ℤ) : IsNumber (formatD n) n := by
  have hint : IsUnsigned (Nat.toDigits 10 n.natAbs) (n.natAbs : ℚ) :=
    ⟨_, [], [], n.natAbs, 0, 0, isInt_toDigits _, .none, .none, by rw [List.append_nil,
      List.append_nil], by rw [add_zero, zpow_zero, mul_one]⟩
  unfold formatD
  split
  · next hn =>
      have hvalue : (n : ℚ) = -(n.natAbs : ℚ) := by
        rw [Nat.cast_natAbs, abs_of_neg hn]
        push_cast
        ring
      rw [hvalue]
      exact hint.signed true
  · next hn =>
      have hvalue : (n : ℚ) = (n.natAbs : ℚ) := by
        rw [Nat.cast_natAbs, abs_of_nonneg (not_lt.mp hn)]
      rw [hvalue]
      exact hint.signed false

/-! ## How long it gets -/

theorem length_exponentText {x : ℤ} (hlo : -1000 < x) (hhi : x < 1000) :
    (exponentText x).length ≤ 5 := by
  have hlen : (Nat.toDigits 10 x.natAbs).length ≤ 3 :=
    (Nat.length_toDigits_le_iff (by decide) (by decide)).mpr (by omega)
  unfold exponentText
  rw [List.length_cons, List.length_cons, List.length_append]
  split
  · next hx =>
      rw [Nat.toDigits_of_lt_base hx]
      simp
  · simp only [List.length_nil]
    omega

theorem length_fixedText {k : Nat} {ds : List Char} {e : ℤ} (hlen : ds.length ≤ k)
    (hlo : -4 ≤ e + ds.length - 1) (hhi : e + ds.length - 1 < k) :
    (fixedText ds e).length ≤ k + 5 := by
  unfold fixedText
  split
  · rw [List.length_append, List.length_replicate]
    omega
  · split
    · rw [List.length_append, List.length_cons, List.length_take, List.length_drop]
      omega
    · rw [List.length_cons, List.length_cons, List.length_append, List.length_replicate]
      omega

theorem length_scientificText {k : Nat} {ds : List Char} {e : ℤ} (hlen : ds.length ≤ k)
    (hlo : -1000 < e + ds.length - 1) (hhi : e + ds.length - 1 < 1000) :
    (scientificText ds e).length ≤ k + 6 := by
  have hexp := length_exponentText hlo hhi
  unfold scientificText
  rw [List.length_append, List.length_append, List.length_take]
  split
  · rw [List.length_nil]
    omega
  · rw [List.length_cons, List.length_drop]
    omega

theorem stripZeros_le (fuel m : Nat) (e : ℤ) : (stripZeros fuel m e).1 ≤ m := by
  induction fuel generalizing m e with
  | zero => exact Nat.le_refl m
  | succ fuel ih =>
      unfold stripZeros
      split
      · exact Nat.le_trans (ih _ _) (Nat.div_le_self m 10)
      · exact Nat.le_refl m

/-- The exponent of the leading digit stays. -/
theorem stripZeros_lead (fuel : Nat) {m : Nat} (e : ℤ) (hm : 0 < m) :
    (stripZeros fuel m e).2 + (Nat.toDigits 10 (stripZeros fuel m e).1).length =
      e + (Nat.toDigits 10 m).length := by
  induction fuel generalizing m e with
  | zero => rfl
  | succ fuel ih =>
      unfold stripZeros
      split
      · have hlen := congrArg List.length
          (Nat.toDigits_of_base_le (b := 10) (n := m) (by decide) (by omega))
        rw [List.length_append, List.length_singleton] at hlen
        rw [ih (e + 1) (by omega), hlen]
        push_cast
        ring
      · rfl

/-- At most `k` digits are left, also where rounding carried into one more. -/
theorem length_stripZeros {k m : Nat} (hk : 0 < k) (e : ℤ) (hm : m ≤ 10 ^ k) :
    (Nat.toDigits 10 (stripZeros (Nat.toDigits 10 m).length m e).1).length ≤ k := by
  rw [Nat.length_toDigits_le_iff (by decide) hk]
  rcases Nat.lt_or_eq_of_le hm with hlt | rfl
  · exact Nat.lt_of_le_of_lt (stripZeros_le _ _ _) hlt
  · obtain ⟨j, rfl⟩ : ∃ j, k = j + 1 := ⟨k - 1, by omega⟩
    obtain ⟨fuel, hfuel⟩ : ∃ n, (Nat.toDigits 10 (10 ^ (j + 1))).length = n + 1 :=
      ⟨_, (Nat.succ_pred_eq_of_pos Nat.length_toDigits_pos).symm⟩
    rw [hfuel]
    unfold stripZeros
    rw [if_pos (by rw [Nat.pow_succ]; exact Nat.mul_mod_left _ _)]
    refine Nat.lt_of_le_of_lt (stripZeros_le _ _ _) ?_
    exact Nat.div_lt_self (Nat.pow_pos (by decide)) (by decide)

/-- The text of `%.kg`: a sign, `k` digits, a point and an exponent of up to five. -/
theorem formatG_length {k m : Nat} (hk : 0 < k) (neg : Bool) (e : ℤ) (hm : m ≤ 10 ^ k)
    (hlo : -1000 < e + (Nat.toDigits 10 m).length - 1)
    (hhi : e + (Nat.toDigits 10 m).length - 1 < 1000) : (formatG k neg m e).length ≤ k + 7 := by
  have hsign : (if neg then ['-'] else []).length ≤ 1 := by
    cases neg
    · exact Nat.zero_le 1
    · exact Nat.le_refl 1
  have hlen := length_stripZeros hk e hm
  unfold formatG
  rw [List.length_append]
  by_cases hzero : m = 0
  · rw [if_pos hzero, List.length_singleton]
    omega
  · have hlead := stripZeros_lead (Nat.toDigits 10 m).length e (Nat.pos_of_ne_zero hzero)
    rw [← hlead] at hlo hhi
    rw [if_neg hzero]
    refine Nat.le_trans (Nat.add_le_add hsign ?_) (Nat.le_of_eq (Nat.add_comm 1 (k + 6)))
    split
    · next hx =>
        have := length_fixedText hlen hx.1 hx.2
        omega
    · exact length_scientificText hlen hlo hhi

/-! ## The bytes of a number -/

/-- A character of a number. -/
def NumberChar (c : Char) : Prop := IsDigit c ∨ c = '+' ∨ c = '-' ∨ c = 'e' ∨ c = 'E' ∨ c = '.'

theorem IsExp_chars {cs : List Char} {k : ℤ} (h : IsExp cs k) : ∀ c ∈ cs, NumberChar c := by
  have hexp : ∀ {e : Char}, e = 'e' ∨ e = 'E' → NumberChar e := by
    intro e he
    rcases he with rfl | rfl
    · exact Or.inr (Or.inr (Or.inr (Or.inl rfl)))
    · exact Or.inr (Or.inr (Or.inr (Or.inr (Or.inl rfl))))
  cases h with
  | none => exact List.forall_mem_nil _
  | plain he hne hds => exact List.forall_mem_cons.mpr ⟨hexp he, fun c hc => Or.inl (hds c hc)⟩
  | plus he hne hds =>
      exact List.forall_mem_cons.mpr ⟨hexp he, List.forall_mem_cons.mpr
        ⟨Or.inr (Or.inl rfl), fun c hc => Or.inl (hds c hc)⟩⟩
  | minus he hne hds =>
      exact List.forall_mem_cons.mpr ⟨hexp he, List.forall_mem_cons.mpr
        ⟨Or.inr (Or.inr (Or.inl rfl)), fun c hc => Or.inl (hds c hc)⟩⟩

theorem unsigned_chars {i f e : List Char} {n : Nat} {x : ℚ} {k : ℤ} (hi : IsInt i n)
    (hf : IsFrac f x) (he : IsExp e k) : ∀ c ∈ i ++ f ++ e, NumberChar c := by
  intro c hc
  rcases List.mem_append.mp hc with hc | hc
  · rcases List.mem_append.mp hc with hc | hc
    · exact Or.inl ((IsInt_digits hi).2.1 c hc)
    · cases hf with
      | none => exact absurd hc List.not_mem_nil
      | some hne hds =>
          rcases List.mem_cons.mp hc with rfl | hc
          · exact Or.inr (Or.inr (Or.inr (Or.inr (Or.inr rfl))))
          · exact Or.inl (hds c hc)
  · exact IsExp_chars he c hc

theorem number_chars {cs : List Char} {q : ℚ} (h : IsNumber cs q) : ∀ c ∈ cs, NumberChar c := by
  cases h with
  | pos hi hf he => exact unsigned_chars hi hf he
  | neg hi hf he =>
      exact List.forall_mem_cons.mpr ⟨Or.inr (Or.inr (Or.inl rfl)), unsigned_chars hi hf he⟩

end Lib
