/-
  cJSON string text: `print_string_ptr` and `parse_string`.

  `parse_string` runs over a string twice. The first run finds the closing quote and
  takes one byte off the size of the output for every backslash it jumps over
  (`stringEnd`); the second fills an output of that size (`unescape`), and jumps over
  six bytes at a `\u`, whatever they are. So the two may disagree about where an escape
  begins. `Scans` is where the second run can stand, and `unescape_safe`: it reads no
  byte behind the closing quote and the output never runs over.
  `parseString_stringText`: what is printed is read back.
-/
import DisplayxrMcp.Lib.CStr
import DisplayxrMcp.Cjson.NumberText

namespace Cjson

open Lib

/-! ## print_string_ptr -/

/-- A digit of `%x`. -/
def hexDigit (n : Nat) : UInt8 := (if n < 10 then 48 + n else 87 + n).toUInt8

/-- `%04x`. -/
def hex4 (n : Nat) : CStr :=
  [hexDigit (n / 4096 % 16), hexDigit (n / 256 % 16), hexDigit (n / 16 % 16), hexDigit (n % 16)]

/-- The character of a one character escape. -/
def escapeChar (c : UInt8) : Option UInt8 :=
  if c = 92 then some 92
  else if c = 34 then some 34
  else if c = 8 then some 98
  else if c = 12 then some 102
  else if c = 10 then some 110
  else if c = 13 then some 114
  else if c = 9 then some 116
  else none

/-- What follows the backslash of an escape. -/
def escapeTail (c : UInt8) : CStr :=
  match escapeChar c with
  | some d => [d]
  | none => 117 :: hex4 c.toNat

/-- One byte, escaped where it has to be. -/
def escapeByte (c : UInt8) : CStr :=
  if 31 < c ∧ c ≠ 34 ∧ c ≠ 92 then [c] else 92 :: escapeTail c

/-- What `print_string_ptr` writes. -/
def stringText (s : CStr) : CStr := 34 :: s.flatMap escapeByte ++ [34]

/-- `escape_characters`. -/
def escapeCharacters (s : CStr) : Nat :=
  (s.map fun c => if (escapeChar c).isSome then 1 else if c < 32 then 5 else 0).sum

/-! ## parse_string -/

/-- The value of a hexadecimal digit. -/
def hexDigitValue (c : UInt8) : Option Nat :=
  if 48 ≤ c ∧ c ≤ 57 then some (c.toNat - 48)
  else if 65 ≤ c ∧ c ≤ 70 then some (10 + c.toNat - 65)
  else if 97 ≤ c ∧ c ≤ 102 then some (10 + c.toNat - 97)
  else none

/-- `parse_hex4`: 0 also where one of the four is no digit. -/
def parseHex4 (a b c d : UInt8) : Nat :=
  match hexDigitValue a, hexDigitValue b, hexDigitValue c, hexDigitValue d with
  | some i, some j, some k, some l => ((i * 16 + j) * 16 + k) * 16 + l
  | _, _, _, _ => 0

/-- The UTF-8 of a code point below 0x110000, from its last byte on. -/
def encodeUtf8 (codepoint : Nat) : CStr :=
  let cont := fun c : Nat => ((c ||| 0x80) &&& 0xBF).toUInt8
  if codepoint < 0x80 then [(codepoint &&& 0x7F).toUInt8]
  else if codepoint < 0x800 then
    [((codepoint >>> 6 ||| 0xC0) &&& 0xFF).toUInt8, cont codepoint]
  else if codepoint < 0x10000 then
    [((codepoint >>> 12 ||| 0xE0) &&& 0xFF).toUInt8, cont (codepoint >>> 6), cont codepoint]
  else
    [((codepoint >>> 18 ||| 0xF0) &&& 0xFF).toUInt8, cont (codepoint >>> 12),
      cont (codepoint >>> 6), cont codepoint]

/-- `utf16_literal_to_utf8` on what there is up to `input_end`: the bytes and `sequence_length`. -/
def utf16LiteralToUtf8 : CStr → Option (CStr × Nat)
  | _ :: _ :: a :: b :: c :: d :: second =>
      let firstCode := parseHex4 a b c d
      if 0xDC00 ≤ firstCode ∧ firstCode ≤ 0xDFFF then none
      else if 0xD800 ≤ firstCode ∧ firstCode ≤ 0xDBFF then
        match second with
        | x :: y :: a :: b :: c :: d :: _ =>
            let secondCode := parseHex4 a b c d
            if x ≠ 92 ∨ y ≠ 117 then none
            else if secondCode < 0xDC00 ∨ 0xDFFF < secondCode then none
            else
              some (encodeUtf8 (0x10000 +
                (((firstCode &&& 0x3FF) <<< 10) ||| (secondCode &&& 0x3FF))), 12)
        | _ => none
      else some (encodeUtf8 firstCode, 6)
  | _ => none

/-- The first run, behind the opening quote: the bytes up to the closing one, and
    `skipped_bytes`. -/
def stringEnd : CStr → Option (Nat × Nat)
  | [] => none
  | c :: s =>
      if c = 34 then some (0, 0)
      else if c = 92 then
        match s with
        | [] => none
        | _ :: s => (stringEnd s).map fun r => (r.1 + 2, r.2 + 1)
      else (stringEnd s).map fun r => (r.1 + 1, r.2)

/-- The byte for a one character escape. -/
def unescapeByte (c : UInt8) : Option UInt8 :=
  if c = 98 then some 8
  else if c = 102 then some 12
  else if c = 110 then some 10
  else if c = 114 then some 13
  else if c = 116 then some 9
  else if c = 34 ∨ c = 92 ∨ c = 47 then some c
  else none

theorem length_encodeUtf8 (m : Nat) :
    (encodeUtf8 m).length ≤ 4 ∧ (m < 0x10000 → (encodeUtf8 m).length ≤ 3) := by
  unfold encodeUtf8
  split
  · exact ⟨by simp, fun _ => by simp⟩
  · split
    · exact ⟨by simp, fun _ => by simp⟩
    · split
      · exact ⟨by simp, fun _ => by simp⟩
      · next h => exact ⟨by simp, fun h' => absurd h' h⟩

theorem parseHex4_lt (a b c d : UInt8) : parseHex4 a b c d < 0x10000 := by
  have hdigit : ∀ {x : UInt8} {n : Nat}, hexDigitValue x = some n → n < 16 := by
    intro x n h
    unfold hexDigitValue at h
    simp only [UInt8.le_iff_toNat_le] at h
    split at h
    · next hx => cases h; have := hx.2; simp at this; omega
    · split at h
      · next hx => cases h; have := hx.2; simp at this; omega
      · split at h
        · next hx => cases h; have := hx.2; simp at this; omega
        · cases h
  unfold parseHex4
  split
  · next hi hj hk hl =>
      have := hdigit hi
      have := hdigit hj
      have := hdigit hk
      have := hdigit hl
      omega
  · decide

/-- What is read of a literal and what is written for it. -/
theorem utf16LiteralToUtf8_length {s out : CStr} {n : Nat}
    (h : utf16LiteralToUtf8 s = some (out, n)) :
    n ≤ s.length ∧ (n = 6 ∧ out.length ≤ 3 ∨ n = 12 ∧ out.length ≤ 4) := by
  unfold utf16LiteralToUtf8 at h
  split at h
  · next x y a b c d second =>
      dsimp only at h
      split at h
      · cases h
      · split at h
        · split at h
          · split at h
            · cases h
            · split at h
              · cases h
              · cases h
                refine ⟨?_, Or.inr ⟨rfl, (length_encodeUtf8 _).1⟩⟩
                simp only [List.length_cons]
                omega
          · cases h
        · cases h
          refine ⟨?_, Or.inl ⟨rfl, (length_encodeUtf8 _).2 (parseHex4_lt a b c d)⟩⟩
          simp only [List.length_cons]
          omega
  · cases h

/-- The second run: `left` bytes up to the closing quote, `room` bytes left of the output, the
    last of them for the NUL. -/
def unescape (room left : Nat) (s : CStr) : Returns CStr :=
  match left, s with
  | 0, _ => if room = 0 then throw .fault else pure []
  | _ + 1, [] => throw .fault
  | left + 1, c :: s =>
      if c ≠ 92 then
        if room = 0 then throw .fault else (c :: ·) <$> unescape (room - 1) left s
      else
        match s with
        | [] => throw .fault
        | d :: t =>
            match unescapeByte d with
            | some o =>
                if room = 0 then throw .fault else (o :: ·) <$> unescape (room - 1) (left - 1) t
            | none =>
                if d ≠ 117 then throw .fail
                else
                  match h : utf16LiteralToUtf8 ((c :: d :: t).take (left + 1)) with
                  | none => throw .fail
                  | some (out, n) =>
                      if room < out.length then throw .fault
                      else
                        (out ++ ·) <$> unescape (room - out.length) (left + 1 - n)
                          ((c :: d :: t).drop n)
termination_by left
decreasing_by
  · omega
  · omega
  · have := utf16LiteralToUtf8_length h
    omega

/-- `parse_string`: the string up to its first NUL, and what is left behind the closing quote. -/
def parseString (s : CStr) : Returns (CStr × CStr) :=
  match s with
  | [] => throw .fault
  | c :: s =>
      if c ≠ 34 then throw .fail
      else
        match stringEnd s with
        | none => throw .fail
        | some (n, skipped) => do
            let output ← unescape (n + 2 - skipped) n s
            pure (output.takeWhile (· ≠ 0), s.drop (n + 1))

/-! ## The second run, by cases -/

theorem unescape_zero (room : Nat) (s : CStr) :
    unescape room 0 s = if room = 0 then throw .fault else pure [] := by
  unfold unescape
  rfl

theorem unescape_plain {c : UInt8} (hc : c ≠ 92) (room left : Nat) (s : CStr) :
    unescape room (left + 1) (c :: s) =
      if room = 0 then throw .fault else (c :: ·) <$> unescape (room - 1) left s := by
  rw [unescape.eq_def]
  exact if_pos hc

theorem unescape_short {d o : UInt8} (h : unescapeByte d = some o) (room left : Nat) (t : CStr) :
    unescape room (left + 1) (92 :: d :: t) =
      if room = 0 then throw .fault else (o :: ·) <$> unescape (room - 1) (left - 1) t := by
  rw [unescape, if_neg (by decide)]
  simp only [h]

theorem unescape_literal {left n : Nat} {out t : CStr}
    (h : utf16LiteralToUtf8 ((92 :: 117 :: t).take (left + 1)) = some (out, n)) (room : Nat) :
    unescape room (left + 1) (92 :: 117 :: t) =
      if room < out.length then throw .fault
      else (out ++ ·) <$> unescape (room - out.length) (left + 1 - n) ((92 :: 117 :: t).drop n) := by
  rw [unescape, if_neg (by decide)]
  have hu : unescapeByte 117 = none := by decide
  simp only [hu]
  rw [if_neg (by decide)]
  split
  · next hn => rw [h] at hn; cases hn
  · next hs =>
      rw [h] at hs
      cases hs
      rfl

theorem unescape_bad {d : UInt8} {left : Nat} {t : CStr} (h : unescapeByte d = none)
    (hbad : d = 117 → utf16LiteralToUtf8 ((92 :: d :: t).take (left + 1)) = none) (room : Nat) :
    unescape room (left + 1) (92 :: d :: t) = .error .fail := by
  rw [unescape, if_neg (by decide)]
  simp only [h]
  split
  · rfl
  · next hu =>
      have hnone := hbad (by simpa using hu)
      split
      · rfl
      · next hs => rw [hnone] at hs; cases hs

/-! ## It stays inside -/

/-- Where the second run can stand: `left` bytes and `skipped` backslashes before the closing
    quote. With `m = 0` it is between the two bytes of an escape. -/
inductive Scans : Nat → CStr → Nat → Nat → Prop where
  | start {s left skipped} (h : stringEnd s = some (left, skipped)) : Scans 1 s left skipped
  | inside {c s left skipped} (h : stringEnd s = some (left, skipped)) :
      Scans 0 (c :: s) (left + 1) skipped

theorem Scans.cons {m left skipped : Nat} {s : CStr} (h : Scans m s left skipped) :
    ∃ c t, s = c :: t := by
  cases h with
  | start h =>
      cases s with
      | nil => cases h
      | cons c t => exact ⟨c, t, rfl⟩
  | inside h => exact ⟨_, _, rfl⟩

theorem Scans.zero {m skipped : Nat} {s : CStr} (h : Scans m s 0 skipped) : skipped = 0 := by
  cases h with
  | start h =>
      unfold stringEnd at h
      split at h
      · cases h
      · split at h
        · cases h
          rfl
        · split at h
          · split at h
            · cases h
            · obtain ⟨r, -, hr⟩ := Option.map_eq_some_iff.mp h
              cases hr
          · obtain ⟨r, -, hr⟩ := Option.map_eq_some_iff.mp h
            cases hr

/-- One byte on. -/
theorem Scans.next {m left skipped : Nat} {c : UInt8} {t : CStr}
    (h : Scans m (c :: t) (left + 1) skipped) :
    ∃ m' skipped', Scans m' t left skipped' ∧ 2 * skipped + m' ≤ 2 * skipped' + 1 + m ∧
      (c ≠ 92 → skipped' = skipped) := by
  cases h with
  | inside h => exact ⟨1, skipped, .start h, by omega, fun _ => rfl⟩
  | start h =>
      unfold stringEnd at h
      split at h
      · cases h
      · split at h
        · next hc =>
            split at h
            · cases h
            · obtain ⟨r, hr, he⟩ := Option.map_eq_some_iff.mp h
              cases he
              exact ⟨0, r.2, .inside hr, by omega, fun hne => absurd hc hne⟩
        · obtain ⟨r, hr, he⟩ := Option.map_eq_some_iff.mp h
          cases he
          exact ⟨1, r.2, .start hr, by omega, fun _ => rfl⟩

/-- `j` bytes on: at most every other one was jumped over. -/
theorem Scans.drop {m left skipped : Nat} {s : CStr} (h : Scans m s left skipped) :
    ∀ {j : Nat}, j ≤ left → ∃ m' skipped', Scans m' (s.drop j) (left - j) skipped' ∧
      2 * skipped + m' ≤ 2 * skipped' + j + m := by
  intro j
  induction j generalizing m left skipped s with
  | zero => exact fun _ => ⟨m, skipped, h, by omega⟩
  | succ j ih =>
      intro hj
      obtain ⟨c, t, rfl⟩ := h.cons
      obtain ⟨left, rfl⟩ : ∃ n, left = n + 1 := ⟨left - 1, by omega⟩
      obtain ⟨m', skipped', h', hle, -⟩ := h.next
      obtain ⟨m'', skipped'', h'', hle'⟩ := ih h' (by omega)
      refine ⟨m'', skipped'', ?_, by omega⟩
      rw [List.drop_succ_cons, Nat.add_sub_add_right]
      exact h''

theorem Scans.bound {m left skipped : Nat} {s : CStr} (h : Scans m s left skipped) :
    m ≤ 1 ∧ 2 * skipped ≤ left + m := by
  obtain ⟨m', skipped', h', hle⟩ := h.drop (Nat.le_refl left)
  rw [Nat.sub_self] at h'
  have hzero := h'.zero
  refine ⟨?_, by omega⟩
  cases h with
  | start h => exact Nat.le_refl 1
  | inside h => exact Nat.zero_le 1

/-- The second run reads nothing behind the closing quote and its output has room. -/
theorem unescape_safe (left : Nat) : ∀ (room : Nat) (s : CStr),
    left = 0 ∧ 0 < room ∨ (∃ m skipped, Scans m s left skipped ∧ left + 2 ≤ room + skipped) →
      unescape room left s ≠ .error .fault := by
  have hmap : ∀ {f : CStr → CStr} {x : Returns CStr}, x ≠ .error .fault →
      f <$> x ≠ .error .fault := by
    intro f x hx hf
    cases x with
    | error e =>
        cases e with
        | fail => cases hf
        | fault => exact hx rfl
    | ok a => cases hf
  induction left using Nat.strong_induction_on with
  | _ left ih =>
      intro room s h
      rcases Nat.eq_zero_or_pos left with rfl | hpos
      · have hroom : room ≠ 0 := by
          rcases h with ⟨-, h⟩ | ⟨m, skipped, h, hle⟩
          · omega
          · have := h.zero
            omega
        rw [unescape_zero, if_neg hroom]
        exact fun h => nomatch h
      · obtain ⟨m, skipped, hscan, hle⟩ := h.resolve_left (by omega)
        obtain ⟨c, t, rfl⟩ := hscan.cons
        obtain ⟨left, rfl⟩ : ∃ n, left = n + 1 := ⟨left - 1, by omega⟩
        obtain ⟨m', skipped', hscan', hstep, hplain⟩ := hscan.next
        have hbound := hscan.bound
        have hbound' := hscan'.bound
        by_cases hc : c = 92
        · subst hc
          obtain ⟨d, u, rfl⟩ := hscan'.cons
          cases hd : unescapeByte d with
          | some o =>
              have hroom : room ≠ 0 := by omega
              rw [unescape_short hd, if_neg hroom]
              refine hmap (ih _ (by omega) _ _ ?_)
              -- the backslash may be the last byte before the closing quote
              rcases Nat.eq_zero_or_pos left with rfl | hleft
              · have := hscan'.zero
                exact Or.inl ⟨rfl, by omega⟩
              · obtain ⟨left, rfl⟩ : ∃ n, left = n + 1 := ⟨left - 1, by omega⟩
                obtain ⟨m'', skipped'', hscan'', hstep', -⟩ := hscan'.next
                exact Or.inr ⟨m'', skipped'', hscan'', by omega⟩
          | none =>
              by_cases hu : d = 117
              · subst hu
                cases hl : utf16LiteralToUtf8 ((92 :: 117 :: u).take (left + 1)) with
                | none =>
                    rw [unescape_bad hd fun _ => hl]
                    exact fun h => nomatch h
                | some r =>
                    obtain ⟨out, n⟩ := r
                    obtain ⟨hn, hout⟩ := utf16LiteralToUtf8_length hl
                    rw [List.length_take] at hn
                    have hle' := Nat.le_trans hn (Nat.min_le_left _ _)
                    obtain ⟨m'', skipped'', hscan'', hstep'⟩ := hscan.drop (j := n) (by omega)
                    rw [unescape_literal hl, if_neg (by omega)]
                    exact hmap (ih _ (by omega) _ _ (Or.inr ⟨m'', skipped'', hscan'', by omega⟩))
              · rw [unescape_bad hd fun h => absurd h hu]
                exact fun h => nomatch h
        · have := hplain hc
          rw [unescape_plain hc, if_neg (by omega)]
          exact hmap (ih _ (by omega) _ _ (Or.inr ⟨m', skipped', hscan', by omega⟩))

/-- `parse_string` never leaves its memory, whatever stands in the string. -/
theorem parseString_safe {s : CStr} (hs : s ≠ []) : parseString s ≠ .error .fault := by
  obtain ⟨c, s, rfl⟩ := List.exists_cons_of_ne_nil hs
  unfold parseString
  dsimp only
  split
  · exact fun h => nomatch h
  · split
    · exact fun h => nomatch h
    · next n skipped hend =>
        have hscan := Scans.start hend
        have hbound := hscan.bound
        have hsafe := unescape_safe n (n + 2 - skipped) s (Or.inr ⟨1, skipped, hscan, by omega⟩)
        cases hout : unescape (n + 2 - skipped) n s with
        | ok out => exact fun h => nomatch h
        | error e =>
            cases e with
            | fail => exact fun h => nomatch h
            | fault => exact absurd hout hsafe

/-- What `parse_string` leaves, and what it has read. -/
theorem parseString_ok {s t str : CStr} (h : parseString s = .ok (str, t)) :
    t <:+ s ∧ t.length < s.length ∧ 0 ∉ str := by
  unfold parseString at h
  split at h
  · cases h
  · next c s =>
      split at h
      · cases h
      · split at h
        · cases h
        · next n skipped hend =>
            obtain ⟨out, -, he⟩ := Returns.bind_ok h
            cases he
            refine ⟨(List.drop_suffix _ _).trans (List.suffix_cons c s), ?_, fun hmem => ?_⟩
            · rw [List.length_drop, List.length_cons]
              omega
            · have := List.mem_takeWhile_imp hmem
              exact absurd this (by decide)

/-! ## What it reads -/

/-- A `\u` escape, or two for a surrogate pair. -/
structure IsLiteral (lit out : CStr) : Prop where
  starts : ∃ t, lit = 92 :: 117 :: t
  reads : ∀ rest, utf16LiteralToUtf8 (lit ++ rest) = some (out, lit.length)
  ends : ∃ k, out.length + k ≤ lit.length ∧
    ∀ s, stringEnd (lit ++ s) = (stringEnd s).map fun r => (r.1 + lit.length, r.2 + k)

/-- The contents of a string, and the bytes they stand for. -/
inductive Unescapes : CStr → CStr → Prop where
  | nil : Unescapes [] []
  | plain {c s o} (hq : c ≠ 34) (hb : c ≠ 92) (h : Unescapes s o) : Unescapes (c :: s) (c :: o)
  | short {d b s o} (hd : unescapeByte d = some b) (h : Unescapes s o) :
      Unescapes (92 :: d :: s) (b :: o)
  | literal {lit out s o} (hl : IsLiteral lit out) (h : Unescapes s o) :
      Unescapes (lit ++ s) (out ++ o)

theorem Unescapes.append {a b o p : CStr} (h : Unescapes a o) (h' : Unescapes b p) :
    Unescapes (a ++ b) (o ++ p) := by
  induction h with
  | nil => exact h'
  | plain hq hb _ ih => exact .plain hq hb ih
  | short hd _ ih => exact .short hd ih
  | literal hl _ ih =>
      rw [List.append_assoc, List.append_assoc]
      exact .literal hl ih

/-- The first run finds the closing quote, and the size it computes is enough. -/
theorem Unescapes.stringEnd {s o : CStr} (h : Unescapes s o) (tail : CStr) :
    ∃ k, o.length + k ≤ s.length ∧ stringEnd (s ++ 34 :: tail) = some (s.length, k) := by
  induction h with
  | nil => exact ⟨0, Nat.le_refl 0, by unfold Cjson.stringEnd; rfl⟩
  | @plain c s o hq hb _ ih =>
      obtain ⟨k, hle, hend⟩ := ih
      refine ⟨k, by simp only [List.length_cons]; omega, ?_⟩
      rw [List.cons_append]
      unfold Cjson.stringEnd
      rw [if_neg hq, if_neg hb, hend]
      rfl
  | @short d b s o hd _ ih =>
      obtain ⟨k, hle, hend⟩ := ih
      refine ⟨k + 1, by simp only [List.length_cons]; omega, ?_⟩
      rw [List.cons_append, List.cons_append]
      unfold Cjson.stringEnd
      rw [if_neg (by decide), if_pos rfl]
      dsimp only
      rw [hend]
      rfl
  | @literal lit out s o hl _ ih =>
      obtain ⟨k, hle, hend⟩ := ih
      obtain ⟨j, hout, hends⟩ := hl.ends
      refine ⟨k + j, by simp only [List.length_append]; omega, ?_⟩
      rw [List.append_assoc, hends, hend, List.length_append]
      simp only [Option.map_some]
      rw [Nat.add_comm]

/-- The second run writes what they stand for. -/
theorem Unescapes.unescape {s o : CStr} (h : Unescapes s o) (tail : CStr) :
    ∀ {room : Nat}, o.length < room →
      unescape room s.length (s ++ 34 :: tail) = .ok o := by
  induction h with
  | nil =>
      intro room hroom
      have hne : room ≠ 0 := by
        rw [List.length_nil] at hroom
        omega
      rw [List.length_nil, unescape_zero, if_neg hne]
      rfl
  | @plain c s o hq hb _ ih =>
      intro room hroom
      rw [List.length_cons] at hroom
      rw [List.length_cons, List.cons_append, unescape_plain hb, if_neg (by omega), ih (by omega)]
      rfl
  | @short d b s o hd _ ih =>
      intro room hroom
      rw [List.length_cons] at hroom
      rw [List.length_cons, List.length_cons, List.cons_append, List.cons_append,
        unescape_short hd, if_neg (by omega), Nat.add_sub_cancel, ih (by omega)]
      rfl
  | @literal lit out s o hl _ ih =>
      intro room hroom
      rw [List.length_append] at hroom
      obtain ⟨t, ht⟩ := hl.starts
      have htake : ((lit ++ s ++ 34 :: tail).take (lit ++ s).length) = lit ++ s :=
        List.take_left
      have hlen : (lit ++ s).length = (t ++ s).length + 1 + 1 := by
        rw [ht]
        rfl
      have hread := hl.reads s
      rw [← htake, hlen] at hread
      have hdrop : (lit ++ s ++ 34 :: tail).drop lit.length = s ++ 34 :: tail := by
        rw [List.append_assoc, List.drop_left]
      have hleft : (t ++ s).length + 1 + 1 - lit.length = s.length := by
        rw [← hlen, List.length_append]
        omega
      have hcons : lit ++ s ++ 34 :: tail = 92 :: 117 :: (t ++ s ++ 34 :: tail) := by
        rw [ht]
        rfl
      rw [hlen, hcons]
      rw [hcons] at hread hdrop
      rw [unescape_literal hread, if_neg (by omega), hdrop, hleft, ih (by omega)]
      rfl

/-- A string in quotes is read, up to its first NUL. -/
theorem parseString_unescapes {s o : CStr} (h : Unescapes s o) (tail : CStr) :
    parseString (34 :: s ++ 34 :: tail) = .ok (o.takeWhile (· ≠ 0), tail) := by
  obtain ⟨k, hle, hend⟩ := h.stringEnd tail
  unfold parseString
  simp only [List.cons_append]
  rw [if_neg (by decide), hend]
  dsimp only
  rw [h.unescape tail (by omega)]
  change Except.ok (o.takeWhile (· ≠ 0), (s ++ 34 :: tail).drop (s.length + 1)) = _
  rw [← List.drop_drop, List.drop_left]
  rfl

/-! ## Literals -/

theorem hexDigitValue_ne {c : UInt8} {n : Nat} (h : hexDigitValue c = some n) :
    c ≠ 34 ∧ c ≠ 92 := by
  refine ⟨?_, ?_⟩
  · rintro rfl
    cases h
  · rintro rfl
    cases h

theorem parseHex4_some {a b c d : UInt8} {i j k l : Nat} (ha : hexDigitValue a = some i)
    (hb : hexDigitValue b = some j) (hc : hexDigitValue c = some k)
    (hd : hexDigitValue d = some l) :
    parseHex4 a b c d = ((i * 16 + j) * 16 + k) * 16 + l := by
  unfold parseHex4
  rw [ha, hb, hc, hd]

theorem stringEnd_plain {c : UInt8} (hq : c ≠ 34) (hb : c ≠ 92) (s : CStr) :
    stringEnd (c :: s) = (stringEnd s).map fun r => (r.1 + 1, r.2) := by
  conv_lhs => unfold stringEnd
  rw [if_neg hq, if_neg hb]

theorem stringEnd_escape (d : UInt8) (s : CStr) :
    stringEnd (92 :: d :: s) = (stringEnd s).map fun r => (r.1 + 2, r.2 + 1) := by
  conv_lhs => unfold stringEnd
  rw [if_neg (by decide), if_pos rfl]

theorem stringEnd_hex {a b c d : UInt8} {i j k l : Nat} (ha : hexDigitValue a = some i)
    (hb : hexDigitValue b = some j) (hc : hexDigitValue c = some k)
    (hd : hexDigitValue d = some l) (s : CStr) :
    stringEnd (92 :: 117 :: a :: b :: c :: d :: s) =
      (stringEnd s).map fun r => (r.1 + 6, r.2 + 1) := by
  obtain ⟨ha1, ha2⟩ := hexDigitValue_ne ha
  obtain ⟨hb1, hb2⟩ := hexDigitValue_ne hb
  obtain ⟨hc1, hc2⟩ := hexDigitValue_ne hc
  obtain ⟨hd1, hd2⟩ := hexDigitValue_ne hd
  rw [stringEnd_escape, stringEnd_plain ha1 ha2, stringEnd_plain hb1 hb2, stringEnd_plain hc1 hc2,
    stringEnd_plain hd1 hd2]
  cases stringEnd s <;> rfl

/-- An escape that is no surrogate. -/
theorem isLiteral_one {a b c d : UInt8} {i j k l : Nat} (ha : hexDigitValue a = some i)
    (hb : hexDigitValue b = some j) (hc : hexDigitValue c = some k)
    (hd : hexDigitValue d = some l)
    (hsur : ¬ (0xD800 ≤ parseHex4 a b c d ∧ parseHex4 a b c d ≤ 0xDFFF)) :
    IsLiteral [92, 117, a, b, c, d] (encodeUtf8 (parseHex4 a b c d)) := by
  refine ⟨⟨_, rfl⟩, fun rest => ?_, 1, ?_, fun s => stringEnd_hex ha hb hc hd s⟩
  · unfold utf16LiteralToUtf8
    simp only [List.cons_append, List.nil_append]
    rw [if_neg (by omega), if_neg (by omega)]
    rfl
  · have := (length_encodeUtf8 (parseHex4 a b c d)).2 (parseHex4_lt a b c d)
    simp only [List.length_cons, List.length_nil]
    omega

/-- Two that are a surrogate pair. -/
theorem isLiteral_pair {a b c d e f g h : UInt8} {i j k l i' j' k' l' : Nat}
    (ha : hexDigitValue a = some i) (hb : hexDigitValue b = some j) (hc : hexDigitValue c = some k)
    (hd : hexDigitValue d = some l) (he : hexDigitValue e = some i')
    (hf : hexDigitValue f = some j') (hg : hexDigitValue g = some k')
    (hh : hexDigitValue h = some l')
    (hhigh : 0xD800 ≤ parseHex4 a b c d ∧ parseHex4 a b c d ≤ 0xDBFF)
    (hlow : 0xDC00 ≤ parseHex4 e f g h ∧ parseHex4 e f g h ≤ 0xDFFF) :
    IsLiteral [92, 117, a, b, c, d, 92, 117, e, f, g, h]
      (encodeUtf8 (0x10000 +
        (((parseHex4 a b c d &&& 0x3FF) <<< 10) ||| (parseHex4 e f g h &&& 0x3FF)))) := by
  refine ⟨⟨_, rfl⟩, fun rest => ?_, 2, ?_, fun s => ?_⟩
  · unfold utf16LiteralToUtf8
    simp only [List.cons_append, List.nil_append]
    rw [if_neg (by omega), if_pos hhigh, if_neg (by decide), if_neg (by omega)]
    rfl
  · have := (length_encodeUtf8 (0x10000 +
        (((parseHex4 a b c d &&& 0x3FF) <<< 10) ||| (parseHex4 e f g h &&& 0x3FF)))).1
    simp only [List.length_cons, List.length_nil]
    omega
  · simp only [List.cons_append, List.nil_append]
    rw [stringEnd_hex ha hb hc hd, stringEnd_hex he hf hg hh]
    cases stringEnd s <;> rfl

/-! ## What is printed -/

theorem hexDigitValue_hexDigit {n : Nat} (h : n < 16) : hexDigitValue (hexDigit n) = some n := by
  have hall : ∀ n : Nat, n < 16 → hexDigitValue (hexDigit n) = some n := by decide
  exact hall n h

theorem unescapeByte_escapeChar {c d : UInt8} (h : escapeChar c = some d) :
    unescapeByte d = some c := by
  unfold escapeChar at h
  split_ifs at h with h92 h34 h8 h12 h10 h13 h9
  · cases h; rw [h92]; rfl
  · cases h; rw [h34]; rfl
  · cases h; rw [h8]; rfl
  · cases h; rw [h12]; rfl
  · cases h; rw [h10]; rfl
  · cases h; rw [h13]; rfl
  · cases h; rw [h9]; rfl

theorem hexDigit_printable {n : Nat} (h : n < 16) : 32 ≤ hexDigit n := by
  have hall : ∀ n : Nat, n < 16 → 32 ≤ hexDigit n := by decide
  exact hall n h

theorem escapeChar_plain {c : UInt8} (h : 31 < c ∧ c ≠ 34 ∧ c ≠ 92) : escapeChar c = none := by
  have hlt : ∀ d : UInt8, d ≤ 31 → c ≠ d := by
    rintro d hd rfl
    exact absurd (UInt8.lt_of_lt_of_le h.1 hd) (UInt8.lt_irrefl _)
  unfold escapeChar
  rw [if_neg h.2.2, if_neg h.2.1, if_neg (hlt 8 (by decide)), if_neg (hlt 12 (by decide)),
    if_neg (hlt 10 (by decide)), if_neg (hlt 13 (by decide)), if_neg (hlt 9 (by decide))]

theorem escapeChar_printable {c d : UInt8} (h : escapeChar c = some d) : 32 ≤ d := by
  unfold escapeChar at h
  split_ifs at h <;> (cases h; decide)

/-- No control character is printed. -/
theorem escapeByte_printable (c : UInt8) : ∀ b ∈ escapeByte c, 32 ≤ b := by
  intro b hb
  unfold escapeByte at hb
  split at hb
  · next hc =>
      rw [List.mem_singleton.mp hb]
      exact UInt8.le_iff_toNat_le.mpr (UInt8.lt_iff_toNat_lt.mp hc.1)
  · rcases List.mem_cons.mp hb with rfl | hb
    · decide
    · unfold escapeTail at hb
      split at hb
      · next d hd =>
          rw [List.mem_singleton.mp hb]
          exact escapeChar_printable hd
      · rcases List.mem_cons.mp hb with rfl | hb
        · decide
        · unfold hex4 at hb
          simp only [List.mem_cons, List.not_mem_nil, or_false] at hb
          rcases hb with rfl | rfl | rfl | rfl <;>
            exact hexDigit_printable (Nat.mod_lt _ (by decide))

theorem encodeUtf8_ascii {n : Nat} (h : n < 0x80) : encodeUtf8 n = [n.toUInt8] := by
  have hall : ∀ n : Nat, n < 0x80 → encodeUtf8 n = [n.toUInt8] := by decide
  exact hall n h

/-- Every byte is printed as text that stands for it. -/
theorem escapeByte_unescapes (c : UInt8) : Unescapes (escapeByte c) [c] := by
  unfold escapeByte
  split
  · next hc => exact .plain hc.2.1 hc.2.2 .nil
  · next hc =>
      unfold escapeTail
      split
      · next d hd => exact .short (unescapeByte_escapeChar hd) .nil
      · next hd =>
          have hlt : c.toNat < 32 := by
            rw [UInt8.lt_iff_toNat_lt] at hc
            by_contra hge
            refine hc ⟨Nat.lt_of_lt_of_le (by decide) (Nat.le_of_not_lt hge), ?_, ?_⟩
            · rintro rfl
              cases hd
            · rintro rfl
              cases hd
          have hdigit : ∀ m : Nat, hexDigitValue (hexDigit (m % 16)) = some (m % 16) :=
            fun m => hexDigitValue_hexDigit (Nat.mod_lt m (by decide))
          have hvalue := parseHex4_some (hdigit (c.toNat / 4096)) (hdigit (c.toNat / 256))
            (hdigit (c.toNat / 16)) (hdigit c.toNat)
          have hnum : parseHex4 (hexDigit (c.toNat / 4096 % 16)) (hexDigit (c.toNat / 256 % 16))
              (hexDigit (c.toNat / 16 % 16)) (hexDigit (c.toNat % 16)) = c.toNat := by
            rw [hvalue]
            omega
          have hlit := isLiteral_one (hdigit (c.toNat / 4096)) (hdigit (c.toNat / 256))
            (hdigit (c.toNat / 16)) (hdigit c.toNat) (by omega)
          rw [hnum, encodeUtf8_ascii (by omega), Nat.toUInt8_eq, UInt8.ofNat_toNat] at hlit
          exact .literal hlit .nil

/-- What is printed of a string is read back up to its first NUL, whatever follows it. -/
theorem parseString_stringText (s tail : CStr) :
    parseString (stringText s ++ tail) = .ok (s.takeWhile (· ≠ 0), tail) := by
  have hall : Unescapes (s.flatMap escapeByte) s := by
    induction s with
    | nil => exact .nil
    | cons c s ih => exact (escapeByte_unescapes c).append ih
  have hread := parseString_unescapes hall tail
  unfold stringText
  rwa [List.append_assoc]

end Cjson
