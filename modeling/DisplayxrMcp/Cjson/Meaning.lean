/-
  cJSON against RFC 8259.

  `parse_limited`: a text that RFC 8259 derives is read as the value it denotes, if no
  number has more than 63 characters, nothing is nested deeper than `CJSON_NESTING_LIMIT`
  and no surrogate stands alone. `ofValue` is the tree: numbers become doubles, a string
  ends at its first NUL. `text_denotes`: what the printer writes of UTF-8 strings is such
  a text.
-/
import DisplayxrMcp.Lib.Limited
import DisplayxrMcp.Lib.Utf16
import DisplayxrMcp.Cjson.Print

namespace Cjson

open Lib Rfc8259 Json

/-! ## UTF-8 -/

set_option maxRecDepth 10000 in
theorem contByte (n : Nat) : ((n ||| 0x80) &&& 0xBF).toUInt8 = UInt8.ofNat (n % 64 + 0x80) := by
  have hall : ∀ m : Nat, m < 256 →
      ((UInt8.ofNat m ||| 0x80) &&& 0xBF) = UInt8.ofNat (m % 64 + 0x80) := by
    decide
  have hmod : UInt8.ofNat n = UInt8.ofNat (n % 256) := by
    apply UInt8.toNat_inj.mp
    simp
  rw [Nat.toUInt8_eq, UInt8.ofNat_and, UInt8.ofNat_or, hmod]
  have := hall (n % 256) (Nat.mod_lt n (by decide))
  rw [Nat.mod_mod_of_dvd n (by decide : 64 ∣ 256)] at this
  exact this

theorem leadByte {n : Nat} (h : n < 0x20) :
    ((n ||| 0xC0) &&& 0xFF).toUInt8 = UInt8.ofNat (n + 0xC0) ∧
      (n < 0x10 → ((n ||| 0xE0) &&& 0xFF).toUInt8 = UInt8.ofNat (n + 0xE0)) ∧
      (n < 0x08 → ((n ||| 0xF0) &&& 0xFF).toUInt8 = UInt8.ofNat (n + 0xF0)) := by
  have hall : ∀ n : Nat, n < 0x20 → ((n ||| 0xC0) &&& 0xFF).toUInt8 = UInt8.ofNat (n + 0xC0) ∧
      (n < 0x10 → ((n ||| 0xE0) &&& 0xFF).toUInt8 = UInt8.ofNat (n + 0xE0)) ∧
      (n < 0x08 → ((n ||| 0xF0) &&& 0xFF).toUInt8 = UInt8.ofNat (n + 0xF0)) := by
    decide
  exact hall n h

/-- The code point of a character is written as its UTF-8. -/
theorem encodeUtf8_char (c : Char) : encodeUtf8 c.toNat = String.utf8EncodeChar c := by
  have hc := char_range c
  have hv : c.val.toNat = c.toNat := rfl
  unfold encodeUtf8 String.utf8EncodeChar
  simp only [hv, contByte, Nat.shiftRight_eq_div_pow, Nat.reducePow]
  split
  · next h =>
      have hmask : c.toNat &&& 0x7F = c.toNat := by
        rw [show (0x7F : Nat) = 2 ^ 7 - 1 by rfl, Nat.and_two_pow_sub_one_eq_mod]
        exact Nat.mod_eq_of_lt h
      rw [if_pos (show c.toNat ≤ 0x7f by omega), hmask, Nat.toUInt8_eq]
  · rw [if_neg (show ¬ c.toNat ≤ 0x7f by omega)]
    split
    · have h : c.toNat / 64 < 0x20 := by omega
      rw [if_pos (show c.toNat ≤ 0x7ff by omega), (leadByte h).1, Nat.mod_eq_of_lt h]
    · rw [if_neg (show ¬ c.toNat ≤ 0x7ff by omega)]
      split
      · have h : c.toNat / 4096 < 0x10 := by omega
        rw [if_pos (show c.toNat ≤ 0xffff by omega), (leadByte (by omega)).2.1 h,
          Nat.mod_eq_of_lt h]
      · have h : c.toNat / 262144 < 0x08 := by omega
        rw [if_neg (show ¬ c.toNat ≤ 0xffff by omega), (leadByte (by omega)).2.2 h,
          Nat.mod_eq_of_lt h]

theorem toNat_ofNat {n : Nat} (h : n.isValidChar) : (Char.ofNat n).toNat = n := by
  unfold Char.ofNat
  rw [dif_pos h]
  rfl

theorem encodeUtf8_ofNat {n : Nat} (h : n < 0xD800 ∨ 0xDFFF < n ∧ n < 0x110000) :
    encodeUtf8 n = String.utf8EncodeChar (Char.ofNat n) := by
  rw [← encodeUtf8_char, toNat_ofNat h]

theorem utf8_cons (c : Char) (cs : List Char) : utf8 (c :: cs) = String.utf8EncodeChar c ++ utf8 cs :=
  List.flatMap_cons

theorem utf8_append (a b : List Char) : utf8 (a ++ b) = utf8 a ++ utf8 b := List.flatMap_append

theorem utf8_ascii {cs : List Char} (h : ∀ c ∈ cs, c.toNat < 0x80) : utf8 cs = bytes cs := by
  induction cs with
  | nil => rfl
  | cons c cs ih =>
      rw [utf8_cons, utf8EncodeChar_ascii (h c List.mem_cons_self),
        ih fun d hd => h d (List.mem_cons_of_mem c hd)]
      rfl

theorem utf8_comma (cs : List Char) : utf8 (',' :: cs) = 44 :: utf8 cs := by
  rw [utf8_cons, utf8EncodeChar_ascii (by decide)]
  rfl

theorem utf8_colon (cs : List Char) : utf8 (':' :: cs) = 58 :: utf8 cs := by
  rw [utf8_cons, utf8EncodeChar_ascii (by decide)]
  rfl

/-! ## Strings -/

/-- Bytes that are copied. -/
theorem unescapes_plain {b : CStr} (h : ∀ c ∈ b, c ≠ 34 ∧ c ≠ 92) : Unescapes b b := by
  induction b with
  | nil => exact .nil
  | cons c b ih =>
      have hc := h c List.mem_cons_self
      exact .plain hc.1 hc.2 (ih fun d hd => h d (List.mem_cons_of_mem c hd))

theorem char_bytes {c : Char} (hq : c ≠ quotationMark) (he : c ≠ escape) :
    ∀ b ∈ String.utf8EncodeChar c, b ≠ 34 ∧ b ≠ 92 := by
  intro b hb
  rcases Nat.lt_or_ge c.toNat 0x80 with hlt | hge
  · rw [utf8EncodeChar_ascii hlt, List.mem_singleton] at hb
    have hall : ∀ n : Nat, n < 0x80 → (n.toUInt8 = 34 → n = 34) ∧ (n.toUInt8 = 92 → n = 92) := by
      decide
    have hn := hall c.toNat hlt
    refine ⟨fun h => hq ?_, fun h => he ?_⟩
    · rw [← Char.ofNat_toNat c, hn.1 (hb ▸ h)]
      rfl
    · rw [← Char.ofNat_toNat c, hn.2 (hb ▸ h)]
      rfl
  · have hb' := ge_of_mem_utf8EncodeChar hge hb
    refine ⟨?_, ?_⟩
    · rintro rfl
      exact absurd hb' (by decide)
    · rintro rfl
      exact absurd hb' (by decide)

theorem unescapes_char {c : Char} (hq : c ≠ quotationMark) (he : c ≠ escape) :
    Unescapes (String.utf8EncodeChar c) (String.utf8EncodeChar c) :=
  unescapes_plain (char_bytes hq he)

set_option maxRecDepth 10000 in
theorem isLiteral_hex {a b c d : Char} {i j k l : Nat} (ha : hexValue a = some i)
    (hb : hexValue b = some j) (hc : hexValue c = some k) (hd : hexValue d = some l) :
    ∃ w x y z, utf8 [escape, 'u', a, b, c, d] = [92, 117, w, x, y, z] ∧
      hexDigitValue w = some i ∧ hexDigitValue x = some j ∧ hexDigitValue y = some k ∧
      hexDigitValue z = some l ∧ parseHex4 w x y z = ((i * 16 + j) * 16 + k) * 16 + l := by
  have hdigit : ∀ {c : Char} {n : Nat}, hexValue c = some n →
      c.toNat < 0x80 ∧ hexDigitValue c.toNat.toUInt8 = some n := by
    intro c n h
    have hall : ∀ m : Nat, m < 0x67 → hexValue (Char.ofNat m) = hexDigitValue m.toUInt8 := by
      decide
    have hlt : c.toNat < 0x67 := by
      unfold hexValue at h
      split at h
      · omega
      · split at h
        · omega
        · split at h
          · omega
          · cases h
    have := hall c.toNat hlt
    rw [Char.ofNat_toNat, h] at this
    exact ⟨by omega, this.symm⟩
  obtain ⟨ha1, ha2⟩ := hdigit ha
  obtain ⟨hb1, hb2⟩ := hdigit hb
  obtain ⟨hc1, hc2⟩ := hdigit hc
  obtain ⟨hd1, hd2⟩ := hdigit hd
  refine ⟨_, _, _, _, ?_, ha2, hb2, hc2, hd2, parseHex4_some ha2 hb2 hc2 hd2⟩
  rw [utf8_ascii]
  · rfl
  · simp only [List.mem_cons, List.not_mem_nil, or_false]
    rintro x (rfl | rfl | rfl | rfl | rfl | rfl)
    · decide
    · decide
    · exact ha1
    · exact hb1
    · exact hc1
    · exact hd1

theorem hexDigit_lt {c : Char} {n : Nat} (h : hexValue c = some n) : n < 16 := by
  unfold hexValue at h
  split at h
  · cases h
    omega
  · split at h
    · cases h
      omega
    · split at h
      · cases h
        omega
      · cases h

/-- The code unit of a hexadecimal escape. -/
theorem hexUnit {a b c d : Char} {i j k l : Nat} (ha : hexValue a = some i)
    (hb : hexValue b = some j) (hc : hexValue c = some k) (hd : hexValue d = some l) :
    ((((i * 16 + j) * 16 + k) * 16 + l).toUInt16).toNat = ((i * 16 + j) * 16 + k) * 16 + l := by
  have := hexDigit_lt ha
  have := hexDigit_lt hb
  have := hexDigit_lt hc
  have := hexDigit_lt hd
  exact toNat_toUInt16 (by omega)

/-- The code point that `utf16_literal_to_utf8` puts together. -/
theorem pairValue_bits {u v : UInt16} (hu : IsHigh u) (hv : IsLow v) :
    0x10000 + (((u.toNat &&& 0x3FF) <<< 10) ||| (v.toNat &&& 0x3FF)) = pairValue u v := by
  have hmask : ∀ n : Nat, n &&& 0x3FF = n % 0x400 := fun n => Nat.and_two_pow_sub_one_eq_mod n 10
  obtain ⟨hu1, hu2⟩ := hu
  obtain ⟨hv1, hv2⟩ := hv
  rw [hmask, hmask, ← Nat.shiftLeft_add_eq_or_of_lt (show v.toNat % 0x400 < 2 ^ 10 by omega),
    Nat.shiftLeft_eq]
  unfold pairValue
  omega

theorem map_cons_eq {c : Char} {x : Option (List Char)} {cs : List Char}
    (h : (c :: ·) <$> x = some cs) : ∃ ds, x = some ds ∧ cs = c :: ds := by
  obtain ⟨ds, hds, rfl⟩ := Option.map_eq_some_iff.mp h
  exact ⟨ds, hds, rfl⟩

theorem escapes_facts : ∀ e ∈ escapes, ¬ IsHigh e.2 ∧ ¬ IsLow e.2 ∧ e.1.toNat < 0x80 ∧
    unescapeByte e.1.toNat.toUInt8 = some e.2.toNat.toUInt8 ∧
    String.utf8EncodeChar (Char.ofNat e.2.toNat) = [e.2.toNat.toUInt8] := by
  decide

/-- Only a hexadecimal escape begins with a low surrogate. -/
theorem isChar_low {t : List Char} {us vs : List UInt16} {v : UInt16} (h : IsChar t us)
    (hv : us = v :: vs) (hlow : IsLow v) :
    ∃ a b c d i j k l, t = [escape, 'u', a, b, c, d] ∧ hexValue a = some i ∧
      hexValue b = some j ∧ hexValue c = some k ∧ hexValue d = some l ∧ vs = [] ∧
      v = (((i * 16 + j) * 16 + k) * 16 + l).toUInt16 := by
  cases h with
  | @unescaped c hc hq he =>
      obtain ⟨u, us', hu, hnot⟩ := utf16_head c
      rw [hu] at hv
      exact absurd ((List.cons.inj hv).1 ▸ hlow) hnot
  | escaped h =>
      have := (escapes_facts _ h).2.1
      exact absurd ((List.cons.inj hv).1 ▸ hlow) this
  | @hex a b c d i j k l ha hb hc hd =>
      exact ⟨a, b, c, d, i, j, k, l, rfl, ha, hb, hc, hd, (List.cons.inj hv).2.symm,
        (List.cons.inj hv).1.symm⟩

theorem isChar_units {t : List Char} {us : List UInt16} (h : IsChar t us) :
    ∃ v vs, us = v :: vs := by
  cases h with
  | @unescaped c hc hq he =>
      obtain ⟨u, us', hu, -⟩ := utf16_head c
      exact ⟨u, us', hu⟩
  | escaped h => exact ⟨_, _, rfl⟩
  | hex ha hb hc hd => exact ⟨_, _, rfl⟩

/-- The contents of a string without a lone surrogate stand for its characters. -/
theorem unescapes_items (n : Nat) : ∀ (items : List (List Char × List UInt16)) (cs : List Char),
    items.length = n → (∀ i ∈ items, IsChar i.1 i.2) →
      decode (items.flatMap Prod.snd) = some cs →
        Unescapes (utf8 (items.flatMap Prod.fst)) (utf8 cs) := by
  induction n using Nat.strong_induction_on with
  | _ n ih =>
      intro items cs hn hitems hd
      cases items with
      | nil =>
          cases hd
          exact .nil
      | cons item items =>
          obtain ⟨t, us⟩ := item
          rw [List.length_cons] at hn
          have hrest := fun ds => ih items.length (by omega) items ds rfl
            fun i hi => hitems i (List.mem_cons_of_mem _ hi)
          rw [List.flatMap_cons] at hd ⊢
          rw [utf8_append]
          dsimp only at hd ⊢
          have hitem : IsChar t us := hitems _ List.mem_cons_self
          cases hitem with
          | @unescaped c hc hq he =>
              rw [decode_utf16] at hd
              obtain ⟨ds, hds, rfl⟩ := map_cons_eq hd
              have hbytes : utf8 [c] = String.utf8EncodeChar c := List.flatMap_singleton _ _
              rw [hbytes, utf8_cons]
              exact (unescapes_char hq he).append (hrest ds hds)
          | @escaped c u h =>
              obtain ⟨hhigh, hlow, hascii, hun, henc⟩ := escapes_facts _ h
              rw [List.singleton_append, decode_single hhigh hlow] at hd
              obtain ⟨ds, hds, rfl⟩ := map_cons_eq hd
              have hbytes : utf8 [escape, c] = [92, c.toNat.toUInt8] := by
                rw [utf8_cons, utf8_cons, utf8EncodeChar_ascii (by decide),
                  utf8EncodeChar_ascii hascii]
                rfl
              rw [hbytes, utf8_cons, henc]
              exact .short hun (hrest ds hds)
          | @hex a b c d i j k l ha hb hc hd' =>
              obtain ⟨w, x, y, z, hbytes, hw, hx, hy, hz, hvalue⟩ := isLiteral_hex ha hb hc hd'
              have hunit := hexUnit ha hb hc hd'
              rw [← hvalue] at hunit hd
              rw [hbytes]
              by_cases hhigh : IsHigh (parseHex4 w x y z).toUInt16
              · rw [List.singleton_append] at hd
                obtain ⟨v, vs, hvs, hlow⟩ := decode_high hhigh hd
                cases items with
                | nil => cases hvs
                | cons second items =>
                    obtain ⟨t', us'⟩ := second
                    have hsecond : IsChar t' us' :=
                      hitems _ (List.mem_cons_of_mem _ List.mem_cons_self)
                    rw [List.flatMap_cons] at hvs hd ⊢
                    dsimp only at hvs hd ⊢
                    obtain ⟨v', vs', hus'⟩ := isChar_units hsecond
                    rw [hus', List.cons_append] at hvs
                    obtain ⟨rfl, -⟩ := List.cons.inj hvs
                    obtain ⟨a', b', c', d', i', j', k', l', rfl, ha', hb', hc', hd'', rfl, rfl⟩ :=
                      isChar_low hsecond hus' hlow
                    obtain ⟨w', x', y', z', hbytes', hw', hx', hy', hz', hvalue'⟩ :=
                      isLiteral_hex ha' hb' hc' hd''
                    have hunit' := hexUnit ha' hb' hc' hd''
                    rw [← hvalue'] at hunit' hus' hlow
                    rw [hus', List.singleton_append, decode_pair hhigh hlow] at hd
                    obtain ⟨ds, hds, rfl⟩ := map_cons_eq hd
                    have hpair := pairValue_bits hhigh hlow
                    rw [hunit, hunit'] at hpair
                    have hread := ih items.length (by rw [List.length_cons] at hn; omega) items ds
                      rfl (fun i hi => hitems i
                        (List.mem_cons_of_mem _ (List.mem_cons_of_mem _ hi))) hds
                    have hlit := isLiteral_pair hw hx hy hz hw' hx' hy' hz'
                      (by unfold IsHigh at hhigh; rwa [hunit] at hhigh)
                      (by unfold IsLow at hlow; rwa [hunit'] at hlow)
                    rw [hpair, encodeUtf8_ofNat (by
                      unfold IsHigh at hhigh
                      unfold IsLow at hlow
                      unfold pairValue
                      omega)] at hlit
                    rw [utf8_append, hbytes', utf8_cons, ← List.append_assoc]
                    exact .literal hlit hread
              · by_cases hlow : IsLow (parseHex4 w x y z).toUInt16
                · rw [List.singleton_append, decode_low hlow] at hd
                  cases hd
                · rw [List.singleton_append, decode_single hhigh hlow, hunit] at hd
                  obtain ⟨ds, hds, rfl⟩ := map_cons_eq hd
                  unfold IsHigh at hhigh
                  unfold IsLow at hlow
                  rw [hunit] at hhigh hlow
                  have hlt := parseHex4_lt w x y z
                  rw [utf8_cons, ← encodeUtf8_ofNat (by omega)]
                  exact .literal (isLiteral_one hw hx hy hz (by omega)) (hrest ds hds)

/-- A string of RFC 8259 is read up to its first NUL. -/
theorem parseString_string {t : List Char} {us : List UInt16} {cs : List Char}
    (h : IsString t us) (hd : decode us = some cs) (tail : CStr) :
    parseString (utf8 t ++ tail) = .ok ((utf8 cs).takeWhile (· ≠ 0), tail) := by
  obtain ⟨hitems⟩ := h
  have hquote : utf8 [quotationMark] = [34] := by decide
  have hread := parseString_unescapes (unescapes_items _ _ cs rfl hitems hd) tail
  rw [utf8_append, utf8_cons, hquote, List.append_assoc]
  exact hread

/-! ## Trees of values -/

/-- The bytes of a string in a tree, which ends at its first NUL. -/
def ofUnits (us : List UInt16) : Option CStr :=
  (decode us).map fun cs => (utf8 cs).takeWhile (· ≠ 0)

mutual

/-- The tree of a value, unless a surrogate stands alone in it. -/
def ofValue : Value → Option Json
  | .null => some .null
  | .bool b => some (.bool b)
  | .number q => some (.num (toDouble q))
  | .string us => do pure (.str (← ofUnits us))
  | .array vs => do pure (.arr (← ofValues vs))
  | .object ms => do pure (.obj (← ofMembers ms))

def ofValues : List Value → Option (List Json)
  | [] => some []
  | v :: vs => do pure ((← ofValue v) :: (← ofValues vs))

def ofMembers : List (List UInt16 × Value) → Option (List (CStr × Json))
  | [] => some []
  | (us, v) :: ms => do pure ((← ofUnits us, ← ofValue v) :: (← ofMembers ms))

end

theorem bind_some {α β : Type} {x : Option α} {f : α → Option β} {b : β} (h : x >>= f = some b) :
    ∃ a, x = some a ∧ f a = some b :=
  Option.bind_eq_some_iff.mp h

theorem ofValues_cons {v : Value} {vs : List Value} {l : List Json}
    (h : ofValues (v :: vs) = some l) :
    ∃ j l', ofValue v = some j ∧ ofValues vs = some l' ∧ l = j :: l' := by
  rw [ofValues] at h
  obtain ⟨j, hj, h⟩ := bind_some h
  obtain ⟨l', hl', h⟩ := bind_some h
  cases h
  exact ⟨j, l', hj, hl', rfl⟩

theorem ofMembers_cons {us : List UInt16} {v : Value} {ms : List (List UInt16 × Value)}
    {l : List (CStr × Json)} (h : ofMembers ((us, v) :: ms) = some l) :
    ∃ cs j l', decode us = some cs ∧ ofValue v = some j ∧ ofMembers ms = some l' ∧
      l = ((utf8 cs).takeWhile (· ≠ 0), j) :: l' := by
  rw [ofMembers] at h
  obtain ⟨name, hname, h⟩ := bind_some h
  obtain ⟨j, hj, h⟩ := bind_some h
  obtain ⟨l', hl', h⟩ := bind_some h
  obtain ⟨cs, hcs, rfl⟩ := Option.map_eq_some_iff.mp hname
  cases h
  exact ⟨cs, j, l', hcs, hj, hl', rfl⟩

/-! ## Reading a text of RFC 8259 -/

theorem number_ascii {cs : List Char} {q : ℚ} (h : IsNumber cs q) : ∀ c ∈ cs, c.toNat < 0x80 := by
  intro c hc
  rcases number_chars h c hc with h | rfl | rfl | rfl | rfl | rfl
  · exact Nat.lt_of_le_of_lt h.2 (by decide)
  · decide
  · decide
  · decide
  · decide
  · decide

theorem number_utf8 {cs : List Char} {q : ℚ} (h : IsNumber cs q) : utf8 cs = bytes cs :=
  utf8_ascii (number_ascii h)

theorem limited_opens {n levels : Nat} {t : List Char} {v : Value} (h : Limited n levels t v) :
    ∃ c s, utf8 t = c :: s ∧ Opens c := by
  have hhead : ∀ (d : Char) (ds : List Char), d.toNat < 0x80 → Opens d.toNat.toUInt8 →
      ∃ c s, utf8 (d :: ds) = c :: s ∧ Opens c := by
    intro d ds hd hopens
    rw [utf8_cons, utf8EncodeChar_ascii hd]
    exact ⟨_, _, rfl, hopens⟩
  cases h with
  | null => exact hhead _ _ (by decide) (Or.inl rfl)
  | true => exact hhead _ _ (by decide) (Or.inr (Or.inr (Or.inl rfl)))
  | false => exact hhead _ _ (by decide) (Or.inr (Or.inl rfl))
  | number h hn =>
      obtain ⟨c, s, hs, hc⟩ := number_opens h
      rw [number_utf8 h, hs]
      exact ⟨c, s, rfl, .number hc⟩
  | string h =>
      obtain ⟨-⟩ := h
      exact hhead _ _ (by decide) (Or.inr (Or.inr (Or.inr (Or.inl rfl))))
  | emptyArray hw => exact hhead _ _ (by decide) (Or.inr (Or.inr (Or.inr (Or.inr (Or.inl rfl)))))
  | array hne hws h =>
      exact hhead _ _ (by decide) (Or.inr (Or.inr (Or.inr (Or.inr (Or.inl rfl)))))
  | emptyObject hw =>
      exact hhead _ _ (by decide) (Or.inr (Or.inr (Or.inr (Or.inr (Or.inr (Or.inl rfl))))))
  | object hne hws hname h =>
      exact hhead _ _ (by decide) (Or.inr (Or.inr (Or.inr (Or.inr (Or.inr (Or.inl rfl))))))

theorem string_bytes {t : List Char} {us : List UInt16} (h : IsString t us) :
    ∃ s, utf8 t = 34 :: s := by
  obtain ⟨-⟩ := h
  exact ⟨_, utf8_cons _ _⟩

theorem ws_bytes {w : List Char} (hw : ∀ c ∈ w, IsWs c) :
    ∀ b ∈ utf8 w, b ≤ 32 ∧ isNumberByte b = false := by
  intro b hb
  obtain ⟨c, hc, hmem⟩ := List.mem_flatMap.mp hb
  have hall : ∀ n : Nat, n = 0x20 ∨ n = 0x09 ∨ n = 0x0A ∨ n = 0x0D →
      n < 0x80 ∧ n.toUInt8 ≤ 32 ∧ isNumberByte n.toUInt8 = false := by
    rintro n (rfl | rfl | rfl | rfl) <;> decide
  obtain ⟨hlt, hle⟩ := hall c.toNat (hw c hc)
  rw [utf8EncodeChar_ascii hlt, List.mem_singleton] at hmem
  rwa [hmem]

/-- A text begins as its first part does. -/
theorem separated_bytes {c : UInt8} {t : List Char} {u : CStr} (h : utf8 t = c :: u)
    (texts : List (List Char)) : ∃ s, utf8 (separated (t :: texts)) = c :: s := by
  cases texts with
  | nil => exact ⟨u, by rw [separated_singleton, h]⟩
  | cons s texts => exact ⟨_, by rw [separated_cons, utf8_append, h, List.cons_append]⟩

theorem length_separated (texts : List (List Char)) (h : ∀ t ∈ texts, 0 < (utf8 t).length) :
    texts.length ≤ (utf8 (separated texts)).length := by
  induction texts with
  | nil => exact Nat.zero_le _
  | cons t texts ih =>
      have ht := h t List.mem_cons_self
      cases texts with
      | nil =>
          rw [separated_singleton]
          exact ht
      | cons u texts =>
          have := ih fun s hs => h s (List.mem_cons_of_mem t hs)
          rw [separated_cons, utf8_append, utf8_cons, List.length_append, List.length_append,
            List.length_cons]
          omega

theorem skipWhitespace_ws {w : List Char} (hw : ∀ c ∈ w, IsWs c) {c : UInt8} (hc : 32 < c)
    (s : CStr) : skipWhitespace (utf8 w ++ c :: s) = c :: s := by
  have hdrop : (utf8 w ++ c :: s).dropWhile (· ≤ 32) = (c :: s).dropWhile (· ≤ 32) :=
    List.dropWhile_append_of_pos fun b hb => decide_eq_true (ws_bytes hw b hb).1
  have hkeep := skipWhitespace_of_head hc s
  unfold skipWhitespace at hkeep ⊢
  rw [hdrop]
  rw [List.dropWhile_cons, if_neg (by rw [decide_eq_true_eq]; exact UInt8.not_le.mpr hc)]

theorem clear_ws {w : List Char} (hw : ∀ c ∈ w, IsWs c) {tail : CStr} (htail : Clear tail) :
    Clear (utf8 w ++ tail) := by
  cases hbytes : utf8 w with
  | nil => exact htail
  | cons b bs =>
      refine clear_cons (ws_bytes hw b ?_).2 _
      rw [hbytes]
      exact List.mem_cons_self

theorem skipUtf8Bom_ws {w : List Char} (hw : ∀ c ∈ w, IsWs c) {c : UInt8} (hc : c ≠ 0xEF)
    (s : CStr) : skipUtf8Bom (utf8 w ++ c :: s) = utf8 w ++ c :: s := by
  unfold skipUtf8Bom
  refine if_neg fun h => ?_
  cases hbytes : utf8 w with
  | nil =>
      rw [hbytes, List.nil_append] at h
      exact hc (List.cons_prefix_cons.mp h.2).1.symm
  | cons b bs =>
      rw [hbytes, List.cons_append] at h
      have hb := (ws_bytes hw b (by rw [hbytes]; exact List.mem_cons_self)).1
      rw [← (List.cons_prefix_cons.mp h.2).1] at hb
      exact absurd hb (by decide)

theorem length_chars {n levels : Nat} {i : Item} (h : Limited n levels i.text i.value) :
    0 < (utf8 i.chars).length := by
  obtain ⟨c, s, hs, -⟩ := limited_opens h
  unfold Item.chars
  rw [utf8_append, utf8_append, List.length_append, List.length_append, hs, List.length_cons]
  omega

/-- A parser of values that reads the texts within `levels`. -/
def ReadsValues (levels : Nat) (value : CStr → Returns (Json × CStr)) : Prop :=
  ∀ {t : List Char} {v : Value} {j : Json} {tail : CStr}, Limited 63 levels t v →
    ofValue v = some j → Clear tail → value (utf8 t ++ tail) = .ok (j, tail)

/-- The bracket, and a loop that stops at its counterpart. -/
theorem parseArray_loop {value : CStr → Returns (Json × CStr)} {s u tail : CStr} {l : List Json} (hskip : skipWhitespace s = u)
    (hu : ∃ c t, u = c :: t ∧ c ≠ 93)
    (hloop : parseElements value u.length u = .ok (l, 93 :: tail)) :
    parseArray value (91 :: s) = .ok (.arr l, tail) := by
  obtain ⟨c, t, rfl, hc⟩ := hu
  unfold parseArray
  dsimp only
  rw [if_neg (by decide), hskip]
  split
  · next h => exact absurd (List.cons.inj h).1 hc
  · next h => cases h
  · rw [hloop]
    rfl

/-- The brace. -/
theorem parseObject_loop {value : CStr → Returns (Json × CStr)} {s u tail : CStr}
    {l : List (CStr × Json)} (hskip : skipWhitespace s = u) (hu : ∃ c t, u = c :: t ∧ c ≠ 125)
    (hloop : parseMembers value u.length u = .ok (l, 125 :: tail)) :
    parseObject value (123 :: s) = .ok (.obj l, tail) := by
  obtain ⟨c, t, rfl, hc⟩ := hu
  unfold parseObject
  dsimp only
  rw [if_neg (by decide), hskip]
  split
  · next h => exact absurd (List.cons.inj h).1 hc
  · next h => cases h
  · rw [hloop]
    rfl

section Values

variable {levels : Nat} {value : CStr → Returns (Json × CStr)} (hv : ReadsValues levels value)
include hv

/-- A value and the white space around it. -/
theorem value_item {i : Item} {j : Json} (hws : i.Spaced) (h : Limited 63 levels i.text i.value)
    (hj : ofValue i.value = some j) (c : UInt8) (hc : 32 < c) (hclear : isNumberByte c = false)
    (s : CStr) :
    ∃ t, value (skipWhitespace (utf8 i.chars ++ c :: s)) = .ok (j, t) ∧
      skipWhitespace t = c :: s := by
  obtain ⟨d, u, hu, hd⟩ := limited_opens h
  have hskip : skipWhitespace (utf8 i.chars ++ c :: s) =
      utf8 i.text ++ (utf8 i.after ++ c :: s) := by
    unfold Item.chars
    rw [utf8_append, utf8_append, List.append_assoc, List.append_assoc, hu, List.cons_append]
    exact skipWhitespace_ws hws.1 hd.facts.1 _
  refine ⟨utf8 i.after ++ c :: s, ?_, skipWhitespace_ws hws.2 hc s⟩
  rw [hskip]
  exact hv h hj (clear_ws hws.2 (clear_cons hclear s))

theorem parseElements_values : ∀ (fuel : Nat) {items : List Item} {l : List Json} (tail : CStr),
    items ≠ [] → items.length ≤ fuel → (∀ i ∈ items, i.Spaced) →
      (∀ i ∈ items, Limited 63 levels i.text i.value) →
        ofValues (items.map Item.value) = some l →
          parseElements value fuel (utf8 (separated (items.map Item.chars)) ++ 93 :: tail) =
            .ok (l, 93 :: tail) := by
  intro fuel items l tail hne
  induction items generalizing fuel l with
  | nil => exact absurd rfl hne
  | cons i items ih =>
      intro hfuel hws hitems hl
      obtain ⟨fuel, rfl⟩ : ∃ n, fuel = n + 1 := ⟨fuel - 1, by
        rw [List.length_cons] at hfuel
        omega⟩
      rw [List.length_cons] at hfuel
      obtain ⟨j, l', hj, hl', rfl⟩ := ofValues_cons hl
      have hi := value_item hv (hws i List.mem_cons_self) (hitems i List.mem_cons_self) hj
      unfold parseElements
      cases items with
      | nil =>
          cases hl'
          obtain ⟨t, hread, hskip⟩ := hi 93 (by decide) (by decide) tail
          rw [List.map_cons, List.map_nil, separated_singleton, hread, Returns.ok_bind]
          dsimp only
          rw [hskip]
          rfl
      | cons k items =>
          have hrest := ih fuel (List.cons_ne_nil k items) (by omega)
            (fun i hi => hws i (List.mem_cons_of_mem _ hi))
            (fun i hi => hitems i (List.mem_cons_of_mem _ hi)) hl'
          obtain ⟨t, hread, hskip⟩ := hi 44 (by decide) (by decide)
            (utf8 (separated ((k :: items).map Item.chars)) ++ 93 :: tail)
          rw [List.map_cons, List.map_cons, separated_cons, ← List.map_cons, utf8_append, utf8_comma,
            List.append_assoc, List.cons_append, hread, Returns.ok_bind]
          dsimp only
          rw [hskip]
          change parseElements value fuel _ >>= _ = _
          rw [hrest]
          rfl

theorem parseArray_values {items : List Item} {l : List Json} (hne : items ≠ [])
    (hws : ∀ i ∈ items, i.Spaced) (hitems : ∀ i ∈ items, Limited 63 levels i.text i.value)
    (hl : ofValues (items.map Item.value) = some l) (tail : CStr) :
    parseArray value (91 :: (utf8 (separated (items.map Item.chars)) ++ 93 :: tail)) =
      .ok (.arr l, tail) := by
  obtain ⟨i, items, rfl⟩ := List.exists_cons_of_ne_nil hne
  obtain ⟨hwsi, hwsr⟩ := List.forall_mem_cons.mp hws
  obtain ⟨hi, hr⟩ := List.forall_mem_cons.mp hitems
  obtain ⟨c, s, hs, hc⟩ := limited_opens hi
  have hhead : utf8 i.trimmed.chars = c :: (s ++ utf8 i.after) := by
    unfold Item.chars Item.trimmed
    rw [List.nil_append, utf8_append, hs, List.cons_append]
  obtain ⟨u, hu⟩ := separated_bytes hhead (items.map Item.chars)
  have htrim : parseElements value (utf8 (separated ((i.trimmed :: items).map Item.chars)) ++
      93 :: tail).length (utf8 (separated ((i.trimmed :: items).map Item.chars)) ++ 93 :: tail) =
        .ok (l, 93 :: tail) := by
    have hitems' : ∀ k ∈ i.trimmed :: items, Limited 63 levels k.text k.value :=
      List.forall_mem_cons.mpr ⟨hi, hr⟩
    refine parseElements_values hv _ tail (List.cons_ne_nil _ _) ?_
      (List.forall_mem_cons.mpr ⟨⟨List.forall_mem_nil _, hwsi.2⟩, hwsr⟩) hitems' hl
    have hfits := length_separated ((i.trimmed :: items).map Item.chars) ?_
    · rw [List.length_map] at hfits
      rw [List.length_append]
      omega
    · intro t ht
      obtain ⟨k, hk, rfl⟩ := List.mem_map.mp ht
      exact length_chars (hitems' k hk)
  refine parseArray_loop ?_ ⟨c, u ++ 93 :: tail, ?_, hc.facts.2.1⟩ htrim
  · rw [List.map_cons, separated_trimmed i.chars_trimmed, utf8_append, List.append_assoc,
      List.map_cons, hu]
    exact skipWhitespace_ws hwsi.1 hc.facts.1 _
  · rw [List.map_cons, hu, List.cons_append]

/-- A member, up to the separator behind it. -/
theorem parseMembers_member (fuel : Nat) {m : Member} {cs : List Char} {j : Json}
    (hws : m.Spaced) (hname : IsString m.nameText m.name)
    (h : Limited 63 levels m.item.text m.item.value) (hcs : decode m.name = some cs)
    (hj : ofValue m.item.value = some j) (c : UInt8) (hc : 32 < c)
    (hclear : isNumberByte c = false) (s : CStr) :
    parseMembers value (fuel + 1) (utf8 m.chars ++ c :: s) =
      match c :: s with
      | 44 :: s =>
          (fun r => (((utf8 cs).takeWhile (· ≠ 0), j) :: r.1, r.2)) <$> parseMembers value fuel s
      | s => pure ([((utf8 cs).takeWhile (· ≠ 0), j)], s) := by
  obtain ⟨hws1, hws2, hws3⟩ := hws
  obtain ⟨t, hread, hskip⟩ := value_item hv hws3 h hj c hc hclear s
  obtain ⟨u, hu⟩ := string_bytes hname
  have hname' : parseString (skipWhitespace (utf8 m.chars ++ c :: s)) =
      .ok ((utf8 cs).takeWhile (· ≠ 0), utf8 m.after ++ 58 :: (utf8 m.item.chars ++ c :: s)) := by
    have hchars : utf8 m.chars ++ c :: s =
        utf8 m.before ++ (utf8 m.nameText ++ (utf8 m.after ++ 58 :: (utf8 m.item.chars ++ c :: s))) := by
      unfold Member.chars
      rw [utf8_append, utf8_append, utf8_append, utf8_colon]
      simp only [List.append_assoc, List.cons_append]
    rw [hchars, hu, List.cons_append, skipWhitespace_ws hws1 (by decide), ← List.cons_append,
      ← hu]
    exact parseString_string hname hcs _
  have hne : utf8 m.chars ++ c :: s ≠ [] := List.append_ne_nil_of_right_ne_nil _ (List.cons_ne_nil _ _)
  conv_lhs => unfold parseMembers
  rw [if_neg hne, hname', Returns.ok_bind]
  dsimp only
  rw [skipWhitespace_ws hws2 (by decide)]
  change value (skipWhitespace _) >>= _ = _
  rw [hread, Returns.ok_bind]
  dsimp only
  rw [hskip]
  rfl

theorem parseMembers_values : ∀ (fuel : Nat) {members : List Member} {l : List (CStr × Json)}
    (tail : CStr), members ≠ [] → members.length ≤ fuel → (∀ m ∈ members, m.Spaced) →
      (∀ m ∈ members, IsString m.nameText m.name) →
        (∀ m ∈ members, Limited 63 levels m.item.text m.item.value) →
          ofMembers (members.map fun m => (m.name, m.item.value)) = some l →
            parseMembers value fuel (utf8 (separated (members.map Member.chars)) ++ 125 :: tail) =
              .ok (l, 125 :: tail) := by
  intro fuel members l tail hne
  induction members generalizing fuel l with
  | nil => exact absurd rfl hne
  | cons m members ih =>
      intro hfuel hws hnames hitems hl
      obtain ⟨fuel, rfl⟩ : ∃ n, fuel = n + 1 := ⟨fuel - 1, by
        rw [List.length_cons] at hfuel
        omega⟩
      rw [List.length_cons] at hfuel
      obtain ⟨cs, j, l', hcs, hj, hl', rfl⟩ := ofMembers_cons hl
      have hm := parseMembers_member hv fuel (hws m List.mem_cons_self)
        (hnames m List.mem_cons_self) (hitems m List.mem_cons_self) hcs hj
      cases members with
      | nil =>
          cases hl'
          rw [List.map_cons, List.map_nil, separated_singleton,
            hm 125 (by decide) (by decide) tail]
          rfl
      | cons k members =>
          have hrest := ih fuel (List.cons_ne_nil k members) (by omega)
            (fun i hi => hws i (List.mem_cons_of_mem _ hi))
            (fun i hi => hnames i (List.mem_cons_of_mem _ hi))
            (fun i hi => hitems i (List.mem_cons_of_mem _ hi)) hl'
          have hstep := hm 44 (by decide) (by decide)
            (utf8 (separated ((k :: members).map Member.chars)) ++ 125 :: tail)
          rw [List.map_cons, List.map_cons, separated_cons, ← List.map_cons, utf8_append, utf8_comma,
            List.append_assoc, List.cons_append, hstep]
          change _ <$> parseMembers value fuel _ = _
          rw [hrest]
          rfl

theorem parseObject_values {members : List Member} {l : List (CStr × Json)} (hne : members ≠ [])
    (hws : ∀ m ∈ members, m.Spaced) (hnames : ∀ m ∈ members, IsString m.nameText m.name)
    (hitems : ∀ m ∈ members, Limited 63 levels m.item.text m.item.value)
    (hl : ofMembers (members.map fun m => (m.name, m.item.value)) = some l) (tail : CStr) :
    parseObject value (123 :: (utf8 (separated (members.map Member.chars)) ++ 125 :: tail)) =
      .ok (.obj l, tail) := by
  obtain ⟨m, members, rfl⟩ := List.exists_cons_of_ne_nil hne
  obtain ⟨hwsm, hwsr⟩ := List.forall_mem_cons.mp hws
  have hnames' : ∀ k ∈ m.trimmed :: members, IsString k.nameText k.name :=
    List.forall_mem_cons.mpr (List.forall_mem_cons.mp hnames)
  obtain ⟨s, hs⟩ := string_bytes (hnames m List.mem_cons_self)
  have hhead : utf8 m.trimmed.chars = 34 :: (s ++ utf8 (m.after ++ ':' :: m.item.chars)) := by
    unfold Member.chars Member.trimmed
    rw [List.nil_append, List.append_assoc, utf8_append, hs, List.cons_append]
  obtain ⟨u, hu⟩ := separated_bytes hhead (members.map Member.chars)
  have htrim : parseMembers value (utf8 (separated ((m.trimmed :: members).map Member.chars)) ++
      125 :: tail).length (utf8 (separated ((m.trimmed :: members).map Member.chars)) ++
        125 :: tail) = .ok (l, 125 :: tail) := by
    refine parseMembers_values hv _ tail (List.cons_ne_nil _ _) ?_
      (List.forall_mem_cons.mpr ⟨⟨List.forall_mem_nil _, hwsm.2⟩, hwsr⟩) hnames'
      (List.forall_mem_cons.mpr (List.forall_mem_cons.mp hitems)) hl
    have hfits := length_separated ((m.trimmed :: members).map Member.chars) ?_
    · rw [List.length_map] at hfits
      rw [List.length_append]
      omega
    · intro t ht
      obtain ⟨k, hk, rfl⟩ := List.mem_map.mp ht
      obtain ⟨v, hv'⟩ := string_bytes (hnames' k hk)
      unfold Member.chars
      rw [List.append_assoc, List.append_assoc, utf8_append, utf8_append, hv', List.length_append,
        List.length_append, List.length_cons]
      omega
  refine parseObject_loop ?_ ⟨34, u ++ 125 :: tail, ?_, by decide⟩ htrim
  · rw [List.map_cons, separated_trimmed m.chars_trimmed, utf8_append, List.append_assoc,
      List.map_cons, hu]
    exact skipWhitespace_ws hwsm.1 (by decide) _
  · rw [List.map_cons, hu, List.cons_append]

end Values

theorem parseArray_empty {value : CStr → Returns (Json × CStr)} {w : List Char}
    (hw : ∀ c ∈ w, IsWs c) (tail : CStr) :
    parseArray value (91 :: (utf8 w ++ 93 :: tail)) = .ok (.arr [], tail) := by
  unfold parseArray
  dsimp only
  rw [if_neg (by decide), skipWhitespace_ws hw (by decide)]
  rfl

theorem parseObject_empty {value : CStr → Returns (Json × CStr)} {w : List Char}
    (hw : ∀ c ∈ w, IsWs c) (tail : CStr) :
    parseObject value (123 :: (utf8 w ++ 125 :: tail)) = .ok (.obj [], tail) := by
  unfold parseObject
  dsimp only
  rw [if_neg (by decide), skipWhitespace_ws hw (by decide)]
  rfl

/-- Where nothing is opened, no depth is used. -/
theorem parseValueWith_leaf {array object : CStr → Returns (Json × CStr)} {t : List Char}
    {v : Value} {j : Json} {tail : CStr} (ht : Limited 63 0 t v) (hj : ofValue v = some j)
    (htail : Clear tail) : parseValueWith array object (utf8 t ++ tail) = .ok (j, tail) := by
  cases ht with
  | null =>
      rw [ofValue] at hj
      cases hj
      exact parseValueWith_null tail
  | true =>
      rw [ofValue] at hj
      cases hj
      exact parseValueWith_bool true tail
  | false =>
      rw [ofValue] at hj
      cases hj
      exact parseValueWith_bool false tail
  | number h hn =>
      rw [ofValue] at hj
      cases hj
      have hread := parseNumber_number h hn htail
      obtain ⟨c, s, hs, hc⟩ := number_opens h
      rw [number_utf8 h, hs]
      rw [hs] at hread
      exact parseValueWith_number hc hread
  | string h =>
      rw [ofValue] at hj
      obtain ⟨us, hus, hj⟩ := bind_some hj
      cases hj
      obtain ⟨cs, hcs, rfl⟩ := Option.map_eq_some_iff.mp hus
      have hread := parseString_string h hcs tail
      obtain ⟨s, hs⟩ := string_bytes h
      rw [hs] at hread ⊢
      exact parseValueWith_string hread

theorem utf8_enclosed {c d : Char} (hc : c.toNat < 0x80) (hd : d.toNat < 0x80) (w : List Char)
    (tail : CStr) : utf8 (c :: w ++ [d]) ++ tail =
      c.toNat.toUInt8 :: (utf8 w ++ d.toNat.toUInt8 :: tail) := by
  rw [utf8_append, utf8_cons, utf8EncodeChar_ascii hc, utf8_cons, utf8EncodeChar_ascii hd,
    List.append_assoc, List.append_assoc]
  rfl

/-- `parse_value` reads every text within its limits. -/
theorem parseValue_values (levels : Nat) : ReadsValues levels (parseValue levels) := by
  induction levels with
  | zero => exact fun ht hj htail => parseValueWith_leaf ht hj htail
  | succ levels ih =>
      intro t v j tail ht hj htail
      unfold parseValue
      cases ht with
      | null => exact parseValueWith_leaf .null hj htail
      | true => exact parseValueWith_leaf .true hj htail
      | false => exact parseValueWith_leaf .false hj htail
      | number h hn => exact parseValueWith_leaf (.number h hn) hj htail
      | string h => exact parseValueWith_leaf (.string h) hj htail
      | emptyArray hw =>
          rw [ofValue, ofValues] at hj
          cases hj
          rw [utf8_enclosed (by decide) (by decide)]
          exact (parseValueWith_array _).trans (parseArray_empty hw tail)
      | array hne hws h =>
          rw [ofValue] at hj
          obtain ⟨l, hl, hj⟩ := bind_some hj
          cases hj
          rw [utf8_enclosed (by decide) (by decide)]
          exact (parseValueWith_array _).trans (parseArray_values ih hne hws h hl tail)
      | emptyObject hw =>
          rw [ofValue, ofMembers] at hj
          cases hj
          rw [utf8_enclosed (by decide) (by decide)]
          exact (parseValueWith_object _).trans (parseObject_empty hw tail)
      | object hne hws hname h =>
          rw [ofValue] at hj
          obtain ⟨l, hl, hj⟩ := bind_some hj
          cases hj
          rw [utf8_enclosed (by decide) (by decide)]
          exact (parseValueWith_object _).trans (parseObject_values ih hne hws hname h hl tail)

/-- The parser reads every text of RFC 8259 within its limits as the value it denotes. -/
theorem parse_limited {i : Item} {j : Json} (hws : i.Spaced)
    (h : Limited 63 nestingLimit i.text i.value) (hj : ofValue i.value = some j) :
    parseWithLength (utf8 i.chars) = .ok j ∧ parse (utf8 i.chars) = .ok j := by
  have hread : ∀ {tail : CStr}, Clear tail →
      parseWithLength (utf8 i.chars ++ tail) = .ok j := by
    intro tail htail
    obtain ⟨c, s, hs, hc⟩ := limited_opens h
    have hchars : utf8 i.chars ++ tail = utf8 i.before ++ c :: (s ++ (utf8 i.after ++ tail)) := by
      unfold Item.chars
      rw [utf8_append, utf8_append, hs, List.append_assoc, List.append_assoc, List.cons_append]
    have hne : utf8 i.before ++ c :: (s ++ (utf8 i.after ++ tail)) ≠ [] :=
      List.append_ne_nil_of_right_ne_nil _ (List.cons_ne_nil _ _)
    unfold parseWithLength
    rw [hchars, if_neg hne, skipUtf8Bom_ws hws.1 hc.facts.2.2.2, skipWhitespace_ws hws.1 hc.facts.1,
      ← List.cons_append, ← hs, parseValue_values nestingLimit h hj (clear_ws hws.2 htail)]
    rfl
  have hnil : parseWithLength (utf8 i.chars ++ []) = .ok j := hread fun c hc => nomatch hc
  rw [List.append_nil] at hnil
  exact ⟨hnil, hread (clear_cons (by decide) [])⟩

/-- An array, with white space around it. -/
theorem parse_limited_true : parseWithLength (utf8 [' ', '[', 't', 'r', 'u', 'e', ']', ' ']) =
      .ok (.arr [.bool true]) ∧
    parse (utf8 [' ', '[', 't', 'r', 'u', 'e', ']', ' ']) = .ok (.arr [.bool true]) := by
  have hlimited : Limited 63 (999 + 1) ['[', 't', 'r', 'u', 'e', ']'] (.array [.bool true]) := by
    refine @Limited.array 63 999 [⟨[], ['t', 'r', 'u', 'e'], [], .bool true⟩]
      (List.cons_ne_nil _ _) ?_ ?_
    · exact List.forall_mem_singleton.mpr ⟨List.forall_mem_nil _, List.forall_mem_nil _⟩
    · exact List.forall_mem_singleton.mpr .true
  have hspace : ∀ c ∈ [' '], IsWs c := List.forall_mem_singleton.mpr (by decide)
  exact parse_limited (i := ⟨[' '], ['[', 't', 'r', 'u', 'e', ']'], [' '], .array [.bool true]⟩)
    ⟨hspace, hspace⟩ hlimited rfl

end Cjson
