/-
  What flattening does to JSON: `dxr_stdio_encode` for ndjson.

  The grammar is that of Lib.Rfc8259. CR and LF are control characters, so in a JSON
  text they stand only where white space does, and a space denotes the same there.
  Every value can be sent as one ndjson line (`value_message`), so what the reader's
  trimming leaves of a text is one (`trim_text`).
-/
import DisplayxrMcp.Lib.Rfc8259
import DisplayxrMcp.Stdio.Limit

namespace DisplayxrMcp.Stdio

open Lib Rfc8259

/-- A JSON text in UTF-8 and the value it denotes. -/
def JsonText (b : Bytes) (v : Value) : Prop := ∃ cs, b = utf8 cs ∧ IsText cs v

/-- `flatByte` on a character. -/
def flatChar (c : Char) : Char := if c.toNat = 10 ∨ c.toNat = 13 then ' ' else c

theorem respells_flatChar : Respells flatChar := by
  refine ⟨fun c hc => if_neg (by omega), fun c hc => ?_⟩
  unfold flatChar
  split
  · exact Or.inl rfl
  · exact hc

theorem flat_utf8 (cs : List Char) : flat (utf8 cs) = utf8 (cs.map flatChar) := by
  refine map_utf8 (fun c hc => ?_) (fun c hc => if_neg (by omega)) (fun b hb => ?_) cs
  · have hbyte : ∀ n : Nat, n < 0x80 → (n.toUInt8 = 10 ↔ n = 10) ∧ (n.toUInt8 = 13 ↔ n = 13) := by
      decide
    obtain ⟨h10, h13⟩ := hbyte c.toNat hc
    unfold flatByte
    by_cases hcr : c.toNat = 10 ∨ c.toNat = 13
    · rw [if_pos hcr, if_pos]
      · exact ⟨by decide, by decide⟩
      · rw [Bool.or_eq_true, decide_eq_true_eq, decide_eq_true_eq, h10, h13]
        exact hcr
    · rw [if_neg hcr, if_neg]
      · exact ⟨hc, rfl⟩
      · rw [Bool.or_eq_true, decide_eq_true_eq, decide_eq_true_eq, h10, h13]
        exact hcr
  · unfold flatByte
    rw [if_neg]
    rw [Bool.or_eq_true, decide_eq_true_eq, decide_eq_true_eq]
    rintro (rfl | rfl)
    · exact absurd hb (by decide)
    · exact absurd hb (by decide)

/-! ## Values as messages -/

/-- It begins with an ASCII character that a value can begin with. -/
def Opens (cs : List Char) : Prop :=
  ∃ c t, cs = c :: t ∧ c.toNat < 0x80 ∧ c.toNat.toUInt8 ∈ valueStarts

/-- It ends with an ASCII character that is no white space. -/
def Closes (cs : List Char) : Prop :=
  ∃ t c, cs = t ++ [c] ∧ c.toNat < 0x80 ∧ isWs c.toNat.toUInt8 = false

theorem message_utf8 {cs : List Char} (ho : Opens cs) (hc : Closes cs) : Message (utf8 cs) := by
  refine ⟨?_, ?_⟩
  · obtain ⟨c, t, rfl, hlt, hmem⟩ := ho
    refine ⟨_, hmem, ?_⟩
    unfold utf8
    rw [List.flatMap_cons, utf8EncodeChar_ascii hlt]
    rfl
  · obtain ⟨t, c, rfl, hlt, hws⟩ := hc
    intro d hd
    unfold utf8 at hd
    rw [List.flatMap_append, List.flatMap_singleton, utf8EncodeChar_ascii hlt,
      List.getLast?_concat] at hd
    cases hd
    exact hws

theorem isDigit_cases {c : Char} (h : IsDigit c) :
    c.toNat < 0x80 ∧ c.toNat.toUInt8 ∈ valueStarts ∧ isWs c.toNat.toUInt8 = false := by
  have hall : ∀ n : Nat, n < 0x3A → 0x30 ≤ n →
      n.toUInt8 ∈ valueStarts ∧ isWs n.toUInt8 = false := by
    decide
  obtain ⟨hlo, hhi⟩ := h
  exact ⟨by omega, hall c.toNat (by omega) hlo⟩

/-- Digits close what they end. -/
theorem closes_digits {a ds : List Char} (hne : ds ≠ []) (hds : ∀ c ∈ ds, IsDigit c) :
    Closes (a ++ ds) := by
  obtain ⟨hlt, -, hws⟩ := isDigit_cases (hds _ (List.getLast_mem hne))
  refine ⟨a ++ ds.dropLast, ds.getLast hne, ?_, hlt, hws⟩
  rw [List.append_assoc, List.dropLast_append_getLast]

theorem closes_number {i f e : List Char} {n : Nat} {x : ℚ} {k : ℤ} (a : List Char)
    (hi : IsInt i n) (hf : IsFrac f x) (he : IsExp e k) : Closes (a ++ (i ++ f ++ e)) := by
  cases he with
  | none =>
      rw [List.append_nil]
      cases hf with
      | none =>
          rw [List.append_nil]
          cases hi with
          | zero =>
              exact closes_digits (List.cons_ne_nil _ _) (List.forall_mem_singleton.mpr (by decide))
          | pos hd hne hds =>
              exact closes_digits (List.cons_ne_nil _ _) (List.forall_mem_cons.mpr ⟨hd, hds⟩)
      | @some ds hne hds =>
          have hsplit : a ++ (i ++ '.' :: ds) = (a ++ i ++ ['.']) ++ ds := by simp
          rw [hsplit]
          exact closes_digits hne hds
  | @plain e ds he hne hds =>
      have hsplit : a ++ (i ++ f ++ e :: ds) = (a ++ i ++ f ++ [e]) ++ ds := by simp
      rw [hsplit]
      exact closes_digits hne hds
  | @plus e ds he hne hds =>
      have hsplit : a ++ (i ++ f ++ e :: '+' :: ds) = (a ++ i ++ f ++ [e, '+']) ++ ds := by simp
      rw [hsplit]
      exact closes_digits hne hds
  | @minus e ds he hne hds =>
      have hsplit : a ++ (i ++ f ++ e :: '-' :: ds) = (a ++ i ++ f ++ [e, '-']) ++ ds := by simp
      rw [hsplit]
      exact closes_digits hne hds

theorem number_message {cs : List Char} {q : ℚ} (h : IsNumber cs q) : Message (utf8 cs) := by
  cases h with
  | @pos i f e n x k hi hf he =>
      refine message_utf8 ?_ (closes_number [] hi hf he)
      cases hi with
      | zero => exact ⟨'0', _, rfl, by decide, by decide⟩
      | pos hd hne hds =>
          obtain ⟨hlt, hmem, -⟩ := isDigit_cases hd
          exact ⟨_, _, rfl, hlt, hmem⟩
  | neg hi hf he =>
      exact message_utf8 ⟨'-', _, rfl, by decide, by decide⟩ (closes_number ['-'] hi hf he)

/-- A value begins and ends as a message on a line does. -/
theorem value_message {cs : List Char} {v : Value} (h : Denotes cs v) : Message (utf8 cs) := by
  have hends : ∀ {a b : Char} (t : List Char), a.toNat < 0x80 → a.toNat.toUInt8 ∈ valueStarts →
      b.toNat < 0x80 → isWs b.toNat.toUInt8 = false → Message (utf8 (a :: t ++ [b])) :=
    fun t ha hstart hb hws => message_utf8 ⟨_, _, rfl, ha, hstart⟩ ⟨_, _, rfl, hb, hws⟩
  cases h with
  | null => exact hends ['u', 'l'] (by decide) (by decide) (by decide) (by decide)
  | true => exact hends ['r', 'u'] (by decide) (by decide) (by decide) (by decide)
  | false => exact hends ['a', 'l', 's'] (by decide) (by decide) (by decide) (by decide)
  | number h => exact number_message h
  | string h =>
      obtain ⟨-⟩ := h
      exact hends _ (by decide) (by decide) (by decide) (by decide)
  | emptyArray hw => exact hends _ (by decide) (by decide) (by decide) (by decide)
  | array hne hws h => exact hends _ (by decide) (by decide) (by decide) (by decide)
  | emptyObject hw => exact hends _ (by decide) (by decide) (by decide) (by decide)
  | object hne hws hname h => exact hends _ (by decide) (by decide) (by decide) (by decide)

/-! ## Texts on a line -/

theorem isWs_of_mem_utf8 {cs : List Char} (h : ∀ c ∈ cs, IsWs c) : ∀ b ∈ utf8 cs, isWs b = true := by
  intro b hb
  obtain ⟨c, hc, hb⟩ := List.mem_flatMap.mp hb
  have hlt : c.toNat < 0x80 := by
    have hws := h c hc
    unfold IsWs at hws
    omega
  rw [utf8EncodeChar_ascii hlt, List.mem_singleton] at hb
  subst hb
  rcases h c hc with he | he | he | he <;> rw [he] <;> decide

/-- A text without the white space around it is a value. -/
theorem trim_text {cs : List Char} {v : Value} (h : IsText cs v) :
    ∃ text, trim (utf8 cs) = utf8 text ∧ Denotes text v := by
  obtain ⟨⟨hbefore, hafter⟩, h⟩ := h
  rename_i i
  refine ⟨i.text, ?_, h⟩
  have hsplit : utf8 i.chars = utf8 i.before ++ utf8 i.text ++ utf8 i.after := by
    simp [Item.chars, utf8]
  rw [hsplit]
  exact (value_message h).trim_around (isWs_of_mem_utf8 hbefore) (isWs_of_mem_utf8 hafter)

/-- What ndjson carries of a JSON text denotes the same, on one line. Trimmed, as a reader returns
    it, it is a message that still does. -/
theorem encode_meaning {b : Bytes} {v : Value} (h : JsonText b v) :
    JsonText (encode .ndjson b).dropLast v ∧ 10 ∉ (encode .ndjson b).dropLast ∧
      13 ∉ (encode .ndjson b).dropLast ∧ Message (trim (encode .ndjson b).dropLast) ∧
      JsonText (trim (encode .ndjson b).dropLast) v := by
  have hline : (encode .ndjson b).dropLast = flat b := by
    have henc := encode_ndjson b []
    rw [List.append_nil] at henc
    rw [henc, List.dropLast_concat]
  rw [hline]
  obtain ⟨cs, rfl, htext⟩ := h
  have hflat := htext.respell respells_flatChar
  obtain ⟨text, htrim, hvalue⟩ := trim_text hflat
  rw [← flat_utf8] at htrim
  refine ⟨⟨cs.map flatChar, flat_utf8 cs, hflat⟩, flat_noLf _, flat_notMem (Or.inr rfl) _, ?_, ?_⟩
  · rw [htrim]
    exact value_message hvalue
  · exact ⟨text, htrim, hvalue.isText⟩

/-- An empty array with CR and LF in it. -/
theorem encode_meaning_emptyArray :
    JsonText (ascii "[\r\n]\n") (.array []) ∧
      JsonText (encode .ndjson (ascii "[\r\n]\n")).dropLast (.array []) ∧
      10 ∉ (encode .ndjson (ascii "[\r\n]\n")).dropLast ∧
      13 ∉ (encode .ndjson (ascii "[\r\n]\n")).dropLast ∧
      Message (trim (encode .ndjson (ascii "[\r\n]\n")).dropLast) ∧
      JsonText (trim (encode .ndjson (ascii "[\r\n]\n")).dropLast) (.array []) := by
  have hws : ∀ c ∈ ['\r', '\n'], IsWs c :=
    List.forall_mem_cons.mpr ⟨by decide, List.forall_mem_singleton.mpr (by decide)⟩
  have htext : IsText ['[', '\r', '\n', ']', '\n'] (.array []) :=
    .intro (i := ⟨[], ['[', '\r', '\n', ']'], ['\n'], .array []⟩)
      ⟨List.forall_mem_nil _, List.forall_mem_singleton.mpr (by decide)⟩ (.emptyArray hws)
  have hjson : JsonText (ascii "[\r\n]\n") (.array []) := ⟨_, by decide, htext⟩
  exact ⟨hjson, encode_meaning hjson⟩

end DisplayxrMcp.Stdio
