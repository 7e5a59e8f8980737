/-
  The text of a tree, and reading it back.

  `text` is what `cJSON_PrintUnformatted` returns (Print.lean has the printer and its
  buffer). `parse_text`: every tree that a text can carry is read back as `Json.reparse`
  says, by `cJSON_Parse` and by `cJSON_ParseWithLength`, and `parsed_again`: so is
  whatever was parsed before.
-/
import DisplayxrMcp.Cjson.Parse

namespace Cjson

open Lib Rfc8259

namespace Json

mutual

/-- What `cJSON_PrintUnformatted` writes. -/
def text : Json → CStr
  | .null => ascii "null"
  | .bool b => if b then ascii "true" else ascii "false"
  | .num d => numberBuffer d
  | .str s => stringText s
  | .arr l => 91 :: itemsText l ++ [93]
  | .obj ms => 123 :: membersText ms ++ [125]

/-- The elements of an array, with commas between them. -/
def itemsText : List Json → CStr
  | [] => []
  | [j] => text j
  | j :: k :: l => text j ++ 44 :: itemsText (k :: l)

/-- The members of an object. -/
def membersText : List (CStr × Json) → CStr
  | [] => []
  | [(name, j)] => stringText name ++ 58 :: text j
  | (name, j) :: m :: ms => stringText name ++ 58 :: (text j ++ 44 :: membersText (m :: ms))

end

@[simp] theorem text_null : text .null = ascii "null" := rfl

@[simp] theorem text_bool (b : Bool) :
    text (.bool b) = if b then ascii "true" else ascii "false" := rfl

@[simp] theorem text_num (d : Dbl) : text (.num d) = numberBuffer d := rfl

@[simp] theorem text_str (s : CStr) : text (.str s) = stringText s := rfl

@[simp] theorem text_arr (l : List Json) : text (.arr l) = 91 :: itemsText l ++ [93] := rfl

@[simp] theorem text_obj (ms : List (CStr × Json)) :
    text (.obj ms) = 123 :: membersText ms ++ [125] := rfl

@[simp] theorem itemsText_nil : itemsText [] = [] := rfl

@[simp] theorem itemsText_singleton (j : Json) : itemsText [j] = text j := rfl

@[simp] theorem itemsText_cons (j k : Json) (l : List Json) :
    itemsText (j :: k :: l) = text j ++ 44 :: itemsText (k :: l) := rfl

@[simp] theorem membersText_nil : membersText [] = [] := rfl

@[simp] theorem membersText_singleton (m : CStr × Json) :
    membersText [m] = stringText m.1 ++ 58 :: text m.2 := rfl

@[simp] theorem membersText_cons (m n : CStr × Json) (ms : List (CStr × Json)) :
    membersText (m :: n :: ms) =
      stringText m.1 ++ 58 :: (text m.2 ++ 44 :: membersText (n :: ms)) := rfl

@[simp] theorem reparseItems_nil : reparseItems [] = [] := rfl

@[simp] theorem reparseItems_cons (j : Json) (l : List Json) :
    reparseItems (j :: l) = reparse j :: reparseItems l := rfl

end Json

open Json

/-! ## The first byte -/

/-- A byte that a value begins with. -/
def Opens (c : UInt8) : Prop :=
  c = 110 ∨ c = 102 ∨ c = 116 ∨ c = 34 ∨ c = 91 ∨ c = 123 ∨ c = 45 ∨ isDigit c = true

theorem number_opens {cs : List Char} {q : ℚ} (h : IsNumber cs q) :
    ∃ c t, bytes cs = c :: t ∧ (c = 45 ∨ isDigit c = true) := by
  cases h with
  | @pos i f e n x k hi hf he =>
      obtain ⟨hne, hds, -⟩ := IsInt_digits hi
      obtain ⟨d, ds, rfl⟩ := List.exists_cons_of_ne_nil hne
      exact ⟨_, _, rfl, Or.inr (isDigit_byte (hds d List.mem_cons_self)).1⟩
  | neg hi hf he => exact ⟨_, _, rfl, Or.inl rfl⟩

theorem Opens.number {c : UInt8} (h : c = 45 ∨ isDigit c = true) : Opens c :=
  Or.inr (Or.inr (Or.inr (Or.inr (Or.inr (Or.inr h)))))

theorem text_opens (j : Json) : ∃ c t, text j = c :: t ∧ Opens c := by
  cases j with
  | null => exact ⟨_, _, text_null, Or.inl rfl⟩
  | bool b =>
      cases b with
      | false => exact ⟨_, _, text_bool false, Or.inr (Or.inl rfl)⟩
      | true => exact ⟨_, _, text_bool true, Or.inr (Or.inr (Or.inl rfl))⟩
  | num d =>
      cases d with
      | inf neg => exact ⟨_, _, text_num _, Or.inl rfl⟩
      | fin q =>
          obtain ⟨cs, hcs, hnum⟩ := numberBuffer_number q
          obtain ⟨c, t, ht, hc⟩ := number_opens hnum
          rw [text_num, hcs, ht]
          exact ⟨c, t, rfl, .number hc⟩
  | str s => exact ⟨_, _, text_str s, Or.inr (Or.inr (Or.inr (Or.inl rfl)))⟩
  | arr l => exact ⟨_, _, text_arr l, Or.inr (Or.inr (Or.inr (Or.inr (Or.inl rfl))))⟩
  | obj ms => exact ⟨_, _, text_obj ms, Or.inr (Or.inr (Or.inr (Or.inr (Or.inr (Or.inl rfl)))))⟩

theorem Opens.facts {c : UInt8} (h : Opens c) : 32 < c ∧ c ≠ 93 ∧ c ≠ 125 ∧ c ≠ 0xEF := by
  rcases h with rfl | rfl | rfl | rfl | rfl | rfl | rfl | h
  · decide
  · decide
  · decide
  · decide
  · decide
  · decide
  · decide
  · simp only [isDigit, Bool.and_eq_true, decide_eq_true_eq, UInt8.le_iff_toNat_le] at h
    obtain ⟨hlo, hhi⟩ := h
    have hlo' : 48 ≤ c.toNat := hlo
    have hhi' : c.toNat ≤ 57 := hhi
    refine ⟨?_, ?_, ?_, ?_⟩
    · rw [UInt8.lt_iff_toNat_lt]
      exact Nat.lt_of_lt_of_le (by decide) hlo'
    · rintro rfl
      exact absurd hhi' (by decide)
    · rintro rfl
      exact absurd hhi' (by decide)
    · rintro rfl
      exact absurd hhi' (by decide)

/-- No white space is skipped in front of a value. -/
theorem skipWhitespace_text (j : Json) (tail : CStr) :
    skipWhitespace (text j ++ tail) = text j ++ tail := by
  obtain ⟨c, t, ht, hc⟩ := text_opens j
  rw [ht]
  exact skipWhitespace_of_head hc.facts.1 _

/-! ## parse_value, by the first byte -/

section Dispatch

variable {array object : CStr → Returns (Json × CStr)}

theorem not_word {w : CStr} {c d : UInt8} (hne : c ≠ d) (t : CStr) : ¬ d :: w <+: c :: t :=
  fun h => hne (List.cons_prefix_cons.mp h).1.symm

theorem parseValueWith_words {c : UInt8} (hn : c ≠ 110) (hf : c ≠ 102) (ht : c ≠ 116) (t : CStr) :
    parseValueWith array object (c :: t) =
      if c = 34 then do
        let (x, s) ← parseString (c :: t)
        pure (.str x, s)
      else if c = 45 ∨ 48 ≤ c ∧ c ≤ 57 then do
        let (number, s) ← parseNumber (c :: t)
        pure (.num number, s)
      else if c = 91 then array (c :: t)
      else if c = 123 then object (c :: t)
      else throw .fail := by
  have hnull : ¬ ascii "null" <+: c :: t := not_word hn t
  have hfalse : ¬ ascii "false" <+: c :: t := not_word hf t
  have htrue : ¬ ascii "true" <+: c :: t := not_word ht t
  conv_lhs => unfold parseValueWith
  rw [if_neg hnull, if_neg hfalse, if_neg htrue]

theorem parseValueWith_null (tail : CStr) :
    parseValueWith array object (ascii "null" ++ tail) = .ok (.null, tail) := by
  unfold parseValueWith
  rw [if_pos (List.prefix_append _ _)]
  rfl

theorem parseValueWith_bool (b : Bool) (tail : CStr) :
    parseValueWith array object ((if b then ascii "true" else ascii "false") ++ tail) =
      .ok (.bool b, tail) := by
  have hnull : ∀ {w : CStr}, w = ascii "true" ∨ w = ascii "false" →
      ¬ ascii "null" <+: w ++ tail := by
    intro w hw
    rcases hw with rfl | rfl
    · exact not_word (by decide) _
    · exact not_word (by decide) _
  have hfalse : ¬ ascii "false" <+: ascii "true" ++ tail := not_word (by decide) _
  unfold parseValueWith
  cases b with
  | false =>
      rw [if_neg Bool.false_ne_true, if_neg (hnull (Or.inr rfl)),
        if_pos (List.prefix_append _ _)]
      rfl
  | true =>
      rw [if_pos rfl, if_neg (hnull (Or.inl rfl)), if_neg hfalse,
        if_pos (List.prefix_append _ _)]
      rfl

theorem parseValueWith_string {s t u : CStr} (h : parseString (34 :: s) = .ok (t, u)) :
    parseValueWith array object (34 :: s) = .ok (.str t, u) := by
  rw [parseValueWith_words (by decide) (by decide) (by decide), if_pos rfl, h]
  rfl

theorem parseValueWith_number {c : UInt8} (hc : c = 45 ∨ isDigit c = true) {s t : CStr} {d : Dbl}
    (h : parseNumber (c :: s) = .ok (d, t)) :
    parseValueWith array object (c :: s) = .ok (.num d, t) := by
  have hrange : c = 45 ∨ 48 ≤ c ∧ c ≤ 57 := by
    simpa only [isDigit, Bool.and_eq_true, decide_eq_true_eq] using hc
  have hne : c ≠ 110 ∧ c ≠ 102 ∧ c ≠ 116 ∧ c ≠ 34 := by
    refine ⟨?_, ?_, ?_, ?_⟩ <;> rintro rfl <;> exact absurd hc (by decide)
  rw [parseValueWith_words hne.1 hne.2.1 hne.2.2.1, if_neg hne.2.2.2, if_pos hrange, h]
  rfl

theorem parseValueWith_array (s : CStr) :
    parseValueWith array object (91 :: s) = array (91 :: s) := by
  rw [parseValueWith_words (by decide) (by decide) (by decide), if_neg (by decide),
    if_neg (by decide), if_pos rfl]

theorem parseValueWith_object (s : CStr) :
    parseValueWith array object (123 :: s) = object (123 :: s) := by
  rw [parseValueWith_words (by decide) (by decide) (by decide), if_neg (by decide),
    if_neg (by decide), if_neg (by decide), if_pos rfl]

end Dispatch

/-! ## Reading a text -/

/-- Nothing that a number would go on with. -/
def Clear (tail : CStr) : Prop := ∀ c ∈ tail.head?, isNumberByte c = false

theorem clear_cons {c : UInt8} (hc : isNumberByte c = false) (t : CStr) : Clear (c :: t) := by
  intro d hd
  cases hd
  exact hc

/-- A parser of values that reads back the texts of those that `levels` can carry. -/
def ReadsTexts (levels : Nat) (value : CStr → Returns (Json × CStr)) : Prop :=
  ∀ {j : Json} {tail : CStr}, Carried levels j → Clear tail →
    value (text j ++ tail) = .ok (j.reparse, tail)

theorem takeWhile_nul {s : CStr} (h : 0 ∉ s) : s.takeWhile (· ≠ 0) = s := by
  rw [List.takeWhile_eq_self_iff]
  intro b hb
  rw [decide_eq_true_eq]
  rintro rfl
  exact h hb

theorem itemsText_opens (j : Json) (l : List Json) :
    ∃ c t, itemsText (j :: l) = c :: t ∧ Opens c := by
  obtain ⟨c, t, ht, hc⟩ := text_opens j
  cases l with
  | nil => exact ⟨c, t, by rw [itemsText_singleton, ht], hc⟩
  | cons k l => exact ⟨c, t ++ 44 :: itemsText (k :: l), by rw [itemsText_cons, ht]; rfl, hc⟩

theorem length_itemsText (l : List Json) : l.length ≤ (itemsText l).length := by
  induction l with
  | nil => exact Nat.le_refl 0
  | cons j l ih =>
      cases l with
      | nil =>
          obtain ⟨c, t, ht, -⟩ := text_opens j
          rw [itemsText_singleton, ht, List.length_cons, List.length_cons]
          exact Nat.succ_le_succ (Nat.zero_le _)
      | cons k l =>
          rw [itemsText_cons, List.length_append, List.length_cons, List.length_cons (a := 44)]
          omega

theorem membersText_opens (m : CStr × Json) (ms : List (CStr × Json)) :
    ∃ t, membersText (m :: ms) = 34 :: t := by
  cases ms with
  | nil => exact ⟨_, membersText_singleton m⟩
  | cons n ms => exact ⟨_, membersText_cons m n ms⟩

theorem length_membersText (ms : List (CStr × Json)) : ms.length ≤ (membersText ms).length := by
  induction ms with
  | nil => exact Nat.le_refl 0
  | cons m ms ih =>
      cases ms with
      | nil =>
          rw [membersText_singleton, List.length_append, List.length_cons, List.length_cons]
          exact Nat.le_trans (Nat.succ_le_succ (Nat.zero_le _)) (Nat.le_add_left _ _)
      | cons n ms =>
          rw [membersText_cons, List.length_append, List.length_cons, List.length_cons (a := 58),
            List.length_append, List.length_cons (a := 44)]
          omega

section Loops

variable {levels : Nat} {value : CStr → Returns (Json × CStr)} (hv : ReadsTexts levels value)
include hv

/-- An element and the comma behind it. -/
theorem parseElements_comma {fuel : Nat} {j : Json} (hj : Carried levels j) (t : CStr) :
    parseElements value (fuel + 1) (text j ++ 44 :: t) =
      (fun r => (j.reparse :: r.1, r.2)) <$> parseElements value fuel t := by
  conv_lhs => unfold parseElements
  rw [skipWhitespace_text, hv hj (clear_cons (by decide) t), Returns.ok_bind]
  dsimp only
  rw [skipWhitespace_of_head (by decide)]
  rfl

/-- The last element. -/
theorem parseElements_last {fuel : Nat} {j : Json} (hj : Carried levels j) (t : CStr) :
    parseElements value (fuel + 1) (text j ++ 93 :: t) = .ok ([j.reparse], 93 :: t) := by
  unfold parseElements
  rw [skipWhitespace_text, hv hj (clear_cons (by decide) t), Returns.ok_bind]
  dsimp only
  rw [skipWhitespace_of_head (by decide)]
  rfl

theorem parseElements_text : ∀ (fuel : Nat) {l : List Json} (tail : CStr), l ≠ [] →
    l.length ≤ fuel → (∀ j ∈ l, Carried levels j) →
      parseElements value fuel (itemsText l ++ 93 :: tail) = .ok (reparseItems l, 93 :: tail) := by
  intro fuel l tail hne
  induction l generalizing fuel with
  | nil => exact absurd rfl hne
  | cons j l ih =>
      intro hfuel hl
      obtain ⟨fuel, rfl⟩ : ∃ n, fuel = n + 1 := ⟨fuel - 1, by
        rw [List.length_cons] at hfuel
        omega⟩
      rw [List.length_cons] at hfuel
      have hj := hl j List.mem_cons_self
      cases l with
      | nil =>
          rw [itemsText_singleton, parseElements_last hv hj tail, reparseItems_cons,
            reparseItems_nil]
      | cons k l =>
          have hrest := ih fuel (List.cons_ne_nil k l) (by omega)
            fun i hi => hl i (List.mem_cons_of_mem j hi)
          rw [itemsText_cons, List.append_assoc, List.cons_append,
            parseElements_comma hv hj, hrest, reparseItems_cons]
          rfl

theorem parseArray_text {l : List Json} (hl : ∀ j ∈ l, Carried levels j) (tail : CStr) :
    parseArray value (text (.arr l) ++ tail) = .ok (.arr (reparseItems l), tail) := by
  rw [text_arr, List.append_assoc, List.cons_append]
  unfold parseArray
  dsimp only
  rw [if_neg (by decide)]
  cases l with
  | nil =>
      rw [itemsText_nil, reparseItems_nil]
      rw [List.nil_append, List.singleton_append, skipWhitespace_of_head (by decide)]
      rfl
  | cons j l =>
      obtain ⟨c, t, ht, hc⟩ := itemsText_opens j l
      have hloop := parseElements_text hv (itemsText (j :: l) ++ 93 :: tail).length tail
        (List.cons_ne_nil j l) (by
          have := length_itemsText (j :: l)
          rw [List.length_append]
          omega) hl
      have hskip : skipWhitespace (itemsText (j :: l) ++ ([93] ++ tail)) =
          itemsText (j :: l) ++ 93 :: tail := by
        rw [ht]
        exact skipWhitespace_of_head hc.facts.1 _
      rw [hskip]
      split
      · next h =>
          rw [ht] at h
          exact absurd (List.cons.inj h).1 hc.facts.2.1
      · next h =>
          rw [ht] at h
          cases h
      · rw [hloop]
        rfl

/-- A member, up to what follows it. -/
theorem parseMembers_value {fuel : Nat} {m : CStr × Json} (hname : 0 ∉ m.1)
    (hm : Carried levels m.2) {tail : CStr} (htail : Clear tail) :
    parseMembers value (fuel + 1) (stringText m.1 ++ 58 :: (text m.2 ++ tail)) =
      match skipWhitespace tail with
      | 44 :: s => (fun r => ((m.1, m.2.reparse) :: r.1, r.2)) <$> parseMembers value fuel s
      | s => pure ([(m.1, m.2.reparse)], s) := by
  have hstring : stringText m.1 ++ 58 :: (text m.2 ++ tail) ≠ [] := List.cons_ne_nil _ _
  have hskip : skipWhitespace (stringText m.1 ++ 58 :: (text m.2 ++ tail)) =
      stringText m.1 ++ 58 :: (text m.2 ++ tail) := skipWhitespace_of_head (by decide) _
  conv_lhs => unfold parseMembers
  rw [if_neg hstring, hskip, parseString_stringText, takeWhile_nul hname, Returns.ok_bind]
  dsimp only
  rw [skipWhitespace_of_head (by decide)]
  change value (skipWhitespace (text m.2 ++ tail)) >>= _ = _
  rw [skipWhitespace_text, hv hm htail, Returns.ok_bind]
  rfl

theorem parseMembers_comma {fuel : Nat} {m : CStr × Json} (hname : 0 ∉ m.1)
    (hm : Carried levels m.2) (t : CStr) :
    parseMembers value (fuel + 1) (stringText m.1 ++ 58 :: (text m.2 ++ 44 :: t)) =
      (fun r => ((m.1, m.2.reparse) :: r.1, r.2)) <$> parseMembers value fuel t := by
  rw [parseMembers_value hv hname hm (clear_cons (by decide) t),
    skipWhitespace_of_head (by decide)]
  rfl

theorem parseMembers_last {fuel : Nat} {m : CStr × Json} (hname : 0 ∉ m.1)
    (hm : Carried levels m.2) (t : CStr) :
    parseMembers value (fuel + 1) (stringText m.1 ++ 58 :: (text m.2 ++ 125 :: t)) =
      .ok ([(m.1, m.2.reparse)], 125 :: t) := by
  rw [parseMembers_value hv hname hm (clear_cons (by decide) t),
    skipWhitespace_of_head (by decide)]
  rfl

theorem parseMembers_text : ∀ (fuel : Nat) {ms : List (CStr × Json)} (tail : CStr), ms ≠ [] →
    ms.length ≤ fuel → (∀ m ∈ ms, 0 ∉ m.1) → (∀ m ∈ ms, Carried levels m.2) →
      parseMembers value fuel (membersText ms ++ 125 :: tail) =
        .ok (reparseMembers ms, 125 :: tail) := by
  intro fuel ms tail hne
  induction ms generalizing fuel with
  | nil => exact absurd rfl hne
  | cons m ms ih =>
      intro hfuel hnames hms
      obtain ⟨fuel, rfl⟩ : ∃ n, fuel = n + 1 := ⟨fuel - 1, by
        rw [List.length_cons] at hfuel
        omega⟩
      rw [List.length_cons] at hfuel
      have hname := hnames m List.mem_cons_self
      have hm := hms m List.mem_cons_self
      cases ms with
      | nil =>
          rw [membersText_singleton, List.append_assoc, List.cons_append,
            parseMembers_last hv hname hm tail]
          obtain ⟨name, j⟩ := m
          rw [reparseMembers_cons, reparseMembers_nil]
      | cons n ms =>
          have hrest := ih fuel (List.cons_ne_nil n ms) (by omega)
            (fun i hi => hnames i (List.mem_cons_of_mem m hi))
            fun i hi => hms i (List.mem_cons_of_mem m hi)
          rw [membersText_cons, List.append_assoc, List.cons_append, List.append_assoc,
            List.cons_append, parseMembers_comma hv hname hm, hrest]
          obtain ⟨name, j⟩ := m
          rw [reparseMembers_cons]
          rfl

theorem parseObject_text {ms : List (CStr × Json)} (hnames : ∀ m ∈ ms, 0 ∉ m.1)
    (hms : ∀ m ∈ ms, Carried levels m.2) (tail : CStr) :
    parseObject value (text (.obj ms) ++ tail) = .ok (.obj (reparseMembers ms), tail) := by
  rw [text_obj, List.append_assoc, List.cons_append]
  unfold parseObject
  dsimp only
  rw [if_neg (by decide)]
  cases ms with
  | nil =>
      rw [membersText_nil, reparseMembers_nil]
      rw [List.nil_append, List.singleton_append, skipWhitespace_of_head (by decide)]
      rfl
  | cons m ms =>
      obtain ⟨t, ht⟩ := membersText_opens m ms
      have hloop := parseMembers_text hv (membersText (m :: ms) ++ 125 :: tail).length tail
        (List.cons_ne_nil m ms) (by
          have := length_membersText (m :: ms)
          rw [List.length_append]
          omega) hnames hms
      have hskip : skipWhitespace (membersText (m :: ms) ++ ([125] ++ tail)) =
          membersText (m :: ms) ++ 125 :: tail := by
        rw [ht]
        exact skipWhitespace_of_head (by decide) _
      rw [hskip]
      split
      · next h =>
          rw [ht] at h
          exact absurd (List.cons.inj h).1 (by decide)
      · next h =>
          rw [ht] at h
          cases h
      · rw [hloop]
        rfl

end Loops

theorem parseValueWith_num {array object : CStr → Returns (Json × CStr)} {q : ℚ} (h : InRange q)
    {tail : CStr} (htail : Clear tail) :
    parseValueWith array object (numberBuffer (.fin q) ++ tail) =
      .ok (.num (Cjson.reparse q), tail) := by
  have hread := parseNumber_numberBuffer h htail
  obtain ⟨cs, hcs, hnum⟩ := numberBuffer_number q
  obtain ⟨c, t, ht, hc⟩ := number_opens hnum
  rw [hcs, ht] at hread ⊢
  exact parseValueWith_number hc hread

/-- `parse_value` reads back every text of a tree that can be carried. -/
theorem parseValue_text (levels : Nat) : ReadsTexts levels (parseValue levels) := by
  have hleaf : ∀ {levels : Nat} {array object : CStr → Returns (Json × CStr)} {j : Json}
      {tail : CStr}, Carried levels j → Clear tail → (∀ l, j ≠ .arr l) → (∀ ms, j ≠ .obj ms) →
        parseValueWith array object (text j ++ tail) = .ok (j.reparse, tail) := by
    intro levels array object j tail hj htail harr hobj
    cases hj with
    | null =>
        rw [text_null, reparse_null]
        exact parseValueWith_null tail
    | bool =>
        rw [text_bool, reparse_bool]
        exact parseValueWith_bool _ tail
    | @num _ d h =>
        rw [text_num]
        cases d with
        | fin q =>
            rw [parseValueWith_num h htail, Json.reparse]
        | inf neg =>
            rw [Json.reparse]
            exact parseValueWith_null tail
    | @str _ s h =>
        have hcut : s.takeWhile (· ≠ 0) = s := takeWhile_nul h
        have hread := parseString_stringText s tail
        rw [hcut] at hread
        rw [text_str, reparse_str]
        exact parseValueWith_string hread
    | arr => exact absurd rfl (harr _)
    | obj => exact absurd rfl (hobj _)
  induction levels with
  | zero =>
      intro j tail hj htail
      unfold parseValue
      exact hleaf hj htail (fun l h => by subst h; cases hj) fun ms h => by subst h; cases hj
  | succ levels ih =>
      intro j tail hj htail
      unfold parseValue
      cases j with
      | arr l =>
          cases hj with
          | arr h =>
              have hread := parseArray_text ih h tail
              rw [reparse_arr]
              rw [text_arr] at hread ⊢
              rw [List.append_assoc, List.cons_append] at hread ⊢
              rw [parseValueWith_array]
              exact hread
      | obj ms =>
          cases hj with
          | obj hnames h =>
              have hread := parseObject_text ih hnames h tail
              rw [reparse_obj]
              rw [text_obj] at hread ⊢
              rw [List.append_assoc, List.cons_append] at hread ⊢
              rw [parseValueWith_object]
              exact hread
      | null => exact hleaf hj htail (fun l h => by cases h) fun ms h => by cases h
      | bool b => exact hleaf hj htail (fun l h => by cases h) fun ms h => by cases h
      | num d => exact hleaf hj htail (fun l h => by cases h) fun ms h => by cases h
      | str s => exact hleaf hj htail (fun l h => by cases h) fun ms h => by cases h

/-- The parser goes straight to the value. -/
theorem parseWithLength_text (j : Json) (tail : CStr) : parseWithLength (text j ++ tail) =
    parseValue nestingLimit (text j ++ tail) >>= fun r => pure r.1 := by
  obtain ⟨c, t, ht, hc⟩ := text_opens j
  have hne : text j ++ tail ≠ [] := by
    rw [ht]
    exact List.cons_ne_nil _ _
  have hbom : skipUtf8Bom (text j ++ tail) = text j ++ tail := by
    unfold skipUtf8Bom
    refine if_neg fun h => ?_
    rw [ht] at h
    have := (List.cons_prefix_cons.mp h.2).1
    subst this
    exact hc.facts.2.2.2 rfl
  unfold parseWithLength
  rw [if_neg hne, hbom, skipWhitespace_text]

/-- The text of a tree is read back, by its length and up to its NUL. -/
theorem parse_text {j : Json} (h : Carried nestingLimit j) :
    parseWithLength (text j) = .ok j.reparse ∧ parse (text j) = .ok j.reparse := by
  have hread : ∀ {tail : CStr}, Clear tail → parseWithLength (text j ++ tail) = .ok j.reparse := by
    intro tail htail
    rw [parseWithLength_text, parseValue_text nestingLimit h htail]
    rfl
  have hnil : parseWithLength (text j ++ []) = .ok j.reparse := hread fun c hc => nomatch hc
  rw [List.append_nil] at hnil
  exact ⟨hnil, hread (clear_cons (by decide) [])⟩

end Cjson
