/-
  What the printer writes, against RFC 8259.

  `Means` is the value of a tree whose strings are UTF-8. `text_limited`: the text of such a
  tree denotes it, and its numbers have at most 24 characters. `text_printable`: no text, of
  whatever tree, holds a control character, so that it is one line and a C string.
-/
import DisplayxrMcp.Cjson.Meaning

namespace Cjson

open Lib Rfc8259 Json

/-- The value of a tree. An infinity has none and is printed as `null`. -/
inductive Means : Json → Value → Prop where
  | null : Means .null .null
  | bool {b} : Means (.bool b) (.bool b)
  | num {q} : Means (.num (.fin q)) (.number (printNumber q))
  | inf {neg} : Means (.num (.inf neg)) .null
  | str {cs : List Char} : Means (.str (utf8 cs)) (.string (cs.flatMap utf16))
  | arr {items : List (Json × Value)} (h : ∀ i ∈ items, Means i.1 i.2) :
      Means (.arr (items.map Prod.fst)) (.array (items.map Prod.snd))
  | obj {members : List (List Char × Json × Value)} (h : ∀ m ∈ members, Means m.2.1 m.2.2) :
      Means (.obj (members.map fun m => (utf8 m.1, m.2.1)))
        (.object (members.map fun m => (m.1.flatMap utf16, m.2.2)))

/-! ## Strings -/

theorem escapeByte_plain {b : UInt8} (h : 31 < b ∧ b ≠ 34 ∧ b ≠ 92) : escapeByte b = [b] := if_pos h

/-- Of a control character, the quotation mark and the escape itself. -/
theorem escapeByte_escaped (n : Nat) (hn : n < 0x20 ∨ n = 0x22 ∨ n = 0x5C) :
    (∃ e ∈ escapes, e.2.toNat = n ∧ utf8 [escape, e.1] = escapeByte n.toUInt8) ∨
      ∃ c d i j, hexValue c = some i ∧ hexValue d = some j ∧ i * 16 + j = n ∧
        utf8 [escape, 'u', '0', '0', c, d] = escapeByte n.toUInt8 := by
  have hall : ∀ n < 0x5D, n < 0x20 ∨ n = 0x22 ∨ n = 0x5C →
      (∃ e ∈ escapes, e.2.toNat = n ∧ utf8 [escape, e.1] = escapeByte n.toUInt8) ∨
        (hexValue (Char.ofNat (hexDigit (n / 16)).toNat) = some (n / 16) ∧
          hexValue (Char.ofNat (hexDigit (n % 16)).toNat) = some (n % 16) ∧
          utf8 [escape, 'u', '0', '0', Char.ofNat (hexDigit (n / 16)).toNat,
            Char.ofNat (hexDigit (n % 16)).toNat] = escapeByte n.toUInt8) := by
    decide
  rcases hall n (by omega) hn with h | ⟨h1, h2, h3⟩
  · exact Or.inl h
  · exact Or.inr ⟨_, _, _, _, h1, h2, by omega, h3⟩

/-- A character is printed as one of a string. -/
theorem escaped_char (c : Char) :
    ∃ t, (String.utf8EncodeChar c).flatMap escapeByte = utf8 t ∧ IsChar t (utf16 c) := by
  by_cases hplain : 0x20 ≤ c.toNat ∧ c ≠ quotationMark ∧ c ≠ escape
  · obtain ⟨hc, hq, he⟩ := hplain
    refine ⟨[c], ?_, .unescaped hc hq he⟩
    have hkeep : ∀ b ∈ String.utf8EncodeChar c, escapeByte b = [b] := by
      intro b hb
      refine escapeByte_plain ⟨?_, char_bytes hq he b hb⟩
      rw [UInt8.lt_iff_toNat_lt]
      rcases Nat.lt_or_ge c.toNat 0x80 with hlt | hge
      · rw [utf8EncodeChar_ascii hlt, List.mem_singleton] at hb
        rw [hb, Nat.toUInt8_eq, UInt8.toNat_ofNat', Nat.mod_eq_of_lt (by omega)]
        exact hc
      · exact Nat.lt_of_lt_of_le (by decide) (ge_of_mem_utf8EncodeChar hge hb)
    rw [List.flatMap_congr hkeep, List.flatMap_singleton', utf8_cons]
    exact (List.append_nil _).symm
  · have hchar : ∀ {n : Nat}, c = Char.ofNat n → n < 0x80 → c.toNat = n := by
      intro n h hn
      rw [h, toNat_ofNat (Or.inl (by omega))]
    have hn : c.toNat < 0x20 ∨ c.toNat = 0x22 ∨ c.toNat = 0x5C := by
      by_contra h
      refine hplain ⟨by omega, fun hq => h ?_, fun he => h ?_⟩
      · exact Or.inr (Or.inl (hchar hq (by decide)))
      · exact Or.inr (Or.inr (hchar he (by decide)))
    have hunits : utf16 c = [c.toNat.toUInt16] := utf16_small (by omega)
    rw [utf8EncodeChar_ascii (by omega), List.flatMap_singleton, hunits]
    rcases escapeByte_escaped c.toNat hn with ⟨e, he, hvalue, htext⟩ | ⟨x, y, i, j, hx, hy, hij, htext⟩
    · refine ⟨_, htext.symm, ?_⟩
      have hu : e.2 = c.toNat.toUInt16 := by
        rw [← hvalue, Nat.toUInt16_eq, UInt16.ofNat_toNat]
      rw [← hu]
      exact .escaped he
    · have hhex := IsChar.hex (a := '0') (b := '0') (i := 0) (j := 0) rfl rfl hx hy
      refine ⟨_, htext.symm, ?_⟩
      rw [← hij]
      simpa using hhex

/-- A string of UTF-8 is printed as one of RFC 8259. -/
theorem stringText_utf8 (cs : List Char) :
    ∃ t, stringText (utf8 cs) = utf8 t ∧ IsString t (cs.flatMap utf16) := by
  choose f htext hchar using escaped_char
  have hitems : ∀ i ∈ cs.map fun c => (f c, utf16 c), IsChar i.1 i.2 := by
    intro i hi
    obtain ⟨c, -, rfl⟩ := List.mem_map.mp hi
    exact hchar c
  have hbytes : (utf8 cs).flatMap escapeByte = utf8 (cs.flatMap f) := by
    unfold utf8
    rw [List.flatMap_assoc, List.flatMap_assoc]
    exact List.flatMap_congr fun c _ => htext c
  have hquote : utf8 [quotationMark] = [34] := by decide
  have hstring := IsString.intro hitems
  rw [List.flatMap_map, List.flatMap_map] at hstring
  refine ⟨_, ?_, hstring⟩
  rw [utf8_append, utf8_cons, hquote, ← hbytes]
  rfl

/-! ## Texts -/

theorem itemsText_map (f : Json × Value → List Char) {items : List (Json × Value)}
    (h : ∀ i ∈ items, text i.1 = utf8 (f i)) :
    itemsText (items.map Prod.fst) = utf8 (separated (items.map f)) := by
  induction items with
  | nil =>
      rw [List.map_nil, itemsText_nil]
      rfl
  | cons i items ih =>
      obtain ⟨hi, hrest⟩ := List.forall_mem_cons.mp h
      have ih := ih hrest
      cases items with
      | nil =>
          rw [List.map_singleton, itemsText_singleton, List.map_singleton, separated_singleton, hi]
      | cons k items =>
          simp only [List.map_cons] at ih ⊢
          rw [itemsText_cons, ih, hi, separated_cons, utf8_append, utf8_comma]

/-- The members of an object, with the texts of the names and of the values. -/
theorem membersText_map (f : List Char × Json × Value → List Char) (g : List Char → List Char)
    (hg : ∀ cs, stringText (utf8 cs) = utf8 (g cs)) {members : List (List Char × Json × Value)}
    (h : ∀ m ∈ members, text m.2.1 = utf8 (f m)) :
    membersText (members.map fun m => (utf8 m.1, m.2.1)) =
      utf8 (separated (members.map fun m => g m.1 ++ ':' :: f m)) := by
  induction members with
  | nil =>
      rw [List.map_nil, membersText_nil]
      rfl
  | cons m members ih =>
      obtain ⟨hm, hrest⟩ := List.forall_mem_cons.mp h
      have ih := ih hrest
      cases members with
      | nil =>
          rw [List.map_singleton, membersText_singleton, List.map_singleton, separated_singleton,
            utf8_append, utf8_colon, hg, hm]
      | cons k members =>
          simp only [List.map_cons] at ih ⊢
          rw [membersText_cons, ih, hm, hg, separated_cons, utf8_append, utf8_append, utf8_colon,
            utf8_comma, List.append_assoc, List.cons_append]

theorem utf8_array (w : List Char) : utf8 ('[' :: w ++ [']']) = 91 :: utf8 w ++ [93] := by
  have h := utf8_enclosed (c := '[') (d := ']') (by decide) (by decide) w []
  rwa [List.append_nil] at h

theorem utf8_object (w : List Char) : utf8 ('{' :: w ++ ['}']) = 123 :: utf8 w ++ [125] := by
  have h := utf8_enclosed (c := '{') (d := '}') (by decide) (by decide) w []
  rwa [List.append_nil] at h

/-- The text of an array, from those of its elements. -/
theorem limited_array {levels : Nat} {f : Json × Value → List Char} {items : List (Json × Value)}
    (h : ∀ i ∈ items, Limited 24 levels (f i) i.2) :
    Limited 24 (levels + 1) ('[' :: separated (items.map f) ++ [']'])
      (.array (items.map Prod.snd)) := by
  cases items with
  | nil => exact .emptyArray (List.forall_mem_nil _)
  | cons k items =>
      have hchars : (k :: items).map f =
          ((k :: items).map fun i => (⟨[], f i, [], i.2⟩ : Item)).map Item.chars := by
        rw [List.map_map]
        exact List.map_congr_left fun i _ => (List.append_nil (f i)).symm
      have hvalues : (k :: items).map Prod.snd =
          ((k :: items).map fun i => (⟨[], f i, [], i.2⟩ : Item)).map Item.value := by
        rw [List.map_map]
        rfl
      rw [hchars, hvalues]
      refine .array (List.cons_ne_nil _ _) (fun i hi => ?_) fun i hi => ?_
      · obtain ⟨m, -, rfl⟩ := List.mem_map.mp hi
        exact ⟨List.forall_mem_nil _, List.forall_mem_nil _⟩
      · obtain ⟨m, hm, rfl⟩ := List.mem_map.mp hi
        exact h m hm

/-- The text of an object, from those of its names and values. -/
theorem limited_object {levels : Nat} {f : List Char × Json × Value → List Char}
    {g : List Char → List Char} (hg : ∀ cs, IsString (g cs) (cs.flatMap utf16))
    {members : List (List Char × Json × Value)} (h : ∀ m ∈ members, Limited 24 levels (f m) m.2.2) :
    Limited 24 (levels + 1) ('{' :: separated (members.map fun m => g m.1 ++ ':' :: f m) ++ ['}'])
      (.object (members.map fun m => (m.1.flatMap utf16, m.2.2))) := by
  cases members with
  | nil => exact .emptyObject (List.forall_mem_nil _)
  | cons k members =>
      have hchars : ((k :: members).map fun m => g m.1 ++ ':' :: f m) =
          ((k :: members).map fun m => (⟨[], g m.1, [], m.1.flatMap utf16, ⟨[], f m, [], m.2.2⟩⟩ :
            Member)).map Member.chars := by
        rw [List.map_map]
        refine List.map_congr_left fun m _ => ?_
        simp [Member.chars, Item.chars]
      have hvalues : ((k :: members).map fun m => (m.1.flatMap utf16, m.2.2)) =
          ((k :: members).map fun m => (⟨[], g m.1, [], m.1.flatMap utf16, ⟨[], f m, [], m.2.2⟩⟩ :
            Member)).map fun m => (m.name, m.item.value) := by
        rw [List.map_map]
        rfl
      rw [hchars, hvalues]
      refine .object (List.cons_ne_nil _ _) (fun i hi => ?_) (fun i hi => ?_) fun i hi => ?_
      · obtain ⟨m, -, rfl⟩ := List.mem_map.mp hi
        exact ⟨List.forall_mem_nil _, List.forall_mem_nil _, List.forall_mem_nil _,
          List.forall_mem_nil _⟩
      · obtain ⟨m, -, rfl⟩ := List.mem_map.mp hi
        exact hg m.1
      · obtain ⟨m, hm, rfl⟩ := List.mem_map.mp hi
        exact h m hm

/-- A tree is printed as a text of RFC 8259 that denotes its value; no number in it has more
    than 24 characters. -/
theorem text_limited {levels : Nat} {j : Json} {v : Value} (hj : Carried levels j)
    (h : Means j v) : ∃ cs, text j = utf8 cs ∧ Limited 24 levels cs v := by
  induction h generalizing levels with
  | null =>
      refine ⟨_, ?_, .null⟩
      rw [text_null]
      decide
  | @bool b =>
      cases b with
      | true =>
          refine ⟨_, ?_, .true⟩
          rw [text_bool]
          decide
      | false =>
          refine ⟨_, ?_, .false⟩
          rw [text_bool]
          decide
  | @num q =>
      cases hj with
      | num hrange =>
          obtain ⟨cs, hcs, hnum⟩ := numberBuffer_number q
          have hlen := length_numberBuffer (d := .fin q) hrange
          rw [hcs] at hlen
          unfold bytes at hlen
          rw [List.length_map] at hlen
          rw [text_num, hcs]
          exact ⟨cs, (number_utf8 hnum).symm, .number hnum hlen⟩
  | inf =>
      have hnull : ascii "null" = utf8 ['n', 'u', 'l', 'l'] := by decide
      rw [text_num]
      exact ⟨_, hnull, .null⟩
  | @str cs =>
      obtain ⟨t, ht, hstring⟩ := stringText_utf8 cs
      rw [text_str]
      exact ⟨t, ht, .string hstring⟩
  | @arr items h ih =>
      cases hj with
      | @arr levels _ hcarried =>
          have htexts : ∀ i, ∃ cs, i ∈ items → text i.1 = utf8 cs ∧ Limited 24 levels cs i.2 := by
            intro i
            by_cases hi : i ∈ items
            · obtain ⟨cs, hcs⟩ := ih i hi (hcarried _ (List.mem_map_of_mem hi))
              exact ⟨cs, fun _ => hcs⟩
            · exact ⟨[], fun h => absurd h hi⟩
          choose f hf using htexts
          rw [text_arr, itemsText_map f fun i hi => (hf i hi).1]
          exact ⟨_, (utf8_array _).symm, limited_array fun i hi => (hf i hi).2⟩
  | @obj members h ih =>
      cases hj with
      | @obj levels _ hnames hcarried =>
          have htexts : ∀ m, ∃ cs, m ∈ members →
              text m.2.1 = utf8 cs ∧ Limited 24 levels cs m.2.2 := by
            intro m
            by_cases hm : m ∈ members
            · obtain ⟨cs, hcs⟩ := ih m hm (hcarried _ (List.mem_map_of_mem hm))
              exact ⟨cs, fun _ => hcs⟩
            · exact ⟨[], fun h => absurd h hm⟩
          choose f hf using htexts
          choose g hg hstring using stringText_utf8
          rw [text_obj, membersText_map f g hg fun m hm => (hf m hm).1]
          exact ⟨_, (utf8_object _).symm, limited_object hstring fun m hm => (hf m hm).2⟩

/-- A string that is not ASCII, in an array. -/
theorem text_limited_list : ∃ cs, text (.arr [.str (utf8 ['é']), .bool true]) = utf8 cs ∧
    Limited 24 1 cs (.array [.string (['é'].flatMap utf16), .bool true]) := by
  have hj : Carried 1 (.arr [.str (utf8 ['é']), .bool true]) := by
    refine .arr fun j hj => ?_
    rcases List.mem_cons.mp hj with rfl | hj
    · exact .str (by decide)
    · rw [List.mem_singleton.mp hj]
      exact .bool
  refine text_limited hj (@Means.arr [(.str (utf8 ['é']), .string (['é'].flatMap utf16)),
    (.bool true, .bool true)] fun i hi => ?_)
  rcases List.mem_cons.mp hi with rfl | hi
  · exact .str
  · rw [List.mem_singleton.mp hi]
    exact .bool

/-! ## Control characters -/

theorem literal_printable {s : CStr} (h : s.all (fun b => decide (32 ≤ b)) = true) :
    ∀ b ∈ s, 32 ≤ b := fun b hb => of_decide_eq_true (List.all_eq_true.mp h b hb)

theorem stringText_printable (s : CStr) : ∀ b ∈ stringText s, 32 ≤ b := by
  intro b hb
  unfold stringText at hb
  rcases List.mem_append.mp hb with hb | hb
  · rcases List.mem_cons.mp hb with rfl | hb
    · decide
    · obtain ⟨c, -, hc⟩ := List.mem_flatMap.mp hb
      exact escapeByte_printable c b hc
  · rw [List.mem_singleton.mp hb]
    decide

theorem numberBuffer_printable (d : Dbl) : ∀ b ∈ numberBuffer d, 32 ≤ b := by
  cases d with
  | inf neg =>
      exact literal_printable (s := ascii "null") (by decide)
  | fin q =>
      obtain ⟨cs, hcs, hnum⟩ := numberBuffer_number q
      have hall : ∀ n : Nat, 0x20 ≤ n → n < 0x80 → 32 ≤ n.toUInt8 := by decide
      intro b hb
      rw [hcs] at hb
      obtain ⟨c, hc, rfl⟩ := List.mem_map.mp hb
      exact hall c.toNat (hnum.printable c hc) (number_ascii hnum c hc)

mutual

/-- No control character is printed. -/
theorem text_printable : ∀ (j : Json), ∀ b ∈ text j, 32 ≤ b
  | .null => by rw [text_null]; exact literal_printable (by decide)
  | .bool true => by rw [text_bool]; exact literal_printable (by decide)
  | .bool false => by rw [text_bool]; exact literal_printable (by decide)
  | .num d => by rw [text_num]; exact numberBuffer_printable d
  | .str s => by rw [text_str]; exact stringText_printable s
  | .arr l => by
      intro b hb
      rw [text_arr] at hb
      rcases List.mem_append.mp hb with hb | hb
      · rcases List.mem_cons.mp hb with rfl | hb
        · decide
        · exact itemsText_printable l b hb
      · rw [List.mem_singleton.mp hb]
        decide
  | .obj ms => by
      intro b hb
      rw [text_obj] at hb
      rcases List.mem_append.mp hb with hb | hb
      · rcases List.mem_cons.mp hb with rfl | hb
        · decide
        · exact membersText_printable ms b hb
      · rw [List.mem_singleton.mp hb]
        decide

theorem itemsText_printable : ∀ (l : List Json), ∀ b ∈ itemsText l, 32 ≤ b
  | [] => by rw [itemsText_nil]; exact List.forall_mem_nil _
  | [j] => by rw [itemsText_singleton]; exact text_printable j
  | j :: k :: l => by
      intro b hb
      rw [itemsText_cons] at hb
      rcases List.mem_append.mp hb with hb | hb
      · exact text_printable j b hb
      · rcases List.mem_cons.mp hb with rfl | hb
        · decide
        · exact itemsText_printable (k :: l) b hb

theorem membersText_printable : ∀ (ms : List (CStr × Json)), ∀ b ∈ membersText ms, 32 ≤ b
  | [] => by rw [membersText_nil]; exact List.forall_mem_nil _
  | [(name, j)] => by
      intro b hb
      rw [membersText_singleton] at hb
      rcases List.mem_append.mp hb with hb | hb
      · exact stringText_printable name b hb
      · rcases List.mem_cons.mp hb with rfl | hb
        · decide
        · exact text_printable j b hb
  | (name, j) :: m :: ms => by
      intro b hb
      rw [membersText_cons] at hb
      rcases List.mem_append.mp hb with hb | hb
      · exact stringText_printable name b hb
      · rcases List.mem_cons.mp hb with rfl | hb
        · decide
        · rcases List.mem_append.mp hb with hb | hb
          · exact text_printable j b hb
          · rcases List.mem_cons.mp hb with rfl | hb
            · decide
            · exact membersText_printable (m :: ms) b hb

end

/-! ## Printing and parsing -/

/-- The printer stays inside its buffer, and what it prints is read back: one line, and the tree
    with the numbers that their digits denote. -/
theorem print_parse (heap : Heap) {j : Json} (hj : Carried nestingLimit j) :
    printUnformatted heap j ≠ .error .fault ∧
      (∀ s, printUnformatted heap j = .ok s →
        parseWithLength s = .ok j.reparse ∧ parse s = .ok j.reparse ∧ ∀ b ∈ s, 32 ≤ b) ∧
      ((∀ n, heap n ≠ none) → (text j).length + 2 ≤ intMax →
        ∃ s, printUnformatted heap j = .ok s) := by
  obtain ⟨hsafe, htext, hroom⟩ := printUnformatted_spec heap hj
  refine ⟨hsafe, fun s hs => ?_, fun hheap hlen => ⟨_, (hroom hheap).mpr hlen⟩⟩
  obtain ⟨hlength, hnul⟩ := parse_text hj
  rw [htext s hs]
  exact ⟨hlength, hnul, text_printable j⟩

/-- A line feed and a quotation mark in a string, in an array. -/
theorem print_parse_newline : ∃ s, printUnformatted (fun _ => some fun _ => 0)
    (.arr [.str [0x0A, 0x22], .bool true]) = .ok s ∧
      parse s = .ok (.arr [.str [0x0A, 0x22], .bool true]) ∧ ∀ b ∈ s, 32 ≤ b := by
  have hlist : Carried 1 (.arr [.str [0x0A, 0x22], .bool true]) := by
    refine .arr fun j hj => ?_
    rcases List.mem_cons.mp hj with rfl | hj
    · exact .str (by decide)
    · rw [List.mem_singleton.mp hj]
      exact .bool
  obtain ⟨-, hback, hroom⟩ := print_parse (fun _ => some fun _ => 0) (hlist.mono (by decide))
  obtain ⟨s, hs⟩ := hroom (fun _ h => by cases h) (by decide)
  obtain ⟨-, hparse, hline⟩ := hback s hs
  rw [reparse_arr] at hparse
  simp only [reparseItems_cons, reparseItems_nil, reparse_str, reparse_bool] at hparse
  exact ⟨s, hs, hparse, hline⟩

end Cjson
