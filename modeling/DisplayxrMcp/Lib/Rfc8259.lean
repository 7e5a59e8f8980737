/-
  JSON texts by the grammar of RFC 8259, and the values they denote.

  The grammar is over characters; `utf8` are the bytes of a text. A number denotes a
  rational, a string its UTF-16 code units, an object its members in their order. Between
  structural characters white space has no meaning: `IsText.respell` exchanges any of it
  for other white space, and `IsText.printable` says that it is the only place where a
  control character can stand.
-/
import DisplayxrMcp.Lib.CStr
import Mathlib.Algebra.Order.Field.Rat

namespace Rfc8259

/-- Values. -/
inductive Value where
  | null
  | bool (b : Bool)
  | number (q : ℚ)
  | string (units : List UInt16)
  | array (vs : List Value)
  | object (ms : List (List UInt16 × Value))

/-- `ws`. -/
def IsWs (c : Char) : Prop := c.toNat = 0x20 ∨ c.toNat = 0x09 ∨ c.toNat = 0x0A ∨ c.toNat = 0x0D

instance (c : Char) : Decidable (IsWs c) := inferInstanceAs (Decidable (_ ∨ _))

/-- `DIGIT`. -/
def IsDigit (c : Char) : Prop := 0x30 ≤ c.toNat ∧ c.toNat ≤ 0x39

instance (c : Char) : Decidable (IsDigit c) := inferInstanceAs (Decidable (_ ∧ _))

/-- The number a string of digits stands for. -/
def digits (ds : List Char) : Nat := ds.foldl (fun n d => 10 * n + (d.toNat - 0x30)) 0

/-! ## Numbers -/

/-- `int`. -/
inductive IsInt : List Char → Nat → Prop where
  | zero : IsInt ['0'] 0
  | pos {d ds} (hd : IsDigit d) (hne : d ≠ '0') (hds : ∀ c ∈ ds, IsDigit c) :
      IsInt (d :: ds) (digits (d :: ds))

/-- `[ frac ]`. -/
inductive IsFrac : List Char → ℚ → Prop where
  | none : IsFrac [] 0
  | some {ds} (hne : ds ≠ []) (hds : ∀ c ∈ ds, IsDigit c) :
      IsFrac ('.' :: ds) (digits ds / 10 ^ ds.length)

/-- `[ exp ]`. -/
inductive IsExp : List Char → ℤ → Prop where
  | none : IsExp [] 0
  | plain {e ds} (he : e = 'e' ∨ e = 'E') (hne : ds ≠ []) (hds : ∀ c ∈ ds, IsDigit c) :
      IsExp (e :: ds) (digits ds)
  | plus {e ds} (he : e = 'e' ∨ e = 'E') (hne : ds ≠ []) (hds : ∀ c ∈ ds, IsDigit c) :
      IsExp (e :: '+' :: ds) (digits ds)
  | minus {e ds} (he : e = 'e' ∨ e = 'E') (hne : ds ≠ []) (hds : ∀ c ∈ ds, IsDigit c) :
      IsExp (e :: '-' :: ds) (-digits ds)

/-- `number`. -/
inductive IsNumber : List Char → ℚ → Prop where
  | pos {i f e n x k} (hi : IsInt i n) (hf : IsFrac f x) (he : IsExp e k) :
      IsNumber (i ++ f ++ e) ((n + x) * 10 ^ k)
  | neg {i f e n x k} (hi : IsInt i n) (hf : IsFrac f x) (he : IsExp e k) :
      IsNumber ('-' :: (i ++ f ++ e)) (-((n + x) * 10 ^ k))

/-! ## Strings -/

/-- `quotation-mark`. -/
def quotationMark : Char := Char.ofNat 0x22

/-- `escape`. -/
def escape : Char := Char.ofNat 0x5C

/-- The code units of a character in UTF-16. -/
def utf16 (c : Char) : List UInt16 :=
  if c.toNat < 0x10000 then [c.toNat.toUInt16]
  else [(0xD800 + (c.toNat - 0x10000) / 0x400).toUInt16,
    (0xDC00 + (c.toNat - 0x10000) % 0x400).toUInt16]

/-- The characters behind an `escape`, and what they stand for. -/
def escapes : List (Char × UInt16) :=
  [(quotationMark, 0x22), (escape, 0x5C), ('/', 0x2F), ('b', 0x08), ('f', 0x0C), ('n', 0x0A),
    ('r', 0x0D), ('t', 0x09)]

/-- `HEXDIG`, in either case. -/
def hexValue (c : Char) : Option Nat :=
  if 0x30 ≤ c.toNat ∧ c.toNat ≤ 0x39 then some (c.toNat - 0x30)
  else if 0x41 ≤ c.toNat ∧ c.toNat ≤ 0x46 then some (c.toNat - 0x41 + 10)
  else if 0x61 ≤ c.toNat ∧ c.toNat ≤ 0x66 then some (c.toNat - 0x61 + 10)
  else none

/-- `char`. -/
inductive IsChar : List Char → List UInt16 → Prop where
  | unescaped {c} (hc : 0x20 ≤ c.toNat) (hq : c ≠ quotationMark) (he : c ≠ escape) :
      IsChar [c] (utf16 c)
  | escaped {c u} (h : (c, u) ∈ escapes) : IsChar [escape, c] [u]
  | hex {a b c d i j k l} (ha : hexValue a = some i) (hb : hexValue b = some j)
      (hc : hexValue c = some k) (hd : hexValue d = some l) :
      IsChar [escape, 'u', a, b, c, d] [(((i * 16 + j) * 16 + k) * 16 + l).toUInt16]

/-- `string`. -/
inductive IsString : List Char → List UInt16 → Prop where
  | intro {items : List (List Char × List UInt16)} (h : ∀ i ∈ items, IsChar i.1 i.2) :
      IsString (quotationMark :: items.flatMap Prod.fst ++ [quotationMark])
        (items.flatMap Prod.snd)

/-! ## Values -/

/-- A value with white space around it. -/
structure Item where
  before : List Char
  text : List Char
  after : List Char
  value : Value

def Item.chars (i : Item) : List Char := i.before ++ i.text ++ i.after

def Item.Spaced (i : Item) : Prop := (∀ c ∈ i.before, IsWs c) ∧ ∀ c ∈ i.after, IsWs c

/-- `member`, with white space around the name and the value. -/
structure Member where
  before : List Char
  nameText : List Char
  after : List Char
  name : List UInt16
  item : Item

def Member.chars (m : Member) : List Char :=
  m.before ++ m.nameText ++ m.after ++ ':' :: m.item.chars

def Member.Spaced (m : Member) : Prop :=
  (∀ c ∈ m.before, IsWs c) ∧ (∀ c ∈ m.after, IsWs c) ∧ m.item.Spaced

/-- With `value-separator` between them. -/
def separated (texts : List (List Char)) : List Char := [','].intercalate texts

/-- `value`, without the white space around it. -/
inductive Denotes : List Char → Value → Prop where
  | null : Denotes ['n', 'u', 'l', 'l'] .null
  | true : Denotes ['t', 'r', 'u', 'e'] (.bool true)
  | false : Denotes ['f', 'a', 'l', 's', 'e'] (.bool false)
  | number {cs q} (h : IsNumber cs q) : Denotes cs (.number q)
  | string {cs us} (h : IsString cs us) : Denotes cs (.string us)
  | emptyArray {w} (hw : ∀ c ∈ w, IsWs c) : Denotes ('[' :: w ++ [']']) (.array [])
  | array {items : List Item} (hne : items ≠ []) (hws : ∀ i ∈ items, i.Spaced)
      (h : ∀ i ∈ items, Denotes i.text i.value) :
      Denotes ('[' :: separated (items.map Item.chars) ++ [']']) (.array (items.map Item.value))
  | emptyObject {w} (hw : ∀ c ∈ w, IsWs c) : Denotes ('{' :: w ++ ['}']) (.object [])
  | object {members : List Member} (hne : members ≠ []) (hws : ∀ m ∈ members, m.Spaced)
      (hname : ∀ m ∈ members, IsString m.nameText m.name)
      (h : ∀ m ∈ members, Denotes m.item.text m.item.value) :
      Denotes ('{' :: separated (members.map Member.chars) ++ ['}'])
        (.object (members.map fun m => (m.name, m.item.value)))

/-- `JSON-text`. -/
inductive IsText : List Char → Value → Prop where
  | intro {i : Item} (hws : i.Spaced) (h : Denotes i.text i.value) : IsText i.chars i.value

/-- A value without white space around it is a text. -/
theorem Denotes.isText {cs : List Char} {v : Value} (h : Denotes cs v) : IsText cs v := by
  have htext : IsText (Item.chars ⟨[], cs, [], v⟩) v :=
    .intro ⟨List.forall_mem_nil _, List.forall_mem_nil _⟩ h
  rwa [Item.chars, List.nil_append, List.append_nil] at htext

/-- The bytes of a text. -/
def utf8 (cs : List Char) : List UInt8 := cs.flatMap String.utf8EncodeChar

/-! ## Tokens hold no control characters -/

/-- No control character. -/
def Printable (cs : List Char) : Prop := ∀ c ∈ cs, 0x20 ≤ c.toNat

instance (cs : List Char) : Decidable (Printable cs) :=
  List.decidableBAll (fun c : Char => 0x20 ≤ c.toNat) cs

theorem printable_append {a b : List Char} (ha : Printable a) (hb : Printable b) :
    Printable (a ++ b) :=
  fun c hc => (List.mem_append.mp hc).elim (ha c) (hb c)

theorem printable_cons {c : Char} {a : List Char} (hc : 0x20 ≤ c.toNat) (ha : Printable a) :
    Printable (c :: a) :=
  List.forall_mem_cons.mpr ⟨hc, ha⟩

theorem printable_digits {ds : List Char} (h : ∀ c ∈ ds, IsDigit c) : Printable ds :=
  fun c hc => Nat.le_trans (by decide) (h c hc).1

theorem IsInt.printable {cs : List Char} {n : Nat} (h : IsInt cs n) : Printable cs := by
  cases h with
  | zero => exact printable_cons (by decide) (List.forall_mem_nil _)
  | pos hd hne hds => exact printable_digits (List.forall_mem_cons.mpr ⟨hd, hds⟩)

theorem IsFrac.printable {cs : List Char} {x : ℚ} (h : IsFrac cs x) : Printable cs := by
  cases h with
  | none => exact List.forall_mem_nil _
  | some hne hds => exact printable_cons (by decide) (printable_digits hds)

theorem IsExp.printable {cs : List Char} {k : ℤ} (h : IsExp cs k) : Printable cs := by
  have hexp : ∀ {e : Char}, e = 'e' ∨ e = 'E' → 0x20 ≤ e.toNat := by
    rintro e (rfl | rfl) <;> decide
  cases h with
  | none => exact List.forall_mem_nil _
  | plain he hne hds => exact printable_cons (hexp he) (printable_digits hds)
  | plus he hne hds =>
      exact printable_cons (hexp he) (printable_cons (by decide) (printable_digits hds))
  | minus he hne hds =>
      exact printable_cons (hexp he) (printable_cons (by decide) (printable_digits hds))

theorem IsNumber.printable {cs : List Char} {q : ℚ} (h : IsNumber cs q) : Printable cs := by
  cases h with
  | pos hi hf he =>
      exact printable_append (printable_append hi.printable hf.printable) he.printable
  | neg hi hf he =>
      exact printable_cons (by decide)
        (printable_append (printable_append hi.printable hf.printable) he.printable)

theorem printable_hex {c : Char} {n : Nat} (h : hexValue c = some n) : 0x20 ≤ c.toNat := by
  unfold hexValue at h
  split at h
  · omega
  · split at h
    · omega
    · split at h
      · omega
      · cases h

theorem IsChar.printable {cs : List Char} {us : List UInt16} (h : IsChar cs us) :
    Printable cs := by
  cases h with
  | unescaped hc hq he => exact printable_cons hc (List.forall_mem_nil _)
  | @escaped c u h =>
      have hall : ∀ e ∈ escapes, 0x20 ≤ e.1.toNat := by decide
      exact printable_cons (by decide) (printable_cons (hall _ h) (List.forall_mem_nil _))
  | hex ha hb hc hd =>
      refine printable_cons (by decide) (printable_cons (by decide) ?_)
      exact printable_cons (printable_hex ha) (printable_cons (printable_hex hb)
        (printable_cons (printable_hex hc) (printable_cons (printable_hex hd)
          (List.forall_mem_nil _))))

theorem IsString.printable {cs : List Char} {us : List UInt16} (h : IsString cs us) :
    Printable cs := by
  obtain ⟨hitems⟩ := h
  refine printable_append (printable_cons (by decide) fun c hc => ?_)
    (printable_cons (by decide) (List.forall_mem_nil _))
  obtain ⟨i, hi, hmem⟩ := List.mem_flatMap.mp hc
  exact (hitems i hi).printable c hmem

/-! ## White space can be exchanged -/

/-- A map of characters that exchanges white space and leaves what is no control character. -/
structure Respells (g : Char → Char) : Prop where
  fix : ∀ c : Char, 0x20 ≤ c.toNat → g c = c
  ws : ∀ c, IsWs c → IsWs (g c)

variable {g : Char → Char}

theorem Respells.printable (hg : Respells g) {cs : List Char} (h : Printable cs) :
    cs.map g = cs := by
  conv_rhs => rw [← List.map_id cs]
  exact List.map_congr_left fun c hc => hg.fix c (h c hc)

theorem Respells.spaces (hg : Respells g) {cs : List Char} (h : ∀ c ∈ cs, IsWs c) :
    ∀ c ∈ cs.map g, IsWs c := by
  intro c hc
  obtain ⟨d, hd, rfl⟩ := List.mem_map.mp hc
  exact hg.ws d (h d hd)

theorem Respells.separated (hg : Respells g) (texts : List (List Char)) :
    (separated texts).map g = Rfc8259.separated (texts.map (List.map g)) := by
  have hcomma : g ',' = ',' := hg.fix _ (by decide)
  unfold Rfc8259.separated
  induction texts with
  | nil => rfl
  | cons t texts ih =>
      cases texts with
      | nil => rw [List.intercalate_singleton, List.map_singleton, List.intercalate_singleton]
      | cons u texts =>
          rw [List.intercalate_cons_cons, List.map_append, List.map_append, List.map_singleton,
            hcomma, ih]
          exact List.intercalate_cons_cons.symm

def Item.map (g : Char → Char) (i : Item) : Item :=
  ⟨i.before.map g, i.text.map g, i.after.map g, i.value⟩

def Member.map (g : Char → Char) (m : Member) : Member :=
  ⟨m.before.map g, m.nameText.map g, m.after.map g, m.name, m.item.map g⟩

theorem Item.chars_map (i : Item) : (i.map g).chars = i.chars.map g := by
  unfold Item.chars Item.map
  rw [List.map_append, List.map_append]

theorem Respells.member_chars (hg : Respells g) (m : Member) :
    (m.map g).chars = m.chars.map g := by
  have hcolon : g ':' = ':' := hg.fix _ (by decide)
  unfold Member.chars Member.map
  rw [List.map_append, List.map_append, List.map_append, List.map_cons, hcolon, Item.chars_map]

theorem Respells.item_spaced (hg : Respells g) {i : Item} (h : i.Spaced) : (i.map g).Spaced :=
  ⟨hg.spaces h.1, hg.spaces h.2⟩

/-- A value is denoted by any spelling of the white space in it. -/
theorem Denotes.respell (hg : Respells g) {cs : List Char} {v : Value} (h : Denotes cs v) :
    Denotes (cs.map g) v := by
  have hfix : ∀ {c : Char}, 0x20 ≤ c.toNat → g c = c := fun hc => hg.fix _ hc
  induction h with
  | null =>
      rw [hg.printable (by decide)]
      exact .null
  | true =>
      rw [hg.printable (by decide)]
      exact .true
  | false =>
      rw [hg.printable (by decide)]
      exact .false
  | number h =>
      rw [hg.printable h.printable]
      exact .number h
  | string h =>
      rw [hg.printable h.printable]
      exact .string h
  | emptyArray hw =>
      rw [List.map_append, List.map_cons, List.map_singleton, hfix (by decide), hfix (by decide)]
      exact .emptyArray (hg.spaces hw)
  | @array items hne hws h ih =>
      have hitems : (items.map Item.chars).map (List.map g) =
          (items.map (Item.map g)).map Item.chars := by
        rw [List.map_map, List.map_map]
        exact List.map_congr_left fun i _ => (Item.chars_map i).symm
      have hvalues : items.map Item.value = (items.map (Item.map g)).map Item.value := by
        rw [List.map_map]
        rfl
      rw [List.map_append, List.map_cons, List.map_singleton, hfix (by decide), hfix (by decide),
        hg.separated, hitems, hvalues]
      refine .array (by simpa using hne) (fun i hi => ?_) fun i hi => ?_
      · obtain ⟨j, hj, rfl⟩ := List.mem_map.mp hi
        exact hg.item_spaced (hws j hj)
      · obtain ⟨j, hj, rfl⟩ := List.mem_map.mp hi
        exact ih j hj
  | emptyObject hw =>
      rw [List.map_append, List.map_cons, List.map_singleton, hfix (by decide), hfix (by decide)]
      exact .emptyObject (hg.spaces hw)
  | @object members hne hws hname h ih =>
      have hchars : (members.map Member.chars).map (List.map g) =
          (members.map (Member.map g)).map Member.chars := by
        rw [List.map_map, List.map_map]
        exact List.map_congr_left fun m _ => (hg.member_chars m).symm
      have hvalues : (members.map fun m => (m.name, m.item.value)) =
          (members.map (Member.map g)).map fun m => (m.name, m.item.value) := by
        rw [List.map_map]
        rfl
      rw [List.map_append, List.map_cons, List.map_singleton, hfix (by decide), hfix (by decide),
        hg.separated, hchars, hvalues]
      refine .object (by simpa using hne) (fun m hm => ?_) (fun m hm => ?_) fun m hm => ?_
      · obtain ⟨n, hn, rfl⟩ := List.mem_map.mp hm
        exact ⟨hg.spaces (hws n hn).1, hg.spaces (hws n hn).2.1, hg.item_spaced (hws n hn).2.2⟩
      · obtain ⟨n, hn, rfl⟩ := List.mem_map.mp hm
        have hstr := hname n hn
        unfold Member.map
        rw [hg.printable hstr.printable]
        exact hstr
      · obtain ⟨n, hn, rfl⟩ := List.mem_map.mp hm
        exact ih n hn

/-- White space in a text can be exchanged for other white space. -/
theorem IsText.respell (hg : Respells g) {cs : List Char} {v : Value} (h : IsText cs v) :
    IsText (cs.map g) v := by
  obtain ⟨hws, h⟩ := h
  rw [← Item.chars_map]
  exact .intro (hg.item_spaced hws) (h.respell hg)

/-! ## Bytes -/

/-- A character outside ASCII has no ASCII byte. -/
theorem ge_of_mem_utf8EncodeChar {c : Char} (hc : 0x80 ≤ c.toNat) {b : UInt8}
    (hb : b ∈ String.utf8EncodeChar c) : 0x80 ≤ b.toNat := by
  have hv : c.toNat = c.val.toNat := rfl
  unfold String.utf8EncodeChar at hb
  dsimp only at hb
  split at hb
  · omega
  · split at hb
    · simp only [List.mem_cons, List.not_mem_nil, or_false] at hb
      rcases hb with rfl | rfl <;> rw [UInt8.toNat_ofNat'] <;> omega
    · split at hb
      · simp only [List.mem_cons, List.not_mem_nil, or_false] at hb
        rcases hb with rfl | rfl | rfl <;> rw [UInt8.toNat_ofNat'] <;> omega
      · simp only [List.mem_cons, List.not_mem_nil, or_false] at hb
        rcases hb with rfl | rfl | rfl | rfl <;> rw [UInt8.toNat_ofNat'] <;> omega

theorem utf8EncodeChar_ascii {c : Char} (hc : c.toNat < 0x80) :
    String.utf8EncodeChar c = [c.toNat.toUInt8] := by
  have hv : c.val.toNat ≤ 0x7f := Nat.le_of_lt_succ hc
  unfold String.utf8EncodeChar
  exact if_pos hv

/-- Maps of characters and of bytes that do the same in ASCII and nothing outside. -/
theorem map_utf8 {f : UInt8 → UInt8} (hascii : ∀ c : Char, c.toNat < 0x80 →
      (g c).toNat < 0x80 ∧ (g c).toNat.toUInt8 = f c.toNat.toUInt8)
    (hchar : ∀ c : Char, 0x80 ≤ c.toNat → g c = c) (hbyte : ∀ b : UInt8, 0x80 ≤ b.toNat → f b = b)
    (cs : List Char) : (utf8 cs).map f = utf8 (cs.map g) := by
  unfold utf8
  induction cs with
  | nil => rfl
  | cons c cs ih =>
      rw [List.flatMap_cons, List.map_append, ih, List.map_cons, List.flatMap_cons]
      congr 1
      rcases Nat.lt_or_ge c.toNat 0x80 with hc | hc
      · obtain ⟨hlt, heq⟩ := hascii c hc
        rw [utf8EncodeChar_ascii hc, utf8EncodeChar_ascii hlt, List.map_singleton, heq]
      · rw [hchar c hc]
        conv_rhs => rw [← List.map_id (String.utf8EncodeChar c)]
        exact List.map_congr_left fun b hb => hbyte b (ge_of_mem_utf8EncodeChar hc hb)

end Rfc8259
