/-
  JSON texts within the limits of an implementation.

  RFC 8259 lets an implementation limit the depth of nesting and the numbers it takes.
  `Limited n levels` is `Denotes` for texts whose numbers have at most `n` characters and
  whose arrays and objects are at most `levels` deep. Every text is within some limits
  (`Denotes.limited`).
-/
import DisplayxrMcp.Lib.Rfc8259

namespace Rfc8259

/-- `value`, within limits. -/
inductive Limited (n : Nat) : Nat → List Char → Value → Prop where
  | null {levels} : Limited n levels ['n', 'u', 'l', 'l'] .null
  | true {levels} : Limited n levels ['t', 'r', 'u', 'e'] (.bool true)
  | false {levels} : Limited n levels ['f', 'a', 'l', 's', 'e'] (.bool false)
  | number {levels cs q} (h : IsNumber cs q) (hn : cs.length ≤ n) :
      Limited n levels cs (.number q)
  | string {levels cs us} (h : IsString cs us) : Limited n levels cs (.string us)
  | emptyArray {levels w} (hw : ∀ c ∈ w, IsWs c) :
      Limited n (levels + 1) ('[' :: w ++ [']']) (.array [])
  | array {levels} {items : List Item} (hne : items ≠ []) (hws : ∀ i ∈ items, i.Spaced)
      (h : ∀ i ∈ items, Limited n levels i.text i.value) :
      Limited n (levels + 1) ('[' :: separated (items.map Item.chars) ++ [']'])
        (.array (items.map Item.value))
  | emptyObject {levels w} (hw : ∀ c ∈ w, IsWs c) :
      Limited n (levels + 1) ('{' :: w ++ ['}']) (.object [])
  | object {levels} {members : List Member} (hne : members ≠ []) (hws : ∀ m ∈ members, m.Spaced)
      (hname : ∀ m ∈ members, IsString m.nameText m.name)
      (h : ∀ m ∈ members, Limited n levels m.item.text m.item.value) :
      Limited n (levels + 1) ('{' :: separated (members.map Member.chars) ++ ['}'])
        (.object (members.map fun m => (m.name, m.item.value)))

variable {n levels : Nat} {cs : List Char} {v : Value}

theorem Limited.denotes (h : Limited n levels cs v) : Denotes cs v := by
  induction h with
  | null => exact .null
  | true => exact .true
  | false => exact .false
  | number h hn => exact .number h
  | string h => exact .string h
  | emptyArray hw => exact .emptyArray hw
  | array hne hws h ih => exact .array hne hws ih
  | emptyObject hw => exact .emptyObject hw
  | object hne hws hname h ih => exact .object hne hws hname ih

/-- Within limits, a text is within larger ones. -/
theorem Limited.mono (h : Limited n levels cs v) : ∀ {m k : Nat}, n ≤ m → levels ≤ k →
    Limited m k cs v := by
  have hsucc : ∀ {l k : Nat}, l + 1 ≤ k → ∃ j, k = j + 1 ∧ l ≤ j :=
    fun {l k} hk => ⟨k - 1, by omega, by omega⟩
  induction h with
  | null => exact fun _ _ => .null
  | true => exact fun _ _ => .true
  | false => exact fun _ _ => .false
  | number h hn => exact fun hm _ => .number h (Nat.le_trans hn hm)
  | string h => exact fun _ _ => .string h
  | emptyArray hw =>
      intro m k hm hk
      obtain ⟨j, rfl, -⟩ := hsucc hk
      exact .emptyArray hw
  | array hne hws h ih =>
      intro m k hm hk
      obtain ⟨j, rfl, hj⟩ := hsucc hk
      exact .array hne hws fun i hi => ih i hi hm hj
  | emptyObject hw =>
      intro m k hm hk
      obtain ⟨j, rfl, -⟩ := hsucc hk
      exact .emptyObject hw
  | object hne hws hname h ih =>
      intro m k hm hk
      obtain ⟨j, rfl, hj⟩ := hsucc hk
      exact .object hne hws hname fun m hmem => ih m hmem hm hj

/-- Common limits for finitely many texts. -/
theorem limits_exist {α : Type} {text : α → List Char} {value : α → Value} {l : List α}
    (h : ∀ a ∈ l, ∃ n levels, Limited n levels (text a) (value a)) :
    ∃ n levels, ∀ a ∈ l, Limited n levels (text a) (value a) := by
  induction l with
  | nil => exact ⟨0, 0, List.forall_mem_nil _⟩
  | cons a l ih =>
      obtain ⟨n, levels, ha⟩ := h a List.mem_cons_self
      obtain ⟨m, k, hl⟩ := ih fun b hb => h b (List.mem_cons_of_mem a hb)
      refine ⟨max n m, max levels k, List.forall_mem_cons.mpr ⟨?_, fun b hb => ?_⟩⟩
      · exact ha.mono (Nat.le_max_left n m) (Nat.le_max_left levels k)
      · exact (hl b hb).mono (Nat.le_max_right n m) (Nat.le_max_right levels k)

/-- Every text is within some limits. -/
theorem Denotes.limited (h : Denotes cs v) : ∃ n levels, Limited n levels cs v := by
  induction h with
  | null => exact ⟨0, 0, .null⟩
  | true => exact ⟨0, 0, .true⟩
  | false => exact ⟨0, 0, .false⟩
  | number h => exact ⟨_, 0, .number h (Nat.le_refl _)⟩
  | string h => exact ⟨0, 0, .string h⟩
  | emptyArray hw => exact ⟨0, 1, .emptyArray hw⟩
  | array hne hws h ih =>
      obtain ⟨n, levels, hall⟩ := limits_exist ih
      exact ⟨n, levels + 1, .array hne hws hall⟩
  | emptyObject hw => exact ⟨0, 1, .emptyObject hw⟩
  | object hne hws hname h ih =>
      obtain ⟨n, levels, hall⟩ := limits_exist ih
      exact ⟨n, levels + 1, .object hne hws hname hall⟩

/-! ## The parts of a text -/

theorem separated_singleton (t : List Char) : separated [t] = t := List.intercalate_singleton

theorem separated_cons (t u : List Char) (texts : List (List Char)) :
    separated (t :: u :: texts) = t ++ ',' :: separated (u :: texts) := by
  unfold separated
  rw [List.intercalate_cons_cons, List.append_assoc]
  rfl

/-- Without the white space in front. -/
def Item.trimmed (i : Item) : Item := ⟨[], i.text, i.after, i.value⟩

def Member.trimmed (m : Member) : Member := ⟨[], m.nameText, m.after, m.name, m.item⟩

/-- The white space in front of the first of several texts. -/
theorem separated_trimmed {t u w : List Char} (h : t = w ++ u) (texts : List (List Char)) :
    separated (t :: texts) = w ++ separated (u :: texts) := by
  subst h
  cases texts with
  | nil => rw [separated_singleton, separated_singleton]
  | cons s texts => rw [separated_cons, separated_cons, List.append_assoc]

theorem Item.chars_trimmed (i : Item) : i.chars = i.before ++ i.trimmed.chars := by
  unfold Item.chars Item.trimmed
  rw [List.nil_append, List.append_assoc]

theorem Member.chars_trimmed (m : Member) : m.chars = m.before ++ m.trimmed.chars := by
  unfold Member.chars Member.trimmed
  rw [List.nil_append, List.append_assoc, List.append_assoc, List.append_assoc]

end Rfc8259
