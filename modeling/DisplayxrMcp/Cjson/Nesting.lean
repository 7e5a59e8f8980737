/-
  How deep a text may nest.

  `parse_array` and `parse_object` give up beyond `CJSON_NESTING_LIMIT`, the printer has no
  such limit. A parser with more levels to go takes whatever one with fewer takes
  (`parseValue_mono`), so a text that nests deeper than the limit is refused, and every other
  one is read back (`parse_nesting`).
-/
import DisplayxrMcp.Cjson.Text

namespace Cjson

open Lib

namespace Json

mutual

/-- How many arrays and objects stand in each other. -/
def nesting : Json → Nat
  | .null => 0
  | .bool _ => 0
  | .num _ => 0
  | .str _ => 0
  | .arr l => nestingItems l + 1
  | .obj ms => nestingMembers ms + 1

def nestingItems : List Json → Nat
  | [] => 0
  | j :: l => max (nesting j) (nestingItems l)

def nestingMembers : List (CStr × Json) → Nat
  | [] => 0
  | (_, j) :: ms => max (nesting j) (nestingMembers ms)

end

mutual

/-- Reading a tree back leaves its shape. -/
@[simp] theorem nesting_reparse : ∀ j : Json, j.reparse.nesting = j.nesting
  | .null => by rw [reparse_null]
  | .bool _ => by rw [reparse_bool]
  | .num (.fin _) => by simp [reparse, nesting]
  | .num (.inf _) => by simp [reparse, nesting]
  | .str _ => by rw [reparse_str]
  | .arr l => by rw [reparse_arr, nesting, nesting, nestingItems_reparse l]
  | .obj ms => by rw [reparse_obj, nesting, nesting, nestingMembers_reparse ms]

theorem nestingItems_reparse : ∀ l : List Json, nestingItems (reparseItems l) = nestingItems l
  | [] => by rw [reparseItems_nil]
  | j :: l => by
      rw [reparseItems_cons, nestingItems, nestingItems, nesting_reparse j, nestingItems_reparse l]

theorem nestingMembers_reparse : ∀ ms : List (CStr × Json),
    nestingMembers (reparseMembers ms) = nestingMembers ms
  | [] => by rw [reparseMembers_nil]
  | (k, j) :: ms => by
      rw [reparseMembers_cons, nestingMembers, nestingMembers, nesting_reparse j,
        nestingMembers_reparse ms]

end

theorem nestingItems_le {l : List Json} {n : Nat} :
    nestingItems l ≤ n ↔ ∀ j ∈ l, j.nesting ≤ n := by
  induction l with
  | nil => simp [nestingItems]
  | cons j l ih => rw [nestingItems, Nat.max_le, ih, List.forall_mem_cons]

theorem nestingMembers_le {ms : List (CStr × Json)} {n : Nat} :
    nestingMembers ms ≤ n ↔ ∀ m ∈ ms, m.2.nesting ≤ n := by
  induction ms with
  | nil => simp [nestingMembers]
  | cons m ms ih =>
      obtain ⟨k, j⟩ := m
      rw [nestingMembers, Nat.max_le, ih, List.forall_mem_cons]

end Json

/-- The levels of a tree that can be carried are its nesting, or more. -/
theorem Carried.nesting_le {levels : Nat} {j : Json} (h : Carried levels j) :
    j.nesting ≤ levels := by
  induction h with
  | null => exact Nat.zero_le _
  | bool => exact Nat.zero_le _
  | num h => exact Nat.zero_le _
  | str h => exact Nat.zero_le _
  | arr h ih =>
      rw [Json.nesting]
      exact Nat.succ_le_succ (Json.nestingItems_le.mpr ih)
  | obj hname h ih =>
      rw [Json.nesting]
      exact Nat.succ_le_succ (Json.nestingMembers_le.mpr ih)

/-- As many levels as it nests are enough. -/
theorem Carried.of_nesting {levels levels' : Nat} {j : Json} (h : Carried levels j)
    (hle : j.nesting ≤ levels') : Carried levels' j := by
  induction h generalizing levels' with
  | null => exact .null
  | bool => exact .bool
  | num h => exact .num h
  | str h => exact .str h
  | arr h ih =>
      rw [Json.nesting] at hle
      obtain ⟨n, rfl⟩ : ∃ n, levels' = n + 1 := ⟨levels' - 1, by omega⟩
      have hitems := Json.nestingItems_le.mp (Nat.le_of_succ_le_succ hle)
      exact .arr fun j hj => ih j hj (hitems j hj)
  | obj hname h ih =>
      rw [Json.nesting] at hle
      obtain ⟨n, rfl⟩ : ∃ n, levels' = n + 1 := ⟨levels' - 1, by omega⟩
      have hmembers := Json.nestingMembers_le.mp (Nat.le_of_succ_le_succ hle)
      exact .obj hname fun m hm => ih m hm (hmembers m hm)

/-! ## More levels take no less -/

/-- What `value` takes, `value'` takes. -/
def Extends (value value' : CStr → Returns (Json × CStr)) : Prop :=
  ∀ {s r}, value s = .ok r → value' s = .ok r

section Loops

variable {value value' : CStr → Returns (Json × CStr)} (hv : Extends value value')
include hv

theorem parseElements_extends : ∀ {fuel : Nat} {s : CStr} {r : List Json × CStr},
    parseElements value fuel s = .ok r → parseElements value' fuel s = .ok r := by
  intro fuel
  induction fuel with
  | zero => exact fun h => nomatch h
  | succ fuel ih =>
      intro s r h
      unfold parseElements at h ⊢
      obtain ⟨⟨item, t⟩, hitem, h⟩ := Returns.bind_ok h
      rw [hv hitem, Returns.ok_bind]
      dsimp only at h ⊢
      split at h
      · obtain ⟨⟨items, u⟩, hitems, h⟩ := Returns.bind_ok h
        rw [ih hitems, Returns.ok_bind]
        exact h
      · exact h

theorem parseArray_extends : Extends (parseArray value) (parseArray value') := by
  intro s r h
  unfold parseArray at h ⊢
  split at h
  · cases h
  · split at h
    · cases h
    · next hc =>
        rw [if_neg hc]
        split at h
        · exact h
        · cases h
        · obtain ⟨⟨items, u⟩, hitems, h⟩ := Returns.bind_ok h
          rw [parseElements_extends hv hitems, Returns.ok_bind]
          exact h

theorem parseMembers_extends : ∀ {fuel : Nat} {s : CStr} {r : List (CStr × Json) × CStr},
    parseMembers value fuel s = .ok r → parseMembers value' fuel s = .ok r := by
  intro fuel
  induction fuel with
  | zero => exact fun h => nomatch h
  | succ fuel ih =>
      intro s r h
      unfold parseMembers at h ⊢
      split at h
      · cases h
      · next hs =>
          rw [if_neg hs]
          obtain ⟨⟨name, t⟩, hname, h⟩ := Returns.bind_ok h
          rw [hname, Returns.ok_bind]
          dsimp only at h ⊢
          split at h
          · obtain ⟨⟨item, u⟩, hitem, h⟩ := Returns.bind_ok h
            rw [hv hitem, Returns.ok_bind]
            dsimp only at h ⊢
            split at h
            · obtain ⟨⟨members, w⟩, hmembers, h⟩ := Returns.bind_ok h
              rw [ih hmembers, Returns.ok_bind]
              exact h
            · exact h
          · cases h

theorem parseObject_extends : Extends (parseObject value) (parseObject value') := by
  intro s r h
  unfold parseObject at h ⊢
  split at h
  · cases h
  · split at h
    · cases h
    · next hc =>
        rw [if_neg hc]
        split at h
        · exact h
        · cases h
        · obtain ⟨⟨members, u⟩, hmembers, h⟩ := Returns.bind_ok h
          rw [parseMembers_extends hv hmembers, Returns.ok_bind]
          exact h

end Loops

theorem parseValueWith_extends {array array' object object' : CStr → Returns (Json × CStr)}
    (harr : Extends array array') (hobj : Extends object object') :
    Extends (parseValueWith array object) (parseValueWith array' object') := by
  intro s r h
  unfold parseValueWith at h ⊢
  split at h
  · next hw => rw [if_pos hw]; exact h
  · next hnull =>
      rw [if_neg hnull]
      split at h
      · next hw => rw [if_pos hw]; exact h
      · next hfalse =>
          rw [if_neg hfalse]
          split at h
          · next hw => rw [if_pos hw]; exact h
          · next htrue =>
              rw [if_neg htrue]
              split at h
              · exact h
              · split at h
                · next hc => rw [if_pos hc]; exact h
                · next hstr =>
                    rw [if_neg hstr]
                    split at h
                    · next hc => rw [if_pos hc]; exact h
                    · next hnum =>
                        rw [if_neg hnum]
                        split at h
                        · next hc => rw [if_pos hc]; exact harr h
                        · next hbracket =>
                            rw [if_neg hbracket]
                            split at h
                            · next hc => rw [if_pos hc]; exact hobj h
                            · cases h

theorem parseValue_extends (levels : Nat) :
    Extends (parseValue levels) (parseValue (levels + 1)) := by
  induction levels with
  | zero =>
      exact parseValueWith_extends (by intro s r h; cases h) (by intro s r h; cases h)
  | succ levels ih =>
      exact parseValueWith_extends (parseArray_extends ih) (parseObject_extends ih)

theorem parseValue_mono {levels levels' : Nat} (hle : levels ≤ levels') :
    Extends (parseValue levels) (parseValue levels') := by
  induction hle with
  | refl => exact fun h => h
  | step _ ih => exact fun h => parseValue_extends _ (ih h)

/-! ## The text of a tree -/

/-- The text of a tree is read back if it nests no deeper than the limit, else it is refused. -/
theorem parse_nesting {levels : Nat} {j : Json} (h : Carried levels j) :
    parse j.text = if j.nesting ≤ nestingLimit then .ok j.reparse else .error .fail := by
  split
  · next hle => exact (parse_text (h.of_nesting hle)).2
  · next hgt =>
      cases hp : parse j.text with
      | error e =>
          cases e with
          | fail => rfl
          | fault => exact absurd hp (parseWithLength_spec _).1
      | ok j' =>
          refine absurd ?_ hgt
          have hcarried : Carried nestingLimit j' := parseWithLength_carried hp
          unfold parse at hp
          rw [parseWithLength_text] at hp
          obtain ⟨⟨item, t⟩, hr, hitem⟩ := Returns.bind_ok hp
          cases hitem
          -- with the levels of the tree itself the parser reads the tree
          have hmore := parseValue_mono (Nat.le_max_left nestingLimit levels) hr
          rw [parseValue_text (max nestingLimit levels) (h.mono (Nat.le_max_right _ _))
            (clear_cons (by decide) [])] at hmore
          cases hmore
          rw [← Json.nesting_reparse]
          exact hcarried.nesting_le

end Cjson
