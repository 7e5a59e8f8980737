/-
  Every member of a name, and every other one.

  cJSON keeps repeated members, and its accessors see the first. `membersNamed`
  and `membersBut` are the object as a whole: the values under one name, and the
  members under any but the given names, in document order. A replacement
  touches the first value, an addition comes last, and printing and reading back
  goes value by value.
-/
import DisplayxrMcp.Cjson.Json

namespace Cjson.Json

open Lib

/-- The members of an object; other values have none. -/
def members : Json → List (CStr × Json)
  | .obj ms => ms
  | _ => []

/-- The values of every member called `name`, in order. -/
def membersNamed (j : Json) (name : CStr) : List Json :=
  (j.members.filter fun m => decide (m.1 = name)).map Prod.snd

/-- The members called none of `names`, in order. -/
def membersBut (j : Json) (names : List CStr) : List (CStr × Json) :=
  j.members.filter fun m => names.all fun name => decide (m.1 ≠ name)

/-! ## The members of a changed object -/

theorem members_replace (j new : Json) (name : CStr) :
    (j.replaceItemInObjectCaseSensitive name new).members = replaceFirst name new j.members := by
  cases j <;> rfl

theorem members_reparse (j : Json) : j.reparse.members = reparseMembers j.members := by
  cases j with
  | obj ms => rw [reparse_obj]; rfl
  | num d => cases d <;> simp [reparse, members]
  | null => simp [members]
  | bool b => simp [members]
  | str s => simp [members]
  | arr l => simp [members]

/-- The accessor sees the first value. -/
theorem getObjectItem_eq_head? (j : Json) (name : CStr) :
    j.getObjectItemCaseSensitive name = (j.membersNamed name).head? := by
  rw [membersNamed, List.head?_map, List.head?_filter]
  cases j <;> rfl

/-! ## Replacing -/

/-- Only members of that name differ after a replacement. -/
theorem filter_replaceFirst_of_not (keep : CStr → Bool) {name : CStr} (new : Json)
    (hname : keep name = false) (ms : List (CStr × Json)) :
    (replaceFirst name new ms).filter (fun m => keep m.1) = ms.filter fun m => keep m.1 := by
  induction ms with
  | nil => rfl
  | cons m ms ih =>
      obtain ⟨k, v⟩ := m
      by_cases hk : k = name
      · subst hk
        simp [replaceFirst, hname]
      · simp [replaceFirst, hk, List.filter_cons, ih]

/-- The first member of that name gets the new value. -/
theorem filter_replaceFirst_self (name : CStr) (new : Json) (ms : List (CStr × Json)) :
    ((replaceFirst name new ms).filter fun m => decide (m.1 = name)).map Prod.snd =
      match (ms.filter fun m => decide (m.1 = name)).map Prod.snd with
      | [] => []
      | _ :: rest => new :: rest := by
  induction ms with
  | nil => rfl
  | cons m ms ih =>
      obtain ⟨k, v⟩ := m
      by_cases hk : k = name
      · simp [replaceFirst, hk]
      · simp [replaceFirst, hk, ih]

theorem membersNamed_replace_ne (j new : Json) {name other : CStr} (hne : name ≠ other) :
    (j.replaceItemInObjectCaseSensitive name new).membersNamed other = j.membersNamed other := by
  rw [membersNamed, members_replace]
  exact congrArg (List.map Prod.snd)
    (filter_replaceFirst_of_not (fun k => decide (k = other)) new (decide_eq_false hne) j.members)

theorem membersNamed_replace_self (j new : Json) (name : CStr) :
    (j.replaceItemInObjectCaseSensitive name new).membersNamed name =
      match j.membersNamed name with
      | [] => []
      | _ :: rest => new :: rest := by
  rw [membersNamed, members_replace]
  exact filter_replaceFirst_self name new j.members

theorem membersBut_replace (j new : Json) {name : CStr} {names : List CStr}
    (hmem : name ∈ names) :
    (j.replaceItemInObjectCaseSensitive name new).membersBut names = j.membersBut names := by
  have hdrop : (names.all fun other => decide (name ≠ other)) = false := by
    rw [List.all_eq_false]
    exact ⟨name, hmem, by simp⟩
  rw [membersBut, members_replace]
  exact filter_replaceFirst_of_not (fun k => names.all fun other => decide (k ≠ other)) new hdrop
    j.members

/-! ## Adding -/

theorem membersNamed_add {ms : List (CStr × Json)} (name : CStr) (child : Json) :
    (addItemToObject (.obj ms) name child).membersNamed name =
      membersNamed (.obj ms) name ++ [child] := by
  simp [addItemToObject, membersNamed, members]

theorem membersBut_add {ms : List (CStr × Json)} {name : CStr} {names : List CStr} (child : Json)
    (hmem : name ∈ names) :
    (addItemToObject (.obj ms) name child).membersBut names = membersBut (.obj ms) names := by
  have hdrop : ¬ (names.all fun other => decide (name ≠ other)) = true := by
    rw [List.all_eq_true]
    exact fun hall => of_decide_eq_true (hall name hmem) rfl
  have hlast : ([(name, child)].filter fun m => names.all fun other => decide (m.1 ≠ other)) = [] :=
    List.filter_cons_of_neg hdrop
  rw [membersBut, addItemToObject, members, List.filter_append, hlast, List.append_nil]
  rfl

/-! ## Reading back -/

/-- Printing and reading back keeps the values of a name, each read back. -/
theorem membersNamed_reparse (j : Json) (name : CStr) :
    j.reparse.membersNamed name = (j.membersNamed name).map reparse := by
  rw [membersNamed, membersNamed, members_reparse]
  induction j.members with
  | nil => rfl
  | cons m ms ih =>
      obtain ⟨k, v⟩ := m
      rw [reparseMembers_cons]
      by_cases hk : k = name
      · simp [hk, ih]
      · simp [hk, ih]

end Cjson.Json
