/-
  cJSON trees.

  A tree is what `cJSON_Parse` builds: objects are member lists in document
  order, duplicate keys kept. Strings are the bytes of `valuestring`. The
  accessors carry cJSON's names. `reparse` is the tree the reader of
  `cJSON_PrintUnformatted`'s text gets: strings, keys and order survive, each
  number goes through `print_number` (an infinity is printed as `null`).
-/
import DisplayxrMcp.Lib.CStr
import DisplayxrMcp.Cjson.Number

namespace Cjson

open Lib

/-- A cJSON tree. -/
inductive Json where
  | null
  | bool (b : Bool)
  | num (d : Dbl)
  | str (s : CStr)
  | arr (items : List Json)
  | obj (members : List (CStr × Json))

namespace Json

/-- `cJSON_GetObjectItemCaseSensitive`: the first member of that name. -/
def getObjectItemCaseSensitive (j : Json) (name : CStr) : Option Json :=
  match j with
  | .obj ms => (ms.find? fun m => decide (m.1 = name)).map Prod.snd
  | _ => none

/-- The member list with the first member called `name` replaced. -/
def replaceFirst (name : CStr) (new : Json) : List (CStr × Json) → List (CStr × Json)
  | [] => []
  | (k, v) :: ms => if k = name then (name, new) :: ms else (k, v) :: replaceFirst name new ms

/-- `cJSON_ReplaceItemInObjectCaseSensitive`: no effect when the name is absent. -/
def replaceItemInObjectCaseSensitive (j : Json) (name : CStr) (new : Json) : Json :=
  match j with
  | .obj ms => .obj (replaceFirst name new ms)
  | j => j

/-- `cJSON_AddItemToObject`: append a child. On an array the child is printed as one more
    element; a leaf is printed without its child. -/
def addItemToObject (j : Json) (name : CStr) (child : Json) : Json :=
  match j with
  | .obj ms => .obj (ms ++ [(name, child)])
  | .arr l => .arr (l ++ [child])
  | j => j

/-- `cJSON_IsArray`, and the elements. -/
def items? : Option Json → Option (List Json)
  | some (.arr l) => some l
  | _ => none

/-- `cJSON_IsString`, and the string. -/
def string? : Option Json → Option CStr
  | some (.str s) => some s
  | _ => none

/-- `cJSON_IsNumber`, and the number. -/
def number? : Option Json → Option Dbl
  | some (.num d) => some d
  | _ => none

/-- A whole number, as `cJSON_CreateNumber` of an integer makes it. -/
def ofNat (n : Nat) : Json := .num (toDouble n)

mutual

/-- The tree read back from the printed text. -/
def reparse : Json → Json
  | .null => .null
  | .bool b => .bool b
  | .num (.fin q) => .num (Cjson.reparse q)
  | .num (.inf _) => .null
  | .str s => .str s
  | .arr l => .arr (reparseItems l)
  | .obj ms => .obj (reparseMembers ms)

def reparseItems : List Json → List Json
  | [] => []
  | j :: l => reparse j :: reparseItems l

def reparseMembers : List (CStr × Json) → List (CStr × Json)
  | [] => []
  | (k, j) :: ms => (k, reparse j) :: reparseMembers ms

end

@[simp] theorem reparse_str (s : CStr) : reparse (.str s) = .str s := rfl

@[simp] theorem reparse_null : reparse .null = .null := rfl

@[simp] theorem reparse_bool (b : Bool) : reparse (.bool b) = .bool b := rfl

@[simp] theorem reparse_obj (ms : List (CStr × Json)) :
    reparse (.obj ms) = .obj (reparseMembers ms) := rfl

@[simp] theorem reparse_arr (l : List Json) : reparse (.arr l) = .arr (reparseItems l) := rfl

@[simp] theorem reparseMembers_nil : reparseMembers [] = [] := rfl

@[simp] theorem reparseMembers_cons (k : CStr) (j : Json) (ms : List (CStr × Json)) :
    reparseMembers ((k, j) :: ms) = (k, reparse j) :: reparseMembers ms :=
  rfl

/-! ## Equality -/

mutual

/-- Structural equality, as a test. -/
def same : Json → Json → Bool
  | .null, .null => true
  | .bool a, .bool b => a == b
  | .num a, .num b => decide (a = b)
  | .str a, .str b => decide (a = b)
  | .arr a, .arr b => sameItems a b
  | .obj a, .obj b => sameMembers a b
  | _, _ => false

def sameItems : List Json → List Json → Bool
  | [], [] => true
  | a :: l, b :: m => same a b && sameItems l m
  | _, _ => false

def sameMembers : List (CStr × Json) → List (CStr × Json) → Bool
  | [], [] => true
  | (k, a) :: l, (k', b) :: m => decide (k = k') && same a b && sameMembers l m
  | _, _ => false

end

mutual

theorem same_iff : ∀ a b : Json, same a b = true ↔ a = b
  | .null, b => by cases b <;> simp [same]
  | .bool a, b => by cases b <;> simp [same]
  | .num a, b => by cases b <;> simp [same]
  | .str a, b => by cases b <;> simp [same]
  | .arr l, b => by
      cases b with
      | arr m => simp [same, sameItems_iff l m]
      | _ => simp [same]
  | .obj l, b => by
      cases b with
      | obj m => simp [same, sameMembers_iff l m]
      | _ => simp [same]

theorem sameItems_iff : ∀ l m : List Json, sameItems l m = true ↔ l = m
  | [], m => by cases m <;> simp [sameItems]
  | a :: l, m => by
      cases m with
      | nil => simp [sameItems]
      | cons b m => simp [sameItems, same_iff a b, sameItems_iff l m]

theorem sameMembers_iff : ∀ l m : List (CStr × Json), sameMembers l m = true ↔ l = m
  | [], m => by cases m <;> simp [sameMembers]
  | (k, a) :: l, m => by
      cases m with
      | nil => simp [sameMembers]
      | cons b m =>
          obtain ⟨k', b⟩ := b
          simp [sameMembers, same_iff a b, sameMembers_iff l m]

end

instance : DecidableEq Json := fun a b => decidable_of_iff _ (same_iff a b)

/-! ## Reading back -/

theorem reparse_ofNat {n : Nat} (hn : n < 2 ^ 52 + 3) : reparse (ofNat n) = ofNat n := by
  rw [ofNat, toDouble_natCast (by omega)]
  simp [reparse, reparse_natCast hn]

theorem getObjectItem_obj_cons (k : CStr) (v : Json) (ms : List (CStr × Json)) (name : CStr) :
    getObjectItemCaseSensitive (.obj ((k, v) :: ms)) name =
      if k = name then some v else getObjectItemCaseSensitive (.obj ms) name := by
  simp only [getObjectItemCaseSensitive, List.find?_cons]
  by_cases h : k = name <;> simp [h]

@[simp] theorem getObjectItem_obj_nil (name : CStr) :
    getObjectItemCaseSensitive (.obj []) name = none := rfl

/-- Printing and reading back reaches every member under its name. -/
theorem getObjectItem_reparse (j : Json) (name : CStr) :
    getObjectItemCaseSensitive (reparse j) name =
      (getObjectItemCaseSensitive j name).map reparse := by
  cases j with
  | obj ms =>
      rw [reparse_obj]
      induction ms with
      | nil => rfl
      | cons m ms ih =>
          obtain ⟨k, v⟩ := m
          rw [reparseMembers_cons, getObjectItem_obj_cons, getObjectItem_obj_cons, ih]
          split <;> rfl
  | num d => cases d <;> simp [reparse, getObjectItemCaseSensitive]
  | null => simp [getObjectItemCaseSensitive]
  | bool b => simp [getObjectItemCaseSensitive]
  | str s => simp [getObjectItemCaseSensitive]
  | arr l => simp [getObjectItemCaseSensitive]

/-- A replaced member reads back as its replacement. -/
theorem getObjectItem_replace_self {j : Json} {name : CStr} {old : Json} (new : Json)
    (h : getObjectItemCaseSensitive j name = some old) :
    getObjectItemCaseSensitive (replaceItemInObjectCaseSensitive j name new) name = some new := by
  cases j with
  | obj ms =>
      simp only [replaceItemInObjectCaseSensitive]
      induction ms with
      | nil => simp at h
      | cons m ms ih =>
          obtain ⟨k, v⟩ := m
          rw [getObjectItem_obj_cons] at h
          simp only [replaceFirst]
          split
          · rw [getObjectItem_obj_cons, if_pos rfl]
          · next hk =>
              rw [if_neg hk] at h
              rw [getObjectItem_obj_cons, if_neg hk]
              exact ih h
  | null => simp [getObjectItemCaseSensitive] at h
  | bool b => simp [getObjectItemCaseSensitive] at h
  | num d => simp [getObjectItemCaseSensitive] at h
  | str s => simp [getObjectItemCaseSensitive] at h
  | arr l => simp [getObjectItemCaseSensitive] at h

/-- The other members are untouched. -/
theorem getObjectItem_replace_ne (j new : Json) {name other : CStr} (hne : other ≠ name) :
    getObjectItemCaseSensitive (replaceItemInObjectCaseSensitive j name new) other =
      getObjectItemCaseSensitive j other := by
  cases j with
  | obj ms =>
      simp only [replaceItemInObjectCaseSensitive]
      induction ms with
      | nil => rfl
      | cons m ms ih =>
          obtain ⟨k, v⟩ := m
          simp only [replaceFirst]
          split
          · next hk =>
              rw [getObjectItem_obj_cons, getObjectItem_obj_cons, if_neg (Ne.symm hne),
                if_neg (hk ▸ Ne.symm hne)]
          · rw [getObjectItem_obj_cons, getObjectItem_obj_cons, ih]
  | null => rfl
  | bool b => rfl
  | num d => rfl
  | str s => rfl
  | arr l => rfl

end Json

end Cjson
