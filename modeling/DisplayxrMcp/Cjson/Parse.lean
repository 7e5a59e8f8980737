/-
  cJSON's parser: `cJSON_Parse` and `cJSON_ParseWithLength`.

  A `parse_buffer` is what is left of its content from `offset` on. The depth is counted
  down from `CJSON_NESTING_LIMIT`; it bounds the recursion, so that no fuel is needed for
  it, and the loop over the elements of an array or object takes one byte each at least.
  `Reads` is what the parser of one value keeps: it stays inside the content, takes
  something, and the tree it builds has only what a text can carry (`Carried`).
-/
import DisplayxrMcp.Cjson.Json
import DisplayxrMcp.Cjson.StringText

namespace Cjson

open Lib

/-- `CJSON_NESTING_LIMIT`. -/
def nestingLimit : Nat := 1000

/-- `buffer_skip_whitespace`. At the end of the content it steps back onto the last byte. -/
def skipWhitespace (s : CStr) : CStr :=
  match s.dropWhile (· ≤ 32) with
  | [] => s.drop (s.length - 1)
  | t => t

/-- `skip_utf8_bom`, which wants a fifth byte. -/
def skipUtf8Bom (s : CStr) : CStr :=
  if 4 < s.length ∧ [0xEF, 0xBB, 0xBF] <+: s then s.drop 3 else s

/-- The loop in `parse_array`, behind the bracket or a comma. -/
def parseElements (value : CStr → Returns (Json × CStr)) : Nat → CStr → Returns (List Json × CStr)
  | 0, _ => throw .fault
  | fuel + 1, s => do
      let (item, s) ← value (skipWhitespace s)
      match skipWhitespace s with
      | 44 :: s =>
          let (items, s) ← parseElements value fuel s
          pure (item :: items, s)
      | s => pure ([item], s)

/-- `parse_array`. -/
def parseArray (value : CStr → Returns (Json × CStr)) (s : CStr) : Returns (Json × CStr) :=
  match s with
  | [] => throw .fault
  | c :: s =>
      if c ≠ 91 then throw .fail
      else
        match skipWhitespace s with
        | 93 :: s => pure (.arr [], s)
        | [] => throw .fail
        | s => do
            let (items, s) ← parseElements value s.length s
            match s with
            | 93 :: s => pure (.arr items, s)
            | _ => throw .fail

/-- The loop in `parse_object`, behind the brace or a comma. -/
def parseMembers (value : CStr → Returns (Json × CStr)) :
    Nat → CStr → Returns (List (CStr × Json) × CStr)
  | 0, _ => throw .fault
  | fuel + 1, s =>
      -- `cannot_access_at_index(input_buffer, 1)`
      if s = [] then throw .fail
      else do
        let (name, s) ← parseString (skipWhitespace s)
        match skipWhitespace s with
        | 58 :: s => do
            let (item, s) ← value (skipWhitespace s)
            match skipWhitespace s with
            | 44 :: s =>
                let (members, s) ← parseMembers value fuel s
                pure ((name, item) :: members, s)
            | s => pure ([(name, item)], s)
        | _ => throw .fail

/-- `parse_object`. -/
def parseObject (value : CStr → Returns (Json × CStr)) (s : CStr) : Returns (Json × CStr) :=
  match s with
  | [] => throw .fail
  | c :: s =>
      if c ≠ 123 then throw .fail
      else
        match skipWhitespace s with
        | 125 :: s => pure (.obj [], s)
        | [] => throw .fail
        | s => do
            let (members, s) ← parseMembers value s.length s
            match s with
            | 125 :: s => pure (.obj members, s)
            | _ => throw .fail

/-- `parse_value`, given what it calls for an array and for an object. -/
def parseValueWith (array object : CStr → Returns (Json × CStr)) (s : CStr) : Returns (Json × CStr) :=
  if ascii "null" <+: s then pure (.null, s.drop 4)
  else if ascii "false" <+: s then pure (.bool false, s.drop 5)
  else if ascii "true" <+: s then pure (.bool true, s.drop 4)
  else
    match s with
    | [] => throw .fail
    | c :: t =>
        if c = 34 then do
          let (str, s) ← parseString (c :: t)
          pure (.str str, s)
        else if c = 45 ∨ 48 ≤ c ∧ c ≤ 57 then do
          let (number, s) ← parseNumber (c :: t)
          pure (.num number, s)
        else if c = 91 then array (c :: t)
        else if c = 123 then object (c :: t)
        else throw .fail

/-- `parse_value`, where `levels` more arrays or objects may be opened. -/
def parseValue : Nat → CStr → Returns (Json × CStr)
  | 0 => parseValueWith (fun _ => throw .fail) fun _ => throw .fail
  | levels + 1 =>
      parseValueWith (parseArray (parseValue levels)) (parseObject (parseValue levels))

/-- `cJSON_ParseWithLength`. What follows the value is not looked at. -/
def parseWithLength (value : CStr) : Returns Json := do
  if value = [] then throw .fail
  let (item, _) ← parseValue nestingLimit (skipWhitespace (skipUtf8Bom value))
  pure item

/-- `cJSON_Parse`: the NUL is part of the content. -/
def parse (value : CStr) : Returns Json := parseWithLength (value ++ [0])

/-! ## Trees that a text can carry -/

/-- No NUL in a string, only doubles, and at most `levels` arrays or objects in each other. -/
inductive Carried : Nat → Json → Prop where
  | null {levels} : Carried levels .null
  | bool {levels b} : Carried levels (.bool b)
  | num {levels d} (h : d.InRange) : Carried levels (.num d)
  | str {levels s} (h : 0 ∉ s) : Carried levels (.str s)
  | arr {levels l} (h : ∀ j ∈ l, Carried levels j) : Carried (levels + 1) (.arr l)
  | obj {levels ms} (hname : ∀ m ∈ ms, 0 ∉ m.1) (h : ∀ m ∈ ms, Carried levels m.2) :
      Carried (levels + 1) (.obj ms)

theorem Carried.mono {levels levels' : Nat} {j : Json} (h : Carried levels j)
    (hle : levels ≤ levels') : Carried levels' j := by
  induction h generalizing levels' with
  | null => exact .null
  | bool => exact .bool
  | num h => exact .num h
  | str h => exact .str h
  | arr h ih =>
      obtain ⟨l, rfl⟩ : ∃ l, levels' = l + 1 := ⟨levels' - 1, by omega⟩
      exact .arr fun j hj => ih j hj (by omega)
  | obj hname h ih =>
      obtain ⟨l, rfl⟩ : ∃ l, levels' = l + 1 := ⟨levels' - 1, by omega⟩
      exact .obj hname fun m hm => ih m hm (by omega)

/-- A member is nested one level less. -/
theorem Carried.member {levels : Nat} {j v : Json} {name : CStr} (h : Carried (levels + 1) j)
    (hv : j.getObjectItemCaseSensitive name = some v) : Carried levels v := by
  cases h with
  | @obj _ ms hname h =>
      obtain ⟨m, hm, rfl⟩ := Option.map_eq_some_iff.mp hv
      exact h m (List.mem_of_find?_eq_some hm)
  | null => cases hv
  | bool => cases hv
  | num h => cases hv
  | str h => cases hv
  | arr h => cases hv

/-! ## White space -/

theorem skipWhitespace_suffix (s : CStr) : skipWhitespace s <:+ s := by
  unfold skipWhitespace
  split
  · exact List.drop_suffix _ _
  · exact List.dropWhile_suffix _

theorem length_skipWhitespace (s : CStr) : (skipWhitespace s).length ≤ s.length :=
  (skipWhitespace_suffix s).length_le

theorem skipWhitespace_ne_nil {s : CStr} (hs : s ≠ []) : skipWhitespace s ≠ [] := by
  have hpos := List.length_pos_iff.mpr hs
  unfold skipWhitespace
  split
  · rw [← List.length_pos_iff, List.length_drop]
    omega
  · next hne => exact hne

/-- In front of anything else there is nothing to skip. -/
theorem skipWhitespace_of_head {c : UInt8} (hc : 32 < c) (s : CStr) :
    skipWhitespace (c :: s) = c :: s := by
  have hkeep : (c :: s).dropWhile (· ≤ 32) = c :: s := by
    rw [List.dropWhile_cons, if_neg]
    rw [decide_eq_true_eq]
    exact UInt8.not_le.mpr hc
  unfold skipWhitespace
  rw [hkeep]

/-! ## What the parser keeps -/

/-- A parser of one value: it stays inside its content, takes at least a byte, and what it
    builds can be carried. -/
structure Reads (levels : Nat) (value : CStr → Returns (Json × CStr)) : Prop where
  safe : ∀ s, value s ≠ .error .fault
  rest : ∀ {s j t}, value s = .ok (j, t) → t <:+ s ∧ t.length < s.length
  carried : ∀ {s j t}, value s = .ok (j, t) → Carried levels j

section Loops

variable {levels : Nat} {value : CStr → Returns (Json × CStr)} (hv : Reads levels value)
include hv

theorem parseElements_safe : ∀ {fuel : Nat} {s : CStr}, s.length ≤ fuel → 0 < fuel →
    parseElements value fuel s ≠ .error .fault := by
  intro fuel
  induction fuel with
  | zero => exact fun _ h => absurd h (Nat.lt_irrefl 0)
  | succ fuel ih =>
      intro s hs _
      unfold parseElements
      refine Returns.bind_safe (hv.safe _) fun r hr => ?_
      obtain ⟨item, t⟩ := r
      have hlt := (hv.rest hr).2
      have hle := length_skipWhitespace s
      have hle' := length_skipWhitespace t
      dsimp only
      split
      · next u hu =>
          rw [hu, List.length_cons] at hle'
          exact Returns.bind_safe (ih (by omega) (by omega)) fun _ _ => fun h => nomatch h
      · exact fun h => nomatch h

theorem parseElements_ok : ∀ {fuel : Nat} {s t : CStr} {items : List Json},
    parseElements value fuel s = .ok (items, t) →
      t <:+ s ∧ ∀ j ∈ items, Carried levels j := by
  intro fuel
  induction fuel with
  | zero => exact fun h => nomatch h
  | succ fuel ih =>
      intro s t items h
      unfold parseElements at h
      obtain ⟨⟨item, u⟩, hr, h⟩ := Returns.bind_ok h
      have hu := (hv.rest hr).1.trans (skipWhitespace_suffix s)
      have hws := (skipWhitespace_suffix u).trans hu
      dsimp only at h
      split at h
      · next v hv' =>
          obtain ⟨⟨items', w⟩, hr', h⟩ := Returns.bind_ok h
          cases h
          obtain ⟨hw, hitems⟩ := ih hr'
          rw [hv'] at hws
          exact ⟨hw.trans ((List.suffix_cons _ _).trans hws),
            List.forall_mem_cons.mpr ⟨hv.carried hr, hitems⟩⟩
      · cases h
        exact ⟨hws, List.forall_mem_singleton.mpr (hv.carried hr)⟩

theorem parseArray_safe {s : CStr} (hs : s ≠ []) : parseArray value s ≠ .error .fault := by
  unfold parseArray
  split
  · exact absurd rfl hs
  · split
    · exact fun h => nomatch h
    · split
      · exact fun h => nomatch h
      · exact fun h => nomatch h
      · next t _ hne =>
          refine Returns.bind_safe (parseElements_safe hv (Nat.le_refl _)
            (List.length_pos_iff.mpr fun h => hne h)) fun r _ => ?_
          dsimp only
          split
          · exact fun h => nomatch h
          · exact fun h => nomatch h

theorem parseArray_ok {s t : CStr} {j : Json} (h : parseArray value s = .ok (j, t)) :
    (t <:+ s ∧ t.length < s.length) ∧ Carried (levels + 1) j := by
  unfold parseArray at h
  split at h
  · cases h
  · next c s =>
      have hlen := length_skipWhitespace s
      have hsuf := (skipWhitespace_suffix s).trans (List.suffix_cons c s)
      split at h
      · cases h
      · split at h
        · next u hu =>
            cases h
            rw [hu] at hlen hsuf
            rw [List.length_cons] at hlen
            refine ⟨⟨(List.suffix_cons _ _).trans hsuf, ?_⟩, .arr (List.forall_mem_nil _)⟩
            rw [List.length_cons]
            omega
        · cases h
        · obtain ⟨⟨items, u⟩, hr, h⟩ := Returns.bind_ok h
          obtain ⟨hu, hitems⟩ := parseElements_ok hv hr
          dsimp only at h
          split at h
          · next v =>
              cases h
              have hle := hu.length_le
              rw [List.length_cons] at hle
              refine ⟨⟨(List.suffix_cons _ _).trans (hu.trans hsuf), ?_⟩, .arr hitems⟩
              rw [List.length_cons]
              omega
          · cases h

theorem parseMembers_safe : ∀ {fuel : Nat} {s : CStr}, s.length ≤ fuel → 0 < fuel →
    parseMembers value fuel s ≠ .error .fault := by
  intro fuel
  induction fuel with
  | zero => exact fun _ h => absurd h (Nat.lt_irrefl 0)
  | succ fuel ih =>
      intro s hs _
      unfold parseMembers
      split
      · exact fun h => nomatch h
      · next hne =>
          refine Returns.bind_safe (parseString_safe (skipWhitespace_ne_nil hne)) fun r hr => ?_
          obtain ⟨name, t⟩ := r
          have hlt := (parseString_ok hr).2.1
          have hle := length_skipWhitespace s
          have hle' := length_skipWhitespace t
          dsimp only
          split
          · next u hu =>
              rw [hu, List.length_cons] at hle'
              refine Returns.bind_safe (hv.safe _) fun r hr' => ?_
              obtain ⟨item, v⟩ := r
              have hlt' := (hv.rest hr').2
              have hu' := length_skipWhitespace u
              have hv' := length_skipWhitespace v
              dsimp only
              split
              · next w hw =>
                  rw [hw, List.length_cons] at hv'
                  exact Returns.bind_safe (ih (by omega) (by omega)) fun _ _ => fun h => nomatch h
              · exact fun h => nomatch h
          · exact fun h => nomatch h

theorem parseMembers_ok : ∀ {fuel : Nat} {s t : CStr} {members : List (CStr × Json)},
    parseMembers value fuel s = .ok (members, t) →
      t <:+ s ∧ (∀ m ∈ members, 0 ∉ m.1) ∧ ∀ m ∈ members, Carried levels m.2 := by
  intro fuel
  induction fuel with
  | zero => exact fun h => nomatch h
  | succ fuel ih =>
      intro s t members h
      unfold parseMembers at h
      split at h
      · cases h
      · obtain ⟨⟨name, u⟩, hname, h⟩ := Returns.bind_ok h
        obtain ⟨hsuf, -, hnul⟩ := parseString_ok hname
        have hu := (skipWhitespace_suffix u).trans (hsuf.trans (skipWhitespace_suffix s))
        dsimp only at h
        split at h
        · next v hv' =>
            rw [hv'] at hu
            obtain ⟨⟨item, w⟩, hitem, h⟩ := Returns.bind_ok h
            have hw := (skipWhitespace_suffix w).trans ((hv.rest hitem).1.trans
              ((skipWhitespace_suffix v).trans ((List.suffix_cons _ _).trans hu)))
            dsimp only at h
            split at h
            · next x hx =>
                obtain ⟨⟨members', y⟩, hr', h⟩ := Returns.bind_ok h
                cases h
                obtain ⟨hy, hnames, hitems⟩ := ih hr'
                rw [hx] at hw
                exact ⟨hy.trans ((List.suffix_cons _ _).trans hw),
                  List.forall_mem_cons.mpr ⟨hnul, hnames⟩,
                  List.forall_mem_cons.mpr ⟨hv.carried hitem, hitems⟩⟩
            · cases h
              exact ⟨hw, List.forall_mem_singleton.mpr hnul,
                List.forall_mem_singleton.mpr (hv.carried hitem)⟩
        · cases h

theorem parseObject_safe (s : CStr) : parseObject value s ≠ .error .fault := by
  unfold parseObject
  split
  · exact fun h => nomatch h
  · split
    · exact fun h => nomatch h
    · split
      · exact fun h => nomatch h
      · exact fun h => nomatch h
      · next t _ hne =>
          refine Returns.bind_safe (parseMembers_safe hv (Nat.le_refl _)
            (List.length_pos_iff.mpr fun h => hne h)) fun r _ => ?_
          dsimp only
          split
          · exact fun h => nomatch h
          · exact fun h => nomatch h

theorem parseObject_ok {s t : CStr} {j : Json} (h : parseObject value s = .ok (j, t)) :
    (t <:+ s ∧ t.length < s.length) ∧ Carried (levels + 1) j := by
  unfold parseObject at h
  split at h
  · cases h
  · next c s =>
      have hlen := length_skipWhitespace s
      have hsuf := (skipWhitespace_suffix s).trans (List.suffix_cons c s)
      split at h
      · cases h
      · split at h
        · next u hu =>
            cases h
            rw [hu] at hlen hsuf
            rw [List.length_cons] at hlen
            refine ⟨⟨(List.suffix_cons _ _).trans hsuf, ?_⟩,
              .obj (List.forall_mem_nil _) (List.forall_mem_nil _)⟩
            rw [List.length_cons]
            omega
        · cases h
        · obtain ⟨⟨members, u⟩, hr, h⟩ := Returns.bind_ok h
          obtain ⟨hu, hnames, hitems⟩ := parseMembers_ok hv hr
          dsimp only at h
          split at h
          · next v =>
              cases h
              have hle := hu.length_le
              rw [List.length_cons] at hle
              refine ⟨⟨(List.suffix_cons _ _).trans (hu.trans hsuf), ?_⟩, .obj hnames hitems⟩
              rw [List.length_cons]
              omega
          · cases h

end Loops

theorem parseValueWith_safe {array object : CStr → Returns (Json × CStr)}
    (harr : ∀ s, s ≠ [] → array s ≠ .error .fault) (hobj : ∀ s, object s ≠ .error .fault)
    (s : CStr) : parseValueWith array object s ≠ .error .fault := by
  unfold parseValueWith
  split
  · exact fun h => nomatch h
  · split
    · exact fun h => nomatch h
    · split
      · exact fun h => nomatch h
      · split
        · exact fun h => nomatch h
        · split
          · exact Returns.bind_safe (parseString_safe (List.cons_ne_nil _ _)) fun _ _ =>
              fun h => nomatch h
          · split
            · exact Returns.bind_safe (parseNumber_safe _) fun _ _ => fun h => nomatch h
            · split
              · exact harr _ (List.cons_ne_nil _ _)
              · split
                · exact hobj _
                · exact fun h => nomatch h

theorem parseValueWith_ok {levels : Nat} {array object : CStr → Returns (Json × CStr)}
    (harr : ∀ {s j t}, array s = .ok (j, t) →
      (t <:+ s ∧ t.length < s.length) ∧ Carried levels j)
    (hobj : ∀ {s j t}, object s = .ok (j, t) →
      (t <:+ s ∧ t.length < s.length) ∧ Carried levels j)
    {s t : CStr} {j : Json} (h : parseValueWith array object s = .ok (j, t)) :
    (t <:+ s ∧ t.length < s.length) ∧ Carried levels j := by
  have hword : ∀ {w : CStr} {n : Nat}, 0 < n → w.length = n → w <+: s →
      s.drop n <:+ s ∧ (s.drop n).length < s.length := by
    intro w n hpos hn hpre
    have hle := hpre.length_le
    refine ⟨List.drop_suffix _ _, ?_⟩
    rw [List.length_drop]
    omega
  unfold parseValueWith at h
  split at h
  · next hpre => cases h; exact ⟨hword (by decide) rfl hpre, .null⟩
  · split at h
    · next hpre => cases h; exact ⟨hword (by decide) rfl hpre, .bool⟩
    · split at h
      · next hpre => cases h; exact ⟨hword (by decide) rfl hpre, .bool⟩
      · split at h
        · cases h
        · split at h
          · obtain ⟨⟨str, u⟩, hstr, h⟩ := Returns.bind_ok h
            cases h
            obtain ⟨hsuf, hlt, hnul⟩ := parseString_ok hstr
            exact ⟨⟨hsuf, hlt⟩, .str hnul⟩
          · split at h
            · obtain ⟨⟨number, u⟩, hnum, h⟩ := Returns.bind_ok h
              cases h
              obtain ⟨hsuf, hlt, hrange⟩ := parseNumber_ok hnum
              exact ⟨⟨hsuf, hlt⟩, .num hrange⟩
            · split at h
              · exact harr h
              · split at h
                · exact hobj h
                · cases h

/-- `parse_value` keeps it, at every depth. -/
theorem parseValue_reads (levels : Nat) : Reads levels (parseValue levels) := by
  induction levels with
  | zero =>
      have hsafe : ∀ s, parseValue 0 s ≠ .error .fault :=
        parseValueWith_safe (fun _ _ h => nomatch h) (fun _ h => nomatch h)
      have hok : ∀ {s t : CStr} {j : Json}, parseValue 0 s = .ok (j, t) →
          (t <:+ s ∧ t.length < s.length) ∧ Carried 0 j :=
        fun h => parseValueWith_ok (by intro _ _ _ h; cases h) (by intro _ _ _ h; cases h) h
      exact ⟨hsafe, fun h => (hok h).1, fun h => (hok h).2⟩
  | succ levels ih =>
      have hok := fun {s t : CStr} {j : Json} (h : parseValue (levels + 1) s = .ok (j, t)) =>
        parseValueWith_ok (parseArray_ok ih) (parseObject_ok ih) h
      exact ⟨parseValueWith_safe (fun _ hs => parseArray_safe ih hs) (parseObject_safe ih),
        fun h => (hok h).1, fun h => (hok h).2⟩

theorem parseWithLength_carried {value : CStr} {j : Json} (h : parseWithLength value = .ok j) :
    Carried nestingLimit j := by
  have hreads := parseValue_reads nestingLimit
  unfold parseWithLength at h
  split at h
  · cases h
  · obtain ⟨⟨item, t⟩, hr, h⟩ := Returns.bind_ok h
    cases h
    exact hreads.carried hr

/-- On no content, of whatever length, does the parser leave the content or the output of a
    string, and what it builds can be carried by a text. -/
theorem parseWithLength_spec (value : CStr) :
    parseWithLength value ≠ .error .fault ∧
      ∀ j, parseWithLength value = .ok j → Carried nestingLimit j := by
  have hreads := parseValue_reads nestingLimit
  refine ⟨?_, fun j => parseWithLength_carried⟩
  unfold parseWithLength
  split
  · exact fun h => nomatch h
  · exact Returns.bind_safe (hreads.safe _) fun _ _ h => nomatch h

end Cjson
