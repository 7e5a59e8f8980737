/-
  Namespace prefixes: slugify, the sticky registry, assign_prefix
  (adapter/workspace_aggregator.c, "prefixes").

  `slugify` maps any string into the app-id charset, so no prefix handed out
  contains the `_` of the namespace separator. `assignPrefix` tries the bare
  slug, then `-2` to `-99`; past that, or once the registry holds
  `maxPrefixes` names, it hands a name out without recording it. `Recorded` is
  the complement of those two cases: under it the name is new and is recorded
  (`assignPrefix_recorded`).
-/
import DisplayxrMcp.Lib.CStr
import Mathlib.Data.List.DropRight

namespace DisplayxrMcp

open Lib

abbrev maxPrefixes : Nat := 128

/-- `prefix_in_use`. -/
def prefixInUse (used : List CStr) (p : CStr) : Bool := used.any fun q => decide (q = p)

/-- `reserve_prefix`: a full registry silently stops recording. -/
def reservePrefix (used : List CStr) (p : CStr) : List CStr :=
  if used.length < maxPrefixes then used ++ [p] else used

/-! ## slugify -/

/-- `c - 'A' + 'a'` on upper-case letters. -/
def toLower (c : UInt8) : UInt8 := if 0x41 ≤ c ∧ c ≤ 0x5a then c - 0x41 + 0x61 else c

/-- `a-z` or `0-9`. -/
def isAlnum (c : UInt8) : Bool := (0x61 ≤ c && c ≤ 0x7a) || (0x30 ≤ c && c ≤ 0x39)

/-- The byte `-`. -/
abbrev dash : UInt8 := 0x2d

/-- The byte `_`. -/
abbrev underscore : UInt8 := 0x5f

/-- The loop of `slugify`: remaining input, then the output so far. -/
def slugLoop (cap : Nat) : CStr → CStr → CStr
  | [], out => out
  | c :: rest, out =>
      if out.length + 1 < cap ∧ out.length < 32 then
        let c := toLower c
        if isAlnum c then slugLoop cap rest (out ++ [c])
        else if out ≠ [] ∧ out.getLast? ≠ some dash then slugLoop cap rest (out ++ [dash])
        else slugLoop cap rest out
      else out

/-- `slugify(in, out, cap)`. -/
def slugify (inp : CStr) (cap : Nat) : CStr :=
  let out := (slugLoop cap inp []).rdropWhile (· == dash)
  if out = [] then snprintf cap (ascii "app") else out

/-- A byte of the app-id charset. -/
def SlugByte (c : UInt8) : Prop := isAlnum c = true ∨ c = dash

instance : DecidablePred SlugByte := fun _ => inferInstanceAs (Decidable (_ ∨ _))

theorem slugByte_ne_underscore {c : UInt8} (h : SlugByte c) : c ≠ underscore := by
  rintro rfl
  revert h
  decide

theorem slugLoop_slugByte (cap : Nat) (inp : CStr) :
    ∀ out : CStr, (∀ c ∈ out, SlugByte c) → ∀ c ∈ slugLoop cap inp out, SlugByte c := by
  induction inp with
  | nil => exact fun out h => h
  | cons c rest ih =>
      intro out h
      have hsnoc : ∀ d, SlugByte d → ∀ c ∈ out ++ [d], SlugByte c := by
        intro d hd c hc
        rcases List.mem_append.mp hc with hc | hc
        · exact h c hc
        · rw [List.mem_singleton.mp hc]; exact hd
      unfold slugLoop
      split
      · dsimp only
        split
        · next hal => exact ih _ (hsnoc _ (Or.inl hal))
        · split
          · exact ih _ (hsnoc _ (Or.inr rfl))
          · exact ih _ h
      · exact h

theorem slugLoop_length (cap : Nat) (inp : CStr) :
    ∀ out : CStr, out.length ≤ 32 → (slugLoop cap inp out).length ≤ 32 := by
  induction inp with
  | nil => exact fun out h => h
  | cons c rest ih =>
      intro out h
      unfold slugLoop
      split
      · next hroom =>
          have hsnoc : ∀ d : UInt8, (out ++ [d]).length ≤ 32 := by
            intro d
            rw [List.length_append, List.length_singleton]
            omega
          dsimp only
          split
          · exact ih _ (hsnoc _)
          · split
            · exact ih _ (hsnoc _)
            · exact ih _ h
      · exact h

theorem slugify_slugByte (inp : CStr) (cap : Nat) : ∀ c ∈ slugify inp cap, SlugByte c := by
  intro c hc
  unfold slugify at hc
  dsimp only at hc
  split at hc
  · have happ : ∀ d ∈ ascii "app", SlugByte d := by decide +kernel
    exact happ c (mem_snprintf hc)
  · exact slugLoop_slugByte cap inp [] (by simp) c ((List.rdropWhile_prefix _ _).subset hc)

theorem slugify_length (inp : CStr) (cap : Nat) : (slugify inp cap).length ≤ 32 := by
  unfold slugify
  dsimp only
  split
  · have happ : (ascii "app").length ≤ 32 := by decide
    exact le_trans (by rw [snprintf, List.length_take]; exact Nat.min_le_right _ _) happ
  · exact le_trans (List.rdropWhile_prefix _ _).length_le (slugLoop_length cap inp [] (by simp))

theorem slugify_ne_nil (inp : CStr) {cap : Nat} (hcap : 1 < cap) : slugify inp cap ≠ [] := by
  unfold slugify
  dsimp only
  split
  · have hpos : 0 < cap - 1 := by omega
    obtain ⟨n, hn⟩ := Nat.exists_eq_succ_of_ne_zero hpos.ne'
    rw [snprintf, hn]
    simp [ascii]
  · assumption

/-! ## assign_prefix -/

/-- `snprintf(candidate, 48, "%s-%d", desired, n)`. -/
def candidate (desired : CStr) (n : Nat) : CStr :=
  snprintf 48 (desired ++ ascii "-" ++ decimal n)

/-- The suffixes the search of `assign_prefix` tries. -/
def suffixes : List Nat := List.range' 2 98

/-- `assign_prefix`: the prefix written to `out`, and the registry afterwards. -/
def assignPrefix (used : List CStr) (desired : CStr) (cap : Nat) : CStr × List CStr :=
  if prefixInUse used desired = false then
    (snprintf cap desired, reservePrefix used (snprintf cap desired))
  else
    match suffixes.find? fun n => !prefixInUse used (candidate desired n) with
    | some n =>
        (snprintf cap (candidate desired n),
          reservePrefix used (snprintf cap (candidate desired n)))
    | none => (snprintf cap (desired ++ ascii "-x"), used)

/-- The registry has room, and the bare slug or one of its suffixed forms is free. -/
def Recorded (used : List CStr) (desired : CStr) : Prop :=
  used.length < maxPrefixes ∧
    (prefixInUse used desired = false ∨
      ∃ n ∈ suffixes, prefixInUse used (candidate desired n) = false)

instance (used : List CStr) (desired : CStr) : Decidable (Recorded used desired) :=
  inferInstanceAs (Decidable (_ ∧ _))

theorem prefixInUse_eq_false {used : List CStr} {p : CStr} :
    prefixInUse used p = false ↔ p ∉ used := by
  simp only [prefixInUse, List.any_eq_false, decide_eq_true_eq]
  constructor
  · intro h hp
    exact h p hp rfl
  · rintro h q hq rfl
    exact h hq

theorem decimal_length_le {n : Nat} (h : n ∈ suffixes) : (decimal n).length ≤ 2 := by
  have : ∀ n ∈ suffixes, (decimal n).length ≤ 2 := by decide
  exact this n h

theorem decimal_slugByte {n : Nat} (h : n ∈ suffixes) : ∀ c ∈ decimal n, SlugByte c := by
  have : ∀ n ∈ suffixes, ∀ c ∈ decimal n, SlugByte c := by decide +kernel
  exact this n h

/-- A suffixed slug is not cut by either buffer. -/
theorem candidate_eq {desired : CStr} (hd : desired.length ≤ 32) {n : Nat} (hn : n ∈ suffixes) :
    candidate desired n = desired ++ ascii "-" ++ decimal n ∧ (candidate desired n).length ≤ 35 := by
  have hlen : (desired ++ ascii "-" ++ decimal n).length ≤ 35 := by
    have h1 : (ascii "-").length = 1 := by decide
    have h2 := decimal_length_le hn
    rw [List.length_append, List.length_append, h1]
    omega
  have heq : candidate desired n = desired ++ ascii "-" ++ decimal n :=
    snprintf_of_length_lt (by omega)
  exact ⟨heq, heq ▸ hlen⟩

/-- A name not in use is handed out as it is. -/
theorem assignPrefix_bare {used : List CStr} {desired : CStr} (hd : desired.length ≤ 32)
    (h : prefixInUse used desired = false) : (assignPrefix used desired 40).1 = desired := by
  unfold assignPrefix
  rw [if_pos h]
  exact snprintf_of_length_lt (by omega)

/-- A name in use is handed out with a suffix behind a dash. -/
theorem assignPrefix_suffixed {used : List CStr} {desired : CStr} (hd : desired.length ≤ 32)
    (h : ¬ prefixInUse used desired = false) :
    ∃ t, (∀ c ∈ t, SlugByte c) ∧ t.length ≤ 2 ∧
      (assignPrefix used desired 40).1 = desired ++ ascii "-" ++ t := by
  have hdash : (ascii "-").length = 1 := by decide
  unfold assignPrefix
  rw [if_neg h]
  split
  · next n hn =>
      have hmem := List.mem_of_find?_eq_some hn
      obtain ⟨heq, hlen⟩ := candidate_eq hd hmem
      refine ⟨decimal n, decimal_slugByte hmem, decimal_length_le hmem, ?_⟩
      rw [← heq]
      exact snprintf_of_length_lt (by omega)
  · refine ⟨ascii "x", by decide +kernel, by decide, ?_⟩
    have hx : desired ++ ascii "-x" = desired ++ ascii "-" ++ ascii "x" := by
      rw [List.append_assoc]
      rfl
    rw [hx]
    have hxl : (ascii "x").length = 1 := by decide
    refine snprintf_of_length_lt ?_
    rw [List.length_append, List.length_append, hdash, hxl]
    omega

/-- The prefix handed out is the bare slug or the slug followed by a dash. -/
theorem assignPrefix_shape (used : List CStr) {desired : CStr} (hd : desired.length ≤ 32) :
    (assignPrefix used desired 40).1 = desired ∨
      ∃ t, (∀ c ∈ t, SlugByte c) ∧ t.length ≤ 2 ∧
        (assignPrefix used desired 40).1 = desired ++ ascii "-" ++ t := by
  by_cases h : prefixInUse used desired = false
  · exact Or.inl (assignPrefix_bare hd h)
  · exact Or.inr (assignPrefix_suffixed hd h)

/-- What is known of every prefix handed out for a slug. -/
structure GoodPrefix (p : CStr) : Prop where
  ne_nil : p ≠ []
  slug : ∀ c ∈ p, SlugByte c
  len : p.length ≤ 35

theorem GoodPrefix.underscore_notMem {p : CStr} (h : GoodPrefix p) : underscore ∉ p :=
  fun hm => slugByte_ne_underscore (h.slug _ hm) rfl

theorem assignPrefix_good (used : List CStr) {desired : CStr} (hne : desired ≠ [])
    (hs : ∀ c ∈ desired, SlugByte c) (hd : desired.length ≤ 32) :
    GoodPrefix (assignPrefix used desired 40).1 := by
  rcases assignPrefix_shape used hd with h | ⟨t, ht, htl, h⟩
  · rw [h]
    exact ⟨hne, hs, by omega⟩
  · rw [h]
    have hdash : (ascii "-").length = 1 := by decide
    refine ⟨by simp [hne], ?_, ?_⟩
    · intro c hc
      simp only [List.mem_append] at hc
      rcases hc with (hc | hc) | hc
      · exact hs c hc
      · have : ∀ d ∈ ascii "-", SlugByte d := by decide +kernel
        exact this c hc
      · exact ht c hc
    · rw [List.length_append, List.length_append, hdash]
      omega

/-- The names that are not for apps: the shell role's prefix and the built-ins'. -/
def reserved : List CStr := [ascii "shell", ascii "workspace"]

/-- A reserved name is handed out exactly when it is the slug and not yet in the registry. -/
theorem assignPrefix_reserved_iff (used : List CStr) {desired : CStr} (hd : desired.length ≤ 32) :
    (assignPrefix used desired 40).1 ∈ reserved ↔
      desired ∈ reserved ∧ prefixInUse used desired = false := by
  by_cases h : prefixInUse used desired = false
  · rw [assignPrefix_bare hd h]
    exact ⟨fun hr => ⟨hr, h⟩, fun hr => hr.1⟩
  · obtain ⟨t, -, -, hp⟩ := assignPrefix_suffixed hd h
    have hdash : dash ∈ (assignPrefix used desired 40).1 := by
      rw [hp]
      exact List.mem_append_left _ (List.mem_append_right _ (by decide))
    constructor
    · intro hr
      have hno : ∀ p ∈ reserved, dash ∉ p := by decide
      exact absurd hdash (hno _ hr)
    · exact fun hr => absurd hr.2 h

/-- A recorded assignment hands out a new name and records it. -/
theorem assignPrefix_recorded {used : List CStr} {desired : CStr} (hd : desired.length ≤ 32)
    (h : Recorded used desired) :
    (assignPrefix used desired 40).1 ∉ used ∧
      (assignPrefix used desired 40).2 = used ++ [(assignPrefix used desired 40).1] := by
  obtain ⟨hroom, hfree⟩ := h
  unfold assignPrefix
  split
  · next hbare =>
      have hcut : snprintf 40 desired = desired := snprintf_of_length_lt (by omega)
      rw [hcut]
      exact ⟨prefixInUse_eq_false.mp hbare, if_pos hroom⟩
  · next hbare =>
      split
      · next n hn =>
          have hmem := List.mem_of_find?_eq_some hn
          have hcut : snprintf 40 (candidate desired n) = candidate desired n :=
            snprintf_of_length_lt (by have := (candidate_eq hd hmem).2; omega)
          have hnew := List.find?_some hn
          simp only [Bool.not_eq_eq_eq_not, Bool.not_true] at hnew
          rw [hcut]
          exact ⟨prefixInUse_eq_false.mp hnew, if_pos hroom⟩
      · next hn =>
          rcases hfree with hfree | ⟨n, hmem, hn'⟩
          · exact absurd hfree hbare
          · have := List.find?_eq_none.mp hn n hmem
            simp [hn'] at this

end DisplayxrMcp
