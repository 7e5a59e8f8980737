/-
  What the allowlist lets in, against the tokens of the variable.

  A token is what stands between two commas. The parser does not look at tokens: it takes
  every numeral, so `12abc` lets client 12 in. `neverWidens_iff` says for which texts that
  makes no difference. Well-formed lists are read exactly, but only where `long` has 64
  bits (`wellFormed_exact_iff`).
-/
import DisplayxrMcp.Allowlist.Parse
import Mathlib.Data.List.DropRight

namespace DisplayxrMcp.Allowlist

open Lib

/-- The token without the white space around it. -/
def trim (t : CStr) : CStr := (t.dropWhile isSpace).rdropWhile isSpace

/-- A decimal numeral. -/
def IsNumeral (t : CStr) : Prop := t ≠ [] ∧ ∀ c ∈ t, isDigit c = true

/-- Token number `n` is a numeral. -/
def Whole (env : CStr) (n : Nat) : Prop :=
  ∃ t, (env.splitOn comma)[n]? = some t ∧ IsNumeral (trim t)

/-- Only clients named by a token get in, and only whole numerals leave entries. -/
structure NeverWidens (abi : Abi) (env : CStr) : Prop where
  named : ∀ id, allows (init abi (some env) fresh) id = true →
    ∃ t ∈ env.splitOn comma, IsNumeral (trim t) ∧ digitsValue (trim t) = id
  silent : ∀ e ∈ parsed abi env, Whole env e.token

/-! ## Token by token -/

theorem numerals_comma {t : CStr} (ht : comma ∉ t) (prev : UInt8) (token : Nat) (s : CStr) :
    numerals prev token (t ++ comma :: s) =
      numerals prev token t ++ numerals 0 (token + 1) s := by
  have hcomma : isDigit comma = false ∧ comma ≠ minus := by decide
  induction t generalizing prev with
  | nil =>
      rw [List.nil_append, numerals_skip hcomma.1, if_pos rfl, numerals_plain hcomma.1 hcomma.2]
      rfl
  | cons c t ih =>
      have hc : c ≠ comma := fun h => ht (h ▸ List.mem_cons_self)
      have htail := ih (fun h => ht (List.mem_cons_of_mem c h)) c
      have hrun : ∀ u : CStr, (u ++ comma :: s).takeWhile isDigit = u.takeWhile isDigit := by
        intro u
        induction u with
        | nil => rfl
        | cons d u ihu => rw [List.cons_append, List.takeWhile_cons, List.takeWhile_cons, ihu]
      have hhead := hrun (c :: t)
      rw [List.cons_append] at hhead ⊢
      simp only [numerals, hhead, hc, if_false, htail]
      split
      · rfl
      · rfl

theorem numerals_token {t : CStr} (ht : comma ∉ t) {prev : UInt8} {token : Nat} :
    ∀ e ∈ numerals prev token t, e.token = token := by
  induction t generalizing prev with
  | nil => exact List.forall_mem_nil _
  | cons c t ih =>
      have hc : c ≠ comma := fun h => ht (h ▸ List.mem_cons_self)
      have htail : ∀ e ∈ numerals c token t, e.token = token :=
        ih fun h => ht (List.mem_cons_of_mem c h)
      simp only [numerals, hc, if_false]
      split
      · exact List.forall_mem_cons.mpr ⟨rfl, htail⟩
      · exact htail

/-- Every numeral is one of the token it counts for. -/
theorem numerals_splitOn (s : CStr) :
    ∀ token, ∀ e ∈ numerals 0 token s, token ≤ e.token ∧
      ∃ t, (s.splitOn comma)[e.token - token]? = some t ∧ e ∈ numerals 0 e.token t := by
  induction hn : s.length using Nat.strong_induction_on generalizing s with
  | _ n ih =>
      intro token e he
      by_cases hs : comma ∈ s
      · obtain ⟨t, rest, rfl, ht⟩ := List.eq_append_cons_of_mem hs
        rw [List.splitOn_append_cons_self_of_not_mem ht]
        rw [numerals_comma ht] at he
        rcases List.mem_append.mp he with he | he
        · have htoken := numerals_token ht e he
          rw [htoken, Nat.sub_self]
          exact ⟨Nat.le_refl _, t, rfl, he⟩
        · have hlen : rest.length < n := by
            rw [← hn, List.length_append, List.length_cons]
            omega
          obtain ⟨hle, u, hu, hmem⟩ := ih rest.length hlen rest rfl (token + 1) e he
          refine ⟨by omega, u, ?_, hmem⟩
          rw [show e.token - token = e.token - (token + 1) + 1 by omega, List.getElem?_cons_succ]
          exact hu
      · have htoken := numerals_token hs e he
        rw [List.splitOn_eq_singleton hs, htoken, Nat.sub_self]
        exact ⟨Nat.le_refl _, s, rfl, he⟩

/-- A numeral with white space around it. -/
theorem numerals_padded {a ds b : CStr} (ha : ∀ c ∈ a, isSpace c = true)
    (hb : ∀ c ∈ b, isSpace c = true) (hds : IsNumeral ds) (token : Nat) :
    numerals 0 token (a ++ (ds ++ b)) =
      if digitsValue ds ≤ maxU32 then [⟨digitsValue ds, token⟩] else [] := by
  have h0 : isDigit 0 = false := by decide
  have hm0 : ¬ (0 : UInt8) = minus := by decide
  have hstop : ∀ c ∈ b.head?, isDigit c = false :=
    fun c hc => (not_isDigit_of_isSpace (hb c (List.mem_of_mem_head? hc))).1
  have hempty : numerals 0 token b = [] := by
    have h := numerals_space hb token []
    rw [List.append_nil] at h
    exact h
  rw [numerals_space ha, numerals_run hds.1 hds.2 hstop h0, hempty]
  simp only [Counts, hm0, false_implies, and_true]

theorem trim_split (t : CStr) : ∃ a b, t = a ++ (trim t ++ b) ∧ (∀ c ∈ a, isSpace c = true) ∧
    ∀ c ∈ b, isSpace c = true := by
  refine ⟨t.takeWhile isSpace, (t.dropWhile isSpace).rtakeWhile isSpace, ?_,
    fun c hc => List.mem_takeWhile_imp hc, fun c hc => List.mem_rtakeWhile_imp hc⟩
  rw [trim, List.rdropWhile_append_rtakeWhile, List.takeWhile_append_dropWhile]

/-- A token that is a numeral leaves no other number than its own. -/
theorem numerals_whole {t : CStr} (ht : IsNumeral (trim t)) {token : Nat} {e : Kept}
    (he : e ∈ numerals 0 token t) : e.value = digitsValue (trim t) := by
  obtain ⟨a, b, heq, ha, hb⟩ := trim_split t
  rw [heq, numerals_padded ha hb ht] at he
  split at he
  · exact congrArg Kept.value (List.mem_singleton.mp he)
  · cases he

/-! ## Malformed tokens -/

/-- The list does not widen exactly when none of the numerals that fill it stands in a token
    that is more than a numeral; on Windows it never does. -/
theorem neverWidens_iff (abi : Abi) (env : CStr) :
    NeverWidens abi env ↔
      abi = .llp64 ∨ ∀ e ∈ (numerals 0 0 env).take maxEntries, Whole env e.token := by
  constructor
  · intro h
    cases abi with
    | llp64 => exact Or.inl rfl
    | lp64 => exact Or.inr (parsed_lp64 env ▸ h.silent)
  · intro h
    have hsilent : ∀ e ∈ parsed abi env, Whole env e.token := by
      cases abi with
      | llp64 =>
          rw [parsed_llp64]
          exact List.forall_mem_nil _
      | lp64 =>
          rw [parsed_lp64]
          exact h.resolve_left (by decide)
    refine ⟨?_, hsilent⟩
    intro id hid
    obtain ⟨e, he, rfl⟩ := allows_init.mp hid
    obtain ⟨t, ht, hnum⟩ := hsilent e he
    have hmem : e ∈ numerals 0 0 env := by
      cases abi with
      | llp64 =>
          rw [parsed_llp64] at he
          cases he
      | lp64 =>
          rw [parsed_lp64] at he
          exact List.mem_of_mem_take he
    obtain ⟨-, u, hu, heu⟩ := numerals_splitOn env 0 e hmem
    rw [Nat.sub_zero, ht] at hu
    cases hu
    exact ⟨t, List.mem_of_getElem? ht, hnum, (numerals_whole hnum heu).symm⟩

/-- `x7` lets client 7 in. -/
theorem letter_widens : allows (init .lp64 (some (ascii "x7")) fresh) 7 = true ∧
    ¬ NeverWidens .lp64 (ascii "x7") := by
  have hin : allows (init .lp64 (some (ascii "x7")) fresh) 7 = true := by decide +kernel
  refine ⟨hin, fun h => ?_⟩
  obtain ⟨t, ht, hnum, -⟩ := h.named 7 hin
  have htok : (ascii "x7").splitOn comma = [ascii "x7"] := List.splitOn_eq_singleton (by decide)
  rw [htok, List.mem_singleton] at ht
  subst ht
  exact absurd (hnum.2 0x78 (by decide)) (by decide)

/-! ## Well-formed lists -/

/-- A value with spaces around it. -/
structure Item where
  before : Nat
  value : Nat
  after : Nat

def Item.text (i : Item) : CStr :=
  List.replicate i.before space ++ (decimal i.value ++ List.replicate i.after space)

/-- The values in decimal, joined by commas. -/
def render (items : List Item) : CStr := [comma].intercalate (items.map Item.text)

theorem replicate_isSpace (n : Nat) : ∀ c ∈ List.replicate n space, isSpace c = true := by
  intro c hc
  rw [List.eq_of_mem_replicate hc]
  decide

theorem Item.comma_notMem (i : Item) : comma ∉ i.text := by
  intro h
  have hd : isDigit comma = false ∧ isSpace comma = false := by decide
  rcases List.mem_append.mp h with h | h
  · exact Bool.false_ne_true (hd.2.symm.trans (replicate_isSpace _ _ h))
  · rcases List.mem_append.mp h with h | h
    · exact Bool.false_ne_true (hd.1.symm.trans (decimal_isDigit _ _ h))
    · exact Bool.false_ne_true (hd.2.symm.trans (replicate_isSpace _ _ h))

theorem Item.numerals (i : Item) (hv : i.value < 2 ^ 32) (token : Nat) :
    numerals 0 token i.text = [⟨i.value, token⟩] := by
  have hmax : i.value ≤ maxU32 := Nat.le_of_lt_succ hv
  have h := numerals_padded (replicate_isSpace i.before) (replicate_isSpace i.after)
    ⟨decimal_ne_nil i.value, decimal_isDigit i.value⟩ token
  rw [digitsValue_decimal, if_pos hmax] at h
  exact h

/-- The numerals of a well-formed list are its values. -/
theorem numerals_render {items : List Item} (hv : ∀ i ∈ items, i.value < 2 ^ 32) (token : Nat) :
    (numerals 0 token (render items)).map Kept.value = items.map Item.value := by
  induction items generalizing token with
  | nil => rfl
  | cons i items ih =>
      have hi := i.numerals (hv i List.mem_cons_self) token
      have hrest := ih (fun j hj => hv j (List.mem_cons_of_mem i hj)) (token + 1)
      cases items with
      | nil => rw [render, List.map_singleton, List.intercalate_singleton, hi]; rfl
      | cons j items =>
          have hrender : render (i :: j :: items) = i.text ++ comma :: render (j :: items) := by
            unfold render
            rw [List.map_cons, List.map_cons, List.intercalate_cons_cons, List.append_assoc]
            rfl
          rw [hrender, numerals_comma i.comma_notMem, List.map_append, hi, hrest]
          rfl

/-- A list of at most 64 values is read exactly where `long` has 64 bits; where it has 32, only
    the empty list is. -/
theorem wellFormed_exact_iff (abi : Abi) {items : List Item} (hlen : items.length ≤ maxEntries)
    (hv : ∀ i ∈ items, i.value < 2 ^ 32) :
    (∀ id, allows (init abi (some (render items)) fresh) id = true ↔ id ∈ items.map Item.value) ↔
      abi = .lp64 ∨ items = [] := by
  simp only [allows_init]
  cases abi with
  | lp64 =>
      refine iff_of_true (fun id => ?_) (Or.inl rfl)
      have hall : (parsed .lp64 (render items)).map Kept.value = items.map Item.value := by
        rw [parsed_lp64, List.map_take, numerals_render hv, List.take_of_length_le]
        rw [List.length_map]
        exact hlen
      rw [← hall, List.mem_map]
  | llp64 =>
      rw [parsed_llp64]
      constructor
      · intro h
        cases items with
        | nil => exact Or.inr rfl
        | cons i items =>
            obtain ⟨e, he, -⟩ := (h i.value).mpr List.mem_cons_self
            cases he
      · rintro (h | rfl) id
        · cases h
        · simp

/-- Both ends of the range, with spaces. -/
theorem wellFormed_exact_ends :
    allows (init .lp64 (some (render [⟨0, 0, 1⟩, ⟨2, 4294967295, 0⟩])) fresh) 0 = true ∧
      allows (init .lp64 (some (render [⟨0, 0, 1⟩, ⟨2, 4294967295, 0⟩])) fresh) 4294967295 = true ∧
      allows (init .lp64 (some (render [⟨0, 0, 1⟩, ⟨2, 4294967295, 0⟩])) fresh) 1 = false := by
  have hlen : ([⟨0, 0, 1⟩, ⟨2, 4294967295, 0⟩] : List Item).length ≤ maxEntries := by decide
  have h := (wellFormed_exact_iff .lp64 hlen (by decide)).mpr (Or.inl rfl)
  refine ⟨(h 0).mpr (by decide), (h 4294967295).mpr (by decide), ?_⟩
  exact Bool.eq_false_iff.mpr fun hin => absurd ((h 1).mp hin) (by decide)

/-- `5` on Windows: client 5 stays out. -/
theorem wellFormed_llp64 : render [⟨0, 5, 0⟩] = ascii "5" ∧
    allows (init .llp64 (some (ascii "5")) fresh) 5 = false ∧
    ¬ ∀ id, allows (init .llp64 (some (render [⟨0, 5, 0⟩])) fresh) id = true ↔ id ∈ [5] := by
  have hrender : render [⟨0, 5, 0⟩] = ascii "5" := by decide +kernel
  have hout : allows (init .llp64 (some (ascii "5")) fresh) 5 = false := by decide +kernel
  refine ⟨hrender, hout, fun h => ?_⟩
  rw [hrender] at h
  exact Bool.false_ne_true (hout.symm.trans ((h 5).mpr List.mem_cons_self))

end DisplayxrMcp.Allowlist
