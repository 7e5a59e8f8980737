/-
  The per-client allowlist (src/mcp_allowlist.c).

  `initLoop` is the parser: a `strtol` loop that skips one byte where no number starts.
  `numerals` reads the same off the text alone: the maximal runs of digits, but those out
  of range and those behind a `-`. The loop keeps the first 64 of them (`parsed_lp64`);
  with a 32-bit `long` it keeps none, since `(long)UINT32_MAX` is -1 (`parsed_llp64`).
-/
import DisplayxrMcp.Lib.Strtol

namespace DisplayxrMcp.Allowlist

open Lib

/-- `MAX_ENTRIES`. -/
abbrev maxEntries : Nat := 64

/-- `UINT32_MAX`. -/
abbrev maxU32 : Nat := 2 ^ 32 - 1

/-- The byte `,`. -/
abbrev comma : UInt8 := 0x2c

/-- The byte ` `. -/
abbrev space : UInt8 := 0x20

/-- `(long)UINT32_MAX`. -/
def maxLong (abi : Abi) : ℤ := Int.bmod maxU32 (2 ^ abi.long)

/-- An element of `entries`. `token` is the number of commas skipped before it, for the proofs
    only. -/
structure Kept where
  value : Nat
  token : Nat
  deriving DecidableEq

/-- What the inner loop skips. -/
def isSeparator (c : UInt8) : Bool := c == space || c == comma

/-- The loop of `mcp_allowlist_init`, from `p` on: `room` is what `entries` has left. -/
def initLoop (abi : Abi) : Nat → Nat → Nat → CStr → List Kept
  | 0, _, _, _ => []
  | fuel + 1, room, token, p =>
      if p = [] ∨ room = 0 then []
      else
        let token := token + (p.takeWhile isSeparator).count comma
        let p := p.dropWhile isSeparator
        if p = [] then []
        else
          match strtol abi.long p with
          | none => initLoop abi fuel room token p.tail
          | some (v, rest) =>
              if v < 0 ∨ v > maxLong abi then initLoop abi fuel room token rest
              else ⟨v.toNat % 2 ^ 32, token⟩ :: initLoop abi fuel (room - 1) token rest

/-- The entries that the value of `DISPLAYXR_MCP_ALLOW` leaves. -/
def parsed (abi : Abi) (env : CStr) : List Kept := initLoop abi (env.length + 1) maxEntries 0 env

/-- `g_state`. -/
structure State where
  initialized : Bool
  hasPolicy : Bool
  entries : List Nat
  deriving DecidableEq

/-- The state of a fresh process. -/
def fresh : State := ⟨false, false, []⟩

/-- `mcp_allowlist_init`; `env` is what `getenv` returns. -/
def init (abi : Abi) (env : Option CStr) (s : State) : State :=
  if s.initialized then s
  else
    match env with
    | none => ⟨true, false, []⟩
    | some env => ⟨true, true, (parsed abi env).map Kept.value⟩

/-- `mcp_allowlist_allows`. -/
def allows (s : State) (clientId : Nat) : Bool :=
  if !s.initialized || !s.hasPolicy then true else s.entries.any fun e => decide (e = clientId)

theorem allows_init {abi : Abi} {env : CStr} {id : Nat} :
    allows (init abi (some env) fresh) id = true ↔ ∃ e ∈ parsed abi env, e.value = id := by
  simp [allows, init, fresh]

/-! ## The numerals of a text -/

/-- A run of digits of value `n` behind `prev` that the loop keeps. -/
def Counts (prev : UInt8) (n : Nat) : Prop := n ≤ maxU32 ∧ (prev = minus → n = 0)

instance (prev : UInt8) (n : Nat) : Decidable (Counts prev n) :=
  inferInstanceAs (Decidable (_ ∧ _))

/-- The runs that count, of a text behind `prev` whose first token is number `token`. -/
def numerals (prev : UInt8) (token : Nat) : CStr → List Kept
  | [] => []
  | c :: s =>
      let n := digitsValue ((c :: s).takeWhile isDigit)
      if isDigit c = true ∧ isDigit prev = false ∧ Counts prev n then
        ⟨n, token⟩ :: numerals c token s
      else numerals c (if c = comma then token + 1 else token) s

/-- `prev` matters for a text that starts with a digit only. -/
theorem numerals_prev {s : CStr} (h : ∀ c ∈ s.head?, isDigit c = false) (prev : UInt8)
    (token : Nat) : numerals prev token s = numerals 0 token s := by
  cases s with
  | nil => rfl
  | cons c s =>
      have hc : isDigit c = false := h c rfl
      simp only [numerals, hc, Bool.false_eq_true, false_and, if_false]

/-- A byte that is no digit and no minus behaves as the start of the text. -/
theorem numerals_plain {prev : UInt8} (hd : isDigit prev = false) (hm : prev ≠ minus)
    (token : Nat) (s : CStr) : numerals prev token s = numerals 0 token s := by
  cases s with
  | nil => rfl
  | cons c s =>
      have h0 : isDigit 0 = false := by decide
      have hm0 : ¬ (0 : UInt8) = minus := by decide
      simp only [numerals, Counts, hd, h0, hm, hm0, false_implies, and_true]

theorem numerals_skip {c : UInt8} (hd : isDigit c = false) (prev : UInt8) (token : Nat)
    (s : CStr) :
    numerals prev token (c :: s) = numerals c (if c = comma then token + 1 else token) s := by
  simp only [numerals, hd, Bool.false_eq_true, false_and, if_false]

/-- Inside a run nothing starts. -/
theorem numerals_inside {ds rest : CStr} (hds : ∀ c ∈ ds, isDigit c = true)
    (hstop : ∀ c ∈ rest.head?, isDigit c = false) {prev : UInt8} (hprev : isDigit prev = true)
    (token : Nat) : numerals prev token (ds ++ rest) = numerals 0 token rest := by
  induction ds generalizing prev with
  | nil => exact numerals_prev hstop prev token
  | cons d ds ih =>
      have hd : isDigit d = true := hds d List.mem_cons_self
      have hcomma : d ≠ comma := by
        rintro rfl
        exact absurd hd (by decide)
      rw [List.cons_append]
      simp only [numerals, hprev, Bool.true_eq_false, false_and, and_false, if_false, hcomma]
      exact ih (fun c hc => hds c (List.mem_cons_of_mem d hc)) hd

/-- A run is one numeral or none. -/
theorem numerals_run {ds rest : CStr} (hne : ds ≠ []) (hds : ∀ c ∈ ds, isDigit c = true)
    (hstop : ∀ c ∈ rest.head?, isDigit c = false) {prev : UInt8} (hprev : isDigit prev = false)
    (token : Nat) :
    numerals prev token (ds ++ rest) =
      if Counts prev (digitsValue ds) then ⟨digitsValue ds, token⟩ :: numerals 0 token rest
      else numerals 0 token rest := by
  obtain ⟨d, ds', rfl⟩ := List.exists_cons_of_ne_nil hne
  have hd : isDigit d = true := hds d List.mem_cons_self
  have hcomma : d ≠ comma := by
    rintro rfl
    exact absurd hd (by decide)
  have hrun := takeWhile_isDigit_append hds hstop
  have hinside := numerals_inside (fun c hc => hds c (List.mem_cons_of_mem d hc)) hstop hd token
  rw [List.cons_append] at hrun ⊢
  simp only [numerals, hrun, hd, hprev, true_and, hcomma, if_false, hinside]

theorem not_isDigit_of_isSpace {c : UInt8} (h : isSpace c = true) :
    isDigit c = false ∧ c ≠ minus ∧ c ≠ comma := by
  refine ⟨?_, ?_, ?_⟩
  · rw [Bool.eq_false_iff]
    intro hd
    exact Bool.false_ne_true ((not_isSpace_of_isDigit hd).1.symm.trans h)
  · rintro rfl
    exact absurd h (by decide)
  · rintro rfl
    exact absurd h (by decide)

theorem numerals_space {sp : CStr} (hsp : ∀ c ∈ sp, isSpace c = true) (token : Nat) (s : CStr) :
    numerals 0 token (sp ++ s) = numerals 0 token s := by
  induction sp with
  | nil => rfl
  | cons c sp ih =>
      obtain ⟨hd, hm, hc⟩ := not_isDigit_of_isSpace (hsp c List.mem_cons_self)
      rw [List.cons_append, numerals_skip hd, if_neg hc, numerals_plain hd hm]
      exact ih fun d hmem => hsp d (List.mem_cons_of_mem c hmem)

/-- Skipped separators count the tokens on. -/
theorem numerals_separators (token : Nat) (s : CStr) :
    numerals 0 token s =
      numerals 0 (token + (s.takeWhile isSeparator).count comma) (s.dropWhile isSeparator) := by
  induction s generalizing token with
  | nil => rfl
  | cons c s ih =>
      by_cases hc : isSeparator c = true
      · have hplain : isDigit c = false ∧ c ≠ minus := by
          simp only [isSeparator, Bool.or_eq_true, beq_iff_eq] at hc
          rcases hc with rfl | rfl
          · exact ⟨by decide, by decide⟩
          · exact ⟨by decide, by decide⟩
        rw [numerals_skip hplain.1, numerals_plain hplain.1 hplain.2, ih, List.takeWhile_cons,
          if_pos hc, List.dropWhile_cons, if_pos hc, List.count_cons]
        congr 1
        by_cases hcomma : c = comma
        · simp only [hcomma, if_true, beq_self_eq_true]
          omega
        · have hbeq : (c == comma) = false := beq_eq_false_iff_ne.mpr hcomma
          simp only [hcomma, if_false, hbeq, Bool.false_eq_true]
          omega
      · rw [List.takeWhile_cons, if_neg hc, List.dropWhile_cons, if_neg hc]
        rfl

/-! ## The parser -/

/-- A conversion's share: white space, sign and digits are one numeral or none. -/
theorem numerals_scanned {s sp sign ds rest : CStr} (h : Scanned s sp sign ds rest)
    (token : Nat) :
    numerals 0 token s =
      if digitsValue ds ≤ maxU32 ∧ (sign = [minus] → digitsValue ds = 0) then
        ⟨digitsValue ds, token⟩ :: numerals 0 token rest
      else numerals 0 token rest := by
  have h0 : isDigit 0 = false := by decide
  have hm0 : ¬ (0 : UInt8) = minus := by decide
  rw [h.eq, numerals_space h.space]
  rcases h.signs with hs | hs | hs
  · rw [hs, List.nil_append, numerals_run h.ne_nil h.digits h.stop h0]
    simp only [Counts, hm0, false_implies, List.nil_eq, reduceCtorEq]
  · have hplus : isDigit plus = false ∧ plus ≠ minus ∧ plus ≠ comma := by decide
    have hne : ¬ [plus] = [minus] := by decide
    rw [hs, List.singleton_append, numerals_skip hplus.1, if_neg hplus.2.2,
      numerals_plain hplus.1 hplus.2.1, numerals_run h.ne_nil h.digits h.stop h0]
    simp only [Counts, hm0, hne, false_implies]
  · have hminus : isDigit minus = false ∧ minus ≠ comma := by decide
    rw [hs, List.singleton_append, numerals_skip hminus.1, if_neg hminus.2,
      numerals_run h.ne_nil h.digits h.stop hminus.1]
    simp only [Counts, true_implies]

theorem maxLong_lp64 : maxLong .lp64 = maxU32 := by decide

theorem maxLong_llp64 : maxLong .llp64 = -1 := by decide

/-- The range check on a 64-bit `long`. -/
theorem inRange_lp64 (neg : Prop) [Decidable neg] (n : Nat) :
    (¬ (saturate 64 (if neg then -n else n) < 0 ∨ saturate 64 (if neg then -n else n) > maxLong .lp64)
      ↔ n ≤ maxU32 ∧ (neg → n = 0)) ∧
    (n ≤ maxU32 → (neg → n = 0) → (saturate 64 (if neg then -n else n)).toNat % 2 ^ 32 = n) := by
  rw [maxLong_lp64]
  unfold saturate maxU32
  by_cases h : neg
  · simp only [h, if_true, true_implies]
    omega
  · simp only [h, if_false, false_implies, and_true]
    omega

/-- Where no number starts, one byte is skipped and nothing is lost. -/
theorem numerals_tail {c : UInt8} {s : CStr} (h : strtol Abi.lp64.long (c :: s) = none)
    (hc : c ≠ comma) (token : Nat) : numerals 0 token (c :: s) = numerals 0 token s := by
  obtain ⟨hd, hminus⟩ := strtol_none h
  rw [numerals_skip hd, if_neg hc]
  by_cases hm : c = minus
  · exact numerals_prev (hminus hm) c token
  · exact numerals_plain hd hm token s

/-- The loop keeps the first numerals, as many as there is room for. -/
theorem initLoop_lp64 (fuel : Nat) :
    ∀ (room token : Nat) (p : CStr), p.length < fuel →
      initLoop .lp64 fuel room token p = (numerals 0 token p).take room := by
  induction fuel with
  | zero => exact fun _ _ _ h => absurd h (Nat.not_lt_zero _)
  | succ fuel ih =>
      intro room token p hfuel
      have hdrop : (p.dropWhile isSeparator).length ≤ p.length :=
        (List.dropWhile_suffix _).length_le
      unfold initLoop
      split
      · next hend =>
          rcases hend with rfl | rfl
          · exact List.take_nil.symm
          · exact List.take_zero.symm
      · next hgo =>
          dsimp only
          rw [numerals_separators token p]
          cases hp : p.dropWhile isSeparator with
          | nil => exact List.take_nil.symm
          | cons c s =>
              have hc : c ≠ comma := by
                rintro rfl
                have hsep := head?_dropWhile_not (p := isSeparator) (s := p) comma (by rw [hp]; rfl)
                exact absurd hsep (by decide)
              rw [hp, List.length_cons] at hdrop
              rw [if_neg (List.cons_ne_nil c s)]
              cases hread : strtol Abi.lp64.long (c :: s) with
              | none =>
                  rw [numerals_tail hread hc]
                  exact ih room _ s (by omega)
              | some out =>
                  obtain ⟨v, rest⟩ := out
                  obtain ⟨sp, sign, ds, hscan, hv⟩ := strtol_some hread
                  have hlen := hscan.length_lt
                  rw [List.length_cons] at hlen
                  obtain ⟨hrange, hvalue⟩ := inRange_lp64 (sign = [minus]) (digitsValue ds)
                  change v = saturate 64 _ at hv
                  rw [← hv] at hrange hvalue
                  rw [numerals_scanned hscan]
                  dsimp only
                  by_cases hout : v < 0 ∨ v > maxLong .lp64
                  · rw [if_pos hout, if_neg fun hin => hrange.mpr hin hout]
                    exact ih room _ rest (by omega)
                  · have hcounts := hrange.mp hout
                    obtain ⟨n, rfl⟩ := Nat.exists_eq_succ_of_ne_zero (not_or.mp hgo).2
                    rw [if_neg hout, if_pos hcounts, List.take_succ_cons,
                      hvalue hcounts.1 hcounts.2, ih _ _ rest (by omega)]
                    rfl

/-- On POSIX the list keeps the first 64 numerals of the text. -/
theorem parsed_lp64 (env : CStr) : parsed .lp64 env = (numerals 0 0 env).take maxEntries :=
  initLoop_lp64 _ _ _ _ (Nat.lt_succ_self _)

/-- On Windows it keeps none: every number is negative or greater than -1. -/
theorem initLoop_llp64 (fuel : Nat) :
    ∀ (room token : Nat) (p : CStr), initLoop .llp64 fuel room token p = [] := by
  induction fuel with
  | zero => exact fun _ _ _ => rfl
  | succ fuel ih =>
      intro room token p
      unfold initLoop
      split
      · rfl
      · dsimp only
        split
        · rfl
        · split
          · exact ih _ _ _
          · next v rest _ =>
              have hout : v < 0 ∨ v > maxLong .llp64 := by
                rw [maxLong_llp64]
                omega
              rw [if_pos hout]
              exact ih _ _ _

theorem parsed_llp64 (env : CStr) : parsed .llp64 env = [] := initLoop_llp64 _ _ _ _

end DisplayxrMcp.Allowlist
