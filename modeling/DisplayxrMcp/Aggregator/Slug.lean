/-
  What `slugify` (adapter/workspace_aggregator.c) writes, against what `app_id_valid`
  (src/mcp_server.c) accepts.

  `Slug` is the form of every output (`slugify_slug`), and the strings of that form are
  the fixed points (`slugify_eq_self_iff`). It is narrower than the validator's
  language, which has nothing against a `-` at the end or two of them in a row.
-/
import DisplayxrMcp.Server.Registry
import Mathlib.Data.List.Chain
import Mathlib.Data.List.Infix

namespace DisplayxrMcp

open Lib Server

/-- Not two dashes. -/
def NotDashes (a b : UInt8) : Prop := ¬ (a = dash ∧ b = dash)

/-- A valid app id with nothing for `slugify` to collapse or to trim. -/
structure Slug (s : CStr) : Prop where
  valid : appIdValid s = true
  last : s.getLast? ≠ some dash
  single : ¬ [dash, dash] <:+: s

theorem isChain_iff_single {s : CStr} : s.IsChain NotDashes ↔ ¬ [dash, dash] <:+: s := by
  constructor
  · intro h hd
    have hpair : [dash, dash].IsChain NotDashes := List.IsChain.infix h hd
    exact List.isChain_pair.mp hpair ⟨rfl, rfl⟩
  · intro h
    refine (List.isChain_isInfix s).imp ?_
    rintro a b hab ⟨rfl, rfl⟩
    exact h hab

/-! ## The validator's language -/

theorem not_isAlnum_dash : isAlnum dash = false := by decide

theorem isAlnum_ne_dash {c : UInt8} (h : isAlnum c = true) : c ≠ dash := by
  rintro rfl
  rw [not_isAlnum_dash] at h
  cases h

theorem appIdValid_iff {s : CStr} :
    appIdValid s = true ↔
      s ≠ [] ∧ s.length ≤ 32 ∧ s.head? ≠ some dash ∧ ∀ c ∈ s, SlugByte c := by
  cases s with
  | nil => simp [appIdValid]
  | cons c rest =>
      simp only [appIdValid, Bool.and_eq_true, decide_eq_true_eq, List.all_eq_true,
        Bool.or_eq_true, beq_iff_eq, ne_eq, reduceCtorEq, not_false_eq_true, true_and,
        List.head?_cons, Option.some.injEq, List.forall_mem_cons]
      constructor
      · rintro ⟨⟨hlen, hc⟩, hrest⟩
        exact ⟨hlen, isAlnum_ne_dash hc, Or.inl hc, hrest⟩
      · rintro ⟨hlen, hne, hc, hrest⟩
        exact ⟨⟨hlen, hc.resolve_right hne⟩, hrest⟩

/-! ## The loop -/

/-- The output so far: in the charset, not started by a dash, no dash behind a dash. -/
structure SlugOut (out : CStr) : Prop where
  bytes : ∀ c ∈ out, SlugByte c
  first : out.head? ≠ some dash
  chain : out.IsChain NotDashes

theorem SlugOut.nil : SlugOut [] := ⟨List.forall_mem_nil _, by simp, List.IsChain.nil⟩

/-- A byte of the charset goes behind the output, a dash only behind something else. -/
theorem SlugOut.snoc {out : CStr} (h : SlugOut out) {c : UInt8} (hc : SlugByte c)
    (hd : c = dash → out ≠ [] ∧ out.getLast? ≠ some dash) : SlugOut (out ++ [c]) := by
  refine ⟨?_, ?_, ?_⟩
  · intro d hmem
    rcases List.mem_append.mp hmem with hmem | hmem
    · exact h.bytes d hmem
    · rw [List.mem_singleton.mp hmem]
      exact hc
  · cases out with
    | nil =>
        intro he
        exact (hd (Option.some.inj he)).1 rfl
    | cons d rest => exact h.first
  · refine List.isChain_append.mpr ⟨h.chain, List.IsChain.singleton c, ?_⟩
    rintro d hlast e he ⟨rfl, rfl⟩
    exact (hd (Option.some.inj he)).2 hlast

theorem slugLoop_slugOut (cap : Nat) (inp : CStr) :
    ∀ out : CStr, SlugOut out → SlugOut (slugLoop cap inp out) := by
  induction inp with
  | nil => exact fun out h => h
  | cons c rest ih =>
      intro out h
      unfold slugLoop
      split
      · dsimp only
        split
        · next hal =>
            exact ih _ (h.snoc (Or.inl hal) fun hd => absurd hd (isAlnum_ne_dash hal))
        · split
          · next hd => exact ih _ (h.snoc (Or.inr rfl) fun _ => hd)
          · exact ih _ h
      · exact h

theorem SlugOut.of_isPrefix {out s : CStr} (h : SlugOut out) (hp : s <+: out) : SlugOut s := by
  have hchain : s.IsChain NotDashes := List.IsChain.prefix h.chain hp
  refine ⟨fun c hc => h.bytes c (hp.subset hc), ?_, hchain⟩
  cases s with
  | nil => simp
  | cons c rest =>
      obtain ⟨t, rfl⟩ := hp
      exact h.first

theorem slug_app : Slug (ascii "app") := ⟨by decide, by decide, by decide⟩

/-- The loop's output cut behind its last letter or digit. -/
theorem slugify_slug (inp : CStr) {cap : Nat} (hcap : 33 ≤ cap) : Slug (slugify inp cap) := by
  have hlen := slugify_length inp cap
  unfold slugify at hlen ⊢
  dsimp only at hlen ⊢
  split
  · have hcut : snprintf cap (ascii "app") = ascii "app" := by
      refine snprintf_of_length_lt ?_
      have : (ascii "app").length = 3 := by decide
      omega
    rw [hcut]
    exact slug_app
  · next hne =>
      rw [if_neg hne] at hlen
      have hout := (slugLoop_slugOut cap inp [] SlugOut.nil).of_isPrefix
        (List.rdropWhile_prefix (· == dash) _)
      refine ⟨appIdValid_iff.mpr ⟨hne, hlen, hout.first, hout.bytes⟩, ?_,
        isChain_iff_single.mp hout.chain⟩
      have hlast := List.rdropWhile_last_not (· == dash) _ hne
      rw [List.getLast?_eq_some_getLast hne]
      intro he
      exact hlast (beq_iff_eq.mpr (Option.some.inj he))

/-! ## Fixed points -/

theorem toLower_slugByte {c : UInt8} (h : SlugByte c) : toLower c = c := by
  unfold toLower
  refine if_neg ?_
  rintro ⟨hlo, hhi⟩
  rw [UInt8.le_iff_toNat_le] at hlo hhi
  have h1 : 65 ≤ c.toNat := hlo
  have h2 : c.toNat ≤ 90 := hhi
  rcases h with h | rfl
  · simp only [isAlnum, Bool.or_eq_true, Bool.and_eq_true, decide_eq_true_eq,
      UInt8.le_iff_toNat_le] at h
    rcases h with ⟨h3, -⟩ | ⟨-, h3⟩
    · have h3 : 97 ≤ c.toNat := h3
      omega
    · have h3 : c.toNat ≤ 57 := h3
      omega
  · exact absurd h1 (by decide)

/-- What is already of the loop's form is copied. -/
theorem slugLoop_copies {cap : Nat} (hcap : 33 ≤ cap) (more part : CStr) :
    ∀ out : CStr, SlugOut (out ++ part) → (out ++ part).length ≤ 32 →
      slugLoop cap (part ++ more) out = slugLoop cap more (out ++ part) := by
  induction part with
  | nil =>
      intro out _ _
      rw [List.append_nil, List.nil_append]
  | cons c rest ih =>
      intro out h hlen
      have hroom : out.length + 1 < cap ∧ out.length < 32 := by
        rw [List.length_append, List.length_cons] at hlen
        omega
      have hc : SlugByte c := h.bytes c (List.mem_append_right _ List.mem_cons_self)
      have happ : out ++ c :: rest = out ++ [c] ++ rest := by
        rw [List.append_assoc, List.singleton_append]
      have hnext : slugLoop cap (rest ++ more) (out ++ [c]) =
          slugLoop cap more (out ++ c :: rest) := by
        rw [happ]
        exact ih _ (happ ▸ h) (happ ▸ hlen)
      rw [List.cons_append, slugLoop]
      simp only [if_pos hroom, toLower_slugByte hc]
      rcases hc with hal | rfl
      · rw [if_pos hal]
        exact hnext
      · have hfirst : out ≠ [] := by
          rintro rfl
          exact h.first rfl
        have hlast : out.getLast? ≠ some dash := by
          intro he
          exact (List.isChain_append.mp h.chain).2.2 dash he dash rfl ⟨rfl, rfl⟩
        rw [not_isAlnum_dash, if_neg Bool.false_ne_true, if_pos ⟨hfirst, hlast⟩]
        exact hnext

/-- The loop stops at 32 bytes. -/
theorem slugLoop_full (cap : Nat) (more : CStr) {out : CStr} (h : 32 ≤ out.length) :
    slugLoop cap more out = out := by
  cases more with
  | nil => rfl
  | cons c more =>
      unfold slugLoop
      exact if_neg fun hroom => absurd hroom.2 (Nat.not_lt.mpr h)

theorem Slug.slugOut {s : CStr} (h : Slug s) : SlugOut s :=
  have hv := appIdValid_iff.mp h.valid
  ⟨hv.2.2.2, hv.2.2.1, isChain_iff_single.mpr h.single⟩

/-- Nothing is trimmed. -/
theorem Slug.rdropWhile {s : CStr} (h : Slug s) : s.rdropWhile (· == dash) = s := by
  refine List.rdropWhile_eq_self_iff.mpr fun hl hd => h.last ?_
  rw [List.getLast?_eq_some_getLast hl, beq_iff_eq.mp hd]

/-- A slug is kept, also in front of what goes beyond 32 bytes. -/
theorem Slug.slugify_append {s : CStr} (h : Slug s) {cap : Nat} (hcap : 33 ≤ cap) (more : CStr)
    (hmore : more = [] ∨ s.length = 32) : slugify (s ++ more) cap = s := by
  obtain ⟨hne, hlen, -⟩ := appIdValid_iff.mp h.valid
  have hstop : slugLoop cap more s = s := by
    rcases hmore with rfl | hfull
    · rfl
    · exact slugLoop_full cap more (Nat.le_of_eq hfull.symm)
  have hloop : slugLoop cap (s ++ more) [] = s :=
    (slugLoop_copies hcap more s [] h.slugOut hlen).trans hstop
  unfold DisplayxrMcp.slugify
  simp only [hloop, h.rdropWhile, if_neg hne]

theorem Slug.slugify {s : CStr} (h : Slug s) {cap : Nat} (hcap : 33 ≤ cap) :
    slugify s cap = s := by
  have hkept := h.slugify_append hcap [] (Or.inl rfl)
  rwa [List.append_nil] at hkept

/-- The fixed points of `slugify` are its outputs. -/
theorem slugify_eq_self_iff {s : CStr} {cap : Nat} (hcap : 33 ≤ cap) :
    slugify s cap = s ↔ Slug s :=
  ⟨fun h => h ▸ slugify_slug s hcap, fun h => h.slugify hcap⟩

theorem Slug.underscore_notMem {s : CStr} (h : Slug s) : underscore ∉ s :=
  fun hm => slugByte_ne_underscore ((appIdValid_iff.mp h.valid).2.2.2 _ hm) rfl

/-- `slugify` normalises into the app-id language: what it writes is a valid app id without a
    trailing dash, without two dashes in a row and without the separator, and slugifies to
    itself. -/
theorem slugify_normalises (inp : CStr) {cap : Nat} (hcap : 33 ≤ cap) :
    appIdValid (slugify inp cap) = true ∧ (slugify inp cap).getLast? ≠ some dash ∧
      ¬ [dash, dash] <:+: slugify inp cap ∧ ¬ [underscore, underscore] <:+: slugify inp cap ∧
      slugify (slugify inp cap) cap = slugify inp cap := by
  have h := slugify_slug inp hcap
  refine ⟨h.valid, h.last, h.single, ?_, h.slugify hcap⟩
  intro hsep
  exact h.underscore_notMem (hsep.subset List.mem_cons_self)

/-- The cut after 32 bytes lands on a separator. -/
theorem slugify_normalises_cut :
    slugify (List.replicate 31 0x41 ++ ascii " z") 33 = List.replicate 31 0x61 ∧
      appIdValid (slugify (List.replicate 31 0x41 ++ ascii " z") 33) = true :=
  ⟨by decide, (slugify_normalises _ (Nat.le_refl 33)).1⟩

end DisplayxrMcp
