/-
  Applying one tools list twice.

  apply_tools_result compares the id a result reports with the stored one, and stores what
  fits into 33 bytes. So an id of more than 32 bytes is a changed one every time, and the
  backend is given a new prefix by each refresh, as long as the registry has one to give
  (`refresh_idempotent`).
-/
import DisplayxrMcp.Aggregator.Sticky

namespace DisplayxrMcp

open Lib Cjson Lts

/-- The slot and the result of a step that applies a tools list. -/
def applies (s : Sys) (a : Act) : Option (Fin maxBackends × Json) :=
  match a with
  | .applyResult t => match s.threads t with
    | .reader idx (.apply result) => some (idx, result)
    | _ => none
  | _ => none

/-- The slot of a step that tears a backend down. -/
def tearsDown (s : Sys) (a : Act) : Option (Fin maxBackends) :=
  match a with
  | .teardown t => match s.threads t with
    | .reader idx .dying => some idx
    | _ => none
  | _ => none

/-- The slot and the app id of such a step, when the result reports one. -/
def reports (s : Sys) (a : Act) : Option (Fin maxBackends × CStr) :=
  (applies s a).bind fun p => (metaAppId p.2).map fun id => (p.1, id)

/-- The backend of the slot stays, and reports no other app id than `id`. -/
def Between (idx : Fin maxBackends) (id : CStr) (s : Sys) (a : Act) : Prop :=
  tearsDown s a ≠ some idx ∧ ∀ r ∈ reports s a, r.1 = idx → r.2 = id

instance (idx : Fin maxBackends) (id : CStr) (s : Sys) (a : Act) : Decidable (Between idx id s a) :=
  inferInstanceAs (Decidable (_ ∧ _))

/-- The second application, from `s₂` to `s₃`, leaves what the first one left in `s₁`. -/
structure Idempotent (idx : Fin maxBackends) (s₁ s₂ s₃ : Sys) : Prop where
  nsPrefix : (s₃.g.backends idx).map Backend.nsPrefix = (s₁.g.backends idx).map Backend.nsPrefix
  appId : (s₃.g.backends idx).map Backend.appId = (s₁.g.backends idx).map Backend.appId
  registry : s₃.g.usedPrefixes = s₂.g.usedPrefixes

/-! ## The registry -/

/-- What the registry becomes: it grows at the end, and a full one stays as it is. -/
structure Extends (used used' : List CStr) : Prop where
  isPrefix : used <+: used'
  full : maxPrefixes ≤ used.length → used' = used

theorem Extends.refl (used : List CStr) : Extends used used := ⟨List.prefix_rfl, fun _ => rfl⟩

theorem Extends.trans {u v w : List CStr} (h : Extends u v) (h' : Extends v w) : Extends u w :=
  ⟨h.isPrefix.trans h'.isPrefix, fun hfull =>
    (h'.full (hfull.trans h.isPrefix.length_le)).trans (h.full hfull)⟩

theorem extends_reservePrefix (used : List CStr) (p : CStr) : Extends used (reservePrefix used p) := by
  unfold reservePrefix
  split
  · next hroom => exact ⟨List.prefix_append _ _, fun hfull => absurd hroom (Nat.not_lt.mpr hfull)⟩
  · exact Extends.refl used

theorem extends_assignPrefix (used : List CStr) (desired : CStr) :
    Extends used (assignPrefix used desired 40).2 := by
  unfold assignPrefix
  split
  · exact extends_reservePrefix _ _
  · split
    · exact extends_reservePrefix _ _
    · exact Extends.refl used

theorem extends_step {s s' : Sys} {a : Act} (hst : Step s a s') :
    Extends s.g.usedPrefixes s'.g.usedPrefixes := by
  cases member_step hst with
  | keep hb hu hask => exact hu ▸ Extends.refl _
  | undone hb hask hu => exact hu ▸ extends_assignPrefix _ _
  | joined idx b hfree hb hc hp ht =>
      rcases hp with ⟨-, -, -, hu⟩ | ⟨slug, -, -, -, hu⟩
      · exact hu ▸ Extends.refl _
      · exact hu ▸ extends_assignPrefix _ _
  | applied idx b b' hold hb hc hsh hp ht =>
      rcases hp with ⟨-, -, hu⟩ | ⟨slug, -, -, -, hu⟩
      · exact hu ▸ Extends.refl _
      · exact hu ▸ extends_assignPrefix _ _
  | left idx hb hu hask ht => exact hu ▸ Extends.refl _

/-! ## Asking twice -/

/-- Nothing of the slug is free. -/
theorem assignPrefix_taken {used : List CStr} {desired : CStr} (hbare : desired ∈ used)
    (hforms : ∀ n ∈ suffixes, candidate desired n ∈ used) :
    assignPrefix used desired 40 = (snprintf 40 (desired ++ ascii "-x"), used) := by
  have hin : ∀ {p}, p ∈ used → ¬ prefixInUse used p = false :=
    fun hp h => prefixInUse_eq_false.mp h hp
  have hnone : (suffixes.find? fun n => !prefixInUse used (candidate desired n)) = none := by
    rw [List.find?_eq_none]
    intro n hn
    simpa using hin (hforms n hn)
  unfold assignPrefix
  rw [if_neg (hin hbare), hnone]

/-- A name that is not recorded is handed out again, also from a larger registry. -/
theorem assignPrefix_unrecorded {used used' : List CStr} {desired : CStr}
    (h : ¬ Recorded used desired) (hg : Extends used used') :
    assignPrefix used' desired 40 = ((assignPrefix used desired 40).1, used') := by
  by_cases hfull : maxPrefixes ≤ used.length
  · have hsame := hg.full hfull
    have hkeep := (extends_assignPrefix used desired).full hfull
    rw [hsame]
    exact Prod.ext rfl hkeep
  · have htaken : ¬ (prefixInUse used desired = false ∨
        ∃ n ∈ suffixes, prefixInUse used (candidate desired n) = false) :=
      fun hfree => h ⟨by omega, hfree⟩
    rw [not_or] at htaken
    have hbare : desired ∈ used := by
      by_contra hno
      exact htaken.1 (prefixInUse_eq_false.mpr hno)
    have hforms : ∀ n ∈ suffixes, candidate desired n ∈ used := by
      intro n hn
      by_contra hno
      exact htaken.2 ⟨n, hn, prefixInUse_eq_false.mpr hno⟩
    rw [assignPrefix_taken hbare hforms, assignPrefix_taken (hg.isPrefix.subset hbare)
      fun n hn => hg.isPrefix.subset (hforms n hn)]

/-- A recorded name is the slug or one of its numbered forms. -/
theorem assignPrefix_numbered {used : List CStr} {desired : CStr} (hd : desired.length ≤ 32)
    (h : Recorded used desired) :
    (assignPrefix used desired 40).1 = desired ∨
      ∃ n ∈ suffixes, (assignPrefix used desired 40).1 = candidate desired n := by
  unfold assignPrefix
  split
  · exact Or.inl (snprintf_of_length_lt (by omega))
  · next hbare =>
      split
      · next n hn =>
          have hmem := List.mem_of_find?_eq_some hn
          exact Or.inr ⟨n, hmem, snprintf_of_length_lt (by have := (candidate_eq hd hmem).2; omega)⟩
      · next hn =>
          rcases h.2 with hfree | ⟨n, hmem, hfree⟩
          · exact absurd hfree hbare
          · have hused := List.find?_eq_none.mp hn n hmem
            simp [hfree] at hused

/-- The name given when no other is left is none of the numbered forms. -/
theorem lastResort_ne {desired : CStr} (hd : desired.length ≤ 32) :
    snprintf 40 (desired ++ ascii "-x") ≠ desired ∧
      ∀ n ∈ suffixes, snprintf 40 (desired ++ ascii "-x") ≠ candidate desired n := by
  have hlen : (ascii "-x").length = 2 := by decide
  have hdash : ascii "-x" = ascii "-" ++ ascii "x" := by decide
  have hx : ∀ n ∈ suffixes, ascii "x" ≠ decimal n := by decide +kernel
  rw [snprintf_of_length_lt (by rw [List.length_append]; omega)]
  constructor
  · intro h
    have := congrArg List.length h
    rw [List.length_append] at this
    omega
  · intro n hn h
    rw [(candidate_eq hd hn).1, hdash, ← List.append_assoc] at h
    exact hx n hn (List.append_cancel_left h)

/-- A recorded name is not handed out again. -/
theorem assignPrefix_other {used used' : List CStr} {desired : CStr} (hd : desired.length ≤ 32)
    (h : Recorded used desired) (hmem : (assignPrefix used desired 40).1 ∈ used') :
    (assignPrefix used' desired 40).1 ≠ (assignPrefix used desired 40).1 := by
  have hnumbered := assignPrefix_numbered hd h
  generalize (assignPrefix used desired 40).1 = p at hmem hnumbered
  rintro rfl
  by_cases hbare : prefixInUse used' desired = false
  · rw [assignPrefix_bare hd hbare] at hmem
    exact prefixInUse_eq_false.mp hbare hmem
  · unfold assignPrefix at hmem hnumbered
    rw [if_neg hbare] at hmem hnumbered
    split at hmem
    · next n hn =>
        have hin := List.mem_of_find?_eq_some hn
        have hfree := List.find?_some hn
        simp only [Bool.not_eq_eq_eq_not, Bool.not_true] at hfree
        dsimp only at hmem
        rw [snprintf_of_length_lt (by have := (candidate_eq hd hin).2; omega)] at hmem
        exact prefixInUse_eq_false.mp hfree hmem
    · next hn =>
        rw [hn] at hnumbered
        rcases hnumbered with hp | ⟨n, hin, hp⟩
        · exact (lastResort_ne hd).1 hp
        · exact (lastResort_ne hd).2 n hin hp

/-! ## Steps at a slot -/

theorem applies_some {s : Sys} {a : Act} {idx : Fin maxBackends} {result : Json}
    (h : applies s a = some (idx, result)) :
    ∃ t, a = .applyResult t ∧ s.threads t = .reader idx (.apply result) := by
  unfold applies at h
  split at h
  · next t =>
      split at h
      · next ht =>
          cases h
          exact ⟨t, rfl, ht⟩
      · cases h
  · cases h

theorem reports_some {s : Sys} {a : Act} {idx : Fin maxBackends} {id : CStr}
    (h : reports s a = some (idx, id)) :
    ∃ result, applies s a = some (idx, result) ∧ metaAppId result = some id := by
  obtain ⟨⟨i, result⟩, ha, hr⟩ := Option.bind_eq_some_iff.mp h
  obtain ⟨id', hid, he⟩ := Option.map_eq_some_iff.mp hr
  cases he
  exact ⟨result, ha, hid⟩

theorem applies_step {s s' : Sys} {a : Act} {idx : Fin maxBackends} {result : Json} {b : Backend}
    (h : applies s a = some (idx, result)) (hb : s.g.backends idx = some b) (hst : Step s a s') :
    applyToolsResult s.g idx result = some s'.g := by
  obtain ⟨t, rfl, ht⟩ := applies_some h
  have hn := step_reader hst ht rfl
  cases ha : applyToolsResult s.g idx result with
  | none => exact absurd ha (applyToolsResult_isSome hb)
  | some g' =>
      simp only [Sys.nextReader, ha, Option.some.injEq] at hn
      rw [← hn]
      rfl

/-- A backend that is not torn down stays as it is, but for the results applied to it. -/
theorem slot_step {s s' : Sys} {a : Act} {idx : Fin maxBackends} {b : Backend}
    (hst : Step s a s') (hb : s.g.backends idx = some b) (hstay : tearsDown s a ≠ some idx) :
    s'.g.backends idx = some b ∨ ∃ result, applies s a = some (idx, result) := by
  have hm := member_step hst
  cases hm with
  | keep hback hu hask => exact Or.inl (by rw [hback, hb])
  | undone hback hask hu => exact Or.inl (by rw [hback, hb])
  | joined i b' hfree hback hc hp ht =>
      have hne : idx ≠ i := by
        rintro rfl
        rw [hb] at hfree
        cases hfree
      exact Or.inl (by rw [hback, Slots.put_ne _ _ hne, hb])
  | applied i b₀ b' hold hback hc hsh hp ht =>
      by_cases hi : idx = i
      · subst hi
        refine Or.inr ?_
        cases hst with
        | @applied t j result g' hthread ha =>
            rw [Sys.setThread_same] at ht
            cases ht
            exact ⟨result, by simp [applies, hthread]⟩
        | @notApplied t j result hthread ha =>
            rw [Sys.setThread_same] at ht
            cases ht
      · exact Or.inl (by rw [hback, Slots.put_ne _ _ hi, hb])
  | left i hback hu hask ht =>
      cases hst with
      | @teardown t j hthread =>
          have hne : idx ≠ j := by
            rintro rfl
            exact hstay (by simp [tearsDown, hthread])
          refine Or.inl ?_
          simp only [Sys.setThread_g, Sys.emit_g, Sys.setG_g, backendTeardownLocked_eq]
          rw [Slots.clear_ne _ hne, hb]

/-- What an application does to an app that reports an id. -/
theorem apply_reported {g g' : Global} {idx : Fin maxBackends} {result : Json} {b : Backend}
    {id : CStr} (hb : g.backends idx = some b) (hsh : b.isShell = false)
    (hid : metaAppId result = some id) (h : applyToolsResult g idx result = some g') :
    ∃ b', g'.backends idx = some b' ∧ b'.isShell = false ∧
      ((b.appId = id ∧ b'.nsPrefix = b.nsPrefix ∧ b'.appId = b.appId ∧
          g'.usedPrefixes = g.usedPrefixes) ∨
        (b.appId ≠ id ∧
          b'.nsPrefix = (assignPrefix g.usedPrefixes (slugify (snprintf 33 id) 40) 40).1 ∧
          b'.appId = snprintf 33 id ∧
          g'.usedPrefixes = (assignPrefix g.usedPrefixes (slugify (snprintf 33 id) 40) 40).2)) := by
  obtain ⟨b₀, b', hb₀, -, -, hsh', -, hg⟩ := applyToolsResult_some h
  rw [hb] at hb₀
  cases hb₀
  have hslug : reprefixSlug b result =
      if b.appId ≠ id then some (slugify (snprintf 33 id) 40) else none := by
    simp only [reprefixSlug, hid, hsh, true_and]
  rcases hg with ⟨hnone, hp, happ, rfl⟩ | ⟨slug, hsome, hp, happ, rfl⟩
  · refine ⟨b', Slots.put_same _ _ _, hsh'.trans hsh, Or.inl ⟨?_, hp, happ, rfl⟩⟩
    by_contra hne
    rw [hslug, if_pos hne] at hnone
    cases hnone
  · have hne : b.appId ≠ id := by
      intro he
      rw [hslug, if_neg (not_not.mpr he)] at hsome
      cases hsome
    rw [hslug, if_pos hne] at hsome
    cases hsome
    rw [hid] at happ
    exact ⟨b', Slots.put_same _ _ _, hsh'.trans hsh, Or.inr ⟨hne, hp, happ, rfl⟩⟩

/-- A result without an app id renames nothing. -/
theorem apply_unreported {g g' : Global} {idx : Fin maxBackends} {result : Json} {b : Backend}
    (hb : g.backends idx = some b) (hid : metaAppId result = none)
    (h : applyToolsResult g idx result = some g') :
    ∃ b', g'.backends idx = some b' ∧ b'.isShell = b.isShell ∧ b'.nsPrefix = b.nsPrefix ∧
      b'.appId = b.appId ∧ g'.usedPrefixes = g.usedPrefixes := by
  obtain ⟨b₀, b', hb₀, -, -, hsh', -, hg⟩ := applyToolsResult_some h
  rw [hb] at hb₀
  cases hb₀
  rcases hg with ⟨-, hp, happ, rfl⟩ | ⟨slug, hsome, -⟩
  · exact ⟨b', Slots.put_same _ _ _, hsh', hp, happ, rfl⟩
  · simp [reprefixSlug, hid] at hsome

/-! ## The run between -/

/-- The slug that a reported id is given a prefix for. -/
def reportedSlug (id : CStr) : CStr := slugify (snprintf 33 id) 40

/-- The id fits, or the registry has no name to give for it. -/
def Settles (used : List CStr) (id : CStr) : Prop :=
  id.length ≤ 32 ∨ ¬ Recorded used (reportedSlug id)

/-- What holds of the backend of the slot from the application of `id` on, which found the
    registry `used` and left `b₁` in `s₁`. -/
structure Applied (idx : Fin maxBackends) (id : CStr) (used : List CStr) (s₁ : Sys) (b₁ : Backend)
    (s : Sys) (b : Backend) : Prop where
  slot : s.g.backends idx = some b
  app : b.isShell = false
  appId : b.appId = snprintf 33 id
  registry : Extends s₁.g.usedPrefixes s.g.usedPrefixes
  nsPrefix : Settles used id → b.nsPrefix = b₁.nsPrefix

theorem apply_first {g g' : Global} {idx : Fin maxBackends} {result : Json} {b : Backend}
    {id : CStr} (hb : g.backends idx = some b) (hsh : b.isShell = false)
    (hlen : b.appId.length ≤ 32) (hid : metaAppId result = some id)
    (h : applyToolsResult g idx result = some g') :
    ∃ b', g'.backends idx = some b' ∧ b'.isShell = false ∧ b'.appId = snprintf 33 id ∧
      (¬ id.length ≤ 32 → b'.nsPrefix = (assignPrefix g.usedPrefixes (reportedSlug id) 40).1 ∧
        g'.usedPrefixes = (assignPrefix g.usedPrefixes (reportedSlug id) 40).2) := by
  obtain ⟨b', hb', hsh', ⟨hsame, hp, happ, hu⟩ | ⟨hne, hp, happ, hu⟩⟩ :=
    apply_reported hb hsh hid h
  · refine ⟨b', hb', hsh', ?_, fun hlong => absurd (hsame ▸ hlen) hlong⟩
    rw [happ, hsame]
    exact (snprintf_of_length_lt (Nat.lt_succ_of_le (hsame ▸ hlen))).symm
  · exact ⟨b', hb', hsh', happ, fun _ => ⟨hp, hu⟩⟩

/-- Another application of the id, to the backend that the first one left. -/
theorem apply_again {g g' : Global} {idx : Fin maxBackends} {result : Json} {b : Backend}
    {id : CStr} (hb : g.backends idx = some b) (hsh : b.isShell = false)
    (happ : b.appId = snprintf 33 id) (hid : metaAppId result = some id)
    (h : applyToolsResult g idx result = some g') :
    ∃ b', g'.backends idx = some b' ∧ b'.isShell = false ∧ b'.appId = snprintf 33 id ∧
      (id.length ≤ 32 → b'.nsPrefix = b.nsPrefix ∧ g'.usedPrefixes = g.usedPrefixes) ∧
      (¬ id.length ≤ 32 → b'.nsPrefix = (assignPrefix g.usedPrefixes (reportedSlug id) 40).1 ∧
        g'.usedPrefixes = (assignPrefix g.usedPrefixes (reportedSlug id) 40).2) := by
  have hfits : b.appId = id ↔ id.length ≤ 32 := by
    rw [happ, snprintf_eq_iff (by decide)]
    exact Nat.lt_succ_iff
  obtain ⟨b', hb', hsh', ⟨hsame, hp, happ', hu⟩ | ⟨hne, hp, happ', hu⟩⟩ :=
    apply_reported hb hsh hid h
  · exact ⟨b', hb', hsh', happ'.trans happ, fun _ => ⟨hp, hu⟩,
      fun hlong => absurd (hfits.mp hsame) hlong⟩
  · exact ⟨b', hb', hsh', happ', fun hshort => absurd (hfits.mpr hshort) hne, fun _ => ⟨hp, hu⟩⟩

section

variable {idx : Fin maxBackends} {id : CStr} {used : List CStr} {s₁ : Sys} {b₁ : Backend}

/-- One step of another thread, or of this backend without another id. -/
theorem Applied.step (hgrow : Extends used s₁.g.usedPrefixes)
    (hfirst : ¬ id.length ≤ 32 → b₁.nsPrefix = (assignPrefix used (reportedSlug id) 40).1)
    {s s' : Sys} {b : Backend} {a : Act} (h : Applied idx id used s₁ b₁ s b)
    (hbetween : Between idx id s a) (hst : Step s a s') :
    ∃ b', Applied idx id used s₁ b₁ s' b' := by
  have hregistry := h.registry.trans (extends_step hst)
  rcases slot_step hst h.slot hbetween.1 with hsame | ⟨result, happ⟩
  · exact ⟨b, hsame, h.app, h.appId, hregistry, h.nsPrefix⟩
  · have ha := applies_step happ h.slot hst
    cases hid : metaAppId result with
    | none =>
        obtain ⟨b', hb', hsh, hp, hi, -⟩ := apply_unreported h.slot hid ha
        exact ⟨b', hb', hsh.trans h.app, hi.trans h.appId, hregistry,
          fun hset => hp.trans (h.nsPrefix hset)⟩
    | some other =>
        have hother : other = id :=
          hbetween.2 (idx, other) (by simp [reports, happ, hid]) rfl
        subst hother
        obtain ⟨b', hb', hsh, hi, hshort, hlong⟩ := apply_again h.slot h.app h.appId hid ha
        refine ⟨b', hb', hsh, hi, hregistry, fun hset => ?_⟩
        by_cases hlen : other.length ≤ 32
        · exact (hshort hlen).1.trans (h.nsPrefix hset)
        · have hfixed := assignPrefix_unrecorded (hset.resolve_left hlen)
            (hgrow.trans h.registry)
          rw [(hlong hlen).1, hfixed, hfirst hlen]

theorem Applied.run (hgrow : Extends used s₁.g.usedPrefixes)
    (hfirst : ¬ id.length ≤ 32 → b₁.nsPrefix = (assignPrefix used (reportedSlug id) 40).1)
    (h : Applied idx id used s₁ b₁ s₁ b₁) {s : Sys} {tr : List (Sys × Act)}
    (hrun : Run aggregator s₁ tr s) (hm : Meets (Between idx id) tr) :
    ∃ b, Applied idx id used s₁ b₁ s b :=
  hrun.invariant (I := fun s => ∃ b, Applied idx id used s₁ b₁ s b)
    (fun _ _ _ hbetween hI hst => hI.elim fun _ hb => hb.step hgrow hfirst hbetween hst) hm ⟨b₁, h⟩

end

/-- A tools list applied twice: the second application changes nothing exactly when the reported
    id has at most 32 bytes, or the registry had nothing to give for it. -/
theorem refresh_idempotent {s s₁ s₂ s₃ : Sys} {a a' : Act} {tr : List (Sys × Act)}
    {idx : Fin maxBackends} {b : Backend} {result result' : Json} {id : CStr}
    (hb : s.g.backends idx = some b) (happ : b.isShell = false) (hfield : b.appId.length ≤ 32)
    (hid : metaAppId result = some id) (hid' : metaAppId result' = some id)
    (ha : applies s a = some (idx, result)) (h₁ : Step s a s₁)
    (hrun : Run aggregator s₁ tr s₂) (hm : Meets (Between idx id) tr)
    (ha' : applies s₂ a' = some (idx, result')) (h₃ : Step s₂ a' s₃) :
    Idempotent idx s₁ s₂ s₃ ↔ Settles s.g.usedPrefixes id := by
  have hslug : (reportedSlug id).length ≤ 32 := slugify_length _ _
  have hgrow := extends_step h₁
  obtain ⟨b₁, hb₁, hsh₁, hi₁, hlong₁⟩ := apply_first hb happ hfield hid (applies_step ha hb h₁)
  have hstart : Applied idx id s.g.usedPrefixes s₁ b₁ s₁ b₁ :=
    ⟨hb₁, hsh₁, hi₁, Extends.refl _, fun _ => rfl⟩
  obtain ⟨b₂, h₂⟩ := hstart.run hgrow (fun hlen => (hlong₁ hlen).1) hrun hm
  obtain ⟨b₃, hb₃, -, hi₃, hshort₃, hlong₃⟩ :=
    apply_again h₂.slot h₂.app h₂.appId hid' (applies_step ha' h₂.slot h₃)
  constructor
  · intro h
    by_contra hno
    obtain ⟨hlen, hrec⟩ := not_or.mp hno
    have hrec := not_not.mp hrec
    have hp := h.nsPrefix
    rw [hb₁, hb₃] at hp
    have hp := Option.some.inj hp
    have hmem : (assignPrefix s.g.usedPrefixes (reportedSlug id) 40).1 ∈ s₂.g.usedPrefixes := by
      refine h₂.registry.isPrefix.subset ?_
      rw [(hlong₁ hlen).2, (assignPrefix_recorded hslug hrec).2]
      exact List.mem_append_right _ (List.mem_singleton_self _)
    exact assignPrefix_other hslug hrec hmem
      ((hlong₃ hlen).1.symm.trans (hp.trans (hlong₁ hlen).1))
  · intro hset
    have hkept := h₂.nsPrefix hset
    by_cases hlen : id.length ≤ 32
    · obtain ⟨hp, hu⟩ := hshort₃ hlen
      refine ⟨?_, ?_, hu⟩
      · rw [hb₃, hb₁]
        exact congrArg some (hp.trans hkept)
      · rw [hb₃, hb₁]
        exact congrArg some (hi₃.trans hi₁.symm)
    · obtain ⟨hp, hu⟩ := hlong₃ hlen
      have hfixed := assignPrefix_unrecorded (hset.resolve_left hlen) (hgrow.trans h₂.registry)
      rw [hfixed] at hu
      refine ⟨?_, ?_, hu⟩
      · rw [hb₃, hb₁]
        rw [hfixed] at hp
        exact congrArg some (hp.trans (hlong₁ hlen).1.symm)
      · rw [hb₃, hb₁]
        exact congrArg some (hi₃.trans hi₁.symm)

/-- The app of slot 0 joins as `viewer`, and the reply to its first refresh is about to be
    applied. -/
def firstReport (id : CStr) : List Act :=
  joins 5 0 1 "viewer" (helloResult "viewer") (toolsResult ["zoom"]) ++
    .readerTop 1 :: (renamed 1 id).take 5

/-- From behind the first application to the second one. -/
def secondReport (id : CStr) : List Act := (renamed 1 id).drop 6 ++ (renamed 2 id).take 5

/-- The result both times. -/
def reportOf (id : CStr) : Json := fields [("_meta", fields [("displayxr/appId", .str id)])]

/-- The app reports `editor` twice, and is `editor` after each time. -/
theorem refresh_idempotent_editor : ∃ s₁ s₂ s₃, Idempotent 0 s₁ s₂ s₃ ∧
    (s₁.g.backends 0).map Backend.nsPrefix = some (ascii "editor") := by
  have hrun : ((follow Sys.next (Sys.start plainPlatform false) (firstReport (ascii "editor"))).bind
      fun s => (s.g.backends 0).bind fun b => (s.next (.applyResult 1)).bind fun s₁ =>
        (follow Sys.next s₁ (secondReport (ascii "editor"))).bind fun s₂ =>
          (s₂.next (.applyResult 1)).map fun _ => decide (b.isShell = false ∧ b.appId.length ≤ 32 ∧
            applies s (.applyResult 1) = some (0, reportOf (ascii "editor")) ∧
            Meets (Between 0 (ascii "editor")) (record Sys.next s₁ (secondReport (ascii "editor"))) ∧
            applies s₂ (.applyResult 1) = some (0, reportOf (ascii "editor")) ∧
            (s₁.g.backends 0).map Backend.nsPrefix = some (ascii "editor"))) = some true := by
    decide +kernel
  obtain ⟨s, hs, hrun⟩ := Option.bind_eq_some_iff.mp hrun
  obtain ⟨b, hb, hrun⟩ := Option.bind_eq_some_iff.mp hrun
  obtain ⟨s₁, h₁, hrun⟩ := Option.bind_eq_some_iff.mp hrun
  obtain ⟨s₂, h₂, hrun⟩ := Option.bind_eq_some_iff.mp hrun
  obtain ⟨s₃, h₃, hrun⟩ := Option.map_eq_some_iff.mp hrun
  obtain ⟨hsh, hfield, ha, hm, ha', hp⟩ := of_decide_eq_true hrun
  have hr := run_of_follow (M := aggregator) (fun _ _ _ => next_step) _ h₂
  have hid : metaAppId (reportOf (ascii "editor")) = some (ascii "editor") := by decide +kernel
  exact ⟨s₁, s₂, s₃, (refresh_idempotent hb hsh hfield hid hid ha (next_step h₁) hr hm ha'
    (next_step h₃)).mpr (Or.inl (by decide)), hp⟩

/-- An id of 33 letters. -/
def longId : CStr := List.replicate 33 0x61

/-- The app reports it twice, and gets a suffix the second time. -/
theorem refresh_idempotent_longId : ∃ s b a s₁ tr s₂ a' s₃ result, Reach aggregator s ∧
    s.g.backends 0 = some b ∧ b.isShell = false ∧ metaAppId result = some longId ∧
    applies s a = some (0, result) ∧ Step s a s₁ ∧ Run aggregator s₁ tr s₂ ∧
    Meets (Between 0 longId) tr ∧ applies s₂ a' = some (0, result) ∧ Step s₂ a' s₃ ∧
    ¬ Idempotent 0 s₁ s₂ s₃ := by
  have hrun : ((follow Sys.next (Sys.start plainPlatform false) (firstReport longId)).bind
      fun s => (s.g.backends 0).bind fun b => (s.next (.applyResult 1)).bind fun s₁ =>
        (follow Sys.next s₁ (secondReport longId)).bind fun s₂ =>
          (s₂.next (.applyResult 1)).map fun s₃ => decide (b.isShell = false ∧
            applies s (.applyResult 1) = some (0, reportOf longId) ∧
            Meets (Between 0 longId) (record Sys.next s₁ (secondReport longId)) ∧
            applies s₂ (.applyResult 1) = some (0, reportOf longId) ∧
            (s₃.g.backends 0).map Backend.nsPrefix ≠
              (s₁.g.backends 0).map Backend.nsPrefix)) = some true := by
    decide +kernel
  obtain ⟨s, hs, hrun⟩ := Option.bind_eq_some_iff.mp hrun
  obtain ⟨b, hb, hrun⟩ := Option.bind_eq_some_iff.mp hrun
  obtain ⟨s₁, h₁, hrun⟩ := Option.bind_eq_some_iff.mp hrun
  obtain ⟨s₂, h₂, hrun⟩ := Option.bind_eq_some_iff.mp hrun
  obtain ⟨s₃, h₃, hrun⟩ := Option.map_eq_some_iff.mp hrun
  obtain ⟨hsh, ha, hm, ha', hp⟩ := of_decide_eq_true hrun
  have hreach : Reach aggregator s := reach_of_follow hs fun _ _ => trivial
  have hr := run_of_follow (M := aggregator) (fun _ _ _ => next_step) _ h₂
  exact ⟨s, b, _, s₁, _, s₂, _, s₃, _, hreach, hb, hsh, by decide +kernel, ha, next_step h₁, hr, hm,
    ha', next_step h₃, fun h => hp h.nsPrefix⟩

end DisplayxrMcp
