/-
  An app that collides with itself.

  The registry that assign_prefix searches keeps every name ever handed out, those of
  the app that asks included. So an app that asks for a name it was given before gets a
  suffixed one (`noCollision_iff`), also when it holds the name right now: an app that
  joins under the name of its executable and then reports that name as its id.
-/
import DisplayxrMcp.Aggregator.Sticky

namespace DisplayxrMcp

open Lib Cjson Lts

/-- The connection of a shell that a step registers. -/
def shellJoins (s : Sys) (a : Act) : Option ConnId :=
  match a with
  | .register t _ _ => match s.threads t with
    | .setup true _ (.register c _ _) => s.g.backends.firstFree.map fun _ => c
    | _ => none
  | _ => none

/-- In the run so far a backend joined as the shell, on another connection. -/
def OtherShell (tr : List (Sys × Act)) (c : ConnId) : Prop :=
  ∃ p ∈ tr, ∃ c' ∈ shellJoins p.1 p.2, c' ≠ c

/-- In the run so far another incarnation than `c` held the prefix. -/
def HeldByOther (tr : List (Sys × Act)) (c : ConnId) (p : CStr) : Prop :=
  (∃ c', c' ≠ c ∧ (c', p) ∈ history tr) ∨ (p = ascii "shell" ∧ OtherShell tr c)

/-- The slot a step re-prefixes, and the slug of the reported app id. -/
def reprefixes (s : Sys) (a : Act) : Option (Fin maxBackends × CStr) :=
  match a with
  | .applyResult t => match s.threads t with
    | .reader idx (.apply result) =>
        (s.g.backends idx).bind fun b => (reprefixSlug b result).map fun slug => (idx, slug)
    | _ => none
  | _ => none

/-- A step gives an app a suffixed prefix only if another incarnation held the bare one before, and
    an app whose prefix is the slug of the id it reports keeps it. -/
structure NoCollision (tr : List (Sys × Act)) (s : Sys) (a : Act) : Prop where
  suffixed : ∀ c slug, asks s a = some (c, slug) →
    (assignPrefix s.g.usedPrefixes slug 40).1 ≠ slug → HeldByOther tr c slug
  kept : ∀ s' idx slug b, Step s a s' → reprefixes s a = some (idx, slug) →
    s.g.backends idx = some b → b.nsPrefix = slug →
      ∃ b', s'.g.backends idx = some b' ∧ b'.nsPrefix = slug

/-- The step asks for no name that the app was given before; but for `shell`, given up since, when
    a shell has joined. -/
def AsksNew (tr : List (Sys × Act)) (s : Sys) (a : Act) : Prop :=
  ∀ c slug, asks s a = some (c, slug) → (c, slug) ∈ history tr →
    slug = ascii "shell" ∧ OtherShell tr c ∧
      ∀ idx b, reprefixes s a = some (idx, slug) → s.g.backends idx = some b → b.nsPrefix ≠ slug

/-! ## What a re-prefixing step does -/

theorem reprefixes_some {s : Sys} {a : Act} {idx : Fin maxBackends} {slug : CStr}
    (h : reprefixes s a = some (idx, slug)) :
    ∃ t result b, a = .applyResult t ∧ s.threads t = .reader idx (.apply result) ∧
      s.g.backends idx = some b ∧ reprefixSlug b result = some slug ∧
      asks s a = some (b.conn, slug) := by
  unfold reprefixes at h
  split at h
  · next t =>
      split at h
      · next idx' result ht =>
          obtain ⟨b, hb, h⟩ := Option.bind_eq_some_iff.mp h
          obtain ⟨slug', hslug, he⟩ := Option.map_eq_some_iff.mp h
          cases he
          exact ⟨t, result, b, rfl, ht, hb, hslug, by simp [asks, ht, hb, hslug]⟩
      · cases h
  · cases h

/-- It gives the backend the prefix assigned for the slug. -/
theorem reprefixes_step {s s' : Sys} {a : Act} {idx : Fin maxBackends} {slug : CStr}
    (h : reprefixes s a = some (idx, slug)) (hst : Step s a s') :
    ∃ b', s'.g.backends idx = some b' ∧
      b'.nsPrefix = (assignPrefix s.g.usedPrefixes slug 40).1 := by
  obtain ⟨t, result, b, rfl, ht, hb, hslug, -⟩ := reprefixes_some h
  have hn := step_reader hst ht rfl
  cases ha : applyToolsResult s.g idx result with
  | none => exact absurd ha (applyToolsResult_isSome hb)
  | some g' =>
      simp only [Sys.nextReader, ha, Option.some.injEq] at hn
      subst hn
      obtain ⟨b₀, b', hb₀, -, -, -, -, hg⟩ := applyToolsResult_some ha
      rw [hb] at hb₀
      cases hb₀
      rcases hg with ⟨hnone, -⟩ | ⟨slug', hslug', hp, -, rfl⟩
      · rw [hslug] at hnone
        cases hnone
      · rw [hslug] at hslug'
        cases hslug'
        exact ⟨b', Slots.put_same _ _ _, hp⟩

/-! ## The registry and the history -/

theorem assignPrefix_ne_iff {used : List CStr} {slug : CStr} (hlen : slug.length ≤ 32) :
    (assignPrefix used slug 40).1 ≠ slug ↔ slug ∈ used := by
  constructor
  · intro hne
    by_contra hno
    exact hne (assignPrefix_bare hlen (prefixInUse_eq_false.mpr hno))
  · intro hmem he
    obtain ⟨t, -, -, hp⟩ := assignPrefix_suffixed hlen fun h => prefixInUse_eq_false.mp h hmem
    have hlong := congrArg List.length (he.symm.trans hp)
    have hdash : (ascii "-").length = 1 := by decide
    rw [List.length_append, List.length_append, hdash] at hlong
    omega

/-- One step, in any run below the limits. -/
theorem noCollision_iff {tr : List (Sys × Act)} {s s' : Sys} {a : Act} (h : Sticky tr s)
    (hst : Step s a s') : NoCollision tr s a ↔ AsksNew tr s a := by
  constructor
  · intro hno c slug hask hown
    have hlen := (asks_slug hask).2.2
    have hne := (assignPrefix_ne_iff hlen).mpr (h.mem_used.mpr ⟨c, hown⟩)
    rcases hno.suffixed c slug hask hne with ⟨c', hc', hmem⟩ | ⟨hshell, hother⟩
    · exact absurd (h.once hmem hown) hc'
    · refine ⟨hshell, hother, fun idx b hre hb hp => ?_⟩
      obtain ⟨b', hb', hp'⟩ := hno.kept s' idx slug b hst hre hb hp
      obtain ⟨b'', hb'', hp''⟩ := reprefixes_step hre hst
      rw [hb'] at hb''
      cases hb''
      exact hne (hp''.symm.trans hp')
  · intro hnew
    refine ⟨fun c slug hask hne => ?_, fun s'' idx slug b _ hre hb hp => ?_⟩
    · obtain ⟨c', hmem⟩ := h.mem_used.mp ((assignPrefix_ne_iff (asks_slug hask).2.2).mp hne)
      by_cases hc : c' = c
      · obtain ⟨hshell, hother, -⟩ := hnew c slug hask (hc ▸ hmem)
        exact Or.inr ⟨hshell, hother⟩
      · exact Or.inl ⟨c', hc, hmem⟩
    · obtain ⟨t, result, b₀, -, -, hb₀, hslug, hask⟩ := reprefixes_some hre
      rw [hb] at hb₀
      cases hb₀
      have hown := h.held idx b hb (reprefixSlug_good hslug).1
      rw [hp] at hown
      exact absurd hp ((hnew _ _ hask hown).2.2 idx b hre hb)

/-- Along a run below the limits no app ever collides with itself exactly when no app ever asks for
    a name it was given before. -/
theorem no_self_collision {s t : Sys} {tr : List (Sys × Act)} (hi : aggregator.init s)
    (hr : Run aggregator s tr t) (hm : Meets BelowLimits tr) :
    Throughout NoCollision tr ↔ Throughout AsksNew tr := by
  have hstep : ∀ tr₁ u a tr₂, tr = tr₁ ++ (u, a) :: tr₂ →
      (NoCollision tr₁ u a ↔ AsksNew tr₁ u a) := by
    rintro tr₁ u a tr₂ rfl
    obtain ⟨hrun, v, hst, -⟩ := hr.split
    exact noCollision_iff (sticky_run hi hrun (meets_append.mp hm).1) hst
  exact ⟨fun h tr₁ u a tr₂ he => (hstep tr₁ u a tr₂ he).mp (h tr₁ u a tr₂ he),
    fun h tr₁ u a tr₂ he => (hstep tr₁ u a tr₂ he).mpr (h tr₁ u a tr₂ he)⟩

/-- Where every incarnation asked for one name only, none was asked for twice. -/
theorem asksNew_of_nodup {tr : List (Sys × Act)} (h : ((history tr).map Prod.fst).Nodup) :
    Throughout AsksNew tr := by
  rintro tr₁ u a tr₂ rfl c slug hask hown
  have hsplit : tr₁ ++ (u, a) :: tr₂ = tr₁ ++ ([(u, a)] ++ tr₂) := rfl
  rw [hsplit, history_append, history_append, history_some hask, List.map_append] at h
  have hfirst : c ∈ (history tr₁).map Prod.fst := List.mem_map_of_mem hown
  exact (List.disjoint_of_nodup_append h hfirst List.mem_cons_self).elim

/-- Two apps of one name, and their tools lists under that id. -/
def twoViewers : List Act :=
  joins 5 0 1 "viewer" (helloResult "viewer") (toolsResult ["zoom"]) ++
    joins 6 2 3 "viewer" (helloResult "viewer") (toolsResult ["zoom"])

/-- The second one is `viewer-2`, and neither collides with itself. -/
theorem no_self_collision_twoViewers : ∃ t b,
    follow Sys.next (Sys.start plainPlatform false) twoViewers = some t ∧
    t.g.backends 1 = some b ∧ b.nsPrefix = ascii "viewer-2" ∧
    Throughout NoCollision (record Sys.next (Sys.start plainPlatform false) twoViewers) := by
  have hrun : ((follow Sys.next (Sys.start plainPlatform false) twoViewers).bind fun t =>
      (t.g.backends 1).map fun b => decide (b.nsPrefix = ascii "viewer-2")) = some true := by
    decide +kernel
  obtain ⟨t, ht, hrun⟩ := Option.bind_eq_some_iff.mp hrun
  obtain ⟨b, hb, hp⟩ := Option.map_eq_some_iff.mp hrun
  have hr := run_of_follow (M := aggregator) (fun _ _ _ => next_step) _ ht
  exact ⟨t, b, ht, hb, of_decide_eq_true hp, (no_self_collision ⟨_, _, rfl⟩ hr
    (by decide +kernel)).mpr (asksNew_of_nodup (by decide +kernel))⟩

/-- An app without an id joins under the name of its executable, and reports that name as its id
    in the next tools list. -/
def lateId : List Act :=
  joins 5 0 1 "viewer" (fields []) (toolsResult ["zoom"]) ++
    .readerTop 1 :: (renamed 1 (ascii "viewer")).take 5

/-- The only app there ever was becomes `viewer-2`. -/
theorem no_self_collision_lateId : ∃ s t tr, aggregator.init s ∧ Run aggregator s tr t ∧
    Meets BelowLimits tr ∧ ¬ Throughout NoCollision tr ∧
    ∃ b, t.g.backends 0 = some b ∧ b.nsPrefix = ascii "viewer-2" := by
  have hrun : ((follow Sys.next (Sys.start plainPlatform false) lateId).bind fun u =>
      (u.g.backends 0).bind fun b => (Sys.next u (.applyResult 1)).bind fun t =>
        (t.g.backends 0).map fun b' =>
          decide (Meets BelowLimits (record Sys.next (Sys.start plainPlatform false) lateId ++
                [(u, .applyResult 1)]) ∧
            reprefixes u (.applyResult 1) = some (0, ascii "viewer") ∧
            b.nsPrefix = ascii "viewer" ∧ b'.nsPrefix = ascii "viewer-2")) = some true := by
    decide +kernel
  obtain ⟨u, hu, hrun⟩ := Option.bind_eq_some_iff.mp hrun
  obtain ⟨b, hb, hrun⟩ := Option.bind_eq_some_iff.mp hrun
  obtain ⟨t, ht, hrun⟩ := Option.bind_eq_some_iff.mp hrun
  obtain ⟨b', hb', hrun⟩ := Option.map_eq_some_iff.mp hrun
  obtain ⟨hm, hre, hp, hp'⟩ := of_decide_eq_true hrun
  have hst : Step u (.applyResult 1) t := next_step ht
  have hr := run_of_follow (M := aggregator) (fun _ _ _ => next_step) _ hu
  refine ⟨_, t, _, ⟨_, _, rfl⟩, hr.tail hst, hm, fun hall => ?_, b', hb', hp'⟩
  obtain ⟨b'', hb'', hsame⟩ := (hall _ u _ [] rfl).kept t 0 _ b hst hre hb hp
  rw [hb'] at hb''
  cases hb''
  rw [hp'] at hsame
  exact absurd hsame (by decide)

end DisplayxrMcp
