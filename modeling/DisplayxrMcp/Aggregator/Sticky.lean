/-
  Prefixes over a run: the registry, the reserved names, who holds what.

  `history` lists the prefixes a run has handed to apps. While each is recorded
  (the registry is not full, a free form of the slug exists) no prefix is handed
  out twice, so a listed tool name belongs to one app incarnation for good
  (`sticky_prefixes`). Nothing keeps a slug from being a reserved name:
  an app holds `shell` or `workspace` exactly when some join or refresh asked for
  it while it was not in the registry (`reserved_namespaces`).
-/
import DisplayxrMcp.Aggregator.Members

namespace DisplayxrMcp

open Lib Cjson Lts

/-! ## Reserved names -/

/-- The slug of a prefix that a backend goes on to hold. A registration whose thread does not
    start is undone at once. -/
def granted (s : Sys) (a : Act) : Option (ConnId × CStr) :=
  match a with
  | .register _ _ .noThread => none
  | a => asks s a

/-- The step gives no app a reserved name. -/
def SlugAllowed (s : Sys) (a : Act) : Prop :=
  ∀ q ∈ granted s a, q.2 ∈ reserved → prefixInUse s.g.usedPrefixes q.2 = true

instance (s : Sys) (a : Act) : Decidable (SlugAllowed s a) :=
  inferInstanceAs (Decidable (∀ q ∈ granted s a, _))

/-- No app backend holds a reserved name. -/
def NoReserved (s : Sys) : Prop :=
  ∀ idx b, s.g.backends idx = some b → b.isShell = false → b.nsPrefix ∉ reserved

/-- A backend that got its prefix in this step holds a reserved name exactly when the step is
    not allowed. -/
theorem handedTo_reserved_iff {s : Sys} {a : Act} {b : Backend} {used : List CStr}
    (h : HandedTo s a b used) (hg : granted s a = asks s a) :
    b.nsPrefix ∉ reserved ↔ SlugAllowed s a := by
  obtain ⟨slug, -, hask, hp, -⟩ := h
  rw [hp, assignPrefix_reserved_iff _ (asks_slug hask).2.2, SlugAllowed, hg, hask]
  simp

theorem noReserved_step {s s' : Sys} {a : Act} (hs : MemberStep s s' a) (h : NoReserved s) :
    NoReserved s' ↔ SlugAllowed s a := by
  have hnone : granted s a = none → SlugAllowed s a := by
    intro hg q hq
    rw [hg] at hq
    cases hq
  have hgr : asks s a = none → granted s a = none := by
    intro hask
    unfold granted
    split
    · rfl
    · exact hask
  cases hs with
  | keep hb hu hask => exact ⟨fun _ => hnone (hgr hask), fun _ idx b hi => h idx b (hb ▸ hi)⟩
  | undone hb hask hu => exact ⟨fun _ => hnone rfl, fun _ idx b hi => h idx b (hb ▸ hi)⟩
  | left idx hb hu hask ht =>
      refine ⟨fun _ => hnone (hgr hask), fun _ j b hj => ?_⟩
      rw [hb, Slots.clear_apply] at hj
      split at hj
      · cases hj
      · exact h j b hj
  | joined idx b hfree hb hc hp ht =>
      have hput : NoReserved s' ↔ (b.isShell = false → b.nsPrefix ∉ reserved) := by
        constructor
        · exact fun hs' => hs' idx b (by rw [hb, Slots.put_same])
        · intro hb' j b' hj
          rw [hb, Slots.put_apply] at hj
          split at hj
          · cases hj; exact hb'
          · exact h j b' hj
      rw [hput]
      rcases hp with ⟨hsh, -, hask, -⟩ | hp
      · exact ⟨fun _ => hnone (hgr hask), fun _ he => by rw [hsh] at he; cases he⟩
      · rw [← handedTo_reserved_iff hp rfl]
        obtain ⟨-, hsh, -⟩ := hp
        simp [hsh]
  | applied idx b b' hold hb hc hsh hp ht =>
      have hput : NoReserved s' ↔ (b'.isShell = false → b'.nsPrefix ∉ reserved) := by
        constructor
        · exact fun hs' => hs' idx b' (by rw [hb, Slots.put_same])
        · intro hb' j b'' hj
          rw [hb, Slots.put_apply] at hj
          split at hj
          · cases hj; exact hb'
          · exact h j b'' hj
      rw [hput]
      rcases hp with ⟨hsame, hask, -⟩ | hp
      · refine ⟨fun _ => hnone (hgr hask), fun _ he => ?_⟩
        rw [hsame]
        exact h idx b hold (hsh ▸ he)
      · rw [← handedTo_reserved_iff hp rfl]
        obtain ⟨-, hsh', -⟩ := hp
        simp [hsh']

theorem noReserved_start (platform : Platform) (expose : Bool) :
    NoReserved (Sys.start platform expose) := by
  intro idx b h
  cases h

/-- The shell role's backends have the shell's prefix. -/
def ShellPrefix (s : Sys) : Prop :=
  ∀ idx b, s.g.backends idx = some b → b.isShell = true → b.nsPrefix = ascii "shell"

/-- Every backend's prefix is a slug of at most 35 bytes. -/
def PrefixesGood (s : Sys) : Prop := ∀ idx b, s.g.backends idx = some b → GoodPrefix b.nsPrefix

theorem shell_good : GoodPrefix (ascii "shell") := ⟨by decide, by decide +kernel, by decide⟩

theorem HandedTo.good {s : Sys} {a : Act} {b : Backend} {used : List CStr}
    (h : HandedTo s a b used) : GoodPrefix b.nsPrefix := by
  obtain ⟨slug, -, hask, hp, -⟩ := h
  obtain ⟨hne, hs, hlen⟩ := asks_slug hask
  exact hp ▸ assignPrefix_good _ hne hs hlen

theorem shellPrefix_step {s s' : Sys} {a : Act} (hs : MemberStep s s' a)
    (h : ShellPrefix s ∧ PrefixesGood s) : ShellPrefix s' ∧ PrefixesGood s' := by
  obtain ⟨hsp, hpg⟩ := h
  have hput : ∀ {idx : Fin maxBackends} {b : Backend}, s'.g.backends = s.g.backends.put idx b →
      (b.isShell = true → b.nsPrefix = ascii "shell") → GoodPrefix b.nsPrefix →
      ShellPrefix s' ∧ PrefixesGood s' := by
    intro idx b hb hsh hgood
    constructor
    · intro j b' hj
      rw [hb, Slots.put_apply] at hj
      split at hj
      · cases hj; exact hsh
      · exact hsp j b' hj
    · intro j b' hj
      rw [hb, Slots.put_apply] at hj
      split at hj
      · cases hj; exact hgood
      · exact hpg j b' hj
  cases hs with
  | keep hb hu hask => exact ⟨fun j b hj => hsp j b (hb ▸ hj), fun j b hj => hpg j b (hb ▸ hj)⟩
  | undone hb hask hu => exact ⟨fun j b hj => hsp j b (hb ▸ hj), fun j b hj => hpg j b (hb ▸ hj)⟩
  | left idx hb hu hask ht =>
      have hsub : ∀ j b, s'.g.backends j = some b → s.g.backends j = some b := by
        intro j b hj
        rw [hb, Slots.clear_apply] at hj
        split at hj
        · cases hj
        · exact hj
      exact ⟨fun j b hj => hsp j b (hsub j b hj), fun j b hj => hpg j b (hsub j b hj)⟩
  | joined idx b hfree hb hc hp ht =>
      rcases hp with ⟨hsh, hshell, -, -⟩ | hp
      · exact hput hb (fun _ => hshell) (hshell ▸ shell_good)
      · refine hput hb (fun he => ?_) hp.good
        obtain ⟨-, hsh, -⟩ := hp
        rw [hsh] at he
        cases he
  | applied idx b b' hold hb hc hsh hp ht =>
      rcases hp with ⟨hsame, -, -⟩ | hp
      · exact hput hb (fun he => hsame.trans (hsp idx b hold (hsh ▸ he))) (hsame ▸ hpg idx b hold)
      · refine hput hb (fun he => ?_) hp.good
        obtain ⟨-, hsh', -⟩ := hp
        rw [hsh'] at he
        cases he

theorem prefixes_reach {ok : Sys → Act → Prop} {s : Sys} (h : ReachWhen aggregator ok s) :
    ShellPrefix s ∧ PrefixesGood s := by
  refine h.invariant ?_ fun s a s' _ hi hst =>
    shellPrefix_step (member_step (show Step s a s' from hst)) hi
  rintro s ⟨platform, expose, rfl⟩
  exact ⟨fun idx b hb => (by cases hb), fun idx b hb => (by cases hb)⟩

/-- Along a run no app ever holds a reserved name exactly when every step is allowed. -/
theorem noReserved_run {s t : Sys} {tr : List (Sys × Act)} (h : NoReserved s)
    (hr : Run aggregator s tr t) :
    ((∀ p ∈ tr, NoReserved p.1) ∧ NoReserved t) ↔ Meets SlugAllowed tr := by
  induction hr with
  | refl => exact ⟨fun _ => meets_nil _, fun _ => ⟨fun p hp => (by cases hp), h⟩⟩
  | @tail tr t a u hrun hst ih =>
      have hlast : (t, a) ∈ tr ++ [(t, a)] := List.mem_append_right _ (List.mem_singleton.mpr rfl)
      rw [meets_snoc]
      constructor
      · rintro ⟨hall, hu⟩
        have ht := hall _ hlast
        exact ⟨ih.mp ⟨fun p hp => hall p (List.mem_append_left _ hp), ht⟩,
          (noReserved_step (member_step hst) ht).mp hu⟩
      · rintro ⟨hm, ha⟩
        obtain ⟨hall, ht⟩ := ih.mpr hm
        refine ⟨fun p hp => ?_, (noReserved_step (member_step hst) ht).mpr ha⟩
        rcases List.mem_append.mp hp with hp | hp
        · exact hall p hp
        · rw [List.mem_singleton.mp hp]
          exact ht

/-- An app whose prefix is not reserved lists no tool under the built-in's name. -/
theorem prefixedName_ne_listApps {p : CStr} (hp : GoodPrefix p) (hr : p ∉ reserved) (name : CStr) :
    prefixedName p name ≠ listAppsName := by
  intro he
  have hlen := hp.len
  rw [prefixedName_eq hp.len, List.append_assoc] at he
  have hleft := strstr_sep hp.underscore_notMem (snprintf (126 - p.length) name)
  have hbuiltin : strstr nsSep listAppsName = some 9 := by decide
  change strstr nsSep (p ++ (nsSep ++ snprintf (126 - p.length) name)) = some p.length at hleft
  rw [he, hbuiltin] at hleft
  have hnine : p.length = 9 := (Option.some.inj hleft).symm
  have htake : p = listAppsName.take 9 := by
    rw [← he, ← hnine, List.take_left']
    rfl
  exact hr (htake ▸ (by decide))

/-- Reserved namespaces. Along a run from the start no app ever holds a reserved name exactly
    when no step gives one out; and then a call `shell__…` reaches the shell only and no app's
    tool is listed under the built-in's name. -/
theorem reserved_namespaces {s t : Sys} {tr : List (Sys × Act)} (hi : aggregator.init s)
    (hr : Run aggregator s tr t) :
    (((∀ p ∈ tr, NoReserved p.1) ∧ NoReserved t) ↔ Meets SlugAllowed tr) ∧
      (Meets SlugAllowed tr →
        (∀ seq id params ok rest c j,
          Json.string? (params.bind (·.getObjectItemCaseSensitive (ascii "name"))) =
            some (ascii "shell" ++ nsSep ++ rest) →
          (handleToolsCall t.g seq id params ok).sent = some (c, j) →
          ∃ idx b, t.g.backends idx = some b ∧ b.conn = c ∧ b.isShell = true) ∧
        ∀ idx b name, t.g.backends idx = some b → b.isShell = false →
          prefixedName b.nsPrefix name ≠ listAppsName) := by
  obtain ⟨platform, expose, rfl⟩ := hi
  have hiff := noReserved_run (noReserved_start platform expose) hr
  refine ⟨hiff, fun hm => ?_⟩
  obtain ⟨-, hno⟩ := hiff.mpr hm
  have hreach : Reach aggregator t := ⟨_, tr, ⟨platform, expose, rfl⟩, hr, fun _ _ => trivial⟩
  obtain ⟨-, hgood⟩ := prefixes_reach hreach
  constructor
  · intro seq id params ok rest c j hname hsent
    have hne : ascii "shell" ++ nsSep ++ rest ≠ listAppsName := by
      intro he
      have hc : some (0x73 : UInt8) = listAppsName.head? := congrArg List.head? he
      exact absurd hc (by decide)
    rcases handleToolsCall_outcome t.g seq id ok hname hne with
      ⟨idx, b, bare, j', hroute, hs⟩ | ⟨hnone, -⟩
    · rw [hsent] at hs
      cases hs
      obtain ⟨hp, -, hb⟩ := route_prefixed (by decide) hroute
      refine ⟨idx, b, hb, rfl, ?_⟩
      by_contra hsh
      exact hno idx b hb (Bool.not_eq_true _ ▸ hsh) (hp ▸ (by decide))
    · rw [hsent] at hnone
      cases hnone
  · intro idx b name hb hsh
    exact prefixedName_ne_listApps (hgood idx b hb) (hno idx b hb hsh) name

/-- A run in which an app gets its own name. -/
theorem reserved_namespaces_viewer : ∃ t,
    follow Sys.next (Sys.start plainPlatform false)
      (joins 5 0 1 "viewer" (helloResult "viewer") (toolsResult ["zoom"])) = some t ∧
      NoReserved t := by
  have hrun : (follow Sys.next (Sys.start plainPlatform false)
      (joins 5 0 1 "viewer" (helloResult "viewer") (toolsResult ["zoom"]))).isSome = true := by
    decide +kernel
  obtain ⟨t, ht⟩ := Option.isSome_iff_exists.mp hrun
  have hr := run_of_follow (M := aggregator) (fun _ _ _ => next_step) _ ht
  exact ⟨t, ht, ((reserved_namespaces ⟨_, _, rfl⟩ hr).1.mpr (by decide +kernel)).2⟩

/-- An app that reports the id `shell` gets the shell's prefix, and its calls. -/
theorem reserved_namespaces_shellApp : ∃ t b, Reach aggregator t ∧ t.g.backends 0 = some b ∧
    b.isShell = false ∧ b.nsPrefix = ascii "shell" ∧ ¬ NoReserved t ∧
    ((handleAgentFrame t.g 0 (some (callFrame 7 "shell__zoom")) true).sent.map Prod.fst) =
      some b.conn := by
  have hrun : ((follow Sys.next (Sys.start plainPlatform false)
      (joins 5 0 1 "viewer" (helloResult "shell") (toolsResult ["zoom"]))).bind fun t =>
        (t.g.backends 0).map fun b => (b.isShell, b.nsPrefix,
          decide ((handleAgentFrame t.g 0 (some (callFrame 7 "shell__zoom")) true).sent.map
            Prod.fst = some b.conn))) = some (false, ascii "shell", true) := by
    decide +kernel
  obtain ⟨t, ht, hrun⟩ := Option.bind_eq_some_iff.mp hrun
  obtain ⟨b, hb, hrun⟩ := Option.map_eq_some_iff.mp hrun
  simp only [Prod.mk.injEq, decide_eq_true_eq] at hrun
  obtain ⟨hsh, hp, hsent⟩ := hrun
  refine ⟨t, b, reach_of_follow ht fun _ _ => trivial, hb, hsh, hp, fun hno => ?_, hsent⟩
  exact hno 0 b hb hsh (hp ▸ (by decide))

/-! ## Sticky prefixes -/

/-- The prefixes a run has handed to apps, with the connection of the incarnation. -/
def history (tr : List (Sys × Act)) : List (ConnId × CStr) :=
  tr.filterMap fun p => (asks p.1 p.2).map fun q =>
    (q.1, (assignPrefix p.1.g.usedPrefixes q.2 40).1)

/-- A prefix handed out is new and recorded. -/
def BelowLimits (s : Sys) (a : Act) : Prop := ∀ q ∈ asks s a, Recorded s.g.usedPrefixes q.2

instance (s : Sys) (a : Act) : Decidable (BelowLimits s a) :=
  inferInstanceAs (Decidable (∀ q ∈ asks s a, _))

/-- The registry is the history, without repetition, and every app's prefix is in it. -/
structure Sticky (tr : List (Sys × Act)) (s : Sys) : Prop where
  registry : s.g.usedPrefixes = (history tr).map Prod.snd
  nodup : s.g.usedPrefixes.Nodup
  held : ∀ idx b, s.g.backends idx = some b → b.isShell = false →
    (b.conn, b.nsPrefix) ∈ history tr

theorem history_append (tr tr' : List (Sys × Act)) :
    history (tr ++ tr') = history tr ++ history tr' := List.filterMap_append

theorem history_none {s : Sys} {a : Act} (h : asks s a = none) : history [(s, a)] = [] := by
  simp [history, h]

theorem history_some {s : Sys} {a : Act} {c : ConnId} {slug : CStr}
    (h : asks s a = some (c, slug)) :
    history [(s, a)] = [(c, (assignPrefix s.g.usedPrefixes slug 40).1)] := by
  simp [history, h]

/-- A step that hands nothing out. -/
theorem Sticky.keep {tr : List (Sys × Act)} {s s' : Sys} {a : Act} (h : Sticky tr s)
    (hask : asks s a = none) (hu : s'.g.usedPrefixes = s.g.usedPrefixes)
    (hb : ∀ idx b', s'.g.backends idx = some b' → b'.isShell = false →
      ∃ b, s.g.backends idx = some b ∧ b.isShell = false ∧ b.conn = b'.conn ∧
        b.nsPrefix = b'.nsPrefix) : Sticky (tr ++ [(s, a)]) s' := by
  have hh : history (tr ++ [(s, a)]) = history tr := by
    rw [history_append, history_none hask, List.append_nil]
  refine ⟨by rw [hh, hu, h.registry], hu ▸ h.nodup, fun idx b' hb' hsh => ?_⟩
  obtain ⟨b, hbi, hsh', hc, hp⟩ := hb idx b' hb' hsh
  rw [hh, ← hc, ← hp]
  exact h.held idx b hbi hsh'

/-- A step that hands a new prefix out and records it. -/
theorem Sticky.hand {tr : List (Sys × Act)} {s s' : Sys} {a : Act} {c : ConnId} {slug : CStr}
    (h : Sticky tr s) (hask : asks s a = some (c, slug)) (hrec : Recorded s.g.usedPrefixes slug)
    (hu : s'.g.usedPrefixes = (assignPrefix s.g.usedPrefixes slug 40).2)
    (hb : ∀ idx b', s'.g.backends idx = some b' → b'.isShell = false →
      (b'.conn = c ∧ b'.nsPrefix = (assignPrefix s.g.usedPrefixes slug 40).1) ∨
        s.g.backends idx = some b') : Sticky (tr ++ [(s, a)]) s' := by
  obtain ⟨hnew, hused⟩ := assignPrefix_recorded (asks_slug hask).2.2 hrec
  rw [hused] at hu
  have hh : history (tr ++ [(s, a)]) =
      history tr ++ [(c, (assignPrefix s.g.usedPrefixes slug 40).1)] := by
    rw [history_append, history_some hask]
  refine ⟨?_, ?_, fun idx b' hb' hsh => ?_⟩
  · rw [hh, hu, h.registry, List.map_append]
    rfl
  · rw [hu, List.nodup_append]
    refine ⟨h.nodup, List.nodup_singleton _, fun p hp q hq e => ?_⟩
    rw [List.mem_singleton.mp hq] at e
    exact hnew (e ▸ hp)
  · rw [hh]
    rcases hb idx b' hb' hsh with ⟨rfl, hp⟩ | hold
    · rw [hp]
      exact List.mem_append_right _ (List.mem_singleton.mpr rfl)
    · exact List.mem_append_left _ (h.held idx b' hold hsh)

theorem sticky_step {tr : List (Sys × Act)} {s s' : Sys} {a : Act} (hs : MemberStep s s' a)
    (hroom : BelowLimits s a) (h : Sticky tr s) : Sticky (tr ++ [(s, a)]) s' := by
  cases hs with
  | keep hb hu hask => exact h.keep hask hu fun idx b hi hsh => ⟨b, hb ▸ hi, hsh, rfl, rfl⟩
  | undone hb hask hu =>
      exact h.hand hask (hroom _ hask) hu fun idx b hi _ => Or.inr (hb ▸ hi)
  | left idx hb hu hask ht =>
      refine h.keep hask hu fun j b hj hsh => ?_
      rw [hb, Slots.clear_apply] at hj
      split at hj
      · cases hj
      · exact ⟨b, hj, hsh, rfl, rfl⟩
  | joined idx b hfree hb hc hp ht =>
      rcases hp with ⟨hshell, -, hask, hu⟩ | ⟨slug, -, hask, hp, hu⟩
      · refine h.keep hask hu fun j b' hj hsh => ?_
        rw [hb, Slots.put_apply] at hj
        split at hj
        · cases hj
          rw [hshell] at hsh
          cases hsh
        · exact ⟨b', hj, hsh, rfl, rfl⟩
      · refine h.hand hask (hroom _ hask) hu fun j b' hj _ => ?_
        rw [hb, Slots.put_apply] at hj
        split at hj
        · cases hj; exact Or.inl ⟨rfl, hp⟩
        · exact Or.inr hj
  | applied idx b b' hold hb hc hshell hp ht =>
      rcases hp with ⟨hsame, hask, hu⟩ | ⟨slug, -, hask, hp, hu⟩
      · refine h.keep hask hu fun j b'' hj hsh => ?_
        rw [hb, Slots.put_apply] at hj
        split at hj
        · next he =>
            cases hj
            exact ⟨b, he ▸ hold, hshell ▸ hsh, hc.symm, hsame.symm⟩
        · exact ⟨b'', hj, hsh, rfl, rfl⟩
      · refine h.hand hask (hroom _ hask) hu fun j b'' hj _ => ?_
        rw [hb, Slots.put_apply] at hj
        split at hj
        · cases hj; exact Or.inl ⟨rfl, hp⟩
        · exact Or.inr hj

theorem sticky_run {s t : Sys} {tr : List (Sys × Act)} (hi : aggregator.init s)
    (hr : Run aggregator s tr t) (hm : Meets BelowLimits tr) : Sticky tr t := by
  obtain ⟨platform, expose, rfl⟩ := hi
  refine hr.history ?_ (fun tr u a v _ _ hok h hst => ?_) hm
  · exact ⟨rfl, List.nodup_nil, fun idx b hb => (by cases hb)⟩
  · exact sticky_step (member_step (show Step u a v from hst)) hok h

theorem Sticky.mem_used {tr : List (Sys × Act)} {s : Sys} (h : Sticky tr s) {p : CStr} :
    p ∈ s.g.usedPrefixes ↔ ∃ c, (c, p) ∈ history tr := by
  rw [h.registry, List.mem_map]
  constructor
  · rintro ⟨⟨c, q⟩, hmem, rfl⟩
    exact ⟨c, hmem⟩
  · rintro ⟨c, hmem⟩
    exact ⟨(c, p), hmem, rfl⟩

/-- No name is handed out twice. -/
theorem Sticky.once {tr : List (Sys × Act)} {s : Sys} (h : Sticky tr s) {c c' : ConnId} {p : CStr}
    (hc : (c, p) ∈ history tr) (hc' : (c', p) ∈ history tr) : c = c' := by
  have hnd : ((history tr).map Prod.snd).Nodup := h.registry ▸ h.nodup
  exact congrArg Prod.fst (List.inj_on_of_nodup_map hnd hc hc' rfl)

/-- Sticky prefixes, over a run that goes on from `u` to `t`. A prefix handed to one
    incarnation is never handed to another; live apps have distinct prefixes; and if no app got a
    reserved name up to `u`, a name an app lists there is at `t` sent to the same incarnation or
    answered with an error. -/
theorem sticky_prefixes {s u t : Sys} {tr tr' : List (Sys × Act)} (hi : aggregator.init s)
    (hr : Run aggregator s tr u) (hr' : Run aggregator u tr' t)
    (hm : Meets BelowLimits (tr ++ tr')) :
    (∀ c c' p, (c, p) ∈ history (tr ++ tr') → (c', p) ∈ history (tr ++ tr') → c = c') ∧
      (∀ i j b b', t.g.backends i = some b → t.g.backends j = some b' → b.isShell = false →
        b'.isShell = false → b.nsPrefix = b'.nsPrefix → i = j) ∧
      (Meets SlugAllowed tr → ∀ idx b name seq id params ok, u.g.backends idx = some b →
        b.isShell = false →
        Json.string? (params.bind (·.getObjectItemCaseSensitive (ascii "name"))) =
          some (prefixedName b.nsPrefix name) →
        (∃ j, (handleToolsCall t.g seq id params ok).sent = some (b.conn, j)) ∨
          ((handleToolsCall t.g seq id params ok).sent = none ∧ ∃ code message,
            (handleToolsCall t.g seq id params ok).reply =
              some (jsonrpcErrorStr (some id) code message))) := by
  have hst := sticky_run hi (hr.trans hr') hm
  have hsu := sticky_run hi hr (meets_append.mp hm).1
  have hrt : Reach aggregator t := ⟨s, _, hi, hr.trans hr', fun _ _ => trivial⟩
  have hru : Reach aggregator u := ⟨s, _, hi, hr, fun _ _ => trivial⟩
  refine ⟨fun c c' p hc hc' => hst.once hc hc', fun i j b b' hb hb' hsh hsh' hp => ?_, ?_⟩
  · have hc : b.conn = b'.conn := hst.once (hst.held i b hb hsh) (hp ▸ hst.held j b' hb' hsh')
    have hw := wf_reach hrt
    have hij := hw.connOnce (.inl i) (.inl j) b.conn (by simp [connAt, hb])
      (by simp [connAt, hb', hc])
    exact Sum.inl.inj hij
  · intro hallowed idx b name seq id params ok hb hsh hname
    have hgood := (prefixes_reach hru).2 idx b hb
    have hno : NoReserved u := by
      obtain ⟨platform, expose, rfl⟩ := hi
      exact ((noReserved_run (noReserved_start platform expose) hr).mpr hallowed).2
    have hres := hno idx b hb hsh
    rcases handleToolsCall_outcome t.g seq id ok hname
      (prefixedName_ne_listApps hgood hres name) with ⟨idx', b', bare, j, hroute, hsent⟩ | herr
    · left
      rw [prefixedName_eq hgood.len] at hroute
      obtain ⟨hp, -, hb'⟩ := route_prefixed hgood.underscore_notMem hroute
      have hsh' : b'.isShell = false := by
        by_contra hne
        have := (prefixes_reach hrt).1 idx' b' hb' (by simpa using hne)
        exact hres (hp ▸ this ▸ (by decide))
      have hc : b'.conn = b.conn := hst.once (hp ▸ hst.held idx' b' hb' hsh')
        (history_append tr tr' ▸ List.mem_append_left _ (hsu.held idx b hb hsh))
      exact ⟨j, hc ▸ hsent⟩
    · exact Or.inr herr

/-- Two apps of one name: the second gets another prefix, and the first one's tool name stays
    with the first. -/
theorem sticky_prefixes_twoViewers : ∃ u t b b',
    follow Sys.next (Sys.start plainPlatform false)
      (joins 5 0 1 "viewer" (helloResult "viewer") (toolsResult ["zoom"])) = some u ∧
    follow Sys.next u (joins 6 2 3 "viewer" (helloResult "viewer") (toolsResult ["zoom"])) =
      some t ∧
    t.g.backends 0 = some b ∧ t.g.backends 1 = some b' ∧ b.nsPrefix ≠ b'.nsPrefix ∧
    ∃ j, (handleToolsCall t.g 0 (Json.ofNat 7) (some (fields [("name", text "viewer__zoom")]))
      true).sent = some (b.conn, j) := by
  have hrun : ((follow Sys.next (Sys.start plainPlatform false)
      (joins 5 0 1 "viewer" (helloResult "viewer") (toolsResult ["zoom"]))).bind fun u =>
        (follow Sys.next u
          (joins 6 2 3 "viewer" (helloResult "viewer") (toolsResult ["zoom"]))).bind fun t =>
            (u.g.backends 0).bind fun b₀ => (t.g.backends 0).bind fun b =>
              (t.g.backends 1).map fun b' =>
                decide (Meets BelowLimits (record Sys.next (Sys.start plainPlatform false)
                      (joins 5 0 1 "viewer" (helloResult "viewer") (toolsResult ["zoom"])) ++
                    record Sys.next u
                      (joins 6 2 3 "viewer" (helloResult "viewer") (toolsResult ["zoom"]))) ∧
                  Meets SlugAllowed (record Sys.next (Sys.start plainPlatform false)
                    (joins 5 0 1 "viewer" (helloResult "viewer") (toolsResult ["zoom"]))) ∧
                  b₀.isShell = false ∧ b.isShell = false ∧ b'.isShell = false ∧
                  b₀.nsPrefix = ascii "viewer" ∧ b.conn = b₀.conn ∧
                  (handleToolsCall t.g 0 (Json.ofNat 7)
                    (some (fields [("name", text "viewer__zoom")])) true).sent.isSome = true)) =
        some true := by
    decide +kernel
  obtain ⟨u, hu, hrun⟩ := Option.bind_eq_some_iff.mp hrun
  obtain ⟨t, ht, hrun⟩ := Option.bind_eq_some_iff.mp hrun
  obtain ⟨b₀, hb₀, hrun⟩ := Option.bind_eq_some_iff.mp hrun
  obtain ⟨b, hb, hrun⟩ := Option.bind_eq_some_iff.mp hrun
  obtain ⟨b', hb', hrun⟩ := Option.map_eq_some_iff.mp hrun
  obtain ⟨hm, hallowed, hsh₀, hsh, hsh', hp₀, hc, hsent⟩ := of_decide_eq_true hrun
  obtain ⟨-, hdistinct, hkept⟩ := sticky_prefixes ⟨_, _, rfl⟩
    (run_of_follow (M := aggregator) (fun _ _ _ => next_step) _ hu)
    (run_of_follow (M := aggregator) (fun _ _ _ => next_step) _ ht) hm
  refine ⟨u, t, b, b', hu, ht, hb, hb', fun he => ?_, ?_⟩
  · exact absurd (hdistinct 0 1 b b' hb hb' hsh hsh' he) (by decide)
  · have hname : Json.string? ((some (fields [("name", text "viewer__zoom")])).bind
        (·.getObjectItemCaseSensitive (ascii "name"))) =
          some (prefixedName b₀.nsPrefix (ascii "zoom")) := by
      rw [hp₀]
      decide +kernel
    rcases hkept hallowed 0 b₀ (ascii "zoom") 0 (Json.ofNat 7) _ true hb₀ hsh₀ hname with
      hj | ⟨hnone, -⟩
    · rw [hc]
      exact hj
    · rw [hnone] at hsent
      cases hsent

/-- The app of reader 1 reports a new app id. -/
def renamed (k : Nat) (appId : CStr) : List Act :=
  [.recv 1 (.msg listChanged), .refresh 1 true, .readerTop 1,
    .recv 1 (.msg (response k (fields [("_meta", fields [("displayxr/appId", .str appId)])]))),
    .lookup 1, .applyResult 1, .emitCheck 1, .readerTop 1]

/-- One app fills the registry with its ids `0` to `126`, then reports the id `editor`; another
    app joins under that id. -/
def registryFull : List Act :=
  joins 5 0 1 "viewer" (helloResult "viewer") (toolsResult ["zoom"]) ++ [.readerTop 1] ++
    ((List.range 127).flatMap fun k => renamed (k + 1) (decimal k)) ++
    renamed 128 (ascii "editor") ++ joins 6 2 3 "editor" (helloResult "editor") (toolsResult ["save"])

/-- Past 128 names two live apps have one prefix. -/
theorem sticky_prefixes_registryFull : ∃ t b b', Reach aggregator t ∧ t.g.backends 0 = some b ∧
    t.g.backends 1 = some b' ∧ b.isShell = false ∧ b'.isShell = false ∧ b.conn ≠ b'.conn ∧
    b.nsPrefix = b'.nsPrefix := by
  have hrun : ((follow Sys.next (Sys.start plainPlatform false) registryFull).bind fun t =>
      (t.g.backends 0).bind fun b => (t.g.backends 1).map fun b' =>
        ((b.isShell, b.conn, b.nsPrefix), b'.isShell, b'.conn, b'.nsPrefix)) =
          some ((false, 0, ascii "editor"), false, 1, ascii "editor") := by
    decide +kernel
  obtain ⟨t, ht, hrun⟩ := Option.bind_eq_some_iff.mp hrun
  obtain ⟨b, hb, hrun⟩ := Option.bind_eq_some_iff.mp hrun
  obtain ⟨b', hb', hrun⟩ := Option.map_eq_some_iff.mp hrun
  simp only [Prod.mk.injEq] at hrun
  obtain ⟨⟨hsh, hc, hp⟩, hsh', hc', hp'⟩ := hrun
  refine ⟨t, b, b', reach_of_follow ht fun _ _ => trivial, hb, hb', hsh, hsh', ?_,
    hp.trans hp'.symm⟩
  rw [hc, hc']
  decide

end DisplayxrMcp
