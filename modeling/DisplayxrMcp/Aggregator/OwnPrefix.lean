/-
  An app under its own id (adapter/workspace_aggregator.c, backend_setup,
  apply_tools_result and slugify; src/mcp_server.c, app_id_valid).

  The prefix of an app is the slug of the id it declares. `own_prefix_iff` says for
  which valid ids that is the id itself: what `slugify` collapses or trims,
  `app_id_valid` accepts, so a declared id may come out as another one.
-/
import DisplayxrMcp.Aggregator.Idempotence
import DisplayxrMcp.Aggregator.Slug

namespace DisplayxrMcp

open Lib Cjson Lts Server

/-! ## Declared ids -/

/-- The slot of an app whose id a step takes, at its registration or from a tools list, and the
    id. -/
def declares (s : Sys) (a : Act) : Option (Fin maxBackends × CStr) :=
  match a with
  | .register t _ (.thread _) => match s.threads t with
    | .setup false _ (.register _ appId _) => s.g.backends.firstFree.map fun idx => (idx, appId)
    | _ => none
  | a => (reports s a).bind fun r =>
      (s.g.backends r.1).bind fun b => if b.isShell then none else some r

/-- The app in the slot has the prefix `a`, and its exposed tools are listed as `a__<tool>`. -/
def NamedBy (g : Global) (idx : Fin maxBackends) (a : CStr) : Prop :=
  ∃ b, g.backends idx = some b ∧ b.isShell = false ∧ b.nsPrefix = a ∧
    ∀ t ∈ b.tools, ∀ name, toolExposed g.exposeDiagnostics t = true →
      Json.string? (t.getObjectItemCaseSensitive (ascii "name")) = some name →
        mergedEntry a name t ∈ buildMergedTools g ∧
          (mergedEntry a name t).getObjectItemCaseSensitive (ascii "name") =
            some (.str (prefixedName a name))

/-- The `initialize` response carries the id `a`. -/
def HelloCarries (j : Json) (a : CStr) : Prop :=
  Json.number? (idOf j) = some (.fin (Phase.wantId .hello)) ∧
    Json.string? ((j.getObjectItemCaseSensitive (ascii "result")).bind fun r =>
      (r.getObjectItemCaseSensitive (ascii "serverInfo")).bind
        (·.getObjectItemCaseSensitive (ascii "appId"))) = some a

/-- The first tools list carries it. -/
def ListCarries (j : Json) (a : CStr) : Prop :=
  Json.number? (idOf j) = some (.fin (Phase.wantId (.list []))) ∧
    (j.getObjectItemCaseSensitive (ascii "result")).bind metaAppId = some a

/-- `a` is its own prefix: the handshake brings it to the registration whole, the normaliser keeps
    it, and an app that declares it while it is free is named by it. -/
structure OwnPrefix (a : CStr) : Prop where
  hello : ∀ c k j, HelloCarries j a → syncStep c .hello k (.msg j) = .initialized c a
  list : ∀ c k j, ListCarries j a → syncStep c (.list []) k (.msg j) = .register c a j
  slug : ∀ cap, 33 ≤ cap → slugify a cap = a
  named : ∀ s act s' idx, Reach aggregator s → Step s act s' → declares s act = some (idx, a) →
    a ∉ s.g.usedPrefixes → NamedBy s'.g idx a

/-- Apps that declare `a` and `a'` may ask for the same bare prefix. -/
def Compete (a a' : CStr) : Prop :=
  ∃ s act s' act' idx idx' c c' slug, declares s act = some (idx, a) ∧
    declares s' act' = some (idx', a') ∧ asks s act = some (c, slug) ∧ asks s' act' = some (c', slug)

/-! ## From the response to the slot -/

theorem snprintf_field {a : CStr} (h : a.length ≤ 32) : snprintf 33 a = a :=
  snprintf_of_length_lt (Nat.lt_succ_of_le h)

/-- A valid id in the `initialize` response reaches the registration whole. -/
theorem syncStep_hello {c : ConnId} {k : Nat} {j : Json} {a : CStr} (hv : appIdValid a = true)
    (hj : HelloCarries j a) : syncStep c .hello k (.msg j) = .initialized c a := by
  have hcut : helloAppId j = a := by
    unfold helloAppId
    rw [hj.2]
    exact snprintf_field (appIdValid_iff.mp hv).2.1
  simp only [syncStep, if_pos hj.1, hcut]

/-- One in the tools list reaches it when the `initialize` response had none. -/
theorem syncStep_list {c : ConnId} {k : Nat} {j : Json} {a : CStr} (hv : appIdValid a = true)
    (hj : ListCarries j a) : syncStep c (.list []) k (.msg j) = .register c a j := by
  have hcut : joinAppId [] j = a := by
    unfold joinAppId
    rw [if_pos rfl, hj.2]
    exact snprintf_field (appIdValid_iff.mp hv).2.1
  simp only [syncStep, if_pos hj.1, hcut]

/-! ## The prefix of a slot -/

/-- What an app that was registered or renamed has: a slug that is free becomes its prefix. -/
def TakesOwn (used : List CStr) (b : Backend) : Prop :=
  Slug b.appId → b.appId ∉ used → b.nsPrefix = b.appId

theorem takesOwn_of_assigned {used : List CStr} {b : Backend} {slug : CStr}
    (hp : b.nsPrefix = (assignPrefix used slug 40).1) (hslug : Slug b.appId → slug = b.appId) :
    TakesOwn used b := by
  intro hs hfree
  rw [hp, hslug hs]
  exact assignPrefix_bare (appIdValid_iff.mp hs.valid).2.1 (prefixInUse_eq_false.mpr hfree)

/-- The slug of a registration is that of the recorded id, when that is one. -/
theorem joinSlug_recorded {appId exe : CStr} (h : Slug (snprintf 33 appId)) :
    joinSlug appId exe = snprintf 33 appId := by
  have hne : appId ≠ [] := by
    rintro rfl
    exact (appIdValid_iff.mp h.valid).1 rfl
  have hsplit : appId = snprintf 33 appId ++ appId.drop 32 := (List.take_append_drop 32 appId).symm
  have hfull : appId.drop 32 = [] ∨ (snprintf 33 appId).length = 32 := by
    rw [List.drop_eq_nil_iff, snprintf, List.length_take]
    omega
  rw [joinSlug, if_pos hne]
  conv_lhs => rw [hsplit]
  exact h.slugify_append (by decide) _ hfull

/-- The same app, as far as its id and prefix go, was in the slot before. -/
def StaysNamed (g : Global) (idx : Fin maxBackends) (b' : Backend) : Prop :=
  ∃ b, g.backends idx = some b ∧ b.isShell = false ∧ b.appId = b'.appId ∧ b.nsPrefix = b'.nsPrefix

theorem registered_origin {g g' : Global} {sh : Bool} {pid : ℤ} {c : ConnId} {appId exe : CStr}
    {resp : Json} {i idx : Fin maxBackends} {b' : Backend}
    (hr : backendRegister g sh pid c appId resp exe = some (i, g'))
    (hb' : g'.backends idx = some b') (happ : b'.isShell = false) :
    StaysNamed g idx b' ∨ TakesOwn g.usedPrefixes b' := by
  obtain ⟨b, -, -, -, hsh, -, hid, -, ⟨rfl, -, rfl⟩ | ⟨rfl, hp, rfl⟩⟩ := backendRegister_some hr
  · rcases Slots.put_some hb' with ⟨-, rfl⟩ | hold
    · rw [hsh] at happ
      cases happ
    · exact Or.inl ⟨b', hold, happ, rfl, rfl⟩
  · rcases Slots.put_some hb' with ⟨-, rfl⟩ | hold
    · refine Or.inr (takesOwn_of_assigned hp fun hslug => ?_)
      rw [hid] at hslug ⊢
      exact joinSlug_recorded hslug
    · exact Or.inl ⟨b', hold, happ, rfl, rfl⟩

theorem applied_origin {g g' : Global} {i idx : Fin maxBackends} {result : Json} {b' : Backend}
    (ha : applyToolsResult g i result = some g') (hb' : g'.backends idx = some b')
    (happ : b'.isShell = false) : StaysNamed g idx b' ∨ TakesOwn g.usedPrefixes b' := by
  obtain ⟨b, b₁, hb, -, -, hsh, -, hg⟩ := applyToolsResult_some ha
  have hback : g'.backends = g.backends.put i b₁ := by
    rcases hg with ⟨-, -, -, rfl⟩ | ⟨slug, -, -, -, rfl⟩
    · rfl
    · rfl
  rw [hback] at hb'
  rcases Slots.put_some hb' with ⟨rfl, rfl⟩ | hold
  · have happ₀ := hsh.symm.trans happ
    cases hid : metaAppId result with
    | none =>
        obtain ⟨b₂, hb₂, -, hp, hi, -⟩ := apply_unreported hb hid ha
        rw [hback] at hb₂
        cases hb₂.symm.trans hb'
        exact Or.inl ⟨b, hb, happ₀, hi.symm, hp.symm⟩
    | some id =>
        obtain ⟨b₂, hb₂, -, ⟨-, hp, hi, -⟩ | ⟨-, hp, hi, -⟩⟩ := apply_reported hb happ₀ hid ha
        · rw [hback] at hb₂
          cases hb₂.symm.trans hb'
          exact Or.inl ⟨b, hb, happ₀, hi.symm, hp.symm⟩
        · rw [hback] at hb₂
          cases hb₂.symm.trans hb'
          refine Or.inr (takesOwn_of_assigned hp fun hslug => ?_)
          rw [hi] at hslug ⊢
          exact hslug.slugify (by decide)
  · exact Or.inl ⟨b', hold, happ, rfl, rfl⟩

/-- An app has its id and prefix from before the step, or takes the id as its prefix if it is a
    free slug. -/
theorem app_origin {s s' : Sys} {a : Act} (hst : Step s a s') {idx : Fin maxBackends}
    {b' : Backend} (hb' : s'.g.backends idx = some b') (happ : b'.isShell = false) :
    StaysNamed s.g idx b' ∨ TakesOwn s.g.usedPrefixes b' := by
  have hsame : s'.g.backends = s.g.backends → StaysNamed s.g idx b' :=
    fun hback => ⟨b', hback ▸ hb', happ, rfl, rfl⟩
  cases member_step hst with
  | keep hback hu hask => exact Or.inl (hsame hback)
  | undone hback hask hu => exact Or.inl (hsame hback)
  | left i hback hu hask ht =>
      rw [hback] at hb'
      exact Or.inl ⟨b', Slots.clear_some hb', happ, rfl, rfl⟩
  | joined i b hfree hback hc hp ht =>
      cases hst with
      | registerFull hthread hr => exact Or.inl ⟨b', hb', happ, rfl, rfl⟩
      | registered hthread hr hgone => exact registered_origin hr hb' happ
  | applied i b₀ b₁ hold hback hc hsh hp ht =>
      cases hst with
      | applied hthread ha => exact applied_origin ha hb' happ
      | notApplied hthread ha => exact Or.inl ⟨b', hb', happ, rfl, rfl⟩

/-! ## Over a run -/

/-- An app whose recorded id is a slug has it as its prefix, or found it taken. -/
def OwnOrTaken (s : Sys) : Prop :=
  ∀ idx b, s.g.backends idx = some b → b.isShell = false → TakesOwn s.g.usedPrefixes b

/-- The same behind a step, by what was free before it. -/
theorem takesOwn_step {s s' : Sys} {a : Act} (h : OwnOrTaken s) (hst : Step s a s')
    {idx : Fin maxBackends} {b' : Backend} (hb' : s'.g.backends idx = some b')
    (happ : b'.isShell = false) : TakesOwn s.g.usedPrefixes b' := by
  rcases app_origin hst hb' happ with ⟨b, hb, hsh, hid, hp⟩ | hown
  · intro hslug hfree
    rw [← hid] at hslug hfree
    rw [← hp, ← hid]
    exact h idx b hb hsh hslug hfree
  · exact hown

theorem ownOrTaken_step {s s' : Sys} {a : Act} (h : OwnOrTaken s) (hst : Step s a s') :
    OwnOrTaken s' := fun _ _ hb' happ hslug hfree =>
  takesOwn_step h hst hb' happ hslug fun hmem => hfree ((extends_step hst).isPrefix.subset hmem)

theorem ownOrTaken_reach {s : Sys} (h : Reach aggregator s) : OwnOrTaken s := by
  refine h.invariant (I := OwnOrTaken) ?_ fun _ _ _ _ hown hst => ownOrTaken_step hown hst
  rintro s ⟨platform, expose, rfl⟩ idx b hb
  cases hb

/-! ## Declaring -/

theorem registered_declared {g g' : Global} {pid : ℤ} {c : ConnId} {id exe : CStr} {resp : Json}
    {i idx : Fin maxBackends} (hfree : g.backends.firstFree = some idx) (hlen : id.length ≤ 32)
    (hr : backendRegister g false pid c id resp exe = some (i, g')) :
    ∃ b', g'.backends idx = some b' ∧ b'.isShell = false ∧ b'.appId = id := by
  cases hfree.symm.trans (backendRegister_firstFree hr)
  obtain ⟨b, -, -, -, hsh, -, hid, -, ⟨hshell, -⟩ | ⟨-, -, rfl⟩⟩ := backendRegister_some hr
  · cases hshell
  · exact ⟨b, Slots.put_same _ _ _, hsh, hid.trans (snprintf_field hlen)⟩

theorem reported_declared {s s' : Sys} {a : Act} {idx : Fin maxBackends} {id : CStr}
    {b : Backend} (hrep : reports s a = some (idx, id)) (hb : s.g.backends idx = some b)
    (happ : b.isShell = false) (hlen : id.length ≤ 32) (hst : Step s a s') :
    ∃ b', s'.g.backends idx = some b' ∧ b'.isShell = false ∧ b'.appId = id := by
  obtain ⟨result, ha, hid⟩ := reports_some hrep
  obtain ⟨b', hb', hsh, ⟨hsame, -, hi, -⟩ | ⟨-, -, hi, -⟩⟩ :=
    apply_reported hb happ hid (applies_step ha hb hst)
  · exact ⟨b', hb', hsh, hi.trans hsame⟩
  · exact ⟨b', hb', hsh, hi.trans (snprintf_field hlen)⟩

theorem declares_some {s : Sys} {a : Act} {idx : Fin maxBackends} {id : CStr}
    (h : declares s a = some (idx, id)) :
    (∃ t t' exe pid c resp, a = .register t exe (.thread t') ∧
        s.threads t = .setup false pid (.register c id resp) ∧
        s.g.backends.firstFree = some idx) ∨
      ∃ b, reports s a = some (idx, id) ∧ s.g.backends idx = some b ∧ b.isShell = false := by
  unfold declares at h
  split at h
  · next t exe t' =>
      split at h
      · next pid c appId resp ht =>
          obtain ⟨i, hfree, he⟩ := Option.map_eq_some_iff.mp h
          cases he
          exact Or.inl ⟨t, t', exe, pid, c, resp, rfl, ht, hfree⟩
      · cases h
  · obtain ⟨r, hrep, h⟩ := Option.bind_eq_some_iff.mp h
    obtain ⟨b, hb, h⟩ := Option.bind_eq_some_iff.mp h
    split at h
    · cases h
    · next happ =>
        cases h
        exact Or.inr ⟨b, hrep, hb, Bool.eq_false_iff.mpr happ⟩

/-- The app that declares an id is in the slot afterwards, with that id. -/
theorem declares_step {s s' : Sys} {a : Act} {idx : Fin maxBackends} {id : CStr}
    (h : declares s a = some (idx, id)) (hlen : id.length ≤ 32) (hst : Step s a s') :
    ∃ b', s'.g.backends idx = some b' ∧ b'.isShell = false ∧ b'.appId = id := by
  rcases declares_some h with ⟨t, t', exe, pid, c, resp, rfl, ht, hfree⟩ | ⟨b, hrep, hb, happ⟩
  · cases hst with
    | registerFull hthread hr => cases hfree.symm.trans (backendRegister_full hr)
    | registered hthread hr hgone =>
        cases ht.symm.trans hthread
        exact registered_declared hfree hlen hr
  · exact reported_declared hrep hb happ hlen hst

/-- What a declaring step asks for is the slug of the id. -/
theorem declares_asks {s : Sys} {a : Act} {idx : Fin maxBackends} {id : CStr} {c : ConnId}
    {slug : CStr} (h : declares s a = some (idx, id)) (hid : Slug id)
    (hask : asks s a = some (c, slug)) : slug = id := by
  have hcut := snprintf_field (appIdValid_iff.mp hid.valid).2.1
  rcases declares_some h with ⟨t, t', exe, pid, c, resp, rfl, ht, hfree⟩ | ⟨b, hrep, hb, happ⟩
  · cases (asks_register ht hfree).symm.trans hask
    have hjoin : joinSlug id exe = snprintf 33 id := joinSlug_recorded (hcut.symm ▸ hid)
    rwa [hcut] at hjoin
  · obtain ⟨result, ha, hmeta⟩ := reports_some hrep
    obtain ⟨t, rfl, ht⟩ := applies_some ha
    simp only [asks, ht, hb, Option.bind_some, Option.map_eq_some_iff, reprefixSlug, hmeta] at hask
    obtain ⟨slug', hslug, he⟩ := hask
    cases he
    split at hslug
    · cases hslug
      rw [hcut]
      exact hid.slugify (by decide)
    · cases hslug

/-- A slug is its own prefix. -/
theorem ownPrefix_of_slug {a : CStr} (ha : Slug a) : OwnPrefix a := by
  refine ⟨fun c k j hj => syncStep_hello ha.valid hj, fun c k j hj => syncStep_list ha.valid hj,
    fun cap hcap => ha.slugify hcap, ?_⟩
  intro s act s' idx hs hst hdec hfree
  obtain ⟨b, hb, happ, rfl⟩ := declares_step hdec (appIdValid_iff.mp ha.valid).2.1 hst
  have hp : b.nsPrefix = b.appId := takesOwn_step (ownOrTaken_reach hs) hst hb happ ha hfree
  have halive : b.alive = true := (wf_reach (hs.step trivial hst)).alive idx b hb
  refine ⟨b, hb, happ, hp, fun t ht name hexp hname => ⟨?_, mergedEntry_name hname⟩⟩
  exact mem_buildMergedTools.mpr
    (Or.inr ⟨idx, b, t, name, hb, halive, ht, hexp, hname, by rw [hp]⟩)

/-- Every valid id of a set is its own prefix, and no two of them ask for the same one, exactly
    when none has a dash at the end or two in a row. -/
theorem own_prefix_iff {ids : Set CStr} (hv : ∀ a ∈ ids, appIdValid a = true) :
    ((∀ a ∈ ids, OwnPrefix a) ∧ ∀ a ∈ ids, ∀ a' ∈ ids, a ≠ a' → ¬ Compete a a') ↔
      ∀ a ∈ ids, a.getLast? ≠ some dash ∧ ¬ [dash, dash] <:+: a := by
  constructor
  · rintro ⟨hown, -⟩ a ha
    have hslug := (slugify_eq_self_iff (Nat.le_refl 33)).mp ((hown a ha).slug 33 (Nat.le_refl 33))
    exact ⟨hslug.last, hslug.single⟩
  · intro hids
    have hslug : ∀ a ∈ ids, Slug a := fun a ha => ⟨hv a ha, (hids a ha).1, (hids a ha).2⟩
    refine ⟨fun a ha => ownPrefix_of_slug (hslug a ha), ?_⟩
    rintro a ha a' ha' hne ⟨s, act, s', act', idx, idx', c, c', slug, hd, hd', hask, hask'⟩
    exact hne ((declares_asks hd (hslug a ha) hask).symm.trans
      (declares_asks hd' (hslug a' ha') hask'))

/-- Two ordinary ids. -/
theorem own_prefix_iff_viewer : OwnPrefix (ascii "viewer") ∧ OwnPrefix (ascii "editor") ∧
    ¬ Compete (ascii "viewer") (ascii "editor") := by
  have hmem : ∀ {P : CStr → Prop}, P (ascii "viewer") → P (ascii "editor") →
      ∀ a ∈ ({ascii "viewer", ascii "editor"} : Set CStr), P a := by
    rintro P h h' a (rfl | rfl)
    · exact h
    · exact h'
  obtain ⟨hown, hcompete⟩ := (own_prefix_iff (hmem (P := fun a => appIdValid a = true)
    (by decide) (by decide))).mpr (hmem ⟨by decide, by decide⟩ ⟨by decide, by decide⟩)
  exact ⟨hown _ (Or.inl rfl), hown _ (Or.inr rfl),
    hcompete _ (Or.inl rfl) _ (Or.inr rfl) (by decide)⟩

/-- The only app there ever was declares the valid id `my-app-`, and is `my-app`. -/
theorem own_prefix_trailing : ∃ s act s', appIdValid (ascii "my-app-") = true ∧
    Reach aggregator s ∧ Step s act s' ∧ declares s act = some (0, ascii "my-app-") ∧
    s.g.usedPrefixes = [] ∧ ¬ NamedBy s'.g 0 (ascii "my-app-") ∧
    slugify (ascii "my-app-") 40 = ascii "my-app" := by
  have hrun : ((follow Sys.next (Sys.start plainPlatform false)
      ((joins 5 0 1 "viewer" (helloResult "my-app-") (toolsResult ["zoom"])).take 10)).bind
        fun s => (s.next (.register 0 (ascii "viewer") (.thread 1))).map fun s' =>
          decide (declares s (.register 0 (ascii "viewer") (.thread 1)) =
              some (0, ascii "my-app-") ∧ s.g.usedPrefixes = [] ∧
            (s'.g.backends 0).map Backend.nsPrefix = some (ascii "my-app"))) = some true := by
    decide +kernel
  obtain ⟨s, hs, hrun⟩ := Option.bind_eq_some_iff.mp hrun
  obtain ⟨s', hs', hrun⟩ := Option.map_eq_some_iff.mp hrun
  obtain ⟨hdec, hused, hp⟩ := of_decide_eq_true hrun
  refine ⟨s, _, s', by decide, reach_of_follow hs fun _ _ => trivial, next_step hs', hdec, hused, ?_,
    by decide⟩
  rintro ⟨b, hb, -, hown, -⟩
  rw [hb] at hp
  exact absurd (hown.symm.trans (Option.some.inj hp)) (by decide)

end DisplayxrMcp
