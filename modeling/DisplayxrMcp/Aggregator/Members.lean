/-
  The backend table over a run: who joins, who is refreshed, who leaves.

  `asks` is the slug a step hands to assign_prefix, with the connection of the
  app it is for. `MemberStep` lists every change a step can make to the backend
  table and the prefix registry; each change leaves the thread that made it on
  its way to `emit_list_changed_upstream`.
-/
import DisplayxrMcp.Aggregator.Exec
import DisplayxrMcp.Aggregator.Wf

namespace DisplayxrMcp

open Lib Cjson Lts

/-- The connection of the app backend a step assigns a prefix to, and the slug asked for. -/
def asks (s : Sys) (a : Act) : Option (ConnId × CStr) :=
  match a with
  | .register t exe _ => match s.threads t with
    | .setup false _ (.register c appId _) =>
        s.g.backends.firstFree.map fun _ => (c, joinSlug appId exe)
    | _ => none
  | .applyResult t => match s.threads t with
    | .reader idx (.apply result) =>
        (s.g.backends idx).bind fun b => (reprefixSlug b result).map fun slug => (b.conn, slug)
    | _ => none
  | _ => none

theorem joinSlug_good (appId exe : CStr) : joinSlug appId exe ≠ [] ∧
    (∀ c ∈ joinSlug appId exe, SlugByte c) ∧ (joinSlug appId exe).length ≤ 32 := by
  unfold joinSlug
  split
  · exact ⟨slugify_ne_nil _ (by decide), slugify_slugByte _ _, slugify_length _ _⟩
  · split
    · exact ⟨slugify_ne_nil _ (by decide), slugify_slugByte _ _, slugify_length _ _⟩
    · exact ⟨by decide, by decide +kernel, by decide⟩

theorem reprefixSlug_good {b : Backend} {result : Json} {slug : CStr}
    (h : reprefixSlug b result = some slug) : b.isShell = false ∧ slug ≠ [] ∧
      (∀ c ∈ slug, SlugByte c) ∧ slug.length ≤ 32 := by
  unfold reprefixSlug at h
  split at h
  · split at h
    · next hc =>
        cases h
        exact ⟨hc.1, slugify_ne_nil _ (by decide), slugify_slugByte _ _, slugify_length _ _⟩
    · cases h
  · cases h

/-- What assign_prefix is asked for is a slug. -/
theorem asks_slug {s : Sys} {a : Act} {c : ConnId} {slug : CStr} (h : asks s a = some (c, slug)) :
    slug ≠ [] ∧ (∀ x ∈ slug, SlugByte x) ∧ slug.length ≤ 32 := by
  unfold asks at h
  split at h
  · split at h
    · obtain ⟨_, _, he⟩ := Option.map_eq_some_iff.mp h
      cases he
      exact joinSlug_good _ _
    · cases h
  · split at h
    · obtain ⟨b, _, hb⟩ := Option.bind_eq_some_iff.mp h
      obtain ⟨_, hslug, he⟩ := Option.map_eq_some_iff.mp hb
      cases he
      exact (reprefixSlug_good hslug).2
    · cases h
  · cases h

/-- The prefix of `b` was handed out by this step. -/
def HandedTo (s : Sys) (a : Act) (b : Backend) (used : List CStr) : Prop :=
  ∃ slug, b.isShell = false ∧ asks s a = some (b.conn, slug) ∧
    b.nsPrefix = (assignPrefix s.g.usedPrefixes slug 40).1 ∧
    used = (assignPrefix s.g.usedPrefixes slug 40).2

/-- Everything a step can do to the backend table and the prefix registry. -/
inductive MemberStep (s s' : Sys) : Act → Prop where
  | keep {a} (hb : s'.g.backends = s.g.backends) (hu : s'.g.usedPrefixes = s.g.usedPrefixes)
      (hask : asks s a = none) : MemberStep s s' a
  | undone {t exe c slug} (hb : s'.g.backends = s.g.backends)
      (hask : asks s (.register t exe .noThread) = some (c, slug))
      (hu : s'.g.usedPrefixes = (assignPrefix s.g.usedPrefixes slug 40).2) :
      MemberStep s s' (.register t exe .noThread)
  | joined {t exe t'} (idx : Fin maxBackends) (b : Backend)
      (hfree : s.g.backends idx = none) (hb : s'.g.backends = s.g.backends.put idx b)
      (hc : connAt s (.inr t) = some b.conn)
      (hp : (b.isShell = true ∧ b.nsPrefix = ascii "shell" ∧
          asks s (.register t exe (.thread t')) = none ∧
          s'.g.usedPrefixes = s.g.usedPrefixes) ∨
        HandedTo s (.register t exe (.thread t')) b s'.g.usedPrefixes)
      (ht : ∃ sh pid, s'.threads t = .setup sh pid (.remove true)) :
      MemberStep s s' (.register t exe (.thread t'))
  | applied {t} (idx : Fin maxBackends) (b b' : Backend) (hold : s.g.backends idx = some b)
      (hb : s'.g.backends = s.g.backends.put idx b') (hc : b'.conn = b.conn)
      (hsh : b'.isShell = b.isShell)
      (hp : (b'.nsPrefix = b.nsPrefix ∧ asks s (.applyResult t) = none ∧
          s'.g.usedPrefixes = s.g.usedPrefixes) ∨
        HandedTo s (.applyResult t) b' s'.g.usedPrefixes)
      (ht : s'.threads t = .reader idx .emitCheck) : MemberStep s s' (.applyResult t)
  | left {t} (idx : Fin maxBackends) (hb : s'.g.backends = s.g.backends.clear idx)
      (hu : s'.g.usedPrefixes = s.g.usedPrefixes) (hask : asks s (.teardown t) = none)
      (ht : s'.threads t = .emitCheck) : MemberStep s s' (.teardown t)

theorem asks_register {s : Sys} {t : Nat} {exe : CStr} {r : Spawn} {pid : ℤ} {c : ConnId}
    {appId : CStr} {resp : Json} {idx : Fin maxBackends}
    (ht : s.threads t = .setup false pid (.register c appId resp))
    (hfree : s.g.backends.firstFree = some idx) :
    asks s (.register t exe r) = some (c, joinSlug appId exe) := by
  simp [asks, ht, hfree]

theorem asks_register_shell {s : Sys} {t : Nat} {exe : CStr} {r : Spawn} {pid : ℤ}
    {pc : SetupPc} (ht : s.threads t = .setup true pid pc) :
    asks s (.register t exe r) = none := by
  simp [asks, ht]

theorem backendRegister_firstFree {g g' : Global} {sh : Bool} {pid : ℤ} {c : ConnId} {appId : CStr}
    {resp : Json} {exe : CStr} {idx : Fin maxBackends}
    (h : backendRegister g sh pid c appId resp exe = some (idx, g')) :
    g.backends.firstFree = some idx := by
  unfold backendRegister at h
  split at h
  · cases h
  · next i hi =>
      dsimp only at h
      split at h
      · cases h; exact hi
      · cases h; exact hi

theorem backendRegister_full {g : Global} {sh : Bool} {pid : ℤ} {c : ConnId} {appId : CStr}
    {resp : Json} {exe : CStr} (h : backendRegister g sh pid c appId resp exe = none) :
    g.backends.firstFree = none := by
  unfold backendRegister at h
  split at h
  · assumption
  · dsimp only at h
    split at h <;> cases h

theorem member_register {s : Sys} {t : Nat} {sh : Bool} {pid : ℤ} {c : ConnId} {appId : CStr}
    {resp : Json} {exe : CStr} {idx : Fin maxBackends} {g' : Global} (r : Spawn)
    (ht : s.threads t = .setup sh pid (.register c appId resp))
    (hr : backendRegister s.g sh pid c appId resp exe = some (idx, g')) :
    ∃ b : Backend, s.g.backends idx = none ∧ b.conn = c ∧
      g'.backends = s.g.backends.put idx b ∧
      ((b.isShell = true ∧ b.nsPrefix = ascii "shell" ∧ asks s (.register t exe r) = none ∧
          g'.usedPrefixes = s.g.usedPrefixes) ∨
        HandedTo s (.register t exe r) b g'.usedPrefixes) := by
  have hff := backendRegister_firstFree hr
  obtain ⟨b, hidx, hbc, -, hsh, -, -, -, hg⟩ := backendRegister_some hr
  rcases hg with ⟨rfl, hp, rfl⟩ | ⟨rfl, hp, rfl⟩
  · exact ⟨b, hidx, hbc, rfl, Or.inl ⟨hsh, hp, asks_register_shell ht, rfl⟩⟩
  · refine ⟨b, hidx, hbc, rfl, Or.inr ⟨joinSlug appId exe, hsh, ?_, hp, rfl⟩⟩
    rw [asks_register ht hff, hbc]

theorem member_step {s s' : Sys} {a : Act} (hst : Step s a s') : MemberStep s s' a := by
  have htables : ∀ {g : Global}, SameTables s.g g →
      g.backends = s.g.backends ∧ g.usedPrefixes = s.g.usedPrefixes := by
    rintro g ⟨l, b, rfl⟩
    exact ⟨rfl, rfl⟩
  cases hst with
  | @agentFrame frame ok hm =>
      have hr := handleAgentFrame_cases s.g s.frames.length frame ok
      generalize hh : handleAgentFrame s.g s.frames.length frame ok = r at hr
      have hg : (s.onAgentFrame frame ok).g = r.g := by simp only [Sys.onAgentFrame, hh]
      cases hr <;> exact .keep (by rw [hg]) (by rw [hg]) rfl
  | pollScan hp hlen =>
      obtain ⟨hb, hu⟩ := htables (pollScan_same s.g _ _)
      exact .keep hb hu rfl
  | pollSpawn hp hr =>
      obtain ⟨hb, hu⟩ := htables (spawnSetup_same s false _ _)
      exact .keep hb hu rfl
  | pollSpawnShell hp hr =>
      obtain ⟨hb, hu⟩ := htables (spawnSetup_same s true 0 _)
      exact .keep hb hu rfl
  | @registerFull t sh pid c appId resp exe r ht hr =>
      refine .keep rfl rfl ?_
      have hff := backendRegister_full hr
      cases sh <;> simp [asks, ht, hff]
  | @registerNoThread t sh pid c appId resp exe idx g' ht hr =>
      obtain ⟨b, hidx, -, hb, hp⟩ := member_register .noThread ht hr
      have hback : (backendTeardownLocked g' idx).1.backends = s.g.backends := by
        rw [backendTeardownLocked_eq]
        dsimp only
        rw [hb]
        exact Slots.clear_put_of_free _ _ hidx
      have hused : (backendTeardownLocked g' idx).1.usedPrefixes = g'.usedPrefixes := by
        rw [backendTeardownLocked_eq]
      rcases hp with ⟨-, -, hask, hu⟩ | ⟨slug, -, hask, -, hu⟩
      · exact .keep (by simpa using hback) (by simpa [hu] using hused) hask
      · exact .undone (by simpa using hback) hask (by simpa [hu] using hused)
  | @registered t t' sh pid c appId resp exe idx g' ht hr hfree =>
      obtain ⟨b, hidx, hbc, hb, hp⟩ := member_register (.thread t') ht hr
      have hne : t ≠ t' := by
        rintro rfl
        rw [ht] at hfree
        cases hfree
      refine .joined idx b hidx hb ?_ hp ⟨sh, pid, ?_⟩
      · simp [connAt, ht, Thread.ownConn, SetupPc.conn, hbc]
      · rw [Sys.setThread_ne _ _ hne, Sys.setThread_same]
  | @connectingRemove t sh pid r ht =>
      obtain ⟨hb, hu⟩ := htables (connectingRemove_same s.g sh pid)
      exact .keep hb hu rfl
  | @refresh t idx ok ht =>
      have hr := refreshBackendTools_cases s.g idx ok
      generalize refreshBackendTools s.g idx ok = r at hr
      cases hr <;> exact .keep rfl rfl rfl
  | @lookup t idx d msg ht =>
      have hr := readerLookup_cases s.g idx d msg
      generalize readerLookup s.g idx d msg = r at hr
      cases hr <;> exact .keep rfl rfl rfl
  | @applied t idx result g' ht ha =>
      obtain ⟨b, b', hold, hc, -, hsh, -, hg⟩ := applyToolsResult_some ha
      rcases hg with ⟨hslug, hp, -, rfl⟩ | ⟨slug, hslug, hp, -, rfl⟩
      · refine .applied idx b b' hold rfl hc hsh (Or.inl ⟨hp, ?_, rfl⟩) (Sys.setThread_same _ _ _)
        simp [asks, ht, hold, hslug]
      · refine .applied idx b b' hold rfl hc hsh (Or.inr ⟨slug, ?_, ?_, hp, rfl⟩)
          (Sys.setThread_same _ _ _)
        · rw [hsh]
          exact (reprefixSlug_good hslug).1
        · simp [asks, ht, hold, hslug, hc]
  | @notApplied t idx result ht ha =>
      refine .keep rfl rfl ?_
      have hnone : s.g.backends idx = none := by
        cases hb : s.g.backends idx with
        | none => rfl
        | some b => exact absurd ha (applyToolsResult_isSome hb)
      simp [asks, ht, hnone]
  | @teardown t idx ht =>
      refine .left idx ?_ ?_ rfl (Sys.setThread_same _ _ _)
      · simp only [Sys.setThread_g, Sys.emit_g, Sys.setG_g, backendTeardownLocked_eq]
      · simp only [Sys.setThread_g, Sys.emit_g, Sys.setG_g, backendTeardownLocked_eq]
  | _ => exact .keep rfl rfl rfl

end DisplayxrMcp
