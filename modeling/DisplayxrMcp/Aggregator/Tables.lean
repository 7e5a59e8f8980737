/-
  What each critical section does to the shared tables.

  One lemma per function of `Backend`: teardown has a closed form (the slots of
  the dead backend are freed, one error frame per agent slot, in slot order),
  the others are listed case by case. Later modules cite these and never unfold
  the functions.
-/
import DisplayxrMcp.Aggregator.System

namespace DisplayxrMcp

open Lib Cjson

/-! ## Membership functions leave the tables alone -/

/-- The two states differ in the membership lists only. -/
def SameTables (g g' : Global) : Prop :=
  ∃ l b, g' = { g with connecting := l, shellConnecting := b }

theorem connectingRemove_same (g : Global) (sh : Bool) (pid : ℤ) :
    SameTables g (connectingRemove g sh pid) := by
  unfold connectingRemove
  split
  · exact ⟨_, _, rfl⟩
  · split
    · exact ⟨_, _, rfl⟩
    · exact ⟨_, _, rfl⟩

theorem SameTables.trans {g g' g'' : Global} (h : SameTables g g') (h' : SameTables g' g'') :
    SameTables g g'' := by
  obtain ⟨l, b, rfl⟩ := h
  obtain ⟨l', b', rfl⟩ := h'
  exact ⟨l', b', rfl⟩

theorem SameTables.platform {g g' : Global} (h : SameTables g g') : g'.platform = g.platform := by
  obtain ⟨l, b, rfl⟩ := h
  rfl

theorem pollPid_same (self : ℤ) (acc : Global × List ℤ) (pid : ℤ) :
    SameTables acc.1 (pollPid self acc pid).1 := by
  unfold pollPid
  split
  · exact ⟨_, _, rfl⟩
  · split
    · exact ⟨_, _, rfl⟩
    · exact ⟨_, _, rfl⟩

theorem pollFold_same (self : ℤ) (pids : List ℤ) :
    ∀ acc : Global × List ℤ, SameTables acc.1 (pids.foldl (pollPid self) acc).1 := by
  induction pids with
  | nil => exact fun _ => ⟨_, _, rfl⟩
  | cons pid pids ih => exact fun acc => (pollPid_same self acc pid).trans (ih _)

theorem pollScan_same (g : Global) (pids : List ℤ) (self : ℤ) :
    SameTables g (pollScan g pids self).1 := by
  have h := pollFold_same self pids (g, [])
  unfold pollScan
  dsimp only
  split
  · exact h
  · exact h.trans ⟨_, _, rfl⟩

theorem spawnSetup_same (s : Sys) (sh : Bool) (pid : ℤ) (r : Spawn) :
    SameTables s.g (s.spawnSetup sh pid r).g := by
  cases r with
  | noMemory => exact ⟨_, _, rfl⟩
  | noThread => exact connectingRemove_same s.g sh pid
  | thread t => exact ⟨_, _, rfl⟩

/-- A setup that is started writes nothing and opens nothing. -/
theorem spawnSetup_rest (s : Sys) (sh : Bool) (pid : ℤ) (r : Spawn) :
    (s.spawnSetup sh pid r).main = s.main ∧ (s.spawnSetup sh pid r).frames = s.frames ∧
      (s.spawnSetup sh pid r).stdout = s.stdout ∧ (s.spawnSetup sh pid r).conns = s.conns := by
  cases r <;> exact ⟨rfl, rfl, rfl, rfl⟩

/-- Only the new thread is new. -/
theorem spawnSetup_thread (s : Sys) (sh : Bool) (pid : ℤ) (r : Spawn) (u : Nat) :
    (s.spawnSetup sh pid r).threads u = s.threads u ∨
      r = .thread u ∧ (s.spawnSetup sh pid r).threads u = .setup sh pid .connect := by
  cases r with
  | noMemory => exact Or.inl rfl
  | noThread => exact Or.inl rfl
  | thread t =>
      by_cases hu : u = t
      · subst hu
        exact Or.inr ⟨rfl, Sys.setThread_same _ _ _⟩
      · exact Or.inl (Sys.setThread_ne _ _ hu)

theorem spawnSetup_threads {s : Sys} {sh : Bool} {pid : ℤ} {r : Spawn} {u : Nat}
    (hr : r ≠ .thread u) : (s.spawnSetup sh pid r).threads u = s.threads u :=
  (spawnSetup_thread s sh pid r u).resolve_right fun h => hr h.1

/-! ## Teardown -/

/-- The frame teardown writes for a slot. -/
def exitFrame (idx : Fin maxBackends) (fl : Inflight) : Option OutFrame :=
  if fl.backend = idx ∧ fl.kind = .agent then some ⟨fl.seq, (exitedError fl.origId).reparse⟩
  else none

/-- The slots that survive the teardown of `idx`. -/
def keepOthers (idx : Fin maxBackends) (o : Option Inflight) : Option Inflight :=
  o.filter fun fl => decide (fl.backend ≠ idx)

theorem keepOthers_some {idx : Fin maxBackends} {o : Option Inflight} {fl : Inflight} :
    keepOthers idx o = some fl ↔ o = some fl ∧ fl.backend ≠ idx := by
  simp [keepOthers, Option.filter_eq_some_iff]

/-- One iteration of the teardown loop, in closed form. -/
theorem teardownSlot_eq (idx : Fin maxBackends) (g : Global) (out : List OutFrame)
    (i : Fin maxInflight) :
    teardownSlot idx (g, out) i =
      ({ g with inflight := Function.update g.inflight i (keepOthers idx (g.inflight i)) },
        out ++ ((g.inflight i).bind (exitFrame idx)).toList) := by
  have hid : keepOthers idx (g.inflight i) = g.inflight i →
      Function.update g.inflight i (keepOthers idx (g.inflight i)) = g.inflight := by
    intro h
    rw [h]
    exact Function.update_eq_self i _
  unfold teardownSlot
  cases hfl : g.inflight i with
  | none =>
      rw [hfl] at hid
      simp [hid rfl]
  | some fl =>
      rw [hfl] at hid
      by_cases hidx : fl.backend = idx
      · have hnone : keepOthers idx (some fl) = none := by simp [keepOthers, hidx]
        cases hk : fl.kind <;>
          simp [hnone, exitFrame, hidx, hk, inflightRelease, Slots.clear]
      · have hsome : keepOthers idx (some fl) = some fl := keepOthers_some.mpr ⟨rfl, hidx⟩
        simp [hid hsome, exitFrame, hidx]

theorem teardownFold_eq (idx : Fin maxBackends) (l : List (Fin maxInflight)) (hl : l.Nodup) :
    ∀ (g : Global) (out : List OutFrame),
      l.foldl (teardownSlot idx) (g, out) =
        ({ g with inflight := fun i =>
            if i ∈ l then keepOthers idx (g.inflight i) else g.inflight i },
          out ++ l.filterMap fun i => (g.inflight i).bind (exitFrame idx)) := by
  induction l with
  | nil => intro g out; simp
  | cons i l ih =>
      intro g out
      obtain ⟨hi, hl⟩ := List.nodup_cons.mp hl
      rw [List.foldl_cons, teardownSlot_eq, ih hl]
      have hsame : ∀ j ∈ l, Function.update g.inflight i (keepOthers idx (g.inflight i)) j =
          g.inflight j := by
        intro j hj
        exact Function.update_of_ne (ne_of_mem_of_not_mem hj hi) _ _
      have hout : (l.filterMap fun j => (Function.update g.inflight i
          (keepOthers idx (g.inflight i)) j).bind (exitFrame idx)) =
          l.filterMap fun j => (g.inflight j).bind (exitFrame idx) :=
        List.filterMap_congr fun j hj => by rw [hsame j hj]
      refine Prod.ext ?_ ?_
      · simp only [Global.mk.injEq, true_and, and_true]
        funext j
        by_cases hj : j ∈ l
        · simp [hj, hsame j hj]
        · by_cases hji : j = i
          · subst hji; simp [hi]
          · simp [hj, hji]
      · simp only [hout]
        rw [List.append_assoc]
        congr 1
        cases h : (g.inflight i).bind (exitFrame idx) with
        | none => simp [h]
        | some f => simp [h]

/-- `backend_teardown_locked` in closed form. -/
theorem backendTeardownLocked_eq (g : Global) (idx : Fin maxBackends) :
    backendTeardownLocked g idx =
      ({ g with
          inflight := fun i => keepOthers idx (g.inflight i)
          backends := g.backends.clear idx },
        (List.finRange maxInflight).filterMap fun i => (g.inflight i).bind (exitFrame idx)) := by
  unfold backendTeardownLocked
  rw [teardownFold_eq idx _ (List.nodup_finRange _)]
  simp

/-- Tearing down a slot no call points at just frees it. -/
theorem backendTeardownLocked_unused {g : Global} {idx : Fin maxBackends}
    (h : ∀ i fl, g.inflight i = some fl → fl.backend ≠ idx) :
    backendTeardownLocked g idx = ({ g with backends := g.backends.clear idx }, []) := by
  rw [backendTeardownLocked_eq]
  have hkeep : (fun i => keepOthers idx (g.inflight i)) = g.inflight := by
    funext i
    cases hi : g.inflight i with
    | none => rfl
    | some fl => exact keepOthers_some.mpr ⟨rfl, h i fl hi⟩
  have hout : ((List.finRange maxInflight).filterMap fun i =>
      (g.inflight i).bind (exitFrame idx)) = [] := by
    rw [List.filterMap_eq_nil_iff]
    intro i _
    cases hi : g.inflight i with
    | none => rfl
    | some fl => simp [exitFrame, h i fl hi]
  rw [hkeep, hout]

/-! ## Refresh, lookup, apply -/

/-- What `refresh_backend_tools` can do. -/
inductive RefreshCases (g : Global) (idx : Fin maxBackends) (ok : Bool) :
    Global × Option (ConnId × Json) → Prop where
  | refused (h : ∀ b, g.backends idx = some b → b.alive = true → g.inflight.firstFree = none) :
      RefreshCases g idx ok (g, none)
  | written (b : Backend) (i : Fin maxInflight) (hok : ok = true) (hb : g.backends idx = some b)
      (hfree : g.inflight.firstFree = some i) :
      RefreshCases g idx ok
        ({ g with
            nextLocalId := (g.nextLocalId + 1) % 2 ^ 64
            inflight := g.inflight.put i
              ⟨(g.nextLocalId + 1) % 2 ^ 64, idx, .toolsRefresh, none, none⟩ },
          some (b.conn, refreshRequest ((g.nextLocalId + 1) % 2 ^ 64)))
  | unwritten (hok : ok = false) :
      RefreshCases g idx ok ({ g with nextLocalId := (g.nextLocalId + 1) % 2 ^ 64 }, none)

theorem refreshBackendTools_cases (g : Global) (idx : Fin maxBackends) (ok : Bool) :
    RefreshCases g idx ok (refreshBackendTools g idx ok) := by
  unfold refreshBackendTools
  split
  · next hb => exact .refused (by intro b hb'; rw [hb] at hb'; cases hb')
  · next b hb =>
      split
      · cases hf : g.inflight.firstFree with
        | none =>
            simp only [inflightAlloc, hf]
            exact .refused fun _ _ _ => hf
        | some i =>
            simp only [inflightAlloc, hf]
            cases ok with
            | true => exact .written b i rfl hb hf
            | false =>
                have hclear := Slots.clear_put_of_free g.inflight
                  (⟨(g.nextLocalId + 1) % 2 ^ 64, idx, .toolsRefresh, none, none⟩ : Inflight)
                  (Slots.firstFree_some hf)
                simp only [Bool.false_eq_true, if_false, inflightRelease, hclear]
                exact .unwritten rfl
      · next hdead =>
          exact .refused (by intro b' hb'; rw [hb] at hb'; cases hb'; exact fun h => absurd h hdead)

/-- What the reader's lookup can do. -/
inductive LookupCases (g : Global) (idx : Fin maxBackends) (d : Dbl) (msg : Json) :
    Global × ReaderPc → Prop where
  | missed (h : inflightFind g (castU64 g.platform.castUb d) = none) :
      LookupCases g idx d msg (g, .top)
  | foreign (i : Fin maxInflight) (fl : Inflight)
      (hf : inflightFind g (castU64 g.platform.castUb d) = some i)
      (hfl : g.inflight i = some fl) (hown : fl.backend ≠ idx) :
      LookupCases g idx d msg (inflightRelease g i, .top)
  | refreshed (i : Fin maxInflight) (fl : Inflight)
      (hf : inflightFind g (castU64 g.platform.castUb d) = some i)
      (hfl : g.inflight i = some fl) (hown : fl.backend = idx) (hk : fl.kind = .toolsRefresh)
      (pc : ReaderPc)
      (hpc : pc = match msg.getObjectItemCaseSensitive (ascii "result") with
        | some result => .apply result
        | none => .top) :
      LookupCases g idx d msg (inflightRelease g i, pc)
  | answered (i : Fin maxInflight) (fl : Inflight)
      (hf : inflightFind g (castU64 g.platform.castUb d) = some i)
      (hfl : g.inflight i = some fl) (hown : fl.backend = idx) (hk : fl.kind = .agent) :
      LookupCases g idx d msg (inflightRelease g i, .relay fl.seq (restoreId msg fl.origId))

theorem readerLookup_cases (g : Global) (idx : Fin maxBackends) (d : Dbl) (msg : Json) :
    LookupCases g idx d msg (readerLookup g idx d msg) := by
  unfold readerLookup
  split
  · next h => exact .missed h
  · next i hf =>
      obtain ⟨fl, hfl, _⟩ := inflightFind_some hf
      rw [hfl]
      by_cases hown : fl.backend = idx
      · cases hk : fl.kind with
        | agent =>
            simp only [hown, ne_eq, not_true_eq_false, if_false, hk]
            exact .answered i fl hf hfl hown hk
        | toolsRefresh =>
            simp only [hown, ne_eq, not_true_eq_false, if_false, hk]
            exact .refreshed i fl hf hfl hown hk _ rfl
      · simp only [ne_eq, hown, not_false_eq_true, if_true]
        exact .foreign i fl hf hfl hown

/-- An application rewrites one backend entry: its tools, and for a new app id of an app
    backend its app id and prefix. -/
theorem applyToolsResult_some {g g' : Global} {idx : Fin maxBackends} {result : Json}
    (h : applyToolsResult g idx result = some g') :
    ∃ b b', g.backends idx = some b ∧
      b'.conn = b.conn ∧ b'.alive = b.alive ∧ b'.isShell = b.isShell ∧
      b'.tools = toolsOf (some result) ∧
      ((reprefixSlug b result = none ∧ b'.nsPrefix = b.nsPrefix ∧ b'.appId = b.appId ∧
          g' = { g with backends := g.backends.put idx b' }) ∨
        ∃ slug, reprefixSlug b result = some slug ∧
          b'.nsPrefix = (assignPrefix g.usedPrefixes slug 40).1 ∧
          b'.appId = snprintf 33 ((metaAppId result).getD []) ∧
          g' = { g with
            backends := g.backends.put idx b'
            usedPrefixes := (assignPrefix g.usedPrefixes slug 40).2 }) := by
  unfold applyToolsResult at h
  split at h
  · cases h
  · next b hb =>
      dsimp only at h
      have hslug : reprefixSlug { b with tools := toolsOf (some result) } result =
          reprefixSlug b result := rfl
      split at h
      · next hnone =>
          rw [hslug] at hnone
          cases h
          exact ⟨b, { b with tools := toolsOf (some result) }, hb, rfl, rfl, rfl, rfl,
            Or.inl ⟨hnone, rfl, rfl, rfl⟩⟩
      · next slug hsome =>
          rw [hslug] at hsome
          cases h
          exact ⟨b, { b with
              tools := toolsOf (some result)
              appId := snprintf 33 ((metaAppId result).getD [])
              nsPrefix := (assignPrefix g.usedPrefixes slug 40).1 },
            hb, rfl, rfl, rfl, rfl, Or.inr ⟨slug, hsome, rfl, rfl, rfl⟩⟩

theorem applyToolsResult_isSome {g : Global} {idx : Fin maxBackends} {result : Json} {b : Backend}
    (hb : g.backends idx = some b) : applyToolsResult g idx result ≠ none := by
  unfold applyToolsResult
  rw [hb]
  dsimp only
  split <;> simp

/-- A registration fills a free slot with a live backend on the connection. -/
theorem backendRegister_some {g g' : Global} {sh : Bool} {pid : ℤ} {c : ConnId} {appId : CStr}
    {resp : Json} {exe : CStr} {idx : Fin maxBackends}
    (h : backendRegister g sh pid c appId resp exe = some (idx, g')) :
    ∃ b : Backend, g.backends idx = none ∧ b.conn = c ∧ b.alive = true ∧ b.isShell = sh ∧
      b.pid = pid ∧ b.appId = snprintf 33 appId ∧
      b.tools = toolsOf (resp.getObjectItemCaseSensitive (ascii "result")) ∧
      ((sh = true ∧ b.nsPrefix = ascii "shell" ∧
          g' = { g with backends := g.backends.put idx b }) ∨
        (sh = false ∧ b.nsPrefix = (assignPrefix g.usedPrefixes (joinSlug appId exe) 40).1 ∧
          g' = { g with
            backends := g.backends.put idx b
            usedPrefixes := (assignPrefix g.usedPrefixes (joinSlug appId exe) 40).2 })) := by
  unfold backendRegister at h
  split at h
  · cases h
  · next i hi =>
      dsimp only at h
      split at h
      · next hsh =>
          cases h
          exact ⟨_, Slots.firstFree_some hi, rfl, rfl, rfl, rfl, rfl, rfl,
            Or.inl ⟨hsh, rfl, rfl⟩⟩
      · next hsh =>
          cases h
          exact ⟨_, Slots.firstFree_some hi, rfl, rfl, rfl, rfl, rfl, rfl,
            Or.inr ⟨Bool.not_eq_true _ ▸ hsh, rfl, rfl⟩⟩

/-! ## What every step leaves alone -/

/-- A started thread is moved by its own steps only. -/
theorem step_thread_other {s s' : Sys} {a : Act} (hst : Step s a s') {u : Nat}
    (hu : a.thread ≠ some u) (hrun : s.threads u ≠ .gone) : s'.threads u = s.threads u := by
  have hset : ∀ {s₀ : Sys} {t : Nat} {th : Thread}, some t ≠ some u →
      (s₀.setThread t th).threads u = s₀.threads u := by
    intro s₀ t th hne
    exact Sys.setThread_ne _ _ fun e => hne (by rw [e])
  have hfresh : ∀ {r : Spawn}, s.FreshThread r → r ≠ .thread u := by
    rintro r hr rfl
    exact hrun hr
  cases hst with
  | pollSpawn hp hr => exact spawnSetup_threads (hfresh hr)
  | pollSpawnShell hp hr => exact spawnSetup_threads (hfresh hr)
  | registered ht hr hfree =>
      refine (Sys.setThread_ne _ _ fun e => hrun (by rw [e]; exact hfree)).trans ?_
      exact hset hu
  | agentFrame hm => rfl
  | agentWrite hm => rfl
  | markInitialized hm => rfl
  | pollScan hp hlen => rfl
  | pollSleep hp => rfl
  | _ => exact hset hu

/-- Stdout only grows. -/
theorem step_stdout {s s' : Sys} {a : Act} (hst : Step s a s') :
    ∃ out, s'.stdout = s.stdout ++ out := by
  cases hst with
  | agentWrite hm => exact ⟨_, rfl⟩
  | pollSpawn hp hr => exact ⟨[], by simp [spawnSetup_rest]⟩
  | pollSpawnShell hp hr => exact ⟨[], by simp [spawnSetup_rest]⟩
  | registerNoThread ht hr =>
      exact ⟨_, by rw [Sys.setThread_stdout, Sys.emit_stdout, Sys.setG_stdout]⟩
  | relay ht => exact ⟨_, rfl⟩
  | readerEmitWrite ht => exact ⟨_, rfl⟩
  | teardown ht => exact ⟨_, by rw [Sys.setThread_stdout, Sys.emit_stdout, Sys.setG_stdout]⟩
  | emitWrite ht => exact ⟨_, rfl⟩
  | _ => exact ⟨[], (List.append_nil _).symm⟩

/-- The platform stays. -/
theorem step_platform {s s' : Sys} {a : Act} (hst : Step s a s') :
    s'.g.platform = s.g.platform := by
  have hteardown : ∀ (g : Global) (idx : Fin maxBackends),
      (backendTeardownLocked g idx).1.platform = g.platform := by
    intro g idx
    rw [backendTeardownLocked_eq]
  have hregister : ∀ {g' : Global} {sh : Bool} {pid : ℤ} {c : ConnId} {appId : CStr} {resp : Json}
      {exe : CStr} {idx : Fin maxBackends},
      backendRegister s.g sh pid c appId resp exe = some (idx, g') →
        g'.platform = s.g.platform := by
    intro g' sh pid c appId resp exe idx hr
    obtain ⟨b, -, -, -, -, -, -, -, ⟨-, -, rfl⟩ | ⟨-, -, rfl⟩⟩ := backendRegister_some hr
    · rfl
    · rfl
  cases hst with
  | @agentFrame frame ok hm =>
      show (handleAgentFrame s.g s.frames.length frame ok).g.platform = _
      have hcases := handleAgentFrame_cases s.g s.frames.length frame ok
      generalize handleAgentFrame s.g s.frames.length frame ok = h at hcases ⊢
      cases hcases <;> dsimp only
  | pollScan hp hlen => exact (pollScan_same s.g _ _).platform
  | pollSpawn hp hr => exact (spawnSetup_same s _ _ _).platform
  | pollSpawnShell hp hr => exact (spawnSetup_same s _ _ _).platform
  | registerNoThread ht hr =>
      rw [Sys.setThread_g, Sys.emit_g, Sys.setG_g, hteardown, hregister hr]
  | registered ht hr hfree => exact hregister hr
  | connectingRemove ht => exact (connectingRemove_same s.g _ _).platform
  | @refresh t idx ok ht =>
      show (refreshBackendTools s.g idx ok).1.platform = _
      have hcases := refreshBackendTools_cases s.g idx ok
      generalize refreshBackendTools s.g idx ok = r at hcases ⊢
      cases hcases <;> dsimp only
  | @lookup t idx d msg ht =>
      show (readerLookup s.g idx d msg).1.platform = _
      have hcases := readerLookup_cases s.g idx d msg
      generalize readerLookup s.g idx d msg = r at hcases ⊢
      cases hcases <;> dsimp only [inflightRelease]
  | applied ht ha =>
      obtain ⟨b, b', -, -, -, -, -, ⟨-, -, -, rfl⟩ | ⟨slug, -, -, -, rfl⟩⟩ := applyToolsResult_some ha
      · rfl
      · rfl
  | teardown ht => rw [Sys.setThread_g, Sys.emit_g, Sys.setG_g, hteardown]
  | _ => rfl

end DisplayxrMcp
