/-
  The in-flight table over a run: what one step does to it, and the local ids.

  `InflightStep` lists every change a step can make to the table (nothing, one
  slot taken, one released by a lookup, the slots of a dead backend dropped).
  While fewer than `localIdLimit` ids have been given out, used slots have
  distinct local ids, all of them at most `next_local_id` (`localIds_reach`).
  The limit is the first number cJSON prints as another one.
-/
import DisplayxrMcp.Aggregator.Wf

namespace DisplayxrMcp

open Lib Cjson Lts

/-- The least natural number that cJSON does not print back. -/
def localIdLimit : Nat := 2 ^ 52 + 3

/-- The id of the `tools/call` a step handles. -/
def Act.callId : Act → Option Json
  | .agentFrame frame _ => DisplayxrMcp.callId frame
  | _ => none

/-- Steps on which `inflight_alloc` can run. -/
def allocates : Act → Bool
  | .refresh _ _ => true
  | a => a.callId.isSome

theorem allocates_call {frame : Option Json} {ok : Bool} {id : Json} (h : IsCall frame id) :
    allocates (.agentFrame frame ok) = true :=
  Option.isSome_iff_exists.mpr ⟨id, isCall_iff.mp h⟩

/-- There is a local id left to give out. -/
def IdRoom (s : Sys) (a : Act) : Prop :=
  allocates a = true → s.g.nextLocalId + 1 < localIdLimit

instance (s : Sys) (a : Act) : Decidable (IdRoom s a) := inferInstanceAs (Decidable (_ → _))

/-- Everything a step can do to the in-flight table. -/
inductive InflightStep (s s' : Sys) : Act → Prop where
  | keep {a} (hi : s'.g.inflight = s.g.inflight) (hn : s'.g.nextLocalId = s.g.nextLocalId) :
      InflightStep s s' a
  | counted {a} (ha : allocates a = true) (hi : s'.g.inflight = s.g.inflight)
      (hn : s'.g.nextLocalId = (s.g.nextLocalId + 1) % 2 ^ 64) : InflightStep s s' a
  | taken {a} (ha : allocates a = true) (i : Fin maxInflight) (fl : Inflight)
      (hfree : s.g.inflight i = none) (hid : fl.localId = (s.g.nextLocalId + 1) % 2 ^ 64)
      (horig : fl.origId = a.callId)
      (hi : s'.g.inflight = s.g.inflight.put i fl)
      (hn : s'.g.nextLocalId = (s.g.nextLocalId + 1) % 2 ^ 64) : InflightStep s s' a
  | released {t idx d msg} (i : Fin maxInflight) (fl : Inflight)
      (ht : s.threads t = .reader idx (.lookup d msg))
      (hf : inflightFind s.g (castU64 s.g.platform.castUb d) = some i)
      (hfl : s.g.inflight i = some fl) (hi : s'.g.inflight = s.g.inflight.clear i)
      (hn : s'.g.nextLocalId = s.g.nextLocalId) : InflightStep s s' (.lookup t)
  | torn {t idx} (ht : s.threads t = .reader idx .dying)
      (hi : ∀ i, s'.g.inflight i = keepOthers idx (s.g.inflight i))
      (hn : s'.g.nextLocalId = s.g.nextLocalId) : InflightStep s s' (.teardown t)

theorem sameTables_inflight {g g' : Global} (h : SameTables g g') :
    g'.inflight = g.inflight ∧ g'.nextLocalId = g.nextLocalId := by
  obtain ⟨l, b, rfl⟩ := h
  exact ⟨rfl, rfl⟩

theorem backendRegister_inflight {g g' : Global} {sh : Bool} {pid : ℤ} {c : ConnId} {appId : CStr}
    {resp : Json} {exe : CStr} {idx : Fin maxBackends}
    (h : backendRegister g sh pid c appId resp exe = some (idx, g')) :
    g'.inflight = g.inflight ∧ g'.nextLocalId = g.nextLocalId := by
  obtain ⟨b, -, -, -, -, -, -, -, hg⟩ := backendRegister_some h
  rcases hg with ⟨-, -, rfl⟩ | ⟨-, -, rfl⟩ <;> exact ⟨rfl, rfl⟩

theorem applyToolsResult_inflight {g g' : Global} {idx : Fin maxBackends} {result : Json}
    (h : applyToolsResult g idx result = some g') :
    g'.inflight = g.inflight ∧ g'.nextLocalId = g.nextLocalId := by
  obtain ⟨b, b', -, -, -, -, -, hg⟩ := applyToolsResult_some h
  rcases hg with ⟨-, -, -, rfl⟩ | ⟨slug, -, -, -, rfl⟩ <;> exact ⟨rfl, rfl⟩

theorem inflight_step {s s' : Sys} {a : Act} (hst : Step s a s') (hw : Wf s) :
    InflightStep s s' a := by
  cases hst with
  | @agentFrame frame ok hm =>
      have hr := handleAgentFrame_cases s.g s.frames.length frame ok
      generalize hh : handleAgentFrame s.g s.frames.length frame ok = r at hr
      have hg : (s.onAgentFrame frame ok).g = r.g := by simp only [Sys.onAgentFrame, hh]
      cases hr with
      | answered reply hcall => exact .keep (by rw [hg]) (by rw [hg])
      | forwarded id params full idx b bare args i hok hcall hfull hnot hroute hargs hfree =>
          exact .taken (allocates_call ⟨params, hcall⟩) i _ (Slots.firstFree_some hfree) rfl
            (isCall_iff.mp ⟨params, hcall⟩).symm (by rw [hg]) (by rw [hg])
      | unwritten id r hok hcall hr => exact .counted (allocates_call hcall) (by rw [hg]) (by rw [hg])
  | pollScan hp hlen =>
      obtain ⟨hi, hn⟩ := sameTables_inflight (pollScan_same s.g _ _)
      exact .keep hi hn
  | pollSpawn hp hr =>
      obtain ⟨hi, hn⟩ := sameTables_inflight (spawnSetup_same s false _ _)
      exact .keep hi hn
  | pollSpawnShell hp hr =>
      obtain ⟨hi, hn⟩ := sameTables_inflight (spawnSetup_same s true 0 _)
      exact .keep hi hn
  | @registerNoThread t sh pid c appId resp exe idx g' ht hr =>
      obtain ⟨hi, hn⟩ := backendRegister_inflight hr
      have hunused := hw.register_unused hr
      refine .keep ?_ ?_
      · rw [backendTeardownLocked_unused hunused]
        exact hi
      · rw [backendTeardownLocked_unused hunused]
        exact hn
  | registered ht hr hfree =>
      obtain ⟨hi, hn⟩ := backendRegister_inflight hr
      exact .keep hi hn
  | connectingRemove ht =>
      obtain ⟨hi, hn⟩ := sameTables_inflight (connectingRemove_same s.g _ _)
      exact .keep hi hn
  | @refresh t idx ok ht =>
      have hr := refreshBackendTools_cases s.g idx ok
      generalize hh : refreshBackendTools s.g idx ok = r at hr
      cases hr with
      | refused h => exact .keep rfl rfl
      | written b i hok hb hfree =>
          exact .taken rfl i _ (Slots.firstFree_some hfree) rfl rfl rfl rfl
      | unwritten hok => exact .counted rfl rfl rfl
  | @lookup t idx d msg ht =>
      have hr := readerLookup_cases s.g idx d msg
      generalize hh : readerLookup s.g idx d msg = r at hr
      cases hr with
      | missed h => exact .keep rfl rfl
      | foreign i fl hf hfl hown => exact .released i fl ht hf hfl rfl rfl
      | refreshed i fl hf hfl hown hk pc hpc => exact .released i fl ht hf hfl rfl rfl
      | answered i fl hf hfl hown hk => exact .released i fl ht hf hfl rfl rfl
  | applied ht ha =>
      obtain ⟨hi, hn⟩ := applyToolsResult_inflight ha
      exact .keep hi hn
  | @teardown t idx ht =>
      refine .torn ht ?_ ?_
      · intro i
        rw [backendTeardownLocked_eq]
        rfl
      · rw [backendTeardownLocked_eq]
        rfl
  | _ => exact .keep rfl rfl

/-- Used slots have distinct local ids, none above the counter. -/
structure LocalIds (s : Sys) : Prop where
  limit : s.g.nextLocalId < localIdLimit
  le : ∀ i fl, s.g.inflight i = some fl → fl.localId ≤ s.g.nextLocalId
  once : Once fun i => (s.g.inflight i).map Inflight.localId

/-- With an id left the counter does not wrap. -/
theorem nextLocalId_mod {n : Nat} (h : n + 1 < localIdLimit) : (n + 1) % 2 ^ 64 = n + 1 := by
  unfold localIdLimit at h
  omega

theorem localIds_step {s s' : Sys} {a : Act} (hs : InflightStep s s' a) (hroom : IdRoom s a)
    (h : LocalIds s) : LocalIds s' := by
  cases hs with
  | keep hi hn =>
      exact ⟨hn ▸ h.limit, fun i fl hfl => hn ▸ h.le i fl (hi ▸ hfl), hi ▸ h.once⟩
  | counted ha hi hn =>
      have hlt := hroom ha
      rw [nextLocalId_mod hlt] at hn
      refine ⟨hn ▸ hlt, fun i fl hfl => ?_, hi ▸ h.once⟩
      have := h.le i fl (hi ▸ hfl)
      omega
  | taken ha i fl hfree hid horig hi hn =>
      have hlt := hroom ha
      rw [nextLocalId_mod hlt] at hn hid
      refine ⟨hn ▸ hlt, fun j fl' hfl' => ?_, ?_⟩
      · rw [hi, Slots.put_apply] at hfl'
        split at hfl'
        · cases hfl'; omega
        · have := h.le j fl' hfl'
          omega
      · refine h.once.put i fl.localId ?_ ?_
        · intro j hj
          obtain ⟨fl', hfl', he⟩ := Option.map_eq_some_iff.mp hj
          have := h.le j fl' hfl'
          omega
        · intro j k hj
          rw [hi, Slots.put_apply] at hj
          split at hj
          · next he => exact Or.inl ⟨he, (Option.some.inj hj).symm⟩
          · exact Or.inr hj
  | released i fl ht hf hfl hi hn =>
      have hsub : ∀ j fl', s'.g.inflight j = some fl' → s.g.inflight j = some fl' := by
        intro j fl' hj
        rw [hi, Slots.clear_apply] at hj
        split at hj
        · cases hj
        · exact hj
      refine ⟨hn ▸ h.limit, fun j fl' hj => hn ▸ h.le j fl' (hsub j fl' hj), h.once.drop ?_⟩
      intro j k hj
      obtain ⟨fl', hfl', he⟩ := Option.map_eq_some_iff.mp hj
      exact Option.map_eq_some_iff.mpr ⟨fl', hsub j fl' hfl', he⟩
  | torn ht hi hn =>
      have hsub : ∀ j fl', s'.g.inflight j = some fl' → s.g.inflight j = some fl' := by
        intro j fl' hj
        rw [hi] at hj
        exact (keepOthers_some.mp hj).1
      refine ⟨hn ▸ h.limit, fun j fl' hj => hn ▸ h.le j fl' (hsub j fl' hj), h.once.drop ?_⟩
      intro j k hj
      obtain ⟨fl', hfl', he⟩ := Option.map_eq_some_iff.mp hj
      exact Option.map_eq_some_iff.mpr ⟨fl', hsub j fl' hfl', he⟩

theorem localIds_start (platform : Platform) (expose : Bool) :
    LocalIds (Sys.start platform expose) := by
  have hzero : 0 < localIdLimit := by decide
  refine ⟨hzero, ?_, ?_⟩
  · intro i fl h; cases h
  · intro i j k h; cases h

theorem localIds_reach {ok : Sys → Act → Prop} (hroom : ∀ s a, ok s a → IdRoom s a) {s : Sys}
    (h : ReachWhen aggregator ok s) : LocalIds s := by
  refine h.invariant_of (fun s hs => wf_reach hs) ?_ ?_
  · rintro s ⟨platform, expose, rfl⟩
    exact localIds_start platform expose
  · intro s a s' hok hw hi hst
    exact localIds_step (inflight_step hst hw) (hroom s a hok) hi

/-- With distinct local ids the search for a used slot's id finds that slot. -/
theorem LocalIds.find_eq {s : Sys} (h : LocalIds s) {i : Fin maxInflight} {fl : Inflight}
    (hfl : s.g.inflight i = some fl) : inflightFind s.g fl.localId = some i := by
  refine Slots.findUsed_eq hfl (by simp) ?_
  intro j fl' hfl' he
  refine h.once j i fl.localId ?_ ?_
  · simp only [hfl', Option.map_some, of_decide_eq_true he]
  · simp only [hfl, Option.map_some]

end DisplayxrMcp
