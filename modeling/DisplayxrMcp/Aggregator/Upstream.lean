/-
  The agent's view: a listed surface is current or a list_changed is behind it.

  Every change of the surface is made by a thread that is then on its way to
  `emit_list_changed_upstream` (`member_step`), and once the agent is
  initialized such a thread does not stop before it has written the
  notification (`announcing_step`). `agent_initialized` is set after the
  `initialize` reply and before the main loop takes another frame, so no listing
  request falls in between (`helloHandled_reach`).
-/
import DisplayxrMcp.Aggregator.Members

namespace DisplayxrMcp

open Lib Cjson Lts

/-- Between a change of the surface and the end of `emit_list_changed_upstream`. -/
def Thread.announcing : Thread → Bool
  | .setup _ _ (.remove true) => true
  | .reader _ .emitCheck => true
  | .reader _ .emitWrite => true
  | .emitCheck => true
  | .emitWrite => true
  | _ => false

/-- Some thread is. -/
def Announcing (s : Sys) : Prop := ∃ u, (s.threads u).announcing = true

/-- A notification has been written since `s`. -/
def Notified (s t : Sys) : Prop := ∃ out, t.stdout = s.stdout ++ out ∧ listChangedFrame ∈ out

theorem Notified.step {s t u : Sys} {a : Act} (h : Notified s t) (hst : Step t a u) :
    Notified s u := by
  obtain ⟨out, ho, hm⟩ := h
  obtain ⟨out', ho'⟩ := step_stdout hst
  exact ⟨out ++ out', by rw [ho', ho, List.append_assoc], List.mem_append_left _ hm⟩

theorem Notified.behind {s t u : Sys} {out : List OutFrame} (hs : t.stdout = s.stdout ++ out)
    (h : Notified t u) : Notified s u := by
  obtain ⟨out', ho', hm⟩ := h
  exact ⟨out ++ out', by rw [ho', hs, List.append_assoc], List.mem_append_right _ hm⟩

/-- Once the agent is initialized, a thread that owes a notification keeps owing it until it
    writes it. -/
theorem announcing_step {s s' : Sys} {a : Act} (hst : Step s a s')
    (hinit : s.g.agentInitialized = true) {u : Nat} (hu : (s.threads u).announcing = true) :
    (s'.threads u).announcing = true ∨ Notified s s' := by
  by_cases ha : a.thread = some u
  · cases hst with
    | @connectingRemove t sh pid registered ht =>
        cases ha
        cases registered with
        | true => exact Or.inl (by simp [Thread.announcing])
        | false => rw [ht] at hu; cases hu
    | readerEmitCheck ht =>
        cases ha
        exact Or.inl (by simp [Thread.announcing, hinit])
    | emitCheck ht =>
        cases ha
        exact Or.inl (by simp [Thread.announcing, hinit])
    | readerEmitWrite ht => exact Or.inr ⟨[listChangedFrame], rfl, List.mem_singleton.mpr rfl⟩
    | emitWrite ht => exact Or.inr ⟨[listChangedFrame], rfl, List.mem_singleton.mpr rfl⟩
    | agentFrame hm => cases ha
    | agentWrite hm => cases ha
    | markInitialized hm => cases ha
    | pollScan hp hlen => cases ha
    | pollSpawn hp hr => cases ha
    | pollSpawnShell hp hr => cases ha
    | pollSleep hp => cases ha
    | _ ht =>
        cases ha
        rw [ht] at hu
        cases hu
  · have hrun : s.threads u ≠ .gone := by
      intro hg
      rw [hg] at hu
      cases hu
    rw [step_thread_other hst ha hrun]
    exact Or.inl hu

/-- A step that changes the surface leaves its thread owing a notification. -/
theorem surface_step {s s' : Sys} {a : Act} (hst : Step s a s')
    (he : s'.g.exposeDiagnostics = s.g.exposeDiagnostics) :
    buildMergedTools s'.g = buildMergedTools s.g ∨ Announcing s' := by
  cases member_step hst with
  | keep hb hu hask => exact Or.inl (buildMergedTools_congr hb he)
  | undone hb hask hu => exact Or.inl (buildMergedTools_congr hb he)
  | @joined t exe t' idx b hfree hb hc hp ht =>
      obtain ⟨sh, pid, ht⟩ := ht
      exact Or.inr ⟨t, by rw [ht]; rfl⟩
  | @applied t idx b b' hold hb hc hsh hp ht => exact Or.inr ⟨t, by rw [ht]; rfl⟩
  | @left t idx hb hu hask ht => exact Or.inr ⟨t, by rw [ht]; rfl⟩

/-! ## Settings -/

/-- What `g` holds besides the tables: set once. -/
structure SameSettings (g g' : Global) : Prop where
  platform : g'.platform = g.platform
  expose : g'.exposeDiagnostics = g.exposeDiagnostics
  initialized : g'.agentInitialized = g.agentInitialized

theorem SameTables.settings {g g' : Global} (h : SameTables g g') : SameSettings g g' := by
  obtain ⟨l, b, rfl⟩ := h
  exact ⟨rfl, rfl, rfl⟩

theorem backendRegister_settings {g g' : Global} {sh : Bool} {pid : ℤ} {c : ConnId}
    {appId : CStr} {resp : Json} {exe : CStr} {idx : Fin maxBackends}
    (h : backendRegister g sh pid c appId resp exe = some (idx, g')) : SameSettings g g' := by
  obtain ⟨b, -, -, -, -, -, -, -, hg⟩ := backendRegister_some h
  rcases hg with ⟨-, -, rfl⟩ | ⟨-, -, rfl⟩
  · exact ⟨rfl, rfl, rfl⟩
  · exact ⟨rfl, rfl, rfl⟩

/-- Only `markInitialized` changes a setting. -/
theorem step_settings {s s' : Sys} {a : Act} (hst : Step s a s') (hne : a ≠ .markInitialized) :
    SameSettings s.g s'.g := by
  have hteardown : ∀ (g : Global) idx, SameSettings s.g g →
      SameSettings s.g (backendTeardownLocked g idx).1 := by
    intro g idx h
    rw [backendTeardownLocked_eq]
    exact ⟨h.platform, h.expose, h.initialized⟩
  cases hst with
  | @agentFrame frame ok hm =>
      have hr := handleAgentFrame_cases s.g s.frames.length frame ok
      generalize hh : handleAgentFrame s.g s.frames.length frame ok = r at hr
      have hg : (s.onAgentFrame frame ok).g = r.g := by simp only [Sys.onAgentFrame, hh]
      rw [hg]
      cases hr <;> exact ⟨rfl, rfl, rfl⟩
  | pollScan hp hlen => exact (pollScan_same s.g _ _).settings
  | pollSpawn hp hr => exact (spawnSetup_same s false _ _).settings
  | pollSpawnShell hp hr => exact (spawnSetup_same s true 0 _).settings
  | markInitialized hm => exact absurd rfl hne
  | @registerNoThread t sh pid c appId resp exe idx g' ht hr =>
      have hg := hteardown g' idx (backendRegister_settings hr)
      simpa only [Sys.setThread_g, Sys.emit_g, Sys.setG_g] using hg
  | registered ht hr hfree => exact backendRegister_settings hr
  | connectingRemove ht => exact (connectingRemove_same s.g _ _).settings
  | @refresh t idx ok ht =>
      have hr := refreshBackendTools_cases s.g idx ok
      generalize refreshBackendTools s.g idx ok = r at hr
      cases hr <;> exact ⟨rfl, rfl, rfl⟩
  | @lookup t idx d msg ht =>
      have hr := readerLookup_cases s.g idx d msg
      generalize readerLookup s.g idx d msg = r at hr
      cases hr <;> exact ⟨rfl, rfl, rfl⟩
  | applied ht ha =>
      obtain ⟨b, b', -, -, -, -, -, hg⟩ := applyToolsResult_some ha
      rcases hg with ⟨-, -, -, rfl⟩ | ⟨slug, -, -, -, rfl⟩
      · exact ⟨rfl, rfl, rfl⟩
      · exact ⟨rfl, rfl, rfl⟩
  | @teardown t idx ht =>
      have hg := hteardown s.g idx ⟨rfl, rfl, rfl⟩
      simpa only [Sys.setThread_g, Sys.emit_g, Sys.setG_g] using hg
  | _ => exact ⟨rfl, rfl, rfl⟩

theorem markInitialized_g {s s' : Sys} (hst : Step s .markInitialized s') :
    s'.g = { s.g with agentInitialized := true } := by
  cases hst
  rfl

theorem step_expose {s s' : Sys} {a : Act} (hst : Step s a s') :
    s'.g.exposeDiagnostics = s.g.exposeDiagnostics := by
  by_cases ha : a = .markInitialized
  · subst ha
    rw [markInitialized_g hst]
  · exact (step_settings hst ha).expose

theorem step_initialized {s s' : Sys} {a : Act} (hst : Step s a s')
    (h : s.g.agentInitialized = true) : s'.g.agentInitialized = true := by
  by_cases ha : a = .markInitialized
  · subst ha
    rw [markInitialized_g hst]
  · rw [(step_settings hst ha).initialized, h]

/-! ## The initialize request -/

/-- The main loop is still busy with an `initialize`. -/
def MainPc.helloing : MainPc → Bool
  | .reply _ _ hello => hello
  | .markInitialized => true
  | .idle => false

/-- An `initialize` that has been taken is being answered, or the flag is set. -/
def HelloHandled (s : Sys) : Prop :=
  (∃ f ∈ s.frames, isInitialize f = true) → s.main.helloing = true ∨ s.g.agentInitialized = true

theorem initialize_replied (g : Global) (seq : Nat) {frame : Option Json} (ok : Bool)
    (h : isInitialize frame = true) : ∃ r, (handleAgentFrame g seq frame ok).reply = some r := by
  unfold isInitialize at h
  unfold handleAgentFrame
  split
  · exact ⟨_, rfl⟩
  · cases hreq : requestOf frame with
    | none => rw [hreq] at h; cases h
    | some r =>
        obtain ⟨method, id, params⟩ := r
        rw [hreq] at h
        simp only [if_pos (of_decide_eq_true h)]
        exact ⟨_, rfl⟩

theorem step_main_frames {s s' : Sys} {a : Act} (hst : Step s a s') :
    (∃ frame ok, a = .agentFrame frame ok) ∨ a = .agentWrite ∨ a = .markInitialized ∨
      (s'.main = s.main ∧ s'.frames = s.frames) := by
  have hspawn : ∀ (sh : Bool) (pid : ℤ) (r : Spawn),
      (s.spawnSetup sh pid r).main = s.main ∧ (s.spawnSetup sh pid r).frames = s.frames :=
    fun sh pid r => ⟨(spawnSetup_rest s sh pid r).1, (spawnSetup_rest s sh pid r).2.1⟩
  cases hst with
  | agentFrame hm => exact Or.inl ⟨_, _, rfl⟩
  | agentWrite hm => exact Or.inr (Or.inl rfl)
  | markInitialized hm => exact Or.inr (Or.inr (Or.inl rfl))
  | pollSpawn hp hr => exact Or.inr (Or.inr (Or.inr (hspawn false _ _)))
  | pollSpawnShell hp hr => exact Or.inr (Or.inr (Or.inr (hspawn true 0 _)))
  | registerNoThread ht hr => exact Or.inr (Or.inr (Or.inr (by simp)))
  | teardown ht => exact Or.inr (Or.inr (Or.inr (by simp)))
  | _ => exact Or.inr (Or.inr (Or.inr ⟨rfl, rfl⟩))

theorem helloHandled_step {s s' : Sys} {a : Act} (hst : Step s a s') (h : HelloHandled s) :
    HelloHandled s' := by
  rcases step_main_frames hst with ⟨frame, ok, rfl⟩ | rfl | rfl | ⟨hm, hf⟩
  · -- the main loop takes a frame only when it is idle
    intro hex
    cases hst with
    | agentFrame hidle =>
        obtain ⟨f, hf, hhello⟩ := hex
        rcases List.mem_append.mp hf with hf | hf
        · rcases h ⟨f, hf, hhello⟩ with hb | hset
          · rw [hidle] at hb
            cases hb
          · exact Or.inr (step_initialized (.agentFrame hidle) hset)
        · rw [List.mem_singleton.mp hf] at hhello
          obtain ⟨r, hr⟩ := initialize_replied s.g s.frames.length ok hhello
          left
          simp only [Sys.onAgentFrame, hr, MainPc.helloing, hhello]
  · intro hex
    cases hst with
    | @agentWrite seq body hello hm =>
        rcases h hex with hb | hset
        · rw [hm] at hb
          simp only [MainPc.helloing] at hb
          exact Or.inl (by simp [hb, MainPc.helloing])
        · exact Or.inr hset
  · intro _
    exact Or.inr (by rw [markInitialized_g hst])
  · intro hex
    rw [hf] at hex
    rcases h hex with hb | hset
    · exact Or.inl (hm ▸ hb)
    · exact Or.inr (step_initialized hst hset)

theorem helloHandled_reach {s : Sys} (h : Reach aggregator s) : HelloHandled s := by
  refine h.invariant ?_ fun s a s' _ hi hst => helloHandled_step (show Step s a s' from hst) hi
  rintro s ⟨platform, expose, rfl⟩ ⟨f, hf, -⟩
  cases hf

/-! ## Coherence -/

/-- What holds after a snapshot `surface` taken at `s`. -/
def Coherent (surface : List Json) (s t : Sys) : Prop :=
  buildMergedTools t.g = surface ∨ Announcing t ∨ Notified s t

theorem coherent_step {surface : List Json} {s t u : Sys} {a : Act} (hst : Step t a u)
    (hinit : t.g.agentInitialized = true) (hout : ∃ out, t.stdout = s.stdout ++ out)
    (h : Coherent surface s t) : Coherent surface s u := by
  rcases h with h | ⟨v, hv⟩ | h
  · rcases surface_step hst (step_expose hst) with he | hp
    · exact Or.inl (he.trans h)
    · exact Or.inr (Or.inl hp)
  · obtain ⟨out, hout⟩ := hout
    rcases announcing_step hst hinit hv with hp | hn
    · exact Or.inr (Or.inl ⟨v, hp⟩)
    · exact Or.inr (Or.inr (hn.behind hout))
  · exact Or.inr (Or.inr (h.step hst))

/-- Upstream coherence. The answer to a `tools/list` taken after `initialize` was handled is the
    surface of that moment; in every later state in which no thread still has a notification to
    write, the surface is still the one answered, or a list_changed was written after it was
    taken. -/
theorem upstream_coherence {s s' t : Sys} {tr : List (Sys × Act)} (h : Reach aggregator s)
    (hello : ∃ f ∈ s.frames, isInitialize f = true) {frame : Option Json} {id : Json}
    {params : Option Json} {ok : Bool}
    (hlist : requestOf frame = some (ascii "tools/list", id, params))
    (hst : Step s (.agentFrame frame ok) s') (hr : Run aggregator s' tr t)
    (hquiet : ¬ Announcing t) :
    s'.main = .reply s.frames.length (jsonrpcResultStr (some id)
        (some (fields [("tools", .arr (buildMergedTools s.g))]))) false ∧
      (buildMergedTools t.g = buildMergedTools s.g ∨ Notified s' t) := by
  have hidle : s.main = .idle := by
    cases hst with
    | agentFrame hm => exact hm
  have hinit : s.g.agentInitialized = true := by
    rcases helloHandled_reach h hello with hb | hset
    · rw [hidle] at hb
      cases hb
    · exact hset
  have hns : frame.isNone = false := by
    cases frame with
    | none => cases hlist
    | some f => rfl
  have h1 : ¬ ascii "tools/list" = ascii "initialize" := by decide
  have h2 : ¬ ascii "tools/list" = ascii "ping" := by decide
  have hreply : (handleAgentFrame s.g s.frames.length frame ok) = ⟨s.g, none,
      some (jsonrpcResultStr (some id) (some (fields [("tools", .arr (buildMergedTools s.g))])))⟩ := by
    simp [handleAgentFrame, hns, hlist, h1, h2]
  have hhello : isInitialize frame = false := by
    simp [isInitialize, hlist, h1]
  have hstart : Coherent (buildMergedTools s.g) s' s' := by
    refine Or.inl ?_
    cases hst with
    | agentFrame hm => simp only [Sys.onAgentFrame, hreply]
  have hinv : t.g.agentInitialized = true ∧ (∃ out, t.stdout = s'.stdout ++ out) ∧
      Coherent (buildMergedTools s.g) s' t := by
    refine hr.preserves (I := fun u => u.g.agentInitialized = true ∧
      (∃ out, u.stdout = s'.stdout ++ out) ∧ Coherent (buildMergedTools s.g) s' u) ?_
      ⟨step_initialized hst hinit, ⟨[], (List.append_nil _).symm⟩, hstart⟩
    rintro u a v ⟨hu, ⟨out, hout⟩, hc⟩ huv
    obtain ⟨out', hout'⟩ := step_stdout (show Step u a v from huv)
    exact ⟨step_initialized huv hu, ⟨out ++ out', by rw [hout', hout, List.append_assoc]⟩,
      coherent_step huv hu ⟨out, hout⟩ hc⟩
  constructor
  · cases hst with
    | agentFrame hm => simp only [Sys.onAgentFrame, hreply, hhello]
  · rcases hinv.2.2 with he | hp | hn
    · exact Or.inl he
    · exact absurd hp hquiet
    · exact Or.inr hn

/-! ## A history -/

/-- The thread a label starts. -/
def Act.started : Act → Option Nat
  | .pollSpawn (.thread t) => some t
  | .register _ _ (.thread t) => some t
  | _ => none

/-- Both thread numbers of a label are below `n`. -/
def Act.Below (n : Nat) (a : Act) : Prop := (∀ u ∈ a.thread, u < n) ∧ ∀ u ∈ a.started, u < n

instance (n : Nat) (a : Act) : Decidable (a.Below n) := inferInstanceAs (Decidable (_ ∧ _))

theorem step_thread_above {s s' : Sys} {a : Act} (hst : Step s a s') {n u : Nat}
    (ha : a.Below n) (hu : n ≤ u) : s'.threads u = s.threads u := by
  have hthread : a.thread ≠ some u := fun he => absurd (ha.1 u he) (Nat.not_lt.mpr hu)
  have hstarted : a.started ≠ some u := fun he => absurd (ha.2 u he) (Nat.not_lt.mpr hu)
  have hset : ∀ {s₀ : Sys} {t : Nat} {th : Thread}, some t ≠ some u →
      (s₀.setThread t th).threads u = s₀.threads u := by
    intro s₀ t th hne
    exact Sys.setThread_ne _ _ fun e => hne (by rw [e])
  have hspawn : ∀ {r : Spawn}, (Act.pollSpawn r).started ≠ some u → r ≠ .thread u := by
    rintro r hr rfl
    exact hr rfl
  cases hst with
  | pollSpawn hp hr => exact spawnSetup_threads (hspawn hstarted)
  | pollSpawnShell hp hr => exact spawnSetup_threads (hspawn hstarted)
  | registered ht hr hfree => exact (hset hstarted).trans (hset hthread)
  | agentFrame hm => rfl
  | agentWrite hm => rfl
  | markInitialized hm => rfl
  | pollScan hp hlen => rfl
  | pollSleep hp => rfl
  | _ => exact hset hthread

/-- Labels with thread numbers below `n` leave the others as they are. -/
theorem follow_thread_above {s t : Sys} {as : List Act} (h : follow Sys.next s as = some t)
    {n u : Nat} (ha : ∀ a ∈ as, a.Below n) (hu : n ≤ u) : t.threads u = s.threads u := by
  have hr := run_of_follow (M := aggregator) (fun _ _ _ => next_step) as h
  have hbelow : Meets (fun _ a => Act.Below n a) (record Sys.next s as) :=
    fun p hp => ha _ (mem_record as hp)
  refine hr.invariant (I := fun v => v.threads u = s.threads u) ?_ hbelow rfl
  intro v a w hv hI hst
  exact (step_thread_above (show Step v a w from hst) hv hu).trans hI

/-- A `tools/list` of the agent. -/
def listFrame (id : Nat) : Json :=
  fields [("jsonrpc", text "2.0"), ("id", Json.ofNat id), ("method", text "tools/list")]

/-- The agent initializes, then an app joins. -/
def helloThenJoin : List Act :=
  [.agentFrame (some (fields [("jsonrpc", text "2.0"), ("id", Json.ofNat 1),
      ("method", text "initialize")])) true, .agentWrite, .markInitialized] ++
    joins 5 0 1 "viewer" (helloResult "viewer") (toolsResult ["zoom"]) ++ [.emitWrite 0]

/-- The app registers a second tool and the aggregator refreshes. -/
def secondTool : List Act :=
  [.agentWrite, .readerTop 1, .recv 1 (.msg listChanged), .refresh 1 true, .readerTop 1,
    .recv 1 (.msg (response 1 (toolsResult ["zoom", "pan"]))), .lookup 1, .applyResult 1,
    .emitCheck 1, .emitWrite 1]

/-- The agent lists, the surface changes, and the agent is told. -/
theorem upstream_coherence_secondTool : ∃ s s' t,
    follow Sys.next (Sys.start plainPlatform false) helloThenJoin = some s ∧
    s.next (.agentFrame (some (listFrame 2)) true) = some s' ∧
    follow Sys.next s' secondTool = some t ∧
    buildMergedTools t.g ≠ buildMergedTools s.g ∧ Notified s' t := by
  have hrun : ((follow Sys.next (Sys.start plainPlatform false) helloThenJoin).bind fun s =>
      (s.next (.agentFrame (some (listFrame 2)) true)).bind fun s' =>
        (follow Sys.next s' secondTool).map fun t =>
          decide ((∃ f ∈ s.frames, isInitialize f = true) ∧
            buildMergedTools t.g ≠ buildMergedTools s.g ∧
            (t.threads 0).announcing = false ∧ (t.threads 1).announcing = false)) = some true := by
    decide +kernel
  obtain ⟨s, hs, hrun⟩ := Option.bind_eq_some_iff.mp hrun
  obtain ⟨s', hs', hrun⟩ := Option.bind_eq_some_iff.mp hrun
  obtain ⟨t, ht, hrun⟩ := Option.map_eq_some_iff.mp hrun
  obtain ⟨hello, hne, h0, h1⟩ := of_decide_eq_true hrun
  have habove : ∀ u, t.threads (u + 2) = .gone := by
    intro u
    have hle : 2 ≤ u + 2 := Nat.le_add_left 2 u
    have h2 := follow_thread_above ht (by decide) hle
    have h1 := step_thread_above (next_step hs') (n := 2) (by decide) hle
    have h0 := follow_thread_above hs (by decide) hle
    rw [h2, h1, h0]
    rfl
  have hquiet : ¬ Announcing t := by
    rintro ⟨u, hu⟩
    match u with
    | 0 => rw [h0] at hu; cases hu
    | 1 => rw [h1] at hu; cases hu
    | u + 2 => rw [habove u] at hu; cases hu
  refine ⟨s, s', t, hs, hs', ht, hne, ?_⟩
  have hlist : requestOf (some (listFrame 2)) = some (ascii "tools/list", Json.ofNat 2, none) := by
    decide +kernel
  have hco := upstream_coherence (reach_of_follow hs fun _ _ => trivial) hello hlist
    (next_step hs') (run_of_follow (M := aggregator) (fun _ _ _ => next_step) _ ht) hquiet
  exact hco.2.resolve_left hne

end DisplayxrMcp
