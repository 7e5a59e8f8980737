/-
  The handshake of a connection, over runs of the aggregator and its server.

  `Primed`: the setup thread that holds the connection is informed, and what it
  has noted is coherent with the server; a server whose connection is not made
  has told nothing. Every step on which the server's announcements are heard
  keeps it (`Primed.peer`, `primed_agg`).
-/
import DisplayxrMcp.Pair.Handshake

namespace DisplayxrMcp.Pair

open Lib Cjson Lts Server

structure Primed {α : Type} {V : View α} (N : Noting V) (c : ConnId) (j : Joint) : Prop where
  untold : j.sys.conns ≤ c → j.peer.told = .start
  setup : ∀ t sh pid pc, j.sys.threads t = .setup sh pid pc → pc.conn = some c →
    Informed j.peer pc ∧ Notes N j.peer pc

section

variable {α : Type} {V : View α} {N : Noting V} {c : ConnId} {s s' : Sys} {p p' : Peer}
  {rest : List Frame}

/-- With no requests on its way the serve thread is reading. -/
theorem serving_none (h : p.asks = []) : p.serving = none := by
  rw [Peer.asks, List.append_eq_nil_iff, List.append_eq_nil_iff] at h
  simpa using h.1.2

/-- Nor does any frame on its way answer one. -/
theorem outbox_unasked (h : p.asks = []) : ∀ f ∈ p.outbox, f.answers = none := by
  rw [Peer.asks, List.append_eq_nil_iff, List.append_eq_nil_iff] at h
  exact List.filterMap_eq_nil_iff.mp h.1.1

/-- A handshake that begins has been told nothing. -/
theorem informed_start (hok : p.Ok) (hasks : p.asks = []) (htold : p.told = .start) :
    Informed p (.send c .hello) := by
  have hserves := hok.serves
  rw [serving_none hasks] at hserves
  refine ⟨by rw [htold]; rfl, ?_, fun hl => ?_, fun _ => by rw [htold]; rfl, ?_, ?_, ?_, ?_⟩
  · rw [htold]
    exact ⟨rfl, fun a ha => by cases ha⟩
  · rw [htold] at hl
    cases hl
  · intro id appId hp
    rw [hp] at hserves
    cases hserves
  · intro id tools hp
    rw [hp] at hserves
    cases hserves
  · intro kind body a _ ha
    rw [serving_none hasks] at ha
    cases ha
  · intro f hf a ha
    rw [outbox_unasked hasks f hf] at ha
    cases ha

theorem notes_start (hasks : p.asks = []) (htold : p.told = .start) :
    Notes N p (.send c .hello) := by
  have hnone : N.noted p.told = none := by rw [htold, N.blank]
  have hvalues := survivors_values (V := V) fun f hf =>
    outbox_unasked hasks f (survivors_sub (.send c .hello) p.outbox f hf)
  have hchain : (setupLink N p (survivors (.send c .hello) p.outbox)).chain = [] := by
    simp only [Link.chain, setupLink, hnone, hvalues]
    rfl
  refine ⟨hchain ▸ List.Pairwise.nil, fun x hx => ?_, Or.inr (Or.inl hnone)⟩
  rw [hchain] at hx
  cases hx

/-- A server with no requests on its way tells nothing. -/
theorem told_quiet {a : PeerAct} (hst : p.Step a p') (hok : p.Ok) (hasks : p.asks = []) :
    p'.told = p.told := by
  have hserves := hok.serves
  rw [serving_none hasks] at hserves
  cases hst with
  | dispatch hp =>
      cases hpc : p.pc with
      | hello id => rw [hpc] at hserves; cases hserves
      | listTools id => rw [hpc] at hserves; cases hserves
      | listAppId id tools => rw [hpc] at hserves; cases hserves
      | _ => rfl
  | answer hp =>
      rw [hp] at hserves
      obtain ⟨a, ha, -⟩ := hserves
      cases ha
  | _ => rfl

/-- The server moves. -/
theorem Primed.peer (h : Primed N c ⟨s, p⟩) (ht : Tied V c ⟨s, p⟩) {a : PeerAct}
    (hst : p.Step a p') (hheard : a = .notify → Heard N p) : Primed N c ⟨s, p'⟩ := by
  refine ⟨fun hc => ?_, fun t sh pid pc hth hpc => ?_⟩
  · exact (told_quiet hst ht.ok (ht.unmade hc)).trans (h.untold hc)
  · obtain ⟨hi, hn⟩ := h.setup t sh pid pc hth hpc
    have hg := ht.greets t sh pid pc hth hpc
    exact ⟨hi.peer hst ht.ok hg.1, hn.peer hst ht.ok hi hg hheard⟩

/-! ## The aggregator's steps -/

/-- The step moves no setup thread that holds `c`; the server is left alone, or it is the server of
    a backend. -/
theorem Primed.elsewhere (h : Primed N c ⟨s, p⟩) (hw : Wf s) (hconns : s.conns ≤ s'.conns)
    (hth : ∀ t, s'.threads t = s.threads t ∨
      ∀ sh pid pc, s'.threads t = .setup sh pid pc → pc.conn ≠ some c)
    (hp : p' = p ∨ p'.told = p.told ∧ ∃ idx b, s.g.backends idx = some b ∧ b.conn = c) :
    Primed N c ⟨s', p'⟩ := by
  refine ⟨fun hc => ?_, fun t sh pid pc ht hpc => ?_⟩
  · have htold : p'.told = p.told := by
      rcases hp with rfl | ⟨htold, -⟩
      · rfl
      · exact htold
    exact htold.trans (h.untold (Nat.le_trans hconns hc))
  · rcases hth t with he | hoff
    · rw [he] at ht
      rcases hp with rfl | ⟨-, idx, b, hb, rfl⟩
      · exact h.setup t sh pid pc ht hpc
      · exact absurd hpc (backend_not_setup hw hb ht)
    · exact absurd hpc (hoff sh pid pc ht)

/-- One thread moves, to a point at which it does not hold `c`. -/
theorem unheld_setThread {s₀ : Sys} {t : Nat} {th : Thread} (hs : s₀.threads = s.threads)
    (hth : ∀ sh pid pc, th = .setup sh pid pc → pc.conn ≠ some c) (u : Nat) :
    (s₀.setThread t th).threads u = s.threads u ∨
      ∀ sh pid pc, (s₀.setThread t th).threads u = .setup sh pid pc → pc.conn ≠ some c := by
  by_cases hu : u = t
  · subst hu
    refine Or.inr fun sh pid pc he => ?_
    rw [Sys.setThread_same] at he
    exact hth sh pid pc he
  · rw [Sys.setThread_ne _ _ hu, hs]
    exact Or.inl rfl

/-- The setup thread that holds `c` moves. -/
theorem Primed.onSetup (h : Primed N c ⟨s, p⟩) (hw : Wf s) {t : Nat} {sh : Bool} {pid : ℤ}
    {pc pc' : SetupPc} (ht : s.threads t = .setup sh pid pc) (hpc : pc.conn = some c)
    (hnew : Informed p pc → Notes N p pc → pc'.conn = some c → Informed p' pc' ∧ Notes N p' pc') :
    Primed N c ⟨s.setThread t (.setup sh pid pc'), p'⟩ := by
  have hown : connAt s (.inr t) = some c := connAt_setup ht hpc
  refine ⟨fun hc => absurd hc (Nat.not_le.mpr (hw.connLt _ _ hown)), fun u sh' pid' pc₁ hu hc => ?_⟩
  change (s.setThread t _).threads u = _ at hu
  rw [Sys.setThread_apply] at hu
  split at hu
  · cases hu
    obtain ⟨hi, hn⟩ := h.setup t sh pid pc ht hpc
    exact hnew hi hn hc
  · next hne =>
      exact absurd (hw.setup_unique hu hc ht hpc) hne

/-- The handshake connects. -/
theorem Primed.connect (h : Primed N c ⟨s, p⟩) (ht : Tied V c ⟨s, p⟩) (hw : Wf s) {t : Nat}
    {sh : Bool} {pid : ℤ} :
    Primed N c ⟨{ s.setThread t (.setup sh pid (.send s.conns .hello)) with conns := s.conns + 1 },
      p⟩ := by
  by_cases hc : s.conns = c
  · subst hc
    refine ⟨fun hle => absurd hle (Nat.not_succ_le_self _), fun u sh' pid' pc hu hpc => ?_⟩
    change (s.setThread t _).threads u = _ at hu
    rw [Sys.setThread_apply] at hu
    split at hu
    · cases hu
      have hasks := ht.unmade (Nat.le_refl _)
      have htold := h.untold (Nat.le_refl _)
      exact ⟨informed_start ht.ok hasks htold, notes_start hasks htold⟩
    · exact absurd (hw.connLt _ _ (connAt_setup hu hpc)) (Nat.lt_irrefl _)
  · refine h.elsewhere hw (Nat.le_succ _) ?_ (Or.inl rfl)
    refine unheld_setThread rfl fun sh' pid' pc he => ?_
    cases he
    exact fun e => hc (Option.some.inj e)

/-- A setup thread with another connection, or with none to show for it, moves. -/
theorem Primed.setupElsewhere (h : Primed N c ⟨s, p⟩) (hw : Wf s) {t : Nat} {sh : Bool} {pid : ℤ}
    {pc : SetupPc} (hc : pc.conn ≠ some c) : Primed N c ⟨s.setThread t (.setup sh pid pc), p⟩ := by
  refine h.elsewhere hw (Nat.le_refl _) ?_ (Or.inl rfl)
  refine unheld_setThread rfl fun sh' pid' pc' he => ?_
  cases he
  exact hc

/-- What is noted does not see what is written to the server. -/
theorem Notes.exchange {pc pc' : SetupPc} {outbox : List Frame} {sent : List Json} (h : Notes N p pc)
    (hs : survivors pc' outbox = survivors pc p.outbox) :
    Notes N (p.exchange outbox sent) pc' := by
  unfold Notes
  rw [show (p.exchange outbox sent).outbox = outbox from rfl, hs]
  exact h

/-- The handshake writes a request, if the write goes through. -/
theorem Primed.syncSend (h : Primed N c ⟨s, p⟩) (hw : Wf s) {t : Nat} {sh : Bool} {pid : ℤ}
    {c' : ConnId} {ph : Phase} {ok : Bool} (ht : s.threads t = .setup sh pid (.send c' ph)) :
    Primed N c ⟨s.setThread t (.setup sh pid (if ok then .recv c' ph 0 else .remove false)),
      p.exchange p.outbox (sentTo c (if ok then some (c', ph.request) else none))⟩ := by
  cases ok with
  | false =>
      rw [if_neg (by simp), if_neg (by simp), show sentTo c none = [] from rfl, Peer.exchange_self]
      exact h.setupElsewhere hw (by simp [SetupPc.conn])
  | true =>
      rw [if_pos rfl, if_pos rfl]
      by_cases hc : c' = c
      · subst hc
        rw [sentTo_self]
        refine h.onSetup hw ht rfl fun hi hn _ => ⟨hi.sent fun r hr a ha hk => ?_, hn.exchange rfl⟩
        rw [List.mem_singleton.mp hr] at ha
        have hask := askOf_request c' ph 0
        rw [ha] at hask
        cases ph with
        | hello => rfl
        | list appId =>
            cases hask
            cases hk
      · rw [sentTo_ne hc, Peer.exchange_self]
        exact h.setupElsewhere hw fun e => hc (Option.some.inj e)

/-- The handshake sends `notifications/initialized`. -/
theorem Primed.sendInitialized (h : Primed N c ⟨s, p⟩) (hw : Wf s) {t : Nat} {sh : Bool} {pid : ℤ}
    {c' : ConnId} {appId : CStr} {ok : Bool}
    (ht : s.threads t = .setup sh pid (.initialized c' appId)) :
    Primed N c ⟨s.setThread t (.setup sh pid (.send c' (.list appId))),
      p.exchange p.outbox (sentTo c (if ok then some (c', initializedNote) else none))⟩ := by
  by_cases hc : c' = c
  · subst hc
    refine h.onSetup hw ht rfl fun hi hn _ => ⟨?_, hn.exchange rfl⟩
    have hinbox : ((p.exchange p.outbox (sentTo c' (if ok then some (c', initializedNote)
        else none))).inbox).filterMap askOf = p.inbox.filterMap askOf := by
      cases ok with
      | false => simp [Peer.exchange, sentTo]
      | true => simp [Peer.exchange, askOf_initializedNote]
    refine ⟨hi.carries, hi.short, fun hl => ?_, ?_, hi.marking, hi.listing, hi.replying, hi.frames⟩
    · rcases hi.listed hl with hlist | ⟨c, appId, resp, he⟩
      · exact Or.inl hlist
      · cases he
    · rw [hinbox]
      exact hi.unheard
  · rw [sentTo_if_ne hc, Peer.exchange_self]
    exact h.setupElsewhere hw fun e => hc (Option.some.inj e)

/-- The handshake reads. -/
theorem Primed.syncRecv (h : Primed N c ⟨s, p⟩) (hT : Tied V c ⟨s, p⟩) (hw : Wf s) {t : Nat}
    {sh : Bool} {pid : ℤ} {c' : ConnId} {ph : Phase} {k : Nat} {f : Inbound}
    (ht : s.threads t = .setup sh pid (.recv c' ph k)) (hr : Reads c p.outbox (some (c', f)) rest) :
    Primed N c ⟨s.setThread t (.setup sh pid (syncStep c' ph k f)), p.exchange rest []⟩ := by
  by_cases hc : c' = c
  · subst hc
    cases hr with
    | elsewhere hno => exact absurd rfl (hno f)
    | broken =>
        rw [Peer.exchange_self]
        exact h.setupElsewhere hw (by simp [syncStep, SetupPc.conn])
    | @frame f rest hx =>
        have hg := hT.greets t sh pid _ ht rfl
        rcases f.inbound_cases with he | he
        · rw [he]
          refine h.onSetup hw ht rfl fun hi hn hconn => ⟨hi.read hg hT.ok hx hconn, ?_⟩
          exact hn.exchange (survivors_read hg hT.ok hx hconn)
        · rw [he]
          exact h.onSetup hw ht rfl fun _ _ hconn => by cases hconn
  · rw [exchange_quiet hr fun f' he => hc (by cases he; rfl)]
    refine h.setupElsewhere hw fun e => hc ?_
    rcases syncStep_conn c' ph k f with hno | hsome
    · rw [hno] at e
      cases e
    · rw [hsome] at e
      exact Option.some.inj e

/-- A step that reads and writes nothing on `c` moves no setup thread that holds it. -/
theorem Primed.plain (h : Primed N c ⟨s, p⟩) (hw : Wf s) (hconns : s'.conns = s.conns)
    (hth : ∀ t, s'.threads t = s.threads t ∨
      ∀ sh pid pc, s'.threads t = .setup sh pid pc → pc.conn ≠ some c) :
    Primed N c ⟨s', p⟩ :=
  h.elsewhere hw (Nat.le_of_eq hconns.symm) hth (Or.inl rfl)

/-- A setup is started, or not. -/
theorem Primed.spawned (h : Primed N c ⟨s, p⟩) (hw : Wf s) (sh : Bool) (pid : ℤ) (r : Spawn)
    (pc : PollPc) : Primed N c ⟨{ s.spawnSetup sh pid r with poll := pc }, p⟩ := by
  obtain ⟨-, -, -, hconns⟩ := spawnSetup_rest s sh pid r
  refine h.plain hw hconns fun u => ?_
  rcases spawnSetup_thread s sh pid r u with hold | ⟨-, hnew⟩
  · exact Or.inl hold
  · have hu : ({ s.spawnSetup sh pid r with poll := pc } : Sys).threads u =
        .setup sh pid .connect := hnew
    refine Or.inr fun sh' pid' pc' he => ?_
    cases hu.symm.trans he
    exact fun hc => by cases hc

/-- The main loop handles a frame of the agent. -/
theorem Primed.handled (h : Primed N c ⟨s, p⟩) (hw : Wf s) {frame : Option Json} {ok : Bool} :
    Primed N c ⟨s.onAgentFrame frame ok, p.exchange p.outbox
      (sentTo c (handleAgentFrame s.g s.frames.length frame ok).sent)⟩ := by
  refine h.elsewhere hw (Nat.le_refl _) (fun _ => Or.inl rfl) ?_
  have hcases := handleAgentFrame_cases s.g s.frames.length frame ok
  generalize handleAgentFrame s.g s.frames.length frame ok = r at hcases
  cases hcases with
  | answered reply hcall => exact Or.inl p.exchange_self
  | unwritten id reply hok hcall hr => exact Or.inl p.exchange_self
  | forwarded id params full idx b bare args i hok hcall hfull hnot hroute hargs hfree =>
      obtain ⟨-, -, -, -, -, -, hb⟩ := route_backend hroute
      by_cases hbc : b.conn = c
      · exact Or.inr ⟨rfl, idx, b, hb, hbc⟩
      · left
        rw [sentTo_ne hbc, Peer.exchange_self]

/-- The reader asks again. -/
theorem Primed.refresh (h : Primed N c ⟨s, p⟩) (hw : Wf s) {t : Nat} {idx : Fin maxBackends}
    {ok : Bool} :
    Primed N c ⟨(s.setG (refreshBackendTools s.g idx ok).1).setThread t (.reader idx .top),
      p.exchange p.outbox (sentTo c (refreshBackendTools s.g idx ok).2)⟩ := by
  refine h.elsewhere hw (by simp) (unheld_setThread rfl fun _ _ _ he => by cases he) ?_
  have hcases := refreshBackendTools_cases s.g idx ok
  generalize refreshBackendTools s.g idx ok = r at hcases
  cases hcases with
  | refused _ => exact Or.inl p.exchange_self
  | unwritten _ => exact Or.inl p.exchange_self
  | written b i _ hb hfree =>
      by_cases hbc : b.conn = c
      · exact Or.inr ⟨rfl, idx, b, hb, hbc⟩
      · left
        rw [sentTo_ne hbc, Peer.exchange_self]

/-- The reader reads. -/
theorem Primed.recv (h : Primed N c ⟨s, p⟩) (hw : Wf s) {t : Nat} {idx : Fin maxBackends}
    {c' : ConnId} {f : Inbound} (ht : s.threads t = .reader idx (.read c'))
    (hr : Reads c p.outbox (some (c', f)) rest) :
    Primed N c ⟨s.setThread t (.reader idx (onInbound f)), p.exchange rest []⟩ := by
  obtain ⟨b, hb, hbc⟩ := hw.readConn t idx c' ht
  refine h.elsewhere hw (Nat.le_refl _) (unheld_setThread rfl fun _ _ _ he => by cases he) ?_
  by_cases hc : c' = c
  · exact Or.inr ⟨rfl, idx, b, hb, hbc.trans hc⟩
  · exact Or.inl (exchange_quiet hr fun f' he => hc (by cases he; rfl))

theorem primed_agg {a : Act} (h : Primed N c ⟨s, p⟩) (hT : Tied V c ⟨s, p⟩)
    (hst : DisplayxrMcp.Step s a s') (hr : Reads c p.outbox (s.recvd a) rest) (hw : Wf s) :
    Primed N c ⟨s', p.exchange rest (sentTo c (s.sent a))⟩ := by
  have hoff : ∀ {s₀ : Sys} {t : Nat} {th : Thread}, s₀.threads = s.threads →
      (∀ sh pid pc, th = .setup sh pid pc → pc.conn = none) →
      ∀ u, (s₀.setThread t th).threads u = s.threads u ∨
        ∀ sh pid pc, (s₀.setThread t th).threads u = .setup sh pid pc → pc.conn ≠ some c := by
    intro s₀ t th hs hsetup
    refine unheld_setThread hs fun sh pid pc he => ?_
    rw [hsetup sh pid pc he]
    simp
  -- on a step that neither reads nor writes the server is left as it is
  have hquiet : s.recvd a = none → s.sent a = none → Primed N c ⟨s', p⟩ →
      Primed N c ⟨s', p.exchange rest (sentTo c (s.sent a))⟩ := by
    intro hrecv hsent ht
    rw [hrecv] at hr
    rw [hsent, show sentTo c none = [] from rfl, reads_none hr, Peer.exchange_self]
    exact ht
  cases hst with
  | agentFrame hm =>
      rw [reads_none hr]
      exact h.handled hw
  | agentWrite hm => exact hquiet rfl rfl (h.plain hw rfl fun _ => Or.inl rfl)
  | markInitialized hm => exact hquiet rfl rfl (h.plain hw rfl fun _ => Or.inl rfl)
  | pollScan hp hlen => exact hquiet rfl rfl (h.plain hw rfl fun _ => Or.inl rfl)
  | pollSpawn hp hfresh => exact hquiet rfl rfl (h.spawned hw _ _ _ _)
  | pollSpawnShell hp hfresh => exact hquiet rfl rfl (h.spawned hw _ _ _ _)
  | pollSleep hp => exact hquiet rfl rfl (h.plain hw rfl fun _ => Or.inl rfl)
  | connect ht => exact hquiet rfl rfl (h.connect hT hw)
  | connectFail ht => exact hquiet rfl rfl (h.setupElsewhere hw (by simp [SetupPc.conn]))
  | @syncSend t sh pid c' ph ok ht =>
      rw [reads_none hr]
      simp only [Sys.sent, ht]
      exact h.syncSend hw ht
  | @syncRecv t sh pid c' ph k f ht =>
      simp only [Sys.recvd, ht] at hr
      exact h.syncRecv hT hw ht hr
  | @sendInitialized t sh pid c' appId ok ht =>
      rw [reads_none hr]
      simp only [Sys.sent, ht]
      exact h.sendInitialized hw ht
  | registerFull ht hreg => exact hquiet rfl rfl (h.setupElsewhere hw (by simp [SetupPc.conn]))
  | registerNoThread ht hreg =>
      refine hquiet rfl rfl (h.plain hw (by simp) (hoff (by simp) fun sh' pid' pc he => ?_))
      cases he
      rfl
  | @registered t t' sh pid c' appId resp exe idx g' ht hreg hfree =>
      refine hquiet rfl rfl ?_
      have hw' : Primed N c ⟨(s.setG g').setThread t (.setup sh pid (.remove true)), p⟩ :=
        h.plain hw rfl (hoff rfl fun sh' pid' pc he => by cases he; rfl)
      refine ⟨hw'.untold, fun u sh' pid' pc hu hpc => hw'.setup u sh' pid' pc ?_ hpc⟩
      change (((s.setG g').setThread t (.setup sh pid (.remove true))).setThread t' _).threads u = _
        at hu
      rw [Sys.setThread_apply] at hu
      split at hu
      · cases hu
      · exact hu
  | @connectingRemove t sh pid registered ht =>
      refine hquiet rfl rfl (h.plain hw rfl (hoff rfl fun sh' pid' pc he => ?_))
      split at he <;> cases he
  | readerTop ht => exact hquiet rfl rfl (h.plain hw rfl (hoff rfl fun _ _ _ he => by cases he))
  | @recv t idx c' f ht =>
      simp only [Sys.recvd, ht] at hr
      exact h.recv hw ht hr
  | @refresh t idx ok ht =>
      rw [reads_none hr]
      simp only [Sys.sent, ht]
      exact h.refresh hw
  | lookup ht => exact hquiet rfl rfl (h.plain hw rfl (hoff rfl fun _ _ _ he => by cases he))
  | applied ht ha => exact hquiet rfl rfl (h.plain hw rfl (hoff rfl fun _ _ _ he => by cases he))
  | notApplied ht ha => exact hquiet rfl rfl (h.plain hw rfl (hoff rfl fun _ _ _ he => by cases he))
  | relay ht => exact hquiet rfl rfl (h.plain hw rfl (hoff rfl fun _ _ _ he => by cases he))
  | readerEmitCheck ht =>
      exact hquiet rfl rfl (h.plain hw rfl (hoff rfl fun _ _ _ he => by cases he))
  | readerEmitWrite ht =>
      exact hquiet rfl rfl (h.plain hw rfl (hoff rfl fun _ _ _ he => by cases he))
  | teardown ht =>
      exact hquiet rfl rfl (h.plain hw (by simp) (hoff (by simp) fun _ _ _ he => by cases he))
  | emitCheck ht =>
      refine hquiet rfl rfl (h.plain hw rfl (hoff rfl fun sh pid pc he => ?_))
      split at he <;> cases he
  | emitWrite ht => exact hquiet rfl rfl (h.plain hw rfl (hoff rfl fun _ _ _ he => by cases he))

end

end DisplayxrMcp.Pair
