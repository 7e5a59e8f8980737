/-
  The step lemma of the aggregator beside a server, for one view.

  `Keeps` is what a view asks of the two steps that write its copy: a
  registration makes a coherent link, and an application records the result. All
  the rest of `Tied` is kept by every step on which `RefreshKept` holds
  (`tied_agg`).
-/
import DisplayxrMcp.Pair.Steps

namespace DisplayxrMcp.Pair

open Lib Cjson Lts Server

/-- What an application on `c` does to the copy. -/
def Records {α : Type} (V : View α) (c : ConnId) (s : Sys) (a : Act) : Prop :=
  ∀ t idx b b' tools r g', a = .applyResult t →
    s.threads t = .reader idx (.apply (toolsListResult tools (Registry.appId r)).reparse) →
    s.g.backends idx = some b → b.conn = c →
    applyToolsResult s.g idx (toolsListResult tools (Registry.appId r)).reparse = some g' →
    g'.backends idx = some b' →
    V.cached b' = V.record (V.cached b) (V.ofResult (toolsListResult tools r.appId).reparse)

/-- The copy is begun coherent and records what is applied to it. -/
structure Keeps {α : Type} (V : View α) (c : ConnId) (s : Sys) (p : Peer) (a : Act) : Prop where
  begins : ∀ t t' exe sh pid appId resp idx g' b, a = .register t exe (.thread t') →
    s.threads t = .setup sh pid (.register c appId resp) →
    backendRegister s.g sh pid c appId resp exe = some (idx, g') → g'.backends idx = some b →
    p.Ok → p.asks = [] → (V.link p b .top none).Coherent V.toRecording
  records : Records V c s a

section

variable {α : Type} {V : View α} {c : ConnId} {s : Sys} {p : Peer} {rest : List Frame}

/-- Nothing is read or written on `c`. -/
theorem exchange_quiet {m : Option (ConnId × Inbound)} (hr : Reads c p.outbox m rest)
    (hm : ∀ f, m ≠ some (c, f)) : p.exchange rest [] = p := by
  cases hr with
  | elsewhere _ => exact p.exchange_self
  | broken => exact absurd rfl (hm _)
  | frame _ => exact absurd rfl (hm _)

/-- The main loop handles a frame of the agent. -/
theorem Tied.handled (h : Tied V c ⟨s, p⟩) (hw : Wf s) (hl : LocalIds s) {frame : Option Json}
    {ok : Bool} (hroom : ∀ id, IsCall frame id → s.g.nextLocalId + 1 < localIdLimit) :
    Tied V c ⟨s.onAgentFrame frame ok, p.exchange p.outbox
      (sentTo c (handleAgentFrame s.g s.frames.length frame ok).sent)⟩ := by
  have hcases := handleAgentFrame_cases s.g s.frames.length frame ok
  generalize hh : handleAgentFrame s.g s.frames.length frame ok = r at hcases
  have hg : (s.onAgentFrame frame ok).g = r.g := by rw [Sys.onAgentFrame, hh]
  have hthreads : (s.onAgentFrame frame ok).threads = s.threads := rfl
  cases hcases with
  | answered reply hcall =>
      rw [show sentTo c none = [] from rfl, Peer.exchange_self]
      exact h.still (Nat.le_refl _) (fun _ => Or.inl rfl) (by rw [hg])
        fun i fl hfl => by rw [hg]; exact hfl
  | unwritten id reply hok hcall hr =>
      rw [show sentTo c none = [] from rfl, Peer.exchange_self]
      exact h.still (Nat.le_refl _) (fun _ => Or.inl rfl) (by rw [hg])
        fun i fl hfl => by rw [hg]; exact hfl
  | forwarded id params full idx b bare args i hok hcall hfull hnot hroute hargs hfree =>
      obtain ⟨-, -, -, -, -, -, hb⟩ := route_backend hroute
      have hlt := hroom id ⟨params, hcall⟩
      have hslot := Slots.firstFree_some hfree
      by_cases hbc : b.conn = c
      · rw [hbc, sentTo_self]
        refine h.onBackend hw hb hbc (h.ok.sent _) (fun hi => hi) rfl (fun k b' hb' hbc' => ?_)
          (fun t sh pid pc ht => ht) fun t pc' b' ht hb' _ => ⟨pc', ht, fun hf => ?_⟩
        · rw [hg] at hb'
          exact backend_unique hw hb hb' (hbc'.trans hbc.symm)
        · rw [hg] at hb' ⊢
          have hbb : b' = b := Option.some.inj (hb'.symm.trans hb)
          subst hbb
          rw [nextLocalId_mod hlt]
          exact hf.call hl hslot rfl rfl rfl rfl (askOf_forwardRequest hlt bare args)
      · rw [sentTo_ne hbc, Peer.exchange_self]
        refine h.still (Nat.le_refl _) (fun _ => Or.inl rfl) (by rw [hg]) fun k fl hfl => ?_
        rw [hg]
        exact (Slots.put_ne _ _ fun e => by rw [e, hslot] at hfl; cases hfl).trans hfl

/-- The handshake connects: connection `c` is new to the server. -/
theorem Tied.connect (h : Tied V c ⟨s, p⟩) (hw : Wf s) {t : Nat} {sh : Bool} {pid : ℤ} :
    Tied V c ⟨{ s.setThread t (.setup sh pid (.send s.conns .hello)) with conns := s.conns + 1 },
      p⟩ := by
  by_cases hc : s.conns = c
  · subst hc
    refine ⟨h.ok, fun hle => ?_, fun u sh' pid' pc hu hpc => ?_, fun u idx pc b hu hb hbc => ?_⟩
    · exact absurd hle (Nat.not_succ_le_self _)
    · change (s.setThread t _).threads u = _ at hu
      rw [Sys.setThread_apply] at hu
      split at hu
      · cases hu
        exact ⟨h.unmade (Nat.le_refl _), fun hg => absurd hg (by simp [isGreeted])⟩
      · exact absurd (hw.connLt _ _ (connAt_setup hu hpc)) (Nat.lt_irrefl _)
    · have hown : connAt s (.inl idx) = some s.conns := by
        change s.g.backends idx = some b at hb
        simp [connAt, hb, hbc]
      exact absurd (hw.connLt _ _ hown) (Nat.lt_irrefl _)
  · refine h.still (Nat.le_succ _) ?_ rfl fun _ _ hfl => hfl
    refine off_setThread (fun sh' pid' pc he => ?_) (fun idx pc' b he => (by cases he)) rfl
    cases he
    exact fun e => hc (Option.some.inj e)

/-- A setup thread with another connection, or with none to show for it, moves. -/
theorem Tied.setupElsewhere (h : Tied V c ⟨s, p⟩) {t : Nat} {sh : Bool} {pid : ℤ} {pc : SetupPc}
    (hc : pc.conn ≠ some c) : Tied V c ⟨s.setThread t (.setup sh pid pc), p⟩ := by
  refine h.still (Nat.le_refl _) ?_ rfl fun _ _ hfl => hfl
  refine off_setThread (fun sh' pid' pc' he => ?_) (fun idx pc' b he => (by cases he)) rfl
  cases he
  exact hc

/-- The handshake writes a request, if the write goes through. -/
theorem Tied.syncSend (h : Tied V c ⟨s, p⟩) (hw : Wf s) {t : Nat} {sh : Bool} {pid : ℤ}
    {c' : ConnId} {ph : Phase} {ok : Bool} (ht : s.threads t = .setup sh pid (.send c' ph)) :
    Tied V c ⟨s.setThread t (.setup sh pid (if ok then .recv c' ph 0 else .remove false)),
      p.exchange p.outbox (sentTo c (if ok then some (c', ph.request) else none))⟩ := by
  cases ok with
  | false =>
      rw [if_neg (by simp), if_neg (by simp), show sentTo c none = [] from rfl, Peer.exchange_self]
      exact h.setupElsewhere (by simp [SetupPc.conn])
  | true =>
      rw [if_pos rfl, if_pos rfl]
      by_cases hc : c' = c
      · subst hc
        rw [sentTo_self]
        exact h.onSetup hw ht rfl (h.ok.sent _) fun hg _ => hg.sent
      · rw [sentTo_ne hc, Peer.exchange_self]
        exact h.setupElsewhere fun e => hc (Option.some.inj e)

/-- The handshake sends `notifications/initialized`. -/
theorem Tied.sendInitialized (h : Tied V c ⟨s, p⟩) (hw : Wf s) {t : Nat} {sh : Bool} {pid : ℤ}
    {c' : ConnId} {appId : CStr} {ok : Bool}
    (ht : s.threads t = .setup sh pid (.initialized c' appId)) :
    Tied V c ⟨s.setThread t (.setup sh pid (.send c' (.list appId))),
      p.exchange p.outbox (sentTo c (if ok then some (c', initializedNote) else none))⟩ := by
  by_cases hc : c' = c
  · subst hc
    refine h.onSetup hw ht rfl (h.ok.sent _) fun hg _ => ⟨?_, fun _ => hg.2 trivial⟩
    rw [Peer.sent_asks, hg.1]
    cases ok with
    | false => rfl
    | true =>
        rw [if_pos rfl, sentTo_self]
        simp [asked, askOf_initializedNote]
  · rw [sentTo_if_ne hc, Peer.exchange_self]
    exact h.setupElsewhere fun e => hc (Option.some.inj e)

/-- The handshake reads. -/
theorem Tied.syncRecv (h : Tied V c ⟨s, p⟩) (hw : Wf s) {t : Nat} {sh : Bool} {pid : ℤ}
    {c' : ConnId} {ph : Phase} {k : Nat} {f : Inbound}
    (ht : s.threads t = .setup sh pid (.recv c' ph k)) (hr : Reads c p.outbox (some (c', f)) rest) :
    Tied V c ⟨s.setThread t (.setup sh pid (syncStep c' ph k f)), p.exchange rest []⟩ := by
  by_cases hc : c' = c
  · subst hc
    cases hr with
    | elsewhere hno => exact absurd rfl (hno f)
    | broken =>
        rw [Peer.exchange_self]
        exact h.setupElsewhere (by simp [syncStep, SetupPc.conn])
    | @frame f rest hx =>
        rcases f.inbound_cases with he | he
        · rw [he]
          exact h.onSetup hw ht rfl (h.ok.read hx) fun hg hconn => hg.read h.ok hx hconn
        · rw [he]
          exact h.onSetup hw ht rfl (h.ok.read hx) fun _ hconn => by cases hconn
  · rw [exchange_quiet hr fun f' he => hc (by cases he; rfl)]
    refine h.setupElsewhere fun e => hc ?_
    rcases syncStep_conn c' ph k f with hno | hsome
    · rw [hno] at e
      cases e
    · rw [hsome] at e
      exact Option.some.inj e

/-- The registration: no request is left, and the copy is made. -/
theorem Tied.registered (h : Tied V c ⟨s, p⟩) (hw : Wf s) {t t' : Nat} {sh : Bool} {pid : ℤ}
    {c' : ConnId} {appId : CStr} {resp : Json} {exe : CStr} {idx : Fin maxBackends} {g' : Global}
    (ht : s.threads t = .setup sh pid (.register c' appId resp))
    (hr : backendRegister s.g sh pid c' appId resp exe = some (idx, g'))
    (hbegin : ∀ b, c' = c → g'.backends idx = some b → p.Ok → p.asks = [] →
      (V.link p b .top none).Coherent V.toRecording) :
    Tied V c ⟨((s.setG g').setThread t (.setup sh pid (.remove true))).setThread t'
      (.reader idx .top), p⟩ := by
  obtain ⟨b, hidx, hbc, -, -, -, -, -, hg⟩ := backendRegister_some hr
  have hback : g'.backends = s.g.backends.put idx b := by
    rcases hg with ⟨-, -, rfl⟩ | ⟨-, -, rfl⟩ <;> rfl
  have hinflight : g'.inflight = s.g.inflight := (backendRegister_inflight hr).1
  have hthreads : ∀ u, (((s.setG g').setThread t (.setup sh pid (.remove true))).setThread t'
      (.reader idx .top)).threads u = if u = t' then .reader idx .top
        else if u = t then .setup sh pid (.remove true) else s.threads u := by
    intro u
    rw [Sys.setThread_apply, Sys.setThread_apply, Sys.setG_threads]
  have hother : ∀ k b', k ≠ idx → g'.backends k = some b' → s.g.backends k = some b' := by
    intro k b' hk hb'
    rw [hback, Slots.put_ne _ _ hk] at hb'
    exact hb'
  have hself : g'.backends idx = some b := by rw [hback, Slots.put_same]
  by_cases hc : c' = c
  · subst hc
    obtain ⟨hasks, hinit⟩ := h.greets t sh pid _ ht rfl
    have hown : connAt s (.inr t) = some c' := connAt_setup ht rfl
    refine ⟨h.ok, fun hle => ?_, fun u sh' pid' pc hu hpc => ?_, fun u k pc b' hu hb' hbc' => ?_⟩
    · exact absurd hle (Nat.not_le.mpr (hw.connLt _ _ hown))
    · rw [hthreads] at hu
      split at hu
      · cases hu
      · split at hu
        · cases hu
          cases hpc
        · next hne =>
            exact absurd (hw.setup_unique hu hpc ht rfl) hne
    · rw [hthreads] at hu
      split at hu
      · cases hu
        change g'.backends idx = some b' at hb'
        refine ⟨hinit trivial, none, rfl, ?_, hbegin b' rfl hb' h.ok hasks⟩
        show Matched g' idx p.asks
        rw [show p.asks = [] from hasks]
        exact Matched.nil g' idx
      · split at hu
        · cases hu
        · have hused := hw.readerUsed u k (by rw [hu]; rfl)
          have hk : k ≠ idx := by
            rintro rfl
            rw [hidx] at hused
            cases hused
          exact absurd (hbc' ▸ rfl) (backend_not_setup hw (hother k b' hk hb') ht)
  · refine h.quiet (Nat.le_refl _) (fun u => ?_) (fun k b' hb' hbc' => ?_) ?_
    · rw [hthreads]
      split
      · next hu =>
          refine Or.inr ⟨fun sh' pid' pc he => ?_, fun k pc' b' he hb' hbc' => ?_⟩
          · rw [hthreads, if_pos hu] at he
            cases he
          · rw [hthreads, if_pos hu] at he
            cases he
            rw [show b' = b from Option.some.inj (hb'.symm.trans hself)] at hbc'
            exact absurd (hbc.symm.trans hbc') hc
      · next hu =>
          split
          · next hut =>
              refine Or.inr ⟨fun sh' pid' pc he => ?_, fun k pc' b' he => ?_⟩
              · rw [hthreads, if_neg hu, if_pos hut] at he
                cases he
                simp [SetupPc.conn]
              · rw [hthreads, if_neg hu, if_pos hut] at he
                cases he
          · exact Or.inl rfl
    · by_cases hk : k = idx
      · subst hk
        rw [show b' = b from Option.some.inj (hb'.symm.trans hself)] at hbc'
        exact absurd (hbc.symm.trans hbc') hc
      · exact ⟨b', hother k b' hk hb', hbc', rfl⟩
    · intro k b' _ _ i fl hfl _
      change g'.inflight i = some fl
      rw [hinflight]
      exact hfl

/-! ## The reader -/

/-- A reader moves between points at which it has nothing of the server in hand; it may have
    written to the agent. -/
theorem Tied.blank (h : Tied V c ⟨s, p⟩) {s₀ : Sys} {t : Nat} {idx : Fin maxBackends}
    {pc pc' : ReaderPc} (ht : s.threads t = .reader idx pc) (hpc : Blank pc) (hpc' : Blank pc')
    (hg : s₀.g = s.g) (hth : s₀.threads = s.threads) (hc : s₀.conns = s.conns) :
    Tied V c ⟨s₀.setThread t (.reader idx pc'), p⟩ := by
  refine h.still (Nat.le_of_eq hc.symm) ?_ (by rw [Sys.setThread_g, hg])
    fun i fl hfl => by rw [Sys.setThread_g, hg]; exact hfl
  refine off_setThread (fun sh pid pc₁ he => (by cases he)) (fun k pc₁ b he _ _ => ?_) hth
  cases he
  exact ⟨hpc', pc, ht, hpc⟩

/-- The reader of another connection moves; other backends' slots stay. -/
theorem Tied.readerElsewhere (h : Tied V c ⟨s, p⟩) {t : Nat} {idx : Fin maxBackends}
    {pc : ReaderPc} {g : Global} (hback : ∀ k, k ≠ idx → g.backends k = s.g.backends k)
    (hne : ∀ b, g.backends idx = some b → b.conn ≠ c)
    (hslots : ∀ i fl, s.g.inflight i = some fl → fl.backend ≠ idx → g.inflight i = some fl) :
    Tied V c ⟨(s.setG g).setThread t (.reader idx pc), p⟩ := by
  refine h.quiet (Nat.le_refl _) ?_ (fun k b' hb' hbc => ?_) fun k b' hb' hbc i fl hfl hown => ?_
  · refine off_setThread (fun sh pid pc₁ he => (by cases he)) (fun k pc₁ b he hb hbc => ?_) rfl
    cases he
    exact absurd hbc (hne b hb)
  · have hk : k ≠ idx := by
      rintro rfl
      exact hne b' hb' hbc
    exact ⟨b', (hback k hk).symm.trans hb', hbc, rfl⟩
  · have hk : k ≠ idx := by
      rintro rfl
      exact hne b' hb' hbc
    exact hslots i fl hfl (hown ▸ hk)

/-- The reader of `c` moves. -/
theorem Tied.reader (h : Tied V c ⟨s, p⟩) (hw : Wf s) {t : Nat} {idx : Fin maxBackends}
    {b : Backend} {pc pc' : ReaderPc} {g : Global} {p' : Peer} (ht : s.threads t = .reader idx pc)
    (hb : s.g.backends idx = some b) (hbc : b.conn = c) (hok : p'.Ok)
    (hinit : p.initialized = true → p'.initialized = true)
    (hback : ∀ k, k ≠ idx → g.backends k = s.g.backends k)
    (hf : ∀ b', g.backends idx = some b' → Follows V s.g p idx b pc →
      Follows V g p' idx b' pc') :
    Tied V c ⟨(s.setG g).setThread t (.reader idx pc'), p'⟩ := by
  refine h.onBackend hw hb hbc hok hinit rfl (fun k b' hb' hbc' => ?_) (fun u sh pid pc₁ hu => ?_)
    fun u pc₁ b' hu hb' _ => ?_
  · by_contra hk
    change g.backends k = some b' at hb'
    rw [hback k hk] at hb'
    exact hk (backend_unique hw hb hb' (hbc'.trans hbc.symm))
  · rw [Sys.setThread_apply] at hu
    split at hu
    · cases hu
    · exact hu
  · rw [Sys.setThread_apply] at hu
    split at hu
    · next he =>
        cases hu
        exact ⟨pc, he ▸ ht, hf b' hb'⟩
    · next hne => exact absurd (reader_unique hw ht hu) hne

/-- An announcement makes the reader ask. -/
theorem onMessage_listChanged : onMessage listChanged.reparse = .refresh := by
  have hid : idOf listChanged.reparse = none := by decide
  have hm : Json.string? (listChanged.reparse.getObjectItemCaseSensitive (ascii "method")) =
      some (ascii "notifications/tools/list_changed") := by decide
  simp only [onMessage, hid, hm, if_true]

/-- The reader reads. -/
theorem Tied.recv (h : Tied V c ⟨s, p⟩) (hw : Wf s) {t : Nat} {idx : Fin maxBackends}
    {c' : ConnId} {f : Inbound} (ht : s.threads t = .reader idx (.read c'))
    (hr : Reads c p.outbox (some (c', f)) rest) (hparse : ListsParse c s p (.recv t f)) :
    Tied V c ⟨s.setThread t (.reader idx (onInbound f)), p.exchange rest []⟩ := by
  obtain ⟨b, hb, hbc⟩ := hw.readConn t idx c' ht
  by_cases hc : c' = c
  · subst hc
    cases hr with
    | elsewhere hno => exact absurd rfl (hno f)
    | broken =>
        rw [Peer.exchange_self]
        exact h.blank ht trivial trivial rfl rfl rfl
    | @frame f rest hx =>
        have hfok := h.ok.frames f (hx ▸ List.mem_cons_self)
        refine h.reader hw (g := s.g) ht hb hbc (h.ok.read hx) (fun hi => hi) (fun _ _ => rfl)
          fun b' hb' hf => ?_
        rw [show b' = b from Option.some.inj (hb'.symm.trans hb)]
        rcases f.inbound_cases with he | he
        · rw [he]
          cases ha : f.answers with
          | none =>
              have hbody : f.body = listChanged.reparse := by
                simpa only [Frame.Ok, ha] using hfok
              have hpc : onInbound (.msg f.body) = .refresh := by
                rw [hbody]
                exact onMessage_listChanged
              rw [hpc]
              exact hf.heard hx ha
          | some a =>
              have hid := hfok.id ha
              obtain ⟨-, held, -, hmatch, -⟩ := h.follows t idx _ b ht hb hbc
              have hmem : a ∈ pending held p := by
                rw [pending, Peer.read_asks hx, ha]
                exact List.mem_append_right _ List.mem_cons_self
              obtain ⟨i, fl, -, hnum, -⟩ := hmatch.slots a hmem
              have hpc : onInbound (.msg f.body) = .lookup (.fin fl.localId) f.body :=
                onMessage_of_id (hid.trans (congrArg some hnum))
              rw [hpc]
              exact hf.got hx ha hfok
        · obtain ⟨a, ha⟩ := hfok.refused he
          rw [he] at hparse ⊢
          have hother : f.isList = false := hparse idx ht f (by rw [hx]; rfl)
          refine hf.dropped hx ha fun hk => ?_
          simp [Frame.isList, ha, hk] at hother
  · rw [exchange_quiet hr fun f' he => hc (by cases he; rfl)]
    refine h.readerElsewhere (g := s.g) (fun _ _ => rfl) (fun b' hb' => ?_) fun _ _ hfl _ => hfl
    rw [show b' = b from Option.some.inj (hb'.symm.trans hb), hbc]
    exact hc

/-- The reader asks again. -/
theorem Tied.refresh (h : Tied V c ⟨s, p⟩) (hw : Wf s) (hl : LocalIds s) {t : Nat}
    {idx : Fin maxBackends} {ok : Bool} (ht : s.threads t = .reader idx .refresh)
    (hlt : s.g.nextLocalId + 1 < localIdLimit) (hgo : RefreshGoes c s (.refresh t ok)) :
    Tied V c ⟨(s.setG (refreshBackendTools s.g idx ok).1).setThread t (.reader idx .top),
      p.exchange p.outbox (sentTo c (refreshBackendTools s.g idx ok).2)⟩ := by
  obtain ⟨b, hb⟩ := Option.isSome_iff_exists.mp (hw.readerUsed t idx (by rw [ht]; rfl))
  have hcases := refreshBackendTools_cases s.g idx ok
  generalize refreshBackendTools s.g idx ok = r at hcases
  have hkeep : ∀ i : Fin maxInflight, s.g.inflight i = none → ∀ fl k fk,
      s.g.inflight k = some fk → s.g.inflight.put i fl k = some fk := by
    intro i hfree fl k fk hfk
    exact (Slots.put_ne _ _ fun e => by rw [e, hfree] at hfk; cases hfk).trans hfk
  by_cases hbc : b.conn = c
  · obtain ⟨hok, hroom⟩ := hgo idx b ht hb hbc
    cases hcases with
    | refused hfull => exact absurd (hfull b hb (hw.alive idx b hb)) hroom
    | unwritten hno => rw [hok] at hno; cases hno
    | written b₁ i _ hb₁ hfree =>
        rw [hb] at hb₁
        cases hb₁
        rw [hbc, sentTo_self, nextLocalId_mod hlt]
        refine h.reader hw ht hb hbc (h.ok.sent _) (fun hi => hi) (fun _ _ => rfl) fun b' hb' hf => ?_
        rw [show b' = b from Option.some.inj (hb'.symm.trans hb)]
        exact hf.refreshed hl (Slots.firstFree_some hfree) rfl rfl rfl rfl
          (askOf_refreshRequest hlt)
  · have hne : ∀ b', s.g.backends idx = some b' → b'.conn ≠ c := by
      intro b' hb'
      rw [show b' = b from Option.some.inj (hb'.symm.trans hb)]
      exact hbc
    cases hcases with
    | refused _ =>
        rw [show sentTo c none = [] from rfl, Peer.exchange_self]
        exact h.readerElsewhere (fun _ _ => rfl) hne fun _ _ hfl _ => hfl
    | unwritten _ =>
        rw [show sentTo c none = [] from rfl, Peer.exchange_self]
        exact h.readerElsewhere (fun _ _ => rfl) hne fun _ _ hfl _ => hfl
    | written b₁ i _ hb₁ hfree =>
        rw [sentTo_ne (hne b₁ hb₁), Peer.exchange_self]
        exact h.readerElsewhere (fun _ _ => rfl) hne fun k fk hfk _ =>
          hkeep i (Slots.firstFree_some hfree) _ k fk hfk

/-- The reader looks an id up. -/
theorem Tied.lookup (h : Tied V c ⟨s, p⟩) (hw : Wf s) (hl : LocalIds s) {t : Nat}
    {idx : Fin maxBackends} {d : Dbl} {msg : Json} (ht : s.threads t = .reader idx (.lookup d msg))
    (hno : ¬ NamesForeign s t) :
    Tied V c ⟨(s.setG (readerLookup s.g idx d msg).1).setThread t
      (.reader idx (readerLookup s.g idx d msg).2), p⟩ := by
  obtain ⟨b, hb⟩ := Option.isSome_iff_exists.mp (hw.readerUsed t idx (by rw [ht]; rfl))
  have hcases := readerLookup_cases s.g idx d msg
  have hback : (readerLookup s.g idx d msg).1.backends = s.g.backends := by
    generalize readerLookup s.g idx d msg = r at hcases
    cases hcases <;> rfl
  by_cases hbc : b.conn = c
  · refine h.reader hw ht hb hbc h.ok (fun hi => hi) (fun k _ => by rw [hback]) fun b' hb' hf => ?_
    rw [hback] at hb'
    rw [show b' = b from Option.some.inj (hb'.symm.trans hb)]
    exact hf.lookedUp hl (hw.lookupId t idx d msg ht)
  · refine h.readerElsewhere (fun k _ => by rw [hback]) (fun b' hb' => ?_) fun i fl hfl hown => ?_
    · rw [hback] at hb'
      rw [show b' = b from Option.some.inj (hb'.symm.trans hb)]
      exact hbc
    · have hrelease : ∀ j fj, s.g.inflight j = some fj → fj.backend = idx →
          (inflightRelease s.g j).inflight i = some fl := by
        intro j fj hfj howner
        have hji : i ≠ j := by
          rintro rfl
          rw [hfl] at hfj
          cases hfj
          exact hown howner
        rw [inflightRelease_inflight, Slots.clear_ne _ hji]
        exact hfl
      generalize readerLookup s.g idx d msg = r at hcases
      cases hcases with
      | missed _ => exact hfl
      | foreign j fj hf hfj hne => exact absurd ⟨idx, d, msg, j, fj, ht, hf, hfj, hne⟩ hno
      | refreshed j fj hf hfj howner _ _ _ => exact hrelease j fj hfj howner
      | answered j fj hf hfj howner _ => exact hrelease j fj hfj howner

/-- The reader applies a result. -/
theorem Tied.applied (h : Tied V c ⟨s, p⟩) (hw : Wf s) {t : Nat} {idx : Fin maxBackends}
    {result : Json} {g' : Global} (ht : s.threads t = .reader idx (.apply result))
    (ha : applyToolsResult s.g idx result = some g') (hkeep : Keeps V c s p (.applyResult t)) :
    Tied V c ⟨(s.setG g').setThread t (.reader idx .emitCheck), p⟩ := by
  obtain ⟨b, b', hb, hconn, -, -, -, hg⟩ := applyToolsResult_some ha
  have hback : g'.backends = s.g.backends.put idx b' := by
    rcases hg with ⟨-, -, -, rfl⟩ | ⟨slug, -, -, -, rfl⟩ <;> rfl
  have hinflight : g'.inflight = s.g.inflight := (applyToolsResult_inflight ha).1
  have hother : ∀ k, k ≠ idx → g'.backends k = s.g.backends k := by
    intro k hk
    rw [hback, Slots.put_ne _ _ hk]
  have hself : g'.backends idx = some b' := by rw [hback, Slots.put_same]
  by_cases hbc : b.conn = c
  · refine h.reader hw ht hb hbc h.ok (fun hi => hi) hother fun b₁ hb₁ hf => ?_
    rw [show b₁ = b' from Option.some.inj (hb₁.symm.trans hself)]
    obtain ⟨held, ⟨-, tools, r, rfl⟩, -⟩ := id hf
    exact hf.applied hinflight (hkeep.records t idx b b' tools r g' rfl ht hb hbc ha hself)
  · refine h.readerElsewhere hother (fun b₁ hb₁ => ?_) fun i fl hfl _ => hinflight ▸ hfl
    rw [show b₁ = b' from Option.some.inj (hb₁.symm.trans hself), hconn]
    exact hbc

/-- A backend is torn down. -/
theorem Tied.teardown (h : Tied V c ⟨s, p⟩) {t : Nat} {idx : Fin maxBackends} :
    Tied V c ⟨((s.setG (backendTeardownLocked s.g idx).1).emit
      (backendTeardownLocked s.g idx).2).setThread t .emitCheck, p⟩ := by
  have hkept : ∀ k b', (((s.setG (backendTeardownLocked s.g idx).1).emit
      (backendTeardownLocked s.g idx).2).setThread t .emitCheck).g.backends k = some b' →
      k ≠ idx ∧ s.g.backends k = some b' := by
    intro k b' hb'
    rw [Sys.setThread_g, Sys.emit_g, Sys.setG_g, backendTeardownLocked_eq] at hb'
    change s.g.backends.clear idx k = some b' at hb'
    rw [Slots.clear_apply] at hb'
    split at hb'
    · cases hb'
    · next hne => exact ⟨hne, hb'⟩
  refine h.quiet (by simp) ?_ (fun k b' hb' hbc => ⟨b', (hkept k b' hb').2, hbc, rfl⟩)
    fun k b' hb' _ i fl hfl hown => ?_
  · refine off_setThread (fun sh pid pc he => (by cases he)) (fun k pc b he => (by cases he)) ?_
    rw [Sys.emit_threads, Sys.setG_threads]
  · rw [Sys.setThread_g, Sys.emit_g, Sys.setG_g, backendTeardownLocked_eq]
    exact keepOthers_some.mpr ⟨hfl, hown ▸ (hkept k b' hb').1⟩

/-! ## The step lemma -/

/-- Main, poll or a thread with no connection moves, and the tables keep their entries. -/
theorem Tied.plain {s' : Sys} (h : Tied V c ⟨s, p⟩) (hconns : s'.conns = s.conns)
    (hth : ∀ t, s'.threads t = s.threads t ∨ Off c s s' t)
    (hg : s'.g = s.g ∨ SameTables s.g s'.g) : Tied V c ⟨s', p⟩ := by
  refine h.still (Nat.le_of_eq hconns.symm) hth ?_ ?_
  · rcases hg with hg | ⟨l, b, hg⟩ <;> rw [hg]
  · rcases hg with hg | ⟨l, b, hg⟩ <;> rw [hg] <;> exact fun _ _ hfl => hfl

/-- A setup is started, or not. -/
theorem Tied.spawned (h : Tied V c ⟨s, p⟩) (sh : Bool) (pid : ℤ) (r : Spawn) (pc : PollPc) :
    Tied V c ⟨{ s.spawnSetup sh pid r with poll := pc }, p⟩ := by
  obtain ⟨-, -, -, hconns⟩ := spawnSetup_rest s sh pid r
  refine h.plain hconns (fun u => ?_) (Or.inr (spawnSetup_same s sh pid r))
  rcases spawnSetup_thread s sh pid r u with hold | ⟨-, hnew⟩
  · exact Or.inl hold
  · have hu : ({ s.spawnSetup sh pid r with poll := pc } : Sys).threads u =
        .setup sh pid .connect := hnew
    refine Or.inr ⟨fun sh' pid' pc' he => ?_, fun idx pc' b he => ?_⟩
    · cases hu.symm.trans he
      exact fun hc => by cases hc
    · cases hu.symm.trans he

theorem tied_agg {s' : Sys} {a : Act} (h : Tied V c ⟨s, p⟩) (hst : DisplayxrMcp.Step s a s')
    (hr : Reads c p.outbox (s.recvd a) rest) (hw : Wf s) (hl : LocalIds s) (hroom : IdRoom s a)
    (hno : NoForeign s a) (hgo : RefreshGoes c s a) (hparse : ListsParse c s p a)
    (hkeep : Keeps V c s p a) :
    Tied V c ⟨s', p.exchange rest (sentTo c (s.sent a))⟩ := by
  have hoff : ∀ {s₀ : Sys} {t : Nat} {th : Thread}, s₀.threads = s.threads →
      (∀ sh pid pc, th = .setup sh pid pc → pc.conn = none) → (∀ idx pc, th ≠ .reader idx pc) →
      ∀ u, (s₀.setThread t th).threads u = s.threads u ∨ Off c s (s₀.setThread t th) u := by
    intro s₀ t th hs hsetup hreader
    refine off_setThread (fun sh pid pc he => ?_) (fun idx pc' b he => absurd he (hreader idx pc')) hs
    rw [hsetup sh pid pc he]
    simp
  -- on a step that neither reads nor writes the server is left as it is
  have hquiet : s.recvd a = none → s.sent a = none → Tied V c ⟨s', p⟩ →
      Tied V c ⟨s', p.exchange rest (sentTo c (s.sent a))⟩ := by
    intro hrecv hsent ht
    rw [hrecv] at hr
    rw [hsent, show sentTo c none = [] from rfl, reads_none hr, Peer.exchange_self]
    exact ht
  cases hst with
  | agentFrame hm =>
      rw [reads_none hr]
      exact h.handled hw hl fun id hid => hroom (allocates_call hid)
  | agentWrite hm => exact hquiet rfl rfl (h.plain rfl (fun _ => Or.inl rfl) (Or.inl rfl))
  | markInitialized hm =>
      refine hquiet rfl rfl (h.still (Nat.le_refl _) (fun _ => Or.inl rfl) rfl fun _ _ hfl => hfl)
  | pollScan hp hlen =>
      exact hquiet rfl rfl (h.plain rfl (fun _ => Or.inl rfl) (Or.inr (pollScan_same s.g _ _)))
  | pollSpawn hp hfresh => exact hquiet rfl rfl (h.spawned _ _ _ _)
  | pollSpawnShell hp hfresh => exact hquiet rfl rfl (h.spawned _ _ _ _)
  | pollSleep hp => exact hquiet rfl rfl (h.plain rfl (fun _ => Or.inl rfl) (Or.inl rfl))
  | connect ht => exact hquiet rfl rfl (h.connect hw)
  | connectFail ht => exact hquiet rfl rfl (h.setupElsewhere (by simp [SetupPc.conn]))
  | @syncSend t sh pid c' ph ok ht =>
      rw [reads_none hr]
      simp only [Sys.sent, ht]
      exact h.syncSend hw ht
  | @syncRecv t sh pid c' ph k f ht =>
      simp only [Sys.recvd, ht] at hr
      exact h.syncRecv hw ht hr
  | @sendInitialized t sh pid c' appId ok ht =>
      rw [reads_none hr]
      simp only [Sys.sent, ht]
      exact h.sendInitialized hw ht
  | registerFull ht hreg => exact hquiet rfl rfl (h.setupElsewhere (by simp [SetupPc.conn]))
  | @registerNoThread t sh pid c' appId resp exe idx g' ht hreg =>
      obtain ⟨b, hidx, -, -, -, -, -, -, hg⟩ := backendRegister_some hreg
      have hinflight : g'.inflight = s.g.inflight := (backendRegister_inflight hreg).1
      have hunused := hw.register_unused hreg
      refine hquiet rfl rfl (h.still (by simp) ?_ ?_ ?_)
      · refine hoff (by rw [Sys.emit_threads, Sys.setG_threads]) (fun sh' pid' pc he => ?_)
          fun _ _ he => by cases he
        cases he
        rfl
      · rw [Sys.setThread_g, Sys.emit_g, Sys.setG_g, backendTeardownLocked_eq]
        rcases hg with ⟨-, -, rfl⟩ | ⟨-, -, rfl⟩ <;> exact Slots.clear_put_of_free _ _ hidx
      · intro i fl hfl
        rw [Sys.setThread_g, Sys.emit_g, Sys.setG_g, backendTeardownLocked_unused hunused]
        exact hinflight ▸ hfl
  | @registered t t' sh pid c' appId resp exe idx g' ht hreg hfree =>
      refine hquiet rfl rfl (h.registered hw ht hreg fun b hc hb => ?_)
      subst hc
      exact hkeep.begins t t' exe sh pid appId resp idx g' b rfl ht hreg hb
  | @connectingRemove t sh pid registered ht =>
      refine hquiet rfl rfl (h.plain rfl ?_ (Or.inr (connectingRemove_same s.g sh pid)))
      refine hoff rfl (fun sh' pid' pc he => ?_) fun _ _ he => ?_
      · split at he <;> cases he
      · split at he <;> cases he
  | @readerTop t idx ht =>
      refine hquiet rfl rfl (h.blank ht trivial ?_ rfl rfl rfl)
      split <;> trivial
  | @recv t idx c' f ht =>
      simp only [Sys.recvd, ht] at hr
      exact h.recv hw ht hr hparse
  | @refresh t idx ok ht =>
      rw [reads_none hr]
      simp only [Sys.sent, ht]
      exact h.refresh hw hl ht (hroom rfl) hgo
  | lookup ht => exact hquiet rfl rfl (h.lookup hw hl ht hno)
  | applied ht ha => exact hquiet rfl rfl (h.applied hw ht ha hkeep)
  | @notApplied t idx result ht ha =>
      obtain ⟨b, hb⟩ := Option.isSome_iff_exists.mp (hw.readerUsed t idx (by rw [ht]; rfl))
      exact absurd ha (applyToolsResult_isSome hb)
  | relay ht => exact hquiet rfl rfl (h.blank ht trivial trivial rfl rfl rfl)
  | @readerEmitCheck t idx ht =>
      refine hquiet rfl rfl (h.blank ht trivial ?_ rfl rfl rfl)
      split <;> trivial
  | readerEmitWrite ht => exact hquiet rfl rfl (h.blank ht trivial trivial rfl rfl rfl)
  | teardown ht => exact hquiet rfl rfl h.teardown
  | emitCheck ht =>
      refine hquiet rfl rfl (h.plain rfl ?_ (Or.inl rfl))
      refine hoff rfl (fun sh' pid' pc he => ?_) fun _ _ he => ?_
      · split at he <;> cases he
      · split at he <;> cases he
  | emitWrite ht =>
      refine hquiet rfl rfl (h.plain rfl ?_ (Or.inl rfl))
      exact hoff rfl (fun sh' pid' pc he => by cases he) fun _ _ he => by cases he

end

end DisplayxrMcp.Pair
