/-
  What one step of the aggregator does to one connection.

  A connection is held by the setup thread that made it and, from the
  registration on, by the reader of its backend (`Holder`, `HeldBy`). `LinkStep`
  lists what a step can do to the holder, to the in-flight slots of its backend
  and to the traffic with the server. `held_step` is the inversion: an invariant of
  a connection needs a case for each entry of the list, and none for a step of the
  aggregator.
-/
import DisplayxrMcp.Pair.Tied

namespace DisplayxrMcp.Pair

open Lib Cjson Lts

/-- Who holds a connection, and where it stands. -/
inductive Holder where
  | setup (pc : SetupPc)
  | reader (idx : Fin maxBackends) (pc : ReaderPc)

def HeldBy (s : Sys) (c : ConnId) : Holder → Prop
  | .setup pc => pc.conn = some c ∧ ∃ t sh pid, s.threads t = .setup sh pid pc
  | .reader idx pc => (∃ t, s.threads t = .reader idx pc) ∧
      ∃ b, s.g.backends idx = some b ∧ b.conn = c

/-- Both tables have the same slots for backend `idx`. -/
def SameSlots (g g' : Global) (idx : Fin maxBackends) : Prop :=
  ∀ i fl, fl.backend = idx → (g'.inflight i = some fl ↔ g.inflight i = some fl)

/-- The reader is about to look an id up. -/
def Looks : ReaderPc → Prop
  | .lookup _ _ => True
  | _ => False

/-- A `tools/call` of the agent that names a tool. -/
structure Call where
  id : Json
  full : CStr
  args : Option Json

/-- The call in a frame. -/
def callOf (frame : Option Json) : Option Call :=
  match requestOf frame with
  | some (method, id, params) =>
      if method = ascii "tools/call" then
        (Json.string? (params.bind (·.getObjectItemCaseSensitive (ascii "name")))).map fun full =>
          ⟨id, full, params.bind (·.getObjectItemCaseSensitive (ascii "arguments"))⟩
      else none
  | none => none

/-- The call is routed to backend `idx`, as a call of the tool `bare`. -/
structure Forwards (g : Global) (frame : Option Json) (call : Call) (idx : Fin maxBackends)
    (bare : CStr) : Prop where
  reads : callOf frame = some call
  other : call.full ≠ listAppsName
  route : ∃ b, route g call.full = .backend idx b bare

/-- What a step can do to connection `c`: the holder and the server after it. -/
inductive LinkStep (c : ConnId) (s : Sys) (a : Act) (g' : Global) (p : Peer) :
    Holder → Peer → Prop where
  | still {h} (hh : HeldBy s c h) (hslots : ∀ idx pc, h = .reader idx pc → SameSlots s.g g' idx) :
      LinkStep c s a g' p h p
  | moved {idx pc pc'} (hh : HeldBy s c (.reader idx pc)) (hpc : ¬ Looks pc) (hpc' : ¬ Looks pc')
      (hslots : SameSlots s.g g' idx) : LinkStep c s a g' p (.reader idx pc') p
  | connected (hc : s.conns = c) : LinkStep c s a g' p (.setup (.send c .hello)) p
  | asked {ph} (hh : HeldBy s c (.setup (.send c ph))) :
      LinkStep c s a g' p (.setup (.recv c ph 0)) (p.exchange p.outbox [ph.request])
  | noted {appId sent} (hh : HeldBy s c (.setup (.initialized c appId)))
      (hsent : sent = [] ∨ sent = [initializedNote]) :
      LinkStep c s a g' p (.setup (.send c (.list appId))) (p.exchange p.outbox sent)
  | heard {ph k f rest} (hh : HeldBy s c (.setup (.recv c ph k))) (hx : p.outbox = f :: rest) :
      LinkStep c s a g' p (.setup (syncStep c ph k (.msg f.body))) (p.exchange rest [])
  | registered {idx appId resp} (hh : HeldBy s c (.setup (.register c appId resp)))
      (hno : ∀ i fl, g'.inflight i = some fl → fl.backend ≠ idx) :
      LinkStep c s a g' p (.reader idx .top) p
  | called {idx pc frame call bare i} (hh : HeldBy s c (.reader idx pc))
      (ha : a = .agentFrame frame true) (hf : Forwards s.g frame call idx bare)
      (hlt : s.g.nextLocalId + 1 < localIdLimit) (hfree : s.g.inflight i = none)
      (hg : g'.inflight = s.g.inflight.put i
        ⟨s.g.nextLocalId + 1, idx, .agent, some call.id, some s.frames.length⟩) :
      LinkStep c s a g' p (.reader idx pc) (p.exchange p.outbox
        [(forwardRequest (s.g.nextLocalId + 1) bare call.args).reparse])
  | refreshed {idx i} (hh : HeldBy s c (.reader idx .refresh))
      (hlt : s.g.nextLocalId + 1 < localIdLimit) (hfree : s.g.inflight i = none)
      (hg : g'.inflight = s.g.inflight.put i
        ⟨s.g.nextLocalId + 1, idx, .toolsRefresh, none, none⟩) :
      LinkStep c s a g' p (.reader idx .top)
        (p.exchange p.outbox [refreshRequest (s.g.nextLocalId + 1)])
  | got {idx f rest} (hh : HeldBy s c (.reader idx (.read c))) (hx : p.outbox = f :: rest)
      (hslots : SameSlots s.g g' idx) :
      LinkStep c s a g' p (.reader idx (onMessage f.body)) (p.exchange rest [])
  | dropped {idx t f rest} (hh : HeldBy s c (.reader idx (.read c))) (ha : a = .recv t .junk)
      (ht : s.threads t = .reader idx (.read c)) (hx : p.outbox = f :: rest)
      (hj : f.inbound = .junk) (hslots : SameSlots s.g g' idx) :
      LinkStep c s a g' p (.reader idx .top) (p.exchange rest [])
  | looked {idx d msg} (hh : HeldBy s c (.reader idx (.lookup d msg)))
      (hg : g' = (readerLookup s.g idx d msg).1) :
      LinkStep c s a g' p (.reader idx (readerLookup s.g idx d msg).2) p

/-! ## Holders -/

section

variable {c : ConnId} {s s' : Sys} {h : Holder} {t : Nat}

/-- A connection has one holder. -/
theorem held_backend (hw : Wf s) (hh : HeldBy s c h) {idx : Fin maxBackends} {b : Backend}
    (hb : s.g.backends idx = some b) (hbc : b.conn = c) : ∃ pc, h = .reader idx pc := by
  cases h with
  | setup pc =>
      obtain ⟨hpc, u, sh, pid, hu⟩ := hh
      exact absurd (hbc ▸ hpc) (backend_not_setup hw hb hu)
  | reader k pc =>
      obtain ⟨-, b', hb', hbc'⟩ := hh
      rw [backend_unique hw hb hb' (hbc'.trans hbc.symm)]
      exact ⟨pc, rfl⟩

/-- Threads and backends stay as they were. -/
theorem HeldBy.same (hh : HeldBy s' c h) (ht : s'.threads = s.threads)
    (hb : s'.g.backends = s.g.backends) : HeldBy s c h := by
  cases h with
  | setup pc => rw [HeldBy, ht] at hh; exact hh
  | reader idx pc => rw [HeldBy, ht, hb] at hh; exact hh

/-- Thread `t` moves: it is the holder, or the holder was there before. -/
theorem HeldBy.back (hh : HeldBy s' c h) (hth : ∀ u, u ≠ t → s'.threads u = s.threads u)
    (hback : ∀ k b', s'.g.backends k = some b' → ∃ b, s.g.backends k = some b ∧ b.conn = b'.conn) :
    (∃ sh pid pc, h = .setup pc ∧ s'.threads t = .setup sh pid pc ∧ pc.conn = some c) ∨
      (∃ idx pc b, h = .reader idx pc ∧ s'.threads t = .reader idx pc ∧
        s.g.backends idx = some b ∧ b.conn = c) ∨
      ∃ u, u ≠ t ∧ HeldBy s c h ∧ ((∃ sh pid pc, h = .setup pc ∧ s.threads u = .setup sh pid pc) ∨
        ∃ idx pc, h = .reader idx pc ∧ s.threads u = .reader idx pc) := by
  cases h with
  | setup pc =>
      obtain ⟨hpc, u, sh, pid, hu⟩ := hh
      by_cases hut : u = t
      · exact Or.inl ⟨sh, pid, pc, rfl, hut ▸ hu, hpc⟩
      · rw [hth u hut] at hu
        exact Or.inr (Or.inr ⟨u, hut, ⟨hpc, u, sh, pid, hu⟩, Or.inl ⟨sh, pid, pc, rfl, hu⟩⟩)
  | reader idx pc =>
      obtain ⟨⟨u, hu⟩, b', hb', hbc⟩ := hh
      obtain ⟨b, hb, hbb⟩ := hback idx b' hb'
      by_cases hut : u = t
      · exact Or.inr (Or.inl ⟨idx, pc, b, rfl, hut ▸ hu, hb, hbb.trans hbc⟩)
      · rw [hth u hut] at hu
        exact Or.inr (Or.inr ⟨u, hut, ⟨⟨u, hu⟩, b, hb, hbb.trans hbc⟩, Or.inr ⟨idx, pc, rfl, hu⟩⟩)

/-- The step of a setup thread: it holds the connection, or another holder stays. -/
theorem held_setup (hh : HeldBy s' c h) (hw : Wf s) {sh : Bool} {pid : ℤ} {pc pc' : SetupPc} {c' : ConnId} {th : Thread}
    (ht : s.threads t = .setup sh pid pc) (hpc : pc.conn = some c')
    (hth : s'.threads = (s.setThread t th).threads) (hb : s'.g.backends = s.g.backends)
    (hnew : th = .setup sh pid pc' ∨ (∀ sh pid pc, th = .setup sh pid pc → pc.conn = none) ∧
      ∀ idx pc, th ≠ .reader idx pc)
    (hconn : pc'.conn = none ∨ pc'.conn = some c') :
    (c' = c ∧ h = .setup pc' ∧ HeldBy s c (.setup pc)) ∨ (c' ≠ c ∧ HeldBy s c h) := by
  have hthread : s'.threads t = th := by rw [hth, Sys.setThread_same]
  rcases hh.back (s := s) (t := t) (fun u hu => by rw [hth, Sys.setThread_ne _ _ hu])
    (fun k b' hb' => ⟨b', hb ▸ hb', rfl⟩) with
    ⟨sh', pid', pc₁, rfl, he, hc⟩ | ⟨idx, pc₁, b, rfl, he, -, -⟩ | ⟨u, hut, hold, huc⟩
  · rw [hthread] at he
    rcases hnew with rfl | ⟨hno, -⟩
    · cases he
      rcases hconn with hconn | hconn
      · rw [hconn] at hc
        cases hc
      · rw [hconn] at hc
        cases hc
        exact Or.inl ⟨rfl, rfl, hpc, t, sh, pid, ht⟩
    · rw [hno sh' pid' pc₁ he] at hc
      cases hc
  · rw [hthread] at he
    rcases hnew with rfl | ⟨-, hno⟩
    · cases he
    · exact absurd he (hno idx pc₁)
  · refine Or.inr ⟨?_, hold⟩
    rintro rfl
    rcases huc with ⟨sh', pid', pc₁, rfl, hu⟩ | ⟨idx, pc₁, rfl, hu⟩
    · exact hut (hw.setup_unique hu hold.1 ht hpc)
    · obtain ⟨-, b, hb', hbc⟩ := hold
      exact backend_not_setup hw hb' ht (hbc ▸ hpc)

/-- The step of a reader: it holds the connection, or another holder stays. -/
theorem held_reader (hh : HeldBy s' c h) (hw : Wf s) {idx : Fin maxBackends} {pc pc' : ReaderPc}
    (ht : s.threads t = .reader idx pc)
    (hth : s'.threads = (s.setThread t (.reader idx pc')).threads)
    (hback : ∀ k b', s'.g.backends k = some b' →
      ∃ b, s.g.backends k = some b ∧ b.conn = b'.conn) :
    (h = .reader idx pc' ∧ HeldBy s c (.reader idx pc)) ∨
      (HeldBy s c h ∧ (∀ b, s.g.backends idx = some b → b.conn ≠ c) ∧
        ∀ k pc, h = .reader k pc → k ≠ idx) := by
  have hthread : s'.threads t = .reader idx pc' := by rw [hth, Sys.setThread_same]
  rcases hh.back (s := s) (t := t) (fun u hu => by rw [hth, Sys.setThread_ne _ _ hu]) hback with
    ⟨sh', pid', pc₁, rfl, he, hc⟩ | ⟨k, pc₁, b, rfl, he, hb, hbc⟩ | ⟨u, hut, hold, huc⟩
  · rw [hthread] at he
    cases he
  · rw [hthread] at he
    cases he
    exact Or.inl ⟨rfl, ⟨t, ht⟩, b, hb, hbc⟩
  · have hnot : ∀ k pc, h = .reader k pc → k ≠ idx := by
      rintro k pc₁ rfl rfl
      rcases huc with ⟨_, _, _, he, _⟩ | ⟨k', pc₂, he, hu⟩
      · cases he
      · cases he
        exact hut (reader_unique hw ht hu)
    refine Or.inr ⟨hold, fun b hb hbc => ?_, hnot⟩
    obtain ⟨pc₁, hpc₁⟩ := held_backend hw hold hb hbc
    exact hnot idx pc₁ hpc₁ rfl

theorem sameSlots_refl (g : Global) (idx : Fin maxBackends) : SameSlots g g idx :=
  fun _ _ _ => Iff.rfl

theorem sameSlots_of_eq {g g' : Global} (hg : g'.inflight = g.inflight) (idx : Fin maxBackends) :
    SameSlots g g' idx := fun i fl _ => by rw [hg]

/-- A slot taken for another backend. -/
theorem sameSlots_put {g g' : Global} {idx : Fin maxBackends} {i : Fin maxInflight} {fl : Inflight}
    (hfree : g.inflight i = none) (hg : g'.inflight = g.inflight.put i fl)
    (hne : fl.backend ≠ idx) : SameSlots g g' idx := by
  intro k fk hk
  rw [hg, Slots.put_apply]
  split
  · next he =>
      rw [he, hfree]
      constructor
      · intro h
        cases h
        exact absurd hk hne
      · intro h
        cases h
  · exact Iff.rfl

/-- A slot of another backend is released. -/
theorem sameSlots_release {g : Global} {idx : Fin maxBackends} {i : Fin maxInflight} {fl : Inflight}
    (hfl : g.inflight i = some fl) (hne : fl.backend ≠ idx) :
    SameSlots g (inflightRelease g i) idx := by
  intro k fk hk
  rw [inflightRelease_inflight, Slots.clear_apply]
  split
  · next he =>
      rw [he, hfl]
      constructor
      · intro h
        cases h
      · intro h
        cases h
        exact absurd hk hne
  · exact Iff.rfl

/-- A lookup releases no slot but its backend's own, unless it names another's. -/
theorem sameSlots_lookup {idx k : Fin maxBackends} {d : Dbl} {msg : Json}
    (ht : s.threads t = .reader idx (.lookup d msg)) (hno : ¬ NamesForeign s t) (hk : k ≠ idx) :
    SameSlots s.g (readerLookup s.g idx d msg).1 k := by
  have hcases := readerLookup_cases s.g idx d msg
  generalize readerLookup s.g idx d msg = r at hcases
  cases hcases with
  | missed _ => exact sameSlots_refl _ _
  | foreign i fl hf hfl hne => exact absurd ⟨idx, d, msg, i, fl, ht, hf, hfl, hne⟩ hno
  | refreshed i fl hf hfl hown _ _ _ => exact sameSlots_release hfl (hown ▸ hk.symm)
  | answered i fl hf hfl hown _ => exact sameSlots_release hfl (hown ▸ hk.symm)

theorem lookup_backends (g : Global) (idx : Fin maxBackends) (d : Dbl) (msg : Json) :
    (readerLookup g idx d msg).1.backends = g.backends := by
  have hcases := readerLookup_cases g idx d msg
  generalize readerLookup g idx d msg = r at hcases
  cases hcases <;> rfl

/-- Nothing moves on the connection. -/
theorem LinkStep.keep {a : Act} {g' : Global} {p : Peer} (hh : HeldBy s c h)
    (hg : g'.inflight = s.g.inflight) : LinkStep c s a g' p h p :=
  .still hh fun idx _ _ => sameSlots_of_eq hg idx

end

theorem callOf_call {frame : Option Json} {id : Json} {params : Option Json} {full : CStr}
    (hreq : requestOf frame = some (ascii "tools/call", id, params))
    (hname : Json.string? (params.bind (·.getObjectItemCaseSensitive (ascii "name"))) = some full) :
    callOf frame =
      some ⟨id, full, params.bind (·.getObjectItemCaseSensitive (ascii "arguments"))⟩ := by
  simp only [callOf, hreq, if_true, hname, Option.map_some]

theorem callOf_isCall {frame : Option Json} {call : Call} (h : callOf frame = some call) :
    IsCall frame call.id := by
  unfold callOf at h
  split at h
  · next method id params hreq =>
      split at h
      · next hm =>
          obtain ⟨full, -, rfl⟩ := Option.map_eq_some_iff.mp h
          exact ⟨params, hm ▸ hreq⟩
      · cases h
  · cases h

/-! ## Steps -/

section

variable {c : ConnId} {s s' : Sys} {a : Act} {p : Peer} {h : Holder} {t : Nat}

/-- A thread moves to where it holds no connection. -/
theorem held_other (hh : HeldBy s' c h) {th : Thread} (hth : s'.threads = (s.setThread t th).threads)
    (hback : ∀ k b', s'.g.backends k = some b' → ∃ b, s.g.backends k = some b ∧ b.conn = b'.conn)
    (hsetup : ∀ sh pid pc, th = .setup sh pid pc → pc.conn = none)
    (hreader : ∀ idx pc, th ≠ .reader idx pc) : HeldBy s c h := by
  have hthread : s'.threads t = th := by rw [hth, Sys.setThread_same]
  rcases hh.back (s := s) (t := t) (fun u hu => by rw [hth, Sys.setThread_ne _ _ hu]) hback with
    ⟨sh, pid, pc, -, he, hc⟩ | ⟨idx, pc, b, -, he, -, -⟩ | ⟨u, -, hold, -⟩
  · rw [hsetup sh pid pc (hthread.symm.trans he)] at hc
    cases hc
  · exact absurd (hthread.symm.trans he) (hreader idx pc)
  · exact hold

/-- A setup that is started holds no connection yet. -/
theorem held_spawn (hh : HeldBy s' c h) {sh : Bool} {pid : ℤ} {r : Spawn}
    (hth : s'.threads = (s.spawnSetup sh pid r).threads) (hb : s'.g.backends = s.g.backends) :
    HeldBy s c h := by
  have hold : ∀ u, s'.threads u = s.threads u ∨ s'.threads u = .setup sh pid .connect := by
    intro u
    rw [hth]
    exact (spawnSetup_thread s sh pid r u).imp_right And.right
  cases h with
  | setup pc =>
      obtain ⟨hpc, u, sh', pid', hu⟩ := hh
      rcases hold u with he | he
      · exact ⟨hpc, u, sh', pid', he ▸ hu⟩
      · rw [hu] at he
        cases he
        cases hpc
  | reader idx pc =>
      obtain ⟨⟨u, hu⟩, b, hb', hbc⟩ := hh
      rcases hold u with he | he
      · exact ⟨⟨u, he ▸ hu⟩, b, hb ▸ hb', hbc⟩
      · rw [hu] at he
        cases he

/-- The main loop handles a frame of the agent. -/
theorem link_frame (hw : Wf s) {frame : Option Json} {ok : Bool}
    (hroom : ∀ id, IsCall frame id → s.g.nextLocalId + 1 < localIdLimit)
    (hh : HeldBy (s.onAgentFrame frame ok) c h) :
    LinkStep c s (.agentFrame frame ok) (s.onAgentFrame frame ok).g p h (p.exchange p.outbox
      (sentTo c (handleAgentFrame s.g s.frames.length frame ok).sent)) := by
  have hcases := handleAgentFrame_cases s.g s.frames.length frame ok
  generalize hrun : handleAgentFrame s.g s.frames.length frame ok = r at hcases
  have hg : (s.onAgentFrame frame ok).g = r.g := by rw [Sys.onAgentFrame, hrun]
  rw [hg]
  cases hcases with
  | answered reply hcall =>
      rw [show sentTo c none = [] from rfl, Peer.exchange_self]
      exact .keep (hh.same rfl (by rw [hg])) rfl
  | unwritten id reply hok hcall hr =>
      rw [show sentTo c none = [] from rfl, Peer.exchange_self]
      exact .keep (hh.same rfl (by rw [hg])) rfl
  | forwarded id params full idx b bare args i hok hcall hfull hnot hroute hargs hfree =>
      obtain ⟨-, -, -, -, -, -, hb⟩ := route_backend hroute
      have hold : HeldBy s c h := hh.same rfl (by rw [hg])
      have hslot := Slots.firstFree_some hfree
      rw [nextLocalId_mod (hroom id ⟨params, hcall⟩)]
      by_cases hbc : b.conn = c
      · obtain ⟨pc, rfl⟩ := held_backend hw hold hb hbc
        subst hok hargs
        rw [hbc, sentTo_self]
        exact .called hold rfl ⟨callOf_call hcall hfull, hnot, b, hroute⟩
          (hroom id ⟨params, hcall⟩) hslot rfl
      · rw [sentTo_ne hbc, Peer.exchange_self]
        refine .still hold fun k pc hk => sameSlots_put hslot rfl ?_
        rintro rfl
        subst hk
        obtain ⟨-, b', hb', hbc'⟩ := hold
        rw [hb] at hb'
        cases hb'
        exact hbc hbc'

/-- The registration hands the connection to a reader. -/
theorem link_registered (hw : Wf s) {t' : Nat} {sh : Bool} {pid : ℤ} {c' : ConnId} {appId : CStr}
    {resp : Json} {exe : CStr} {idx : Fin maxBackends} {g' : Global}
    (ht : s.threads t = .setup sh pid (.register c' appId resp))
    (hreg : backendRegister s.g sh pid c' appId resp exe = some (idx, g'))
    (hh : HeldBy (((s.setG g').setThread t (.setup sh pid (.remove true))).setThread t'
      (.reader idx .top)) c h) : LinkStep c s a g' p h p := by
  obtain ⟨b, hidx, hbc, -, -, -, -, -, hg⟩ := backendRegister_some hreg
  have hback : g'.backends = s.g.backends.put idx b := by
    rcases hg with ⟨-, -, rfl⟩ | ⟨-, -, rfl⟩ <;> rfl
  have hinflight : g'.inflight = s.g.inflight := (backendRegister_inflight hreg).1
  have hthreads : ∀ u, (((s.setG g').setThread t (.setup sh pid (.remove true))).setThread t'
      (.reader idx .top)).threads u = if u = t' then .reader idx .top
        else if u = t then .setup sh pid (.remove true) else s.threads u := by
    intro u
    rw [Sys.setThread_apply, Sys.setThread_apply, Sys.setG_threads]
  cases h with
  | setup pc =>
      obtain ⟨hpc, u, sh', pid', hu⟩ := hh
      rw [hthreads] at hu
      split at hu
      · cases hu
      · split at hu
        · cases hu
          cases hpc
        · exact .keep ⟨hpc, u, sh', pid', hu⟩ hinflight
  | reader k pc =>
      obtain ⟨⟨u, hu⟩, b', hb', hbc'⟩ := hh
      change g'.backends k = some b' at hb'
      rw [hthreads] at hu
      split at hu
      · cases hu
        rw [hback, Slots.put_same] at hb'
        cases hb'
        have hc : c' = c := hbc.symm.trans hbc'
        subst hc
        exact .registered ⟨rfl, t, sh, pid, ht⟩ (hw.register_unused hreg)
      · split at hu
        · cases hu
        · have hused := hw.readerUsed u k (by rw [hu]; rfl)
          have hk : k ≠ idx := by
            rintro rfl
            rw [hidx] at hused
            cases hused
          rw [hback, Slots.put_ne _ _ hk] at hb'
          exact .keep ⟨⟨u, hu⟩, b', hb', hbc'⟩ hinflight

/-- A refresh takes a slot and writes, or does nothing. -/
theorem link_refresh (hw : Wf s) {idx : Fin maxBackends} {ok : Bool}
    (ht : s.threads t = .reader idx .refresh) (hlt : s.g.nextLocalId + 1 < localIdLimit)
    (hh : HeldBy ((s.setG (refreshBackendTools s.g idx ok).1).setThread t (.reader idx .top)) c h) :
    LinkStep c s a (refreshBackendTools s.g idx ok).1 p h
      (p.exchange p.outbox (sentTo c (refreshBackendTools s.g idx ok).2)) := by
  have hcases := refreshBackendTools_cases s.g idx ok
  generalize refreshBackendTools s.g idx ok = r at hcases hh
  have hback : r.1.backends = s.g.backends := by cases hcases <;> rfl
  have hheld := held_reader hh hw ht rfl fun k b' hb' => ⟨b', hback ▸ hb', rfl⟩
  cases hcases with
  | refused _ =>
      rw [show sentTo c none = [] from rfl, Peer.exchange_self]
      rcases hheld with ⟨rfl, hold⟩ | ⟨hold, -, -⟩
      · exact .moved hold id id (sameSlots_refl _ _)
      · exact .keep hold rfl
  | unwritten _ =>
      rw [show sentTo c none = [] from rfl, Peer.exchange_self]
      rcases hheld with ⟨rfl, hold⟩ | ⟨hold, -, -⟩
      · exact .moved hold id id (sameSlots_of_eq rfl _)
      · exact .keep hold rfl
  | written b i _ hb hfree =>
      have hslot := Slots.firstFree_some hfree
      rw [nextLocalId_mod hlt]
      rcases hheld with ⟨rfl, hold⟩ | ⟨hold, hne, hother⟩
      · obtain ⟨-, b', hb', hbc⟩ := id hold
        rw [hb] at hb'
        cases hb'
        rw [hbc, sentTo_self]
        exact .refreshed hold hlt hslot rfl
      · rw [sentTo_ne (hne b hb), Peer.exchange_self]
        exact .still hold fun k pc hk => sameSlots_put hslot rfl (hother k pc hk).symm

/-- The reader reads. -/
theorem link_recv (hw : Wf s) {rest : List Frame} {idx : Fin maxBackends} {c' : ConnId}
    {f : Inbound} (ht : s.threads t = .reader idx (.read c'))
    (hr : Reads c p.outbox (some (c', f)) rest)
    (hh : HeldBy (s.setThread t (.reader idx (onInbound f))) c h) :
    LinkStep c s (.recv t f) s.g p h (p.exchange rest []) := by
  obtain ⟨b, hb, hbc⟩ := hw.readConn t idx c' ht
  rcases held_reader hh hw ht rfl fun k b' hb' => ⟨b', hb', rfl⟩ with
    ⟨rfl, hold⟩ | ⟨hold, hne, -⟩
  · obtain ⟨-, b', hb', hbc'⟩ := id hold
    rw [hb] at hb'
    cases hb'
    have hc : c' = c := hbc.symm.trans hbc'
    subst hc
    cases hr with
    | elsewhere hno => exact absurd rfl (hno f)
    | broken =>
        rw [Peer.exchange_self]
        exact .moved hold id id (sameSlots_refl _ _)
    | @frame f rest hx =>
        rcases f.inbound_cases with he | he
        · rw [he]
          exact .got hold hx (sameSlots_refl _ _)
        · rw [he]
          exact .dropped hold rfl ht hx he (sameSlots_refl _ _)
  · rw [exchange_quiet hr fun f' he => hne b hb (by cases he; exact hbc)]
    exact .keep hold rfl

/-- The reader looks an id up. -/
theorem link_lookup (hw : Wf s) {idx : Fin maxBackends} {d : Dbl} {msg : Json}
    (ht : s.threads t = .reader idx (.lookup d msg)) (hno : ¬ NamesForeign s t)
    (hh : HeldBy ((s.setG (readerLookup s.g idx d msg).1).setThread t
      (.reader idx (readerLookup s.g idx d msg).2)) c h) :
    LinkStep c s a (readerLookup s.g idx d msg).1 p h p := by
  have hback := lookup_backends s.g idx d msg
  rcases held_reader hh hw ht rfl fun k b' hb' => ⟨b', hback ▸ hb', rfl⟩ with
    ⟨rfl, hold⟩ | ⟨hold, -, hother⟩
  · exact .looked hold rfl
  · exact .still hold fun k pc hk => sameSlots_lookup ht hno (hother k pc hk)

/-- A result is applied. -/
theorem link_applied (hw : Wf s) {idx : Fin maxBackends} {result : Json} {g' : Global}
    (ht : s.threads t = .reader idx (.apply result))
    (ha : applyToolsResult s.g idx result = some g')
    (hh : HeldBy ((s.setG g').setThread t (.reader idx .emitCheck)) c h) :
    LinkStep c s a g' p h p := by
  obtain ⟨b, b', hb, hconn, -, -, -, hg⟩ := applyToolsResult_some ha
  have hback : g'.backends = s.g.backends.put idx b' := by
    rcases hg with ⟨-, -, -, rfl⟩ | ⟨slug, -, -, -, rfl⟩ <;> rfl
  have hinflight : g'.inflight = s.g.inflight := (applyToolsResult_inflight ha).1
  have hold : ∀ k b₁, g'.backends k = some b₁ → ∃ b₀, s.g.backends k = some b₀ ∧ b₀.conn = b₁.conn := by
    intro k b₁ hk
    rw [hback, Slots.put_apply] at hk
    split at hk
    · next he =>
        cases hk
        exact ⟨b, he ▸ hb, hconn.symm⟩
    · exact ⟨b₁, hk, rfl⟩
  rcases held_reader hh hw ht rfl hold with ⟨rfl, hheld⟩ | ⟨hheld, -, -⟩
  · exact .moved hheld id id (sameSlots_of_eq hinflight _)
  · exact .keep hheld hinflight

/-- A backend is torn down. -/
theorem link_teardown {idx : Fin maxBackends}
    (hh : HeldBy (((s.setG (backendTeardownLocked s.g idx).1).emit
      (backendTeardownLocked s.g idx).2).setThread t .emitCheck) c h) :
    LinkStep c s a (backendTeardownLocked s.g idx).1 p h p := by
  have hkept : ∀ k b', (backendTeardownLocked s.g idx).1.backends k = some b' →
      k ≠ idx ∧ s.g.backends k = some b' := by
    intro k b' hb'
    rw [backendTeardownLocked_eq] at hb'
    change s.g.backends.clear idx k = some b' at hb'
    rw [Slots.clear_apply] at hb'
    split at hb'
    · cases hb'
    · next hne => exact ⟨hne, hb'⟩
  have hold : HeldBy s c h := by
    refine held_other hh (t := t) (by rw [Sys.setThread, Sys.setThread, Sys.emit_threads,
      Sys.setG_threads]) (fun k b' hb' => ⟨b', (hkept k b' ?_).2, rfl⟩)
      (fun _ _ _ he => by cases he) (fun _ _ he => by cases he)
    rw [Sys.setThread_g, Sys.emit_g, Sys.setG_g] at hb'
    exact hb'
  refine .still hold fun k pc hk i fl hown => ?_
  subst hk
  obtain ⟨-, b', hb', -⟩ := hh
  rw [Sys.setThread_g, Sys.emit_g, Sys.setG_g] at hb'
  rw [backendTeardownLocked_eq]
  exact keepOthers_some.trans (and_iff_left (hown ▸ (hkept k b' hb').1))

/-- A reader moves between points at which it looks nothing up. -/
theorem link_reader (hw : Wf s) {idx : Fin maxBackends} {pc pc' : ReaderPc}
    (ht : s.threads t = .reader idx pc)
    (hth : s'.threads = (s.setThread t (.reader idx pc')).threads)
    (hg : s'.g = s.g) (hpc : ¬ Looks pc) (hpc' : ¬ Looks pc') (hh : HeldBy s' c h) :
    LinkStep c s a s'.g p h p := by
  rw [hg]
  rcases held_reader hh hw ht hth fun k b' hb' => ⟨b', hg ▸ hb', rfl⟩ with
    ⟨rfl, hold⟩ | ⟨hold, -, -⟩
  · exact .moved hold hpc hpc' (sameSlots_refl _ _)
  · exact .keep hold rfl

end

/-- Every step of the aggregator, on one connection. -/
theorem held_step {c : ConnId} {s s' : Sys} {a : Act} {p : Peer} {rest : List Frame} {h : Holder}
    (hst : DisplayxrMcp.Step s a s') (hr : Reads c p.outbox (s.recvd a) rest) (hw : Wf s)
    (hroom : IdRoom s a) (hno : NoForeign s a) (hh : HeldBy s' c h) :
    LinkStep c s a s'.g p h (p.exchange rest (sentTo c (s.sent a))) := by
  -- on a step that neither reads nor writes the server is left as it is
  have hquiet : s.recvd a = none → s.sent a = none → LinkStep c s a s'.g p h p →
      LinkStep c s a s'.g p h (p.exchange rest (sentTo c (s.sent a))) := by
    intro hrecv hsent hl
    rw [hrecv] at hr
    rw [hsent, show sentTo c none = [] from rfl, reads_none hr, Peer.exchange_self]
    exact hl
  have htables : ∀ {g : Global}, SameTables s.g g → g.backends = s.g.backends ∧
      g.inflight = s.g.inflight := by
    rintro g ⟨l, b, rfl⟩
    exact ⟨rfl, rfl⟩
  have hplain : ∀ k b', s.g.backends k = some b' → ∃ b, s.g.backends k = some b ∧
      b.conn = b'.conn := fun k b' hb' => ⟨b', hb', rfl⟩
  cases hst with
  | agentFrame hm =>
      rw [reads_none hr]
      exact link_frame hw (fun id hid => hroom (allocates_call hid)) hh
  | agentWrite hm => exact hquiet rfl rfl (.keep (hh.same rfl rfl) rfl)
  | markInitialized hm => exact hquiet rfl rfl (.keep (hh.same rfl rfl) rfl)
  | @pollScan pids self hp hlen =>
      obtain ⟨hb, hi⟩ := htables (pollScan_same s.g pids self)
      exact hquiet rfl rfl (.keep (hh.same rfl hb) hi)
  | @pollSpawn pid fresh shell r hp hfresh =>
      obtain ⟨hb, hi⟩ := htables (spawnSetup_same s false pid r)
      exact hquiet rfl rfl (.keep (held_spawn hh rfl hb) hi)
  | @pollSpawnShell r hp hfresh =>
      obtain ⟨hb, hi⟩ := htables (spawnSetup_same s true 0 r)
      exact hquiet rfl rfl (.keep (held_spawn hh rfl hb) hi)
  | pollSleep hp => exact hquiet rfl rfl (.keep (hh.same rfl rfl) rfl)
  | @connect t sh pid ht =>
      refine hquiet rfl rfl ?_
      rcases hh.back (s := s) (t := t) (fun u hu => Sys.setThread_ne _ _ hu) hplain with
        ⟨sh', pid', pc, rfl, he, hc⟩ | ⟨idx, pc, b, rfl, he, -, -⟩ | ⟨u, -, hold, -⟩
      · cases (Sys.setThread_same s t _).symm.trans he
        cases hc
        exact .connected rfl
      · cases (Sys.setThread_same s t _).symm.trans he
      · exact .keep hold rfl
  | @connectFail t sh pid ht =>
      refine hquiet rfl rfl (.keep (held_other hh rfl hplain (fun sh' pid' pc he => ?_) ?_) rfl)
      · cases he
        rfl
      · exact fun _ _ he => by cases he
  | @syncSend t sh pid c' ph ok ht =>
      rw [reads_none hr]
      simp only [Sys.sent, ht]
      have hconn : (if ok then SetupPc.recv c' ph 0 else .remove false).conn = none ∨
          (if ok then SetupPc.recv c' ph 0 else .remove false).conn = some c' := by
        cases ok
        · exact Or.inl rfl
        · exact Or.inr rfl
      rcases held_setup hh hw ht rfl rfl rfl (Or.inl rfl) hconn with
        ⟨rfl, hpc, hold⟩ | ⟨hne, hold⟩
      · cases ok with
        | true =>
            simp only [if_true] at hpc ⊢
            rw [hpc, sentTo_self]
            exact .asked hold
        | false =>
            subst hpc
            obtain ⟨hc, -⟩ := hh
            cases hc
      · rw [sentTo_if_ne hne, Peer.exchange_self]
        exact .keep hold rfl
  | @syncRecv t sh pid c' ph k f ht =>
      simp only [Sys.recvd, ht] at hr
      rcases held_setup hh hw ht rfl rfl rfl (Or.inl rfl) (syncStep_conn c' ph k f) with
        ⟨rfl, hpc, hold⟩ | ⟨hne, hold⟩
      · subst hpc
        cases hr with
        | elsewhere hno => exact absurd rfl (hno f)
        | broken =>
            obtain ⟨hc, -⟩ := hh
            cases hc
        | @frame f rest hx =>
            rcases f.inbound_cases with he | he
            · rw [he]
              exact .heard hold hx
            · rw [he] at hh
              obtain ⟨hc, -⟩ := hh
              cases hc
      · change LinkStep c s _ s.g p h (p.exchange rest [])
        rw [exchange_quiet hr fun f' he => hne (by cases he; rfl)]
        exact .keep hold rfl
  | @sendInitialized t sh pid c' appId ok ht =>
      rw [reads_none hr]
      simp only [Sys.sent, ht]
      rcases held_setup hh hw ht rfl rfl rfl (Or.inl rfl) (Or.inr rfl) with
        ⟨rfl, rfl, hold⟩ | ⟨hne, hold⟩
      · refine .noted hold ?_
        cases ok with
        | true => exact Or.inr (sentTo_self _ _)
        | false => exact Or.inl rfl
      · rw [sentTo_if_ne hne, Peer.exchange_self]
        exact .keep hold rfl
  | @registerFull t sh pid c' appId resp exe r ht hreg =>
      refine hquiet rfl rfl (.keep (held_other hh rfl hplain (fun sh' pid' pc he => ?_) ?_) rfl)
      · cases he
        rfl
      · exact fun _ _ he => by cases he
  | @registerNoThread t sh pid c' appId resp exe idx g' ht hreg =>
      obtain ⟨b, hidx, -, -, -, -, -, -, hg⟩ := backendRegister_some hreg
      have hinflight : g'.inflight = s.g.inflight := (backendRegister_inflight hreg).1
      have hback : (backendTeardownLocked g' idx).1.backends = s.g.backends := by
        rw [backendTeardownLocked_eq]
        rcases hg with ⟨-, -, rfl⟩ | ⟨-, -, rfl⟩ <;> exact Slots.clear_put_of_free _ _ hidx
      have hsame : (backendTeardownLocked g' idx).1.inflight = s.g.inflight := by
        rw [backendTeardownLocked_unused (hw.register_unused hreg)]
        exact hinflight
      refine hquiet rfl rfl ?_
      rw [Sys.setThread_g, Sys.emit_g, Sys.setG_g]
      refine .keep (held_other hh (t := t)
        (by rw [Sys.setThread, Sys.setThread, Sys.emit_threads, Sys.setG_threads])
        (fun k b' hb' => ⟨b', ?_, rfl⟩) (fun sh' pid' pc he => ?_) ?_) hsame
      · rw [Sys.setThread_g, Sys.emit_g, Sys.setG_g, hback] at hb'
        exact hb'
      · cases he
        rfl
      · exact fun _ _ he => by cases he
  | registered ht hreg hfree => exact hquiet rfl rfl (link_registered hw ht hreg hh)
  | @connectingRemove t sh pid registered ht =>
      obtain ⟨hb, hi⟩ := htables (connectingRemove_same s.g sh pid)
      refine hquiet rfl rfl (.keep (held_other hh rfl (fun k b' hb' => ⟨b', hb ▸ hb', rfl⟩)
        (fun sh' pid' pc he => ?_) fun _ _ he => ?_) hi)
      · split at he <;> cases he
      · split at he <;> cases he
  | @readerTop t idx ht =>
      refine hquiet rfl rfl (link_reader hw ht rfl rfl id ?_ hh)
      split <;> exact id
  | @recv t idx c' f ht =>
      simp only [Sys.recvd, ht] at hr
      exact link_recv hw ht hr hh
  | @refresh t idx ok ht =>
      rw [reads_none hr]
      simp only [Sys.sent, ht]
      exact link_refresh hw ht (hroom rfl) hh
  | lookup ht => exact hquiet rfl rfl (link_lookup hw ht hno hh)
  | applied ht ha => exact hquiet rfl rfl (link_applied hw ht ha hh)
  | notApplied ht ha => exact hquiet rfl rfl (link_reader hw ht rfl rfl id id hh)
  | relay ht => exact hquiet rfl rfl (link_reader hw ht rfl rfl id id hh)
  | @readerEmitCheck t idx ht =>
      refine hquiet rfl rfl (link_reader hw ht rfl rfl id ?_ hh)
      split <;> exact id
  | readerEmitWrite ht => exact hquiet rfl rfl (link_reader hw ht rfl rfl id id hh)
  | teardown ht =>
      refine hquiet rfl rfl ?_
      rw [Sys.setThread_g, Sys.emit_g, Sys.setG_g]
      exact link_teardown hh
  | emitCheck ht =>
      refine hquiet rfl rfl (.keep (held_other hh rfl hplain (fun sh' pid' pc he => ?_)
        fun _ _ he => ?_) rfl)
      · split at he <;> cases he
      · split at he <;> cases he
  | emitWrite ht =>
      exact hquiet rfl rfl (.keep (held_other hh rfl hplain (fun _ _ _ he => by cases he)
        fun _ _ he => by cases he) rfl)

end DisplayxrMcp.Pair
