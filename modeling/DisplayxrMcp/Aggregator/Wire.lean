/-
  The aggregator's writes to its backends, byte by byte.

  `handle_tools_call` and `refresh_backend_tools` write under `g.lock`, a setup
  thread to a connection that nobody else has yet. `locks` says which steps take
  `g.lock`, `writes` which of them write; `split` takes the writes apart. The
  `write_mutex` of a backend is only taken under `g.lock` and left out.
-/
import DisplayxrMcp.Lib.Whole
import DisplayxrMcp.Aggregator.Wf
import DisplayxrMcp.Wire.Frame

namespace DisplayxrMcp

open Lib Cjson Lts Wire

/-- A thread of the aggregator. -/
inductive Mover where
  | main
  | poll
  | worker (t : Nat)
  deriving DecidableEq

/-- The thread a label moves. -/
def Act.mover (a : Act) : Mover :=
  match a with
  | .agentFrame _ _ | .agentWrite | .markInitialized => .main
  | .pollScan _ _ | .pollSpawn _ | .pollSleep => .poll
  | .connect t _ | .syncSend t _ | .syncRecv t _ | .sendInitialized t _ | .register t _ _
  | .connectingRemove t | .readerTop t | .recv t _ | .refresh t _ | .lookup t | .applyResult t
  | .relay t | .emitCheck t | .emitWrite t | .teardown t => .worker t

/-- The step with this outcome of its write. -/
def Act.settle : Act → Bool → Act
  | .agentFrame frame _, ok => .agentFrame frame ok
  | .syncSend t _, ok => .syncSend t ok
  | .sendInitialized t _, ok => .sendInitialized t ok
  | .refresh t _, ok => .refresh t ok
  | a, _ => a

def MainPc.isIdle : MainPc → Bool
  | .idle => true
  | _ => false

/-- Handling the frame takes `g.lock`: `build_merged_tools`, `build_list_apps`, or the lookup of
    a prefix. -/
def frameLocks (g : Global) (frame : Option Json) : Bool :=
  match requestOf frame with
  | none => false
  | some (method, _, params) =>
      if method = ascii "tools/list" then true
      else if method = ascii "tools/call" then
        match Json.string? (params.bind (·.getObjectItemCaseSensitive (ascii "name"))) with
        | none => false
        | some full =>
            decide (full = listAppsName) || (match route g full with
              | .malformed => false
              | _ => true)
      else false

namespace Sys

/-- The step takes `g.lock`. -/
def locks (s : Sys) : Act → Bool
  | .agentFrame frame _ => frameLocks s.g frame
  | .markInitialized | .pollScan _ _ => true
  | .pollSpawn .noThread => true
  | .register _ _ _ | .connectingRemove _ | .readerTop _ | .refresh _ _ | .lookup _
  | .applyResult _ | .emitCheck _ | .teardown _ => true
  | _ => false

/-- The frame that a step writes to a backend, as the text of the tree that arrives there. -/
def writes (s : Sys) (a : Act) : Option (Write ConnId UInt8) :=
  if a.mover = .main ∧ s.main.isIdle = false then none
  else (s.sent (a.settle true)).map fun p => frameWrite p.1 false (s.g.platform.printText p.2)

end Sys

theorem Act.mover_settle (a : Act) (ok : Bool) : (a.settle ok).mover = a.mover := by
  cases a <;> rfl

theorem Sys.locks_settle (s : Sys) (a : Act) (ok : Bool) : s.locks (a.settle ok) = s.locks a := by
  cases a <;> rfl

/-- The writes of the aggregator. -/
def writers : Writers Sys Act Mover ConnId UInt8 where
  thread := Act.mover
  write := Sys.writes
  locks := Sys.locks
  settle := Act.settle
  thread_settle := Act.mover_settle
  locks_settle := Sys.locks_settle

/-! ## What the lock protects -/

/-- A call whose name is missing or malformed leaves `g` alone, and nothing is sent. -/
theorem handleToolsCall_unlocked {g : Global} {seq : Nat} {id : Json} {params : Option Json}
    {ok : Bool}
    (h : (match Json.string? (params.bind (·.getObjectItemCaseSensitive (ascii "name"))) with
      | none => false
      | some full =>
          decide (full = listAppsName) || (match route g full with
            | .malformed => false
            | _ => true)) = false) :
    (handleToolsCall g seq id params ok).g = g ∧
      (handleToolsCall g seq id params ok).sent = none := by
  unfold handleToolsCall
  cases hname : Json.string? (params.bind (·.getObjectItemCaseSensitive (ascii "name"))) with
  | none => exact ⟨rfl, rfl⟩
  | some full =>
      rw [hname] at h
      obtain ⟨hne, hroute⟩ := Bool.or_eq_false_iff.mp h
      dsimp only
      rw [if_neg (of_decide_eq_false hne)]
      cases hr : route g full with
      | malformed => exact ⟨rfl, rfl⟩
      | noSuchPrefix =>
          rw [hr] at hroute
          cases hroute
      | backend i b bare =>
          rw [hr] at hroute
          cases hroute

/-- So does every frame that is handled without the lock. -/
theorem handleAgentFrame_unlocked {g : Global} {seq : Nat} {frame : Option Json} {ok : Bool}
    (h : frameLocks g frame = false) :
    (handleAgentFrame g seq frame ok).g = g ∧ (handleAgentFrame g seq frame ok).sent = none := by
  unfold handleAgentFrame
  split
  · exact ⟨rfl, rfl⟩
  · unfold frameLocks at h
    split
    · exact ⟨rfl, rfl⟩
    · next method id params hreq =>
        rw [hreq] at h
        dsimp only at h
        split
        · exact ⟨rfl, rfl⟩
        · split
          · exact ⟨rfl, rfl⟩
          · split
            · exact ⟨rfl, rfl⟩
            · next hlist =>
                rw [if_neg hlist] at h
                split
                · next hcall =>
                    rw [if_pos hcall] at h
                    exact handleToolsCall_unlocked h
                · exact ⟨rfl, rfl⟩

/-- A step without the lock leaves `g` alone. -/
theorem step_unlocked {s s' : Sys} {a : Act} (hst : Step s a s') (hl : s.locks a = false) :
    s'.g = s.g := by
  cases hst with
  | agentFrame hm => exact (handleAgentFrame_unlocked hl).1
  | @pollSpawn pid fresh shell r hp hr =>
      cases r with
      | noThread => cases hl
      | _ => rfl
  | @pollSpawnShell r hp hr =>
      cases r with
      | noThread => cases hl
      | _ => rfl
  | agentWrite hm => rfl
  | pollSleep hp => rfl
  | connect ht => rfl
  | connectFail ht => rfl
  | syncSend ht => rfl
  | syncRecv ht => rfl
  | sendInitialized ht => rfl
  | recv ht => rfl
  | relay ht => rfl
  | readerEmitWrite ht => rfl
  | emitWrite ht => rfl
  | _ => cases hl

/-- The main loop is moved by its own steps only. -/
theorem step_main_other {s s' : Sys} {a : Act} (hst : Step s a s') (ha : a.mover ≠ .main) :
    s'.main = s.main ∧ s'.frames = s.frames := by
  cases hst with
  | agentFrame hm => exact absurd rfl ha
  | agentWrite hm => exact absurd rfl ha
  | markInitialized hm => exact absurd rfl ha
  | @pollSpawn pid fresh shell r hp hr =>
      obtain ⟨hmain, hframes, -⟩ := spawnSetup_rest s false pid r
      exact ⟨hmain, hframes⟩
  | @pollSpawnShell r hp hr =>
      obtain ⟨hmain, hframes, -⟩ := spawnSetup_rest s true 0 r
      exact ⟨hmain, hframes⟩
  | registerNoThread ht hr =>
      simp only [Sys.setThread_main, Sys.emit_main, Sys.setG_main, Sys.setThread_frames,
        Sys.emit_frames, Sys.setG_frames, and_self]
  | teardown ht =>
      simp only [Sys.setThread_main, Sys.emit_main, Sys.setG_main, Sys.setThread_frames,
        Sys.emit_frames, Sys.setG_frames, and_self]
  | _ => exact ⟨rfl, rfl⟩

/-! ## Who writes -/

/-- The writes, step by step. -/
inductive WritesCases (s : Sys) : Act → ConnId → Json → Prop where
  | call (frame : Option Json) (ok : Bool) (i : Fin maxBackends) (b : Backend) (j : Json)
      (hm : s.main.isIdle = true) (hl : frameLocks s.g frame = true)
      (hs : (handleAgentFrame s.g s.frames.length frame true).sent = some (b.conn, j))
      (hb : s.g.backends i = some b) : WritesCases s (.agentFrame frame ok) b.conn j
  | refresh (t : Nat) (ok : Bool) (idx : Fin maxBackends) (b : Backend) (j : Json)
      (ht : s.threads t = .reader idx .refresh)
      (hs : (refreshBackendTools s.g idx true).2 = some (b.conn, j))
      (hb : s.g.backends idx = some b) : WritesCases s (.refresh t ok) b.conn j
  | request (t : Nat) (ok : Bool) (sh : Bool) (pid : ℤ) (c : ConnId) (ph : Phase)
      (ht : s.threads t = .setup sh pid (.send c ph)) :
      WritesCases s (.syncSend t ok) c ph.request
  | note (t : Nat) (ok : Bool) (sh : Bool) (pid : ℤ) (c : ConnId) (appId : CStr)
      (ht : s.threads t = .setup sh pid (.initialized c appId)) :
      WritesCases s (.sendInitialized t ok) c initializedNote

theorem writes_cases {s : Sys} {a : Act} {w : Write ConnId UInt8} (h : s.writes a = some w) :
    ∃ c j, WritesCases s a c j ∧ w = frameWrite c false (s.g.platform.printText j) := by
  unfold Sys.writes at h
  split at h
  · cases h
  · next hmain =>
      obtain ⟨⟨c, j⟩, hs, rfl⟩ := Option.map_eq_some_iff.mp h
      refine ⟨c, j, ?_, rfl⟩
      cases a with
      | agentFrame frame ok =>
          have hidle : s.main.isIdle = true := by
            rw [← Bool.not_eq_false]
            exact fun e => hmain ⟨rfl, e⟩
          have hs' : (handleAgentFrame s.g s.frames.length frame true).sent = some (c, j) := hs
          have hl : frameLocks s.g frame = true := by
            rw [← Bool.not_eq_false]
            intro e
            rw [(handleAgentFrame_unlocked e).2] at hs'
            cases hs'
          have hcases := handleAgentFrame_cases s.g s.frames.length frame true
          have hroute : ∃ i b, s.g.backends i = some b ∧ b.conn = c := by
            generalize handleAgentFrame s.g s.frames.length frame true = r at hcases hs'
            cases hcases with
            | answered reply hcall => cases hs'
            | unwritten id r hok hcall hr => cases hs'
            | forwarded id params full idx b bare args i hok hcall hfull hnot hroute hargs hfree =>
                cases hs'
                obtain ⟨sep, -, -, -, -, -, hb⟩ := route_backend hroute
                exact ⟨idx, b, hb, rfl⟩
          obtain ⟨i, b, hb, rfl⟩ := hroute
          exact .call frame ok i b j hidle hl hs' hb
      | refresh t ok =>
          unfold Sys.sent Act.settle at hs
          dsimp only at hs
          split at hs
          · next idx ht =>
              have hcases := refreshBackendTools_cases s.g idx true
              have hback : ∃ b, s.g.backends idx = some b ∧ b.conn = c := by
                generalize refreshBackendTools s.g idx true = r at hcases hs
                cases hcases with
                | refused hno => cases hs
                | unwritten hok => cases hs
                | written b i hok hb hfree =>
                    cases hs
                    exact ⟨b, hb, rfl⟩
              obtain ⟨b, hb, rfl⟩ := hback
              exact .refresh t ok idx b j ht hs hb
          · cases hs
      | syncSend t ok =>
          unfold Sys.sent Act.settle at hs
          dsimp only at hs
          split at hs
          · next ht =>
              rw [if_pos rfl] at hs
              cases hs
              exact .request t ok _ _ _ _ ht
          · cases hs
      | sendInitialized t ok =>
          unfold Sys.sent Act.settle at hs
          dsimp only at hs
          split at hs
          · next ht =>
              rw [if_pos rfl] at hs
              cases hs
              exact .note t ok _ _ _ _ ht
          · cases hs
      | _ => cases hs

/-- Under the lock the connection is a backend's, else the setup thread's own. -/
theorem WritesCases.owner {s : Sys} {a : Act} {c : ConnId} {j : Json} (h : WritesCases s a c j) :
    (s.locks a = true ∧ ∃ i, connAt s (.inl i) = some c) ∨
      (s.locks a = false ∧ ∃ t, a.mover = .worker t ∧ connAt s (.inr t) = some c) := by
  cases h with
  | call frame ok i b j hm hl hs hb =>
      refine Or.inl ⟨hl, i, ?_⟩
      show (s.g.backends i).map Backend.conn = _
      rw [hb]
      rfl
  | refresh t ok idx b j ht hs hb =>
      refine Or.inl ⟨rfl, idx, ?_⟩
      show (s.g.backends idx).map Backend.conn = _
      rw [hb]
      rfl
  | request t ok sh pid c ph ht =>
      refine Or.inr ⟨rfl, t, rfl, ?_⟩
      show (s.threads t).ownConn = _
      rw [ht]
      rfl
  | note t ok sh pid c appId ht =>
      refine Or.inr ⟨rfl, t, rfl, ?_⟩
      show (s.threads t).ownConn = _
      rw [ht]
      rfl

/-- The step that a write belongs to is possible, with either outcome. -/
theorem WritesCases.able {s : Sys} {a : Act} {c : ConnId} {j : Json} (h : WritesCases s a c j)
    (ok : Bool) : ∃ s', Step s (a.settle ok) s' := by
  cases h with
  | call frame ok' i b j hm hl hs hb =>
      have hidle : s.main = .idle := by
        cases hmain : s.main with
        | idle => rfl
        | reply seq body hello =>
            rw [hmain] at hm
            cases hm
        | markInitialized =>
            rw [hmain] at hm
            cases hm
      exact ⟨_, .agentFrame hidle⟩
  | refresh t ok' idx b j ht hs hb => exact ⟨_, .refresh ht⟩
  | request t ok' sh pid c ph ht => exact ⟨_, .syncSend ht⟩
  | note t ok' sh pid c appId ht => exact ⟨_, .sendInitialized ht⟩

/-- A worker that writes is left where it stands by the others. -/
theorem step_worker_other {s s' : Sys} {b : Act} (hst : Step s b s') {t : Nat}
    (hb : b.mover ≠ .worker t) (hrun : s.threads t ≠ .gone) : s'.threads t = s.threads t := by
  refine step_thread_other hst (fun he => hb ?_) hrun
  cases b with
  | _ => first | (cases he; rfl) | cases he

/-- What a thread is to write stays, while the lock is its own or it does not need it. -/
theorem writes_keep {s s' : Sys} {a b : Act} {w : Write ConnId UInt8} (hw : s.writes a = some w)
    (hst : Step s b s') (hne : b.mover ≠ a.mover) (hl : s.locks a = true → s.locks b = false) :
    s'.writes a = some w ∧ s'.locks a = s.locks a := by
  obtain ⟨c, j, hcases, -⟩ := writes_cases hw
  rw [← hw]
  cases hcases with
  | call frame ok i b' j hm hlk hs hb =>
      obtain ⟨hmain, hframes⟩ := step_main_other hst hne
      have hg := step_unlocked hst (hl hlk)
      refine ⟨?_, ?_⟩
      · unfold Sys.writes Sys.sent Act.settle
        dsimp only
        rw [hmain, hframes, hg]
      · show frameLocks s'.g frame = frameLocks s.g frame
        rw [hg]
  | refresh t ok idx b' j ht hs hb =>
      have hg := step_unlocked hst (hl rfl)
      have ht' := step_worker_other hst hne (by rw [ht]; exact Thread.noConfusion)
      refine ⟨?_, rfl⟩
      unfold Sys.writes Sys.sent Act.settle Act.mover
      dsimp only
      rw [if_neg (fun h => by cases h.1), if_neg (fun h => by cases h.1), ht', ht]
      dsimp only
      rw [hg]
  | request t ok sh pid c ph ht =>
      have ht' := step_worker_other hst hne (by rw [ht]; exact Thread.noConfusion)
      refine ⟨?_, rfl⟩
      unfold Sys.writes Sys.sent Act.settle Act.mover
      dsimp only
      rw [if_neg (fun h => by cases h.1), if_neg (fun h => by cases h.1), ht', step_platform hst]
  | note t ok sh pid c appId ht =>
      have ht' := step_worker_other hst hne (by rw [ht]; exact Thread.noConfusion)
      refine ⟨?_, rfl⟩
      unfold Sys.writes Sys.sent Act.settle Act.mover
      dsimp only
      rw [if_neg (fun h => by cases h.1), if_neg (fun h => by cases h.1), ht', step_platform hst]

/-- Threads that write to one connection do it under `g.lock`. -/
theorem exclusive : Exclusive aggregator writers := by
  refine ⟨?_, fun hr hw hst hne hl => writes_keep hw hst hne hl⟩
  intro s a a' w w' hr hw hw' hc hne
  have hwf := wf_reach hr
  obtain ⟨c, j, hcases, rfl⟩ := writes_cases hw
  obtain ⟨c', j', hcases', rfl⟩ := writes_cases hw'
  have hcc : c = c' := hc
  subst hcc
  rcases hcases.owner with ⟨hl, i, hi⟩ | ⟨-, t, ht, hct⟩
  · rcases hcases'.owner with ⟨hl', -⟩ | ⟨-, u, -, hcu⟩
    · exact ⟨hl, hl'⟩
    · cases hwf.connOnce _ _ c hi hcu
  · rcases hcases'.owner with ⟨-, i, hi⟩ | ⟨-, u, hu, hcu⟩
    · cases hwf.connOnce _ _ c hct hi
    · cases hwf.connOnce _ _ c hct hcu
      exact (hne (ht.trans hu.symm)).elim

end DisplayxrMcp
