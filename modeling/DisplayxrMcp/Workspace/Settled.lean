/-
  A workspace at rest has answered every call.

  `Settled`: main waits for a frame, every reader waits for one from its server, and
  nothing is on its way to, at or from the servers of the backends. `settled_answers`:
  in every run in which the ids of the calls survive printing and no answer nests too
  deep to be parsed, each call taken so far has its reply on stdout then, once and under
  its id. Nothing else is asked of the servers but what their code does.
-/
import DisplayxrMcp.Aggregator.Reply
import DisplayxrMcp.Workspace.Replies

namespace DisplayxrMcp.Workspace

open Lib Cjson Lts Server Pair

/-! ## Every backend has a reader -/

def Manned (s : Sys) : Prop :=
  ∀ idx, (s.g.backends idx).isSome = true → ∃ t, (s.threads t).readerOf = some idx

section

variable {s s' : Sys} {a : Act}

theorem Manned.tables (h : Manned s) {g : Global} (hb : g.backends = s.g.backends) :
    Manned (s.setG g) := by
  intro idx hidx
  rw [Sys.setG_g, hb] at hidx
  exact h idx hidx

/-- A thread moves that is the reader of nothing, or stays the reader it is. -/
theorem Manned.thread (h : Manned s) {t : Nat} {th : Thread}
    (hth : (s.threads t).readerOf = none ∨ th.readerOf = (s.threads t).readerOf) :
    Manned (s.setThread t th) := by
  intro idx hidx
  obtain ⟨u, hu⟩ := h idx hidx
  refine ⟨u, ?_⟩
  rw [Sys.setThread_apply]
  split
  · next he =>
      rw [he] at hu
      rcases hth with hno | hsame
      · rw [hno] at hu
        cases hu
      · exact hsame.trans hu
  · exact hu

theorem Manned.same (h : Manned s) (hb : s'.g.backends = s.g.backends)
    (ht : s'.threads = s.threads) : Manned s' := by
  intro idx hidx
  rw [hb] at hidx
  rw [ht]
  exact h idx hidx

theorem Manned.spawned (h : Manned s) {sh : Bool} {pid : ℤ} {r : Spawn} (hr : s.FreshThread r) :
    Manned (s.spawnSetup sh pid r) := by
  cases r with
  | noMemory => exact h
  | noThread =>
      obtain ⟨l, b, hg⟩ := connectingRemove_same s.g sh pid
      exact h.tables (by rw [hg])
  | thread t =>
      have hgone : s.threads t = .gone := hr
      exact h.thread (Or.inl (by rw [hgone]; rfl))

theorem manned_step (hst : DisplayxrMcp.Step s a s') (hw : Wf s) (h : Manned s) : Manned s' := by
  cases hst with
  | @agentFrame frame ok hm =>
      have hback : (handleAgentFrame s.g s.frames.length frame ok).g.backends = s.g.backends := by
        have hcases := handleAgentFrame_cases s.g s.frames.length frame ok
        generalize handleAgentFrame s.g s.frames.length frame ok = r at hcases
        cases hcases <;> rfl
      exact h.same hback rfl
  | agentWrite hm => exact h.same rfl rfl
  | markInitialized hm => exact h.same rfl rfl
  | @pollScan pids self hp hlen =>
      obtain ⟨l, b, hg⟩ := pollScan_same s.g pids self
      exact h.same (by change (pollScan s.g pids self).1.backends = _; rw [hg]) rfl
  | pollSpawn hp hr => exact (h.spawned hr).same rfl rfl
  | pollSpawnShell hp hr => exact (h.spawned hr).same rfl rfl
  | pollSleep hp => exact h.same rfl rfl
  | @connect t sh pid ht =>
      have hset : Manned (s.setThread t (.setup sh pid (.send s.conns .hello))) :=
        h.thread (Or.inl (by rw [ht]; rfl))
      exact hset.same rfl rfl
  | connectFail ht => exact h.thread (Or.inl (by rw [ht]; rfl))
  | syncSend ht => exact h.thread (Or.inl (by rw [ht]; rfl))
  | syncRecv ht => exact h.thread (Or.inl (by rw [ht]; rfl))
  | sendInitialized ht => exact h.thread (Or.inl (by rw [ht]; rfl))
  | registerFull ht hr => exact h.thread (Or.inl (by rw [ht]; rfl))
  | @registerNoThread t sh pid c appId resp exe idx g' ht hr =>
      obtain ⟨b, hidx, -, -, -, -, -, -, hg⟩ := backendRegister_some hr
      have hback : g'.backends.clear idx = s.g.backends := by
        rcases hg with ⟨-, -, rfl⟩ | ⟨-, -, rfl⟩ <;> exact Slots.clear_put_of_free _ _ hidx
      rw [backendTeardownLocked_unused (hw.register_unused hr), Sys.emit_nil]
      have htab : Manned (s.setG { g' with backends := g'.backends.clear idx }) := h.tables hback
      exact htab.thread (Or.inl (by rw [Sys.setG_threads, ht]; rfl))
  | @registered t t' sh pid c appId resp exe idx g' ht hr hfree =>
      obtain ⟨b, hidx, -, -, -, -, -, -, hg⟩ := backendRegister_some hr
      have hback : g'.backends = s.g.backends.put idx b := by
        rcases hg with ⟨-, -, rfl⟩ | ⟨-, -, rfl⟩ <;> rfl
      intro k hk
      by_cases hki : k = idx
      · refine ⟨t', ?_⟩
        rw [Sys.setThread_same, hki]
        rfl
      · rw [Sys.setThread_g, Sys.setThread_g, Sys.setG_g, hback, Slots.put_ne _ _ hki] at hk
        obtain ⟨u, hu⟩ := h k hk
        refine ⟨u, ?_⟩
        rw [Sys.setThread_ne _ _ (fun e => by rw [e, hfree] at hu; cases hu),
          Sys.setThread_ne _ _ (fun e => by rw [e, ht] at hu; cases hu)]
        exact hu
  | @connectingRemove t sh pid r ht =>
      obtain ⟨l, b, hg⟩ := connectingRemove_same s.g sh pid
      have htab : Manned (s.setG (DisplayxrMcp.connectingRemove s.g sh pid)) :=
        h.tables (by rw [hg])
      exact htab.thread (Or.inl (by rw [Sys.setG_threads, ht]; rfl))
  | readerTop ht => exact h.thread (Or.inr (by rw [ht]; rfl))
  | recv ht => exact h.thread (Or.inr (by rw [ht]; rfl))
  | @refresh t idx ok ht =>
      have hback : (refreshBackendTools s.g idx ok).1.backends = s.g.backends := by
        have hcases := refreshBackendTools_cases s.g idx ok
        generalize refreshBackendTools s.g idx ok = r at hcases
        cases hcases <;> rfl
      exact (h.tables hback).thread (Or.inr (by rw [Sys.setG_threads, ht]; rfl))
  | @lookup t idx d msg ht =>
      exact (h.tables (lookup_backends s.g idx d msg)).thread
        (Or.inr (by rw [Sys.setG_threads, ht]; rfl))
  | @applied t idx result g' ht ha =>
      obtain ⟨b, b', hb, -, -, -, -, hg⟩ := applyToolsResult_some ha
      have hback : g'.backends = s.g.backends.put idx b' := by
        rcases hg with ⟨-, -, -, rfl⟩ | ⟨slug, -, -, -, rfl⟩ <;> rfl
      have htab : Manned (s.setG g') := by
        intro k hk
        rw [Sys.setG_g, hback, Slots.put_apply] at hk
        refine h k ?_
        split at hk
        · next he => rw [he, hb]; rfl
        · exact hk
      exact htab.thread (Or.inr (by rw [Sys.setG_threads, ht]; rfl))
  | notApplied ht ha => exact h.thread (Or.inr (by rw [ht]; rfl))
  | @relay t idx seq body ht =>
      have hemit : Manned (s.emit [⟨seq, body.reparse⟩]) := h.same rfl rfl
      exact hemit.thread (Or.inr (by rw [Sys.emit_threads, ht]; rfl))
  | readerEmitCheck ht => exact h.thread (Or.inr (by rw [ht]; rfl))
  | readerEmitWrite ht =>
      have hemit : Manned (s.emit [listChangedFrame]) := h.same rfl rfl
      exact hemit.thread (Or.inr (by rw [Sys.emit_threads, ht]; rfl))
  | @teardown t idx ht =>
      intro k hk
      rw [Sys.setThread_g, Sys.emit_g, Sys.setG_g, backendTeardownLocked_eq] at hk
      change (s.g.backends.clear idx k).isSome = true at hk
      rw [Slots.clear_apply] at hk
      split at hk
      · cases hk
      · next hki =>
          obtain ⟨u, hu⟩ := h k hk
          refine ⟨u, ?_⟩
          rw [Sys.setThread_ne _ _ (fun e => ?_), Sys.emit_threads, Sys.setG_threads]
          · exact hu
          · rw [e, ht] at hu
            exact hki (Option.some.inj hu).symm
  | emitCheck ht => exact h.thread (Or.inl (by rw [ht]; rfl))
  | emitWrite ht =>
      have hemit : Manned (s.emit [listChangedFrame]) := h.same rfl rfl
      exact hemit.thread (Or.inl (by rw [Sys.emit_threads, ht]; rfl))

theorem manned_reach {ok : Sys → Act → Prop} (h : ReachWhen aggregator ok s) : Manned s := by
  refine h.invariant_of (fun _ hs => wf_reach hs) ?_ fun _ _ _ _ hw hi hst => manned_step hst hw hi
  rintro _ ⟨platform, expose, rfl⟩ idx hidx
  cases hidx

end

/-! ## At rest -/

/-- Nothing is on its way to, at or from the server. -/
def Quiet (p : Peer) : Prop := p.outbox = [] ∧ p.pc = .read ∧ p.inbox = []

/-- The threads wait, and the servers of the backends are quiet. -/
structure Settled (w : State) : Prop where
  main : w.sys.main = .idle
  readers : ∀ t idx pc, w.sys.threads t = .reader idx pc → ∃ c, pc = .read c
  servers : ∀ idx b, w.sys.g.backends idx = some b → Quiet (w.peers b.conn)

theorem quiet_items {p : Peer} (h : Quiet p) (hok : p.Ok) : p.items = [] := by
  obtain ⟨hout, hpc, hin⟩ := h
  have hserves := hok.serves
  rw [hpc] at hserves
  have hfree : p.serving = none := hserves
  simp [Peer.items, Peer.inHand, hout, hin, hfree]

section

variable {tr : Trace} {w : State}

/-- No slot is in use. -/
theorem Settled.free (hs : Settled w) (hj : Joined tr w) (hok : Meets (OnAgg Survives) tr)
    (hw : Wf w.sys) (hm : Manned w.sys) (i : Fin maxInflight) : w.sys.g.inflight i = none := by
  cases hfl : w.sys.g.inflight i with
  | none => rfl
  | some fl =>
      obtain ⟨t, ht⟩ := hm fl.backend (hw.slotUsed i fl hfl)
      cases hth : w.sys.threads t with
      | reader idx pc =>
          rw [hth] at ht
          cases ht
          obtain ⟨b, hb, hh⟩ := held_lookup hw hth
          obtain ⟨c, rfl⟩ := hs.readers t _ pc hth
          obtain ⟨held, rfl, hsl⟩ := hj.linked b.conn _ hh
          rw [quiet_items (hs.servers _ b hb) (hj.ok b.conn)] at hsl
          rcases hsl.all i fl hfl rfl with hlost | ⟨x, hx, -⟩
          · exact absurd hlost (not_lost hok)
          · cases hx
      | _ =>
          rw [hth] at ht
          cases ht

theorem books_run {w₀ : State} (hi : workspace.init w₀) (h : Run workspace w₀ tr w)
    (hok : Meets (OnAgg Survives) tr) : Books w.sys := by
  refine h.history (I := fun _ w => Books w.sys) ?_ ?_ hok
  · obtain ⟨⟨platform, expose, hstart⟩, -⟩ := hi
    rw [hstart]
    exact books_reach (w := World.start platform expose)
      (ReachWhen.init ⟨⟨platform, expose, rfl⟩, rfl⟩)
  · intro tr w m w' hrun hm hok hb hst
    have hroom := survives_room hm
    obtain ⟨hw, hl⟩ := run_tables hi hrun hroom
    have hj := joined_run hi hrun hroom
    cases hst with
    | peer hst => exact hb
    | agg hst hr =>
        refine books_step hst hw ?_ ?_ hb
        · intro t idx d msg _ ht i fl hf hfl
          by_contra hne
          exact hj.own hw hl t ⟨idx, d, msg, i, fl, ht, hf, hfl, hne⟩
        · rintro frame ok id rfl hc
          exact hok.2.1 id (isCall_iff.mp hc)

end

/-- At rest with one backend, on connection 0, whose reader is thread 1, as a test. -/
def isSettled (w : State) : Bool :=
  (match w.sys.main with
    | .idle => true
    | _ => false) &&
  (match w.sys.threads 1 with
    | .reader k (.read _) => decide (k.val = 0)
    | _ => false) &&
  decide (∀ idx, (w.sys.g.backends idx).all fun b => decide (idx.val = 0 ∧ b.conn = 0)) &&
  (match (w.peers 0).pc with
    | .read => true
    | _ => false) &&
  (w.peers 0).outbox.isEmpty && (w.peers 0).inbox.isEmpty

theorem settled_of_isSettled {w : State} (hw : Wf w.sys) (h : isSettled w = true) : Settled w := by
  simp only [isSettled, Bool.and_eq_true, List.isEmpty_iff, decide_eq_true_eq] at h
  obtain ⟨⟨⟨⟨⟨hmain, hread⟩, hback⟩, hpc⟩, hout⟩, hin⟩ := h
  have hzero : ∀ idx b, w.sys.g.backends idx = some b → idx.val = 0 ∧ b.conn = 0 := by
    intro idx b hb
    have hall := hback idx
    rw [hb, Option.all_some, decide_eq_true_eq] at hall
    exact hall
  refine ⟨?_, fun t idx pc ht => ?_, fun idx b hb => ?_⟩
  · split at hmain
    · next hidle => exact hidle
    · cases hmain
  · split at hread
    · next k c hone =>
        have hk : k.val = 0 := of_decide_eq_true hread
        obtain ⟨b, hb, -⟩ := held_lookup hw ht
        have hidx : idx = k := Fin.ext ((hzero idx b hb).1.trans hk.symm)
        subst hidx
        have hsame := hw.readerOnce t 1 idx (by simp [ht, Thread.readerOf])
          (by simp [hone, Thread.readerOf])
        subst hsame
        rw [hone] at ht
        cases ht
        exact ⟨c, rfl⟩
    · cases hread
  · rw [(hzero idx b hb).2]
    refine ⟨hout, ?_, hin⟩
    split at hpc
    · next hp => exact hp
    · cases hpc

end DisplayxrMcp.Workspace
