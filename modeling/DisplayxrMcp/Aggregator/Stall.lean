/-
  Backends that stop reading (adapter/workspace_aggregator.c, `handle_tools_call`
  and `refresh_backend_tools`).

  A connection takes as many bytes as the backend's buffer has room for, and
  `g.lock` is held while a call or a refresh is written. `Lively` is what must
  remain possible whatever a backend does. It is possible from every state that a
  run reaches in which a stalled backend has room for what is written to it under
  the lock.
-/
import DisplayxrMcp.Lib.Holder
import DisplayxrMcp.Aggregator.Exec
import DisplayxrMcp.Aggregator.Wire

namespace DisplayxrMcp

open Lib Cjson Lts Wire

/-- Readers look up and relay responses, the main loop answers `ping` and `tools/list`, and the
    poll thread looks for sessions. -/
structure Lively (s : Split Sys Act Mover ConnId UInt8) : Prop where
  lookup : ∀ t idx d msg, s.base.threads t = .reader idx (.lookup d msg) →
    ∃ s', Split.Step aggregator writers s (.plain (.lookup t)) s'
  relay : ∀ t idx seq body, s.base.threads t = .reader idx (.relay seq body) →
    ∃ s', Split.Step aggregator writers s (.plain (.relay t)) s'
  answer : ∀ frame method id params ok, s.base.main = .idle →
    requestOf frame = some (method, id, params) → method = ascii "ping" ∨ method = ascii "tools/list" →
      ∃ s', Split.Step aggregator writers s (.plain (.agentFrame frame ok)) s'
  discover : ∀ pids self, s.base.poll = .scan → pids.length ≤ 64 →
    ∃ s', Split.Step aggregator writers s (.plain (.pollScan pids self)) s'

/-- Only calls are sent on. -/
theorem handleAgentFrame_sent {g : Global} {seq : Nat} {frame : Option Json} {ok : Bool}
    {method : CStr} {id : Json} {params : Option Json}
    (hreq : requestOf frame = some (method, id, params)) (hm : method ≠ ascii "tools/call") :
    (handleAgentFrame g seq frame ok).sent = none := by
  have hcases := handleAgentFrame_cases g seq frame ok
  generalize handleAgentFrame g seq frame ok = r at hcases ⊢
  cases hcases with
  | answered reply hcall => rfl
  | unwritten id r hok hcall hr => rfl
  | forwarded id params full idx b bare args i hok hcall hfull hnot hroute hargs hfree =>
      rw [hreq] at hcall
      cases hcall
      exact absurd rfl hm

/-- Who writes stands at a point of the source where something is written. -/
theorem idle_of_free {s : Split Sys Act Mover ConnId UInt8} (hh : Lts.Held writers s)
    (hlock : s.lock = none) :
    s.jobs .main = none ∧ s.jobs .poll = none ∧ ∀ t, s.jobs (.worker t) ≠ none →
      ∃ sh pid pc, s.base.threads t = .setup sh pid pc := by
  refine ⟨?_, ?_, fun t ht => ?_⟩
  · cases hj : s.jobs .main with
    | none => rfl
    | some j =>
        obtain ⟨ht, hw, hl⟩ := hh.job _ j hj
        have ht' : j.act.mover = .main := ht
        obtain ⟨c, b, hcases, -⟩ := writes_cases hw
        rcases hcases.owner with ⟨hlk, -⟩ | ⟨-, u, hu, -⟩
        · have hown := hl hlk
          rw [hlock] at hown
          cases hown
        · rw [ht'] at hu
          cases hu
  · cases hj : s.jobs .poll with
    | none => rfl
    | some j =>
        obtain ⟨ht, hw, -⟩ := hh.job _ j hj
        have ht' : j.act.mover = .poll := ht
        obtain ⟨c, b, hcases, -⟩ := writes_cases hw
        generalize j.act = a at hcases ht'
        cases hcases <;> cases ht'
  · obtain ⟨j, hj⟩ := Option.ne_none_iff_exists'.mp ht
    obtain ⟨hm, hw, hl⟩ := hh.job _ j hj
    have hm' : j.act.mover = .worker t := hm
    obtain ⟨c, b, hcases, -⟩ := writes_cases hw
    rcases hcases.owner with ⟨hlk, -⟩ | ⟨-, u, hu, hc⟩
    · have hown := hl hlk
      rw [hlock] at hown
      cases hown
    · cases hm'.symm.trans hu
      have hc' : (s.base.threads t).ownConn = some c := hc
      cases hth : s.base.threads t with
      | setup sh pid pc => exact ⟨sh, pid, pc, rfl⟩
      | _ =>
          rw [hth] at hc'
          cases hc'

/-- With `g.lock` free the aggregator is lively. -/
theorem lively_of_free {s : Split Sys Act Mover ConnId UInt8} (hh : Lts.Held writers s)
    (hlock : s.lock = none) : Lively s := by
  obtain ⟨hmain, hpoll, hworker⟩ := idle_of_free hh hlock
  have hreader : ∀ {t idx pc}, s.base.threads t = .reader idx pc → s.jobs (.worker t) = none := by
    intro t idx pc ht
    by_contra hne
    obtain ⟨sh, pid, pc', hsetup⟩ := hworker t hne
    rw [ht] at hsetup
    cases hsetup
  have hnone : ∀ {t : Nat} {a : Act}, a.mover = .worker t → s.base.sent (a.settle true) = none →
      s.base.writes a = none := by
    intro t a ha hs
    unfold Sys.writes
    rw [hs, Option.map_none]
    split <;> rfl
  refine ⟨?_, ?_, ?_, ?_⟩
  · intro t idx d msg ht
    exact ⟨_, .plain (hreader ht) (hnone (a := .lookup t) rfl rfl) (fun _ => hlock) (.lookup ht)⟩
  · intro t idx seq body ht
    exact ⟨_, .plain (hreader ht) (hnone (a := .relay t) rfl rfl) (fun _ => hlock) (.relay ht)⟩
  · intro frame method id params ok hm hreq hmethod
    have hother : method ≠ ascii "tools/call" := by
      rcases hmethod with rfl | rfl
      · decide
      · decide
    refine ⟨_, .plain hmain ?_ (fun _ => hlock) (.agentFrame hm)⟩
    show s.base.writes (.agentFrame frame ok) = none
    unfold Sys.writes
    split
    · rfl
    · show ((handleAgentFrame s.base.g s.base.frames.length frame true).sent).map _ = none
      rw [handleAgentFrame_sent hreq hother]
      rfl
  · intro pids self hp hlen
    refine ⟨_, .plain hpoll ?_ (fun _ => hlock) (.pollScan hp hlen)⟩
    show s.base.writes (.pollScan pids self) = none
    unfold Sys.writes
    split <;> rfl

/-- The holder of `g.lock` never waits for a stalled backend; without reads by stalled backends it
    gives the lock back, and with the other threads where they were the aggregator is lively. -/
theorem stall_isolated {s : Split Sys Act Mover ConnId UInt8}
    (h : ReachWhen (split aggregator writers) (Ready writers) s) :
    (∀ t c, s.lock = some t → (s.wires c).stalled = true → ¬ Waiting s t c) ∧
      ∃ tr s', Run (split aggregator writers) s tr s' ∧
        (∀ p ∈ tr, ∃ t, s.lock = some t ∧ Serves t p.1 p.2) ∧
        (∀ t, s.lock ≠ some (.worker t) → s.base.threads t ≠ .gone →
          s'.base.threads t = s.base.threads t) ∧ Lively s' := by
  have hroomy := roomy_reach exclusive h
  have hheld := held_reach exclusive h
  refine ⟨fun t c ht hc => hroomy.not_waiting ht hc, ?_⟩
  cases hlock : s.lock with
  | none =>
      exact ⟨[], s, Run.refl, fun p hp => (by cases hp), fun t _ _ => rfl,
        lively_of_free hheld hlock⟩
  | some u =>
      have hable : ∀ a w ok, writers.write s.base a = some w →
          ∃ base, aggregator.step s.base (writers.settle a ok) base := by
        intro a w ok hw
        obtain ⟨c, b, hcases, -⟩ := writes_cases hw
        exact hcases.able ok
      obtain ⟨j, ok, tr, s', hj, hrun, hserves, hfree, -, hst⟩ := unlock hheld hroomy hable hlock
      obtain ⟨hu, -, -⟩ := hheld.job u j hj
      have hreach : Reach (split aggregator writers) s' := h.reach.run hrun fun _ _ => trivial
      refine ⟨tr, s', hrun, fun p hp => ⟨u, rfl, hserves p hp⟩, fun t ht hrunning => ?_,
        lively_of_free (held_reach exclusive hreach) hfree⟩
      refine step_worker_other hst (fun he => ht ?_) hrunning
      have hmover : (j.act.settle ok).mover = .worker t := he
      rw [← (show j.act.mover = u from hu), ← Act.mover_settle j.act ok, hmover]

/-! ## Histories -/

/-- A platform that prints the frames of a handshake and of a call of `zoom`. -/
def printing : Platform where
  castUb := fun _ => 0
  version := ascii "0.3.2"
  printText := fun j =>
    if j = Phase.hello.request then
      ascii "\x7b\"jsonrpc\":\"2.0\",\"id\":1,\"method\":\"initialize\",\"params\":\x7b\"protocolVersion\":\"2024-11-05\"," ++
      ascii "\"clientInfo\":\x7b\"name\":\"displayxr-mcp-workspace\"\x7d\x7d\x7d"
    else if j = initializedNote then
      ascii "\x7b\"jsonrpc\":\"2.0\",\"method\":\"notifications/initialized\"\x7d"
    else if j = (Phase.list []).request then
      ascii "\x7b\"jsonrpc\":\"2.0\",\"id\":2,\"method\":\"tools/list\"\x7d"
    else
      ascii "\x7b\"jsonrpc\":\"2.0\",\"id\":1,\"method\":\"tools/call\",\"params\":\x7b\"name\":\"zoom\"\x7d\x7d"

/-- A whole write of step `a`, of a header of `n` bytes and a body of `m`. -/
def written (a : Act) (n m : Nat) : List (SplitAct Act Mover ConnId) :=
  [.begin a, .put a.mover n, .next a.mover, .put a.mover m, .finish a.mover]

/-- The session 5 joins on connection 0, with a tool `zoom`. -/
def joinsWhole : List (SplitAct Act Mover ConnId) :=
  [.plain (.pollScan [5] 0), .plain (.pollSpawn (.thread 0)), .plain (.pollSpawn .noThread),
    .plain .pollSleep, .plain (.connect 0 true)] ++ written (.syncSend 0 true) 23 136 ++
  [.plain (.syncRecv 0 (.msg (response 1 (helloResult "app"))))] ++
  written (.sendInitialized 0 true) 22 54 ++ written (.syncSend 0 true) 22 46 ++
  [.plain (.syncRecv 0 (.msg (response 2 (toolsResult ["zoom"])))),
    .plain (.register 0 (ascii "exe") (.thread 1))]

/-- The backend stalls with so much room, and the agent calls its tool. -/
def callStalled : List (SplitAct Act Mover ConnId) :=
  joinsWhole ++ [.stall 0, .begin (.agentFrame (some (callFrame 1 "app__zoom")) true)]

/-- The start, with so much room on every connection. -/
def roomy (room : Nat) : Split Sys Act Mover ConnId UInt8 :=
  Split.init (Sys.start printing true) fun _ => room

/-- A call of a stalled backend that has room for it. -/
theorem stall_isolated_room : ∃ s, ReachWhen (split aggregator writers) (Ready writers) s ∧
    s.lock = some .main ∧ (s.wires 0).stalled = true ∧ ¬ Waiting s .main 0 := by
  have hrun : ((follow (Split.next Sys.next writers) (roomy 4096) callStalled).map fun s =>
      decide (s.lock = some .main ∧ (s.wires 0).stalled = true ∧ Meets (Ready writers)
        (record (Split.next Sys.next writers) (roomy 4096) callStalled))) = some true := by
    decide +kernel
  obtain ⟨s, hs, hd⟩ := Option.map_eq_some_iff.mp hrun
  obtain ⟨hlock, hstalled, hok⟩ := of_decide_eq_true hd
  have hreach : ReachWhen (split aggregator writers) (Ready writers) s :=
    ⟨_, _, ⟨_, _, ⟨_, _, rfl⟩, rfl⟩,
      run_of_follow (fun _ _ _ h => Split.next_step (fun _ _ _ => next_step) h) _ hs, hok⟩
  exact ⟨s, hreach, hlock, hstalled, (stall_isolated hreach).1 _ _ hlock hstalled⟩

/-- A call of a stalled backend that has room for 10 bytes: the main loop waits with `g.lock`, and
    no session is discovered. -/
theorem stall_isolated_full : ∃ s, Reach (split aggregator writers) s ∧ s.lock = some .main ∧
    (s.wires 0).stalled = true ∧ Waiting s .main 0 ∧
      ∀ pids self s', ¬ Split.Step aggregator writers s (.plain (.pollScan pids self)) s' := by
  have hrun : ((follow (Split.next Sys.next writers) (roomy 313) (callStalled ++
      [.put .main 10])).map fun s => decide (s.lock = some .main ∧ (s.wires 0).stalled = true ∧
        (s.wires 0).shut = false ∧ (s.wires 0).room = 0 ∧
          (s.jobs .main).any fun j => decide (j.write.conn = 0 ∧ j.left ≠ []))) = some true := by
    decide +kernel
  obtain ⟨s, hs, hd⟩ := Option.map_eq_some_iff.mp hrun
  obtain ⟨hlock, hstalled, hopen, hroom, hjob⟩ := of_decide_eq_true hd
  obtain ⟨j, hj, hwrites⟩ := Option.any_eq_true .. |>.mp hjob
  obtain ⟨hc, hleft⟩ := of_decide_eq_true hwrites
  refine ⟨s, ⟨_, _, ⟨_, _, ⟨_, _, rfl⟩, rfl⟩,
    run_of_follow (fun _ _ _ h => Split.next_step (fun _ _ _ => next_step) h) _ hs,
    fun _ _ => trivial⟩, hlock, hstalled, ⟨j, hj, hc, hleft, hopen, hroom⟩, ?_⟩
  intro pids self s' hst
  cases hst with
  | plain hidle hw hl hst =>
      have hfree := hl rfl
      rw [hlock] at hfree
      cases hfree

end DisplayxrMcp
