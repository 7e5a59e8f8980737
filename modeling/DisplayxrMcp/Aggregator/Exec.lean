/-
  The step relation as a function, to run the aggregator on given labels.

  `Sys.next` computes the state a label leads to, or `none` when the label is
  not enabled; `next_step` and `step_next` say that its steps are those of
  `Step`. Proofs invert a step with it, and concrete histories are evaluated.
-/
import DisplayxrMcp.Aggregator.System

namespace DisplayxrMcp

open Lib Cjson Lts

/-- Whether `FreshThread` holds. -/
def Thread.isGone : Thread → Bool
  | .gone => true
  | _ => false

theorem Thread.eq_gone {th : Thread} (h : th.isGone = true) : th = .gone := by
  cases th <;> simp_all [Thread.isGone]

namespace Sys

def spawnFree (s : Sys) : Spawn → Bool
  | .thread t => (s.threads t).isGone
  | _ => true

theorem freshThread_of_spawnFree {s : Sys} {r : Spawn} (h : s.spawnFree r = true) :
    s.FreshThread r := by
  cases r with
  | noMemory => trivial
  | noThread => trivial
  | thread t => exact Thread.eq_gone h

/-- A step of a setup thread. -/
def nextSetup (s : Sys) (t : Nat) (sh : Bool) (pid : ℤ) (pc : SetupPc) (a : Act) : Option Sys :=
  match pc, a with
  | .connect, .connect _ true =>
      some { s.setThread t (.setup sh pid (.send s.conns .hello)) with conns := s.conns + 1 }
  | .connect, .connect _ false => some (s.setThread t (.setup sh pid (.remove false)))
  | .send c ph, .syncSend _ ok =>
      some (s.setThread t (.setup sh pid (if ok then .recv c ph 0 else .remove false)))
  | .recv c ph k, .syncRecv _ f => some (s.setThread t (.setup sh pid (syncStep c ph k f)))
  | .initialized c appId, .sendInitialized _ _ =>
      some (s.setThread t (.setup sh pid (.send c (.list appId))))
  | .register c appId resp, .register _ exe r =>
      match backendRegister s.g sh pid c appId resp exe, r with
      | none, _ => some (s.setThread t (.setup sh pid (.remove false)))
      | some (idx, g'), .noThread =>
          some (((s.setG (backendTeardownLocked g' idx).1).emit
            (backendTeardownLocked g' idx).2).setThread t (.setup sh pid (.remove false)))
      | some (idx, g'), .thread t' =>
          if (s.threads t').isGone then
            some (((s.setG g').setThread t (.setup sh pid (.remove true))).setThread t'
              (.reader idx .top))
          else none
      | some _, .noMemory => none
  | .remove registered, .connectingRemove _ =>
      some ((s.setG (connectingRemove s.g sh pid)).setThread t
        (if registered then .emitCheck else .gone))
  | _, _ => none

/-- A step of a reader. -/
def nextReader (s : Sys) (t : Nat) (idx : Fin maxBackends) (pc : ReaderPc) (a : Act) :
    Option Sys :=
  match pc, a with
  | .top, .readerTop _ => some (s.setThread t (.reader idx (match s.g.backends idx with
      | some b => .read b.conn
      | none => .dying)))
  | .read _, .recv _ f => some (s.setThread t (.reader idx (onInbound f)))
  | .refresh, .refresh _ ok =>
      some ((s.setG (refreshBackendTools s.g idx ok).1).setThread t (.reader idx .top))
  | .lookup d msg, .lookup _ =>
      some ((s.setG (readerLookup s.g idx d msg).1).setThread t
        (.reader idx (readerLookup s.g idx d msg).2))
  | .apply result, .applyResult _ =>
      match applyToolsResult s.g idx result with
      | some g' => some ((s.setG g').setThread t (.reader idx .emitCheck))
      | none => some (s.setThread t (.reader idx .top))
  | .relay seq body, .relay _ =>
      some ((s.emit [⟨seq, body.reparse⟩]).setThread t (.reader idx .top))
  | .emitCheck, .emitCheck _ =>
      some (s.setThread t (.reader idx (if s.g.agentInitialized then .emitWrite else .top)))
  | .emitWrite, .emitWrite _ => some ((s.emit [listChangedFrame]).setThread t (.reader idx .top))
  | .dying, .teardown _ =>
      some (((s.setG (backendTeardownLocked s.g idx).1).emit
        (backendTeardownLocked s.g idx).2).setThread t .emitCheck)
  | _, _ => none

/-- A step of thread `t`. -/
def nextThread (s : Sys) (t : Nat) (a : Act) : Option Sys :=
  match s.threads t with
  | .gone => none
  | .setup sh pid pc => s.nextSetup t sh pid pc a
  | .reader idx pc => s.nextReader t idx pc a
  | .emitCheck => match a with
    | .emitCheck _ => some (s.setThread t (if s.g.agentInitialized then .emitWrite else .gone))
    | _ => none
  | .emitWrite => match a with
    | .emitWrite _ => some ((s.emit [listChangedFrame]).setThread t .gone)
    | _ => none

/-- A step of the main loop. -/
def nextMain (s : Sys) (a : Act) : Option Sys :=
  match s.main, a with
  | .idle, .agentFrame frame ok => some (s.onAgentFrame frame ok)
  | .reply seq body hello, .agentWrite =>
      some { s.emit [⟨some seq, body.reparse⟩] with
        main := if hello then .markInitialized else .idle }
  | .markInitialized, .markInitialized =>
      some { s.setG { s.g with agentInitialized := true } with main := .idle }
  | _, _ => none

/-- A step of the poll thread. -/
def nextPoll (s : Sys) (a : Act) : Option Sys :=
  match s.poll, a with
  | .scan, .pollScan pids self =>
      if pids.length ≤ 64 then
        some { s.setG (DisplayxrMcp.pollScan s.g pids self).1 with
          poll := .spawn (DisplayxrMcp.pollScan s.g pids self).2.1
            (DisplayxrMcp.pollScan s.g pids self).2.2 }
      else none
  | .spawn (pid :: fresh) shell, .pollSpawn r =>
      if s.spawnFree r then some { s.spawnSetup false pid r with poll := .spawn fresh shell }
      else none
  | .spawn [] true, .pollSpawn r =>
      if s.spawnFree r then some { s.spawnSetup true 0 r with poll := .spawn [] false } else none
  | .spawn [] false, .pollSleep => some { s with poll := .scan }
  | _, _ => none

/-- The state a label leads to. -/
def next (s : Sys) (a : Act) : Option Sys :=
  match a.thread with
  | some t => s.nextThread t a
  | none => (s.nextMain a).or (s.nextPoll a)

end Sys

theorem nextMain_step {s s' : Sys} {a : Act} (h : s.nextMain a = some s') : Step s a s' := by
  unfold Sys.nextMain at h
  split at h
  · next hm => cases h; exact .agentFrame hm
  · next hm => cases h; exact .agentWrite hm
  · next hm => cases h; exact .markInitialized hm
  · cases h

theorem nextPoll_step {s s' : Sys} {a : Act} (h : s.nextPoll a = some s') : Step s a s' := by
  unfold Sys.nextPoll at h
  split at h
  · next hp =>
      split at h
      · next hlen => cases h; exact .pollScan hp hlen
      · cases h
  · next hp =>
      split at h
      · next hr => cases h; exact .pollSpawn hp (Sys.freshThread_of_spawnFree hr)
      · cases h
  · next hp =>
      split at h
      · next hr => cases h; exact .pollSpawnShell hp (Sys.freshThread_of_spawnFree hr)
      · cases h
  · next hp => cases h; exact .pollSleep hp
  · cases h

theorem nextSetup_step {s s' : Sys} {a : Act} {t : Nat} {sh : Bool} {pid : ℤ} {pc : SetupPc}
    (ht : s.threads t = .setup sh pid pc) (ha : a.thread = some t)
    (h : s.nextSetup t sh pid pc a = some s') : Step s a s' := by
  unfold Sys.nextSetup at h
  split at h
  · cases ha; cases h; exact .connect ht
  · cases ha; cases h; exact .connectFail ht
  · cases ha; cases h; exact .syncSend ht
  · cases ha; cases h; exact .syncRecv ht
  · cases ha; cases h; exact .sendInitialized ht
  · cases ha
    split at h
    · next hr => cases h; exact .registerFull ht hr
    · next hr => obtain rfl := Option.some.inj h; exact .registerNoThread ht hr
    · next hr =>
        split at h
        · next hfree => cases h; exact .registered ht hr (Thread.eq_gone hfree)
        · cases h
    · cases h
  · cases ha; obtain rfl := Option.some.inj h; exact .connectingRemove ht
  · cases h

theorem nextReader_step {s s' : Sys} {a : Act} {t : Nat} {idx : Fin maxBackends} {pc : ReaderPc}
    (ht : s.threads t = .reader idx pc) (ha : a.thread = some t)
    (h : s.nextReader t idx pc a = some s') : Step s a s' := by
  unfold Sys.nextReader at h
  split at h
  · cases ha; cases h; exact .readerTop ht
  · cases ha; cases h; exact .recv ht
  · cases ha; cases h; exact .refresh ht
  · cases ha; cases h; exact .lookup ht
  · cases ha
    split at h
    · next hg => cases h; exact .applied ht hg
    · next hg => cases h; exact .notApplied ht hg
  · cases ha; cases h; exact .relay ht
  · cases ha; cases h; exact .readerEmitCheck ht
  · cases ha; cases h; exact .readerEmitWrite ht
  · cases ha; obtain rfl := Option.some.inj h; exact .teardown ht
  · cases h

theorem nextThread_step {s s' : Sys} {a : Act} {t : Nat} (ha : a.thread = some t)
    (h : s.nextThread t a = some s') : Step s a s' := by
  unfold Sys.nextThread at h
  split at h
  · cases h
  · next ht => exact nextSetup_step ht ha h
  · next ht => exact nextReader_step ht ha h
  · next ht =>
      split at h
      · cases ha; cases h; exact .emitCheck ht
      · cases h
  · next ht =>
      split at h
      · cases ha; cases h; exact .emitWrite ht
      · cases h

theorem next_step {s s' : Sys} {a : Act} (h : s.next a = some s') : Step s a s' := by
  unfold Sys.next at h
  split at h
  · next ha => exact nextThread_step ha h
  · rcases Option.or_eq_some_iff.mp h with hm | ⟨_, hp⟩
    · exact nextMain_step hm
    · exact nextPoll_step hp

theorem spawnFree_of_freshThread {s : Sys} {r : Spawn} (h : s.FreshThread r) :
    s.spawnFree r = true := by
  cases r with
  | noMemory => rfl
  | noThread => rfl
  | thread t =>
      have hgone : s.threads t = .gone := h
      simp [Sys.spawnFree, hgone, Thread.isGone]

/-- `Sys.next` takes every step. -/
theorem step_next {s s' : Sys} {a : Act} (h : Step s a s') : s.next a = some s' := by
  cases h with
  | agentFrame hm => simp [Sys.next, Act.thread, Sys.nextMain, hm]
  | agentWrite hm => simp [Sys.next, Act.thread, Sys.nextMain, hm]
  | markInitialized hm => simp [Sys.next, Act.thread, Sys.nextMain, hm]
  | pollScan hp hlen => simp [Sys.next, Act.thread, Sys.nextMain, Sys.nextPoll, hp, hlen]
  | pollSpawn hp hr =>
      simp [Sys.next, Act.thread, Sys.nextMain, Sys.nextPoll, hp, spawnFree_of_freshThread hr]
  | pollSpawnShell hp hr =>
      simp [Sys.next, Act.thread, Sys.nextMain, Sys.nextPoll, hp, spawnFree_of_freshThread hr]
  | pollSleep hp => simp [Sys.next, Act.thread, Sys.nextMain, Sys.nextPoll, hp]
  | connect ht => simp [Sys.next, Act.thread, Sys.nextThread, ht, Sys.nextSetup]
  | connectFail ht => simp [Sys.next, Act.thread, Sys.nextThread, ht, Sys.nextSetup]
  | syncSend ht => simp [Sys.next, Act.thread, Sys.nextThread, ht, Sys.nextSetup]
  | syncRecv ht => simp [Sys.next, Act.thread, Sys.nextThread, ht, Sys.nextSetup]
  | sendInitialized ht => simp [Sys.next, Act.thread, Sys.nextThread, ht, Sys.nextSetup]
  | registerFull ht hr => simp [Sys.next, Act.thread, Sys.nextThread, ht, Sys.nextSetup, hr]
  | registerNoThread ht hr => simp [Sys.next, Act.thread, Sys.nextThread, ht, Sys.nextSetup, hr]
  | registered ht hr hfree =>
      simp [Sys.next, Act.thread, Sys.nextThread, ht, Sys.nextSetup, hr, hfree, Thread.isGone]
  | connectingRemove ht => simp [Sys.next, Act.thread, Sys.nextThread, ht, Sys.nextSetup]
  | @readerTop t idx ht =>
      cases hb : s.g.backends idx <;>
        simp [Sys.next, Act.thread, Sys.nextThread, ht, Sys.nextReader, hb]
  | recv ht => simp [Sys.next, Act.thread, Sys.nextThread, ht, Sys.nextReader]
  | refresh ht => simp [Sys.next, Act.thread, Sys.nextThread, ht, Sys.nextReader]
  | lookup ht => simp [Sys.next, Act.thread, Sys.nextThread, ht, Sys.nextReader]
  | applied ht ha => simp [Sys.next, Act.thread, Sys.nextThread, ht, Sys.nextReader, ha]
  | notApplied ht ha => simp [Sys.next, Act.thread, Sys.nextThread, ht, Sys.nextReader, ha]
  | relay ht => simp [Sys.next, Act.thread, Sys.nextThread, ht, Sys.nextReader]
  | readerEmitCheck ht => simp [Sys.next, Act.thread, Sys.nextThread, ht, Sys.nextReader]
  | readerEmitWrite ht => simp [Sys.next, Act.thread, Sys.nextThread, ht, Sys.nextReader]
  | teardown ht => simp [Sys.next, Act.thread, Sys.nextThread, ht, Sys.nextReader]
  | emitCheck ht => simp [Sys.next, Act.thread, Sys.nextThread, ht]
  | emitWrite ht => simp [Sys.next, Act.thread, Sys.nextThread, ht]

/-- The steps of a reader, by where it stands. -/
theorem step_reader {s s' : Sys} {a : Act} {t : Nat} {idx : Fin maxBackends} {pc : ReaderPc}
    (h : Step s a s') (ht : s.threads t = .reader idx pc) (ha : a.thread = some t) :
    s.nextReader t idx pc a = some s' := by
  have hn := step_next h
  simp only [Sys.next, ha, Sys.nextThread, ht] at hn
  exact hn

/-- Labels the aggregator can follow from its start lead to a reachable state. -/
theorem reach_of_follow {ok : Sys → Act → Prop} {platform : Platform} {expose : Bool}
    {as : List Act} {s : Sys} (h : follow Sys.next (Sys.start platform expose) as = some s)
    (hok : Meets ok (record Sys.next (Sys.start platform expose) as)) :
    ReachWhen aggregator ok s :=
  ⟨_, _, ⟨platform, expose, rfl⟩, run_of_follow (fun _ _ _ => next_step) as h, hok⟩

/-! ## Histories -/

/-- A platform for concrete runs. -/
def plainPlatform : Platform := ⟨fun _ => 0, fun _ => [], ascii "0.3.2"⟩

/-- A response to request `id`. -/
def response (id : Nat) (result : Json) : Json :=
  fields [("jsonrpc", text "2.0"), ("id", Json.ofNat id), ("result", result)]

/-- A tool entry that is exposed to the agent. -/
def toolEntry (name : String) : Json :=
  fields [("name", text name), ("_meta", fields [("displayxr/group", text "app")])]

/-- A `tools/list` result. -/
def toolsResult (names : List String) : Json := fields [("tools", .arr (names.map toolEntry))]

/-- An `initialize` result with this app id. -/
def helloResult (appId : String) : Json :=
  fields [("serverInfo", fields [("appId", text appId)])]

/-- A `tools/call` of the agent. -/
def callFrame (id : Nat) (name : String) : Json :=
  fields [("jsonrpc", text "2.0"), ("id", Json.ofNat id), ("method", text "tools/call"),
    ("params", fields [("name", text name)])]

/-- The session `pid` joins through setup thread `t`; `t'` is its reader, left before its
    first read. The shell's setup thread does not start. -/
def joins (pid : ℤ) (t t' : Nat) (exe : String) (hello tools : Json) : List Act :=
  [.pollScan [pid] 0, .pollSpawn (.thread t), .pollSpawn .noThread, .pollSleep, .connect t true,
    .syncSend t true, .syncRecv t (.msg (response 1 hello)), .sendInitialized t true,
    .syncSend t true, .syncRecv t (.msg (response 2 tools)), .register t (ascii exe) (.thread t'),
    .connectingRemove t, .emitCheck t]

end DisplayxrMcp
