/-
  The aggregator as a system of threads (adapter/workspace_aggregator.c).

  Main loop, poll thread, setup threads and readers, interleaved. One step is
  one critical section under `g.lock`, one write to stdout, one write to or read
  from a connection, or one thread start. What the environment decides is in the
  label: the frame that arrives, the pids enumerated, whether a write, an
  allocation or a thread start succeeds. `Sys.sent` and `Sys.recvd` are the
  traffic of a step on the backend connections, for composing the system with a
  model of the peers.
-/
import DisplayxrMcp.Lib.Lts
import DisplayxrMcp.Aggregator.Agent
import DisplayxrMcp.Aggregator.Backend

namespace DisplayxrMcp

open Lib Cjson

/-- A thread of the aggregator other than main and poll. After its teardown a reader, and
    after registration a setup thread, is left with `emit_list_changed_upstream`. -/
inductive Thread where
  | gone
  | setup (isShell : Bool) (pid : ℤ) (pc : SetupPc)
  | reader (idx : Fin maxBackends) (pc : ReaderPc)
  | emitCheck
  | emitWrite

/-- The main loop: waiting for a frame, about to write a reply (`hello` for `initialize`),
    about to set `agent_initialized`. -/
inductive MainPc where
  | idle
  | reply (seq : Nat) (body : Json) (hello : Bool)
  | markInitialized

/-- The poll thread: about to enumerate, or starting setup threads. -/
inductive PollPc where
  | scan
  | spawn (fresh : List ℤ) (shell : Bool)

/-- The whole process. `frames` and `stdout` are the agent's traffic so far; `conns` numbers
    the next connection. -/
structure Sys where
  g : Global
  frames : List (Option Json)
  main : MainPc
  poll : PollPc
  threads : Nat → Thread
  stdout : List OutFrame
  conns : ConnId

/-- Outcome of starting a thread. -/
inductive Spawn where
  | noMemory
  | noThread
  | thread (t : Nat)

/-- Labels. `t` is the thread that moves. -/
inductive Act where
  | agentFrame (frame : Option Json) (ok : Bool)
  | agentWrite
  | markInitialized
  | pollScan (pids : List ℤ) (self : ℤ)
  | pollSpawn (r : Spawn)
  | pollSleep
  | connect (t : Nat) (ok : Bool)
  | syncSend (t : Nat) (ok : Bool)
  | syncRecv (t : Nat) (f : Inbound)
  | sendInitialized (t : Nat) (ok : Bool)
  | register (t : Nat) (exe : CStr) (r : Spawn)
  | connectingRemove (t : Nat)
  | readerTop (t : Nat)
  | recv (t : Nat) (f : Inbound)
  | refresh (t : Nat) (ok : Bool)
  | lookup (t : Nat)
  | applyResult (t : Nat)
  | relay (t : Nat)
  | emitCheck (t : Nat)
  | emitWrite (t : Nat)
  | teardown (t : Nat)

/-- The thread a label moves; main and poll are not numbered. -/
def Act.thread : Act → Option Nat
  | .agentFrame _ _ | .agentWrite | .markInitialized => none
  | .pollScan _ _ | .pollSpawn _ | .pollSleep => none
  | .connect t _ | .syncSend t _ | .syncRecv t _ | .sendInitialized t _ | .register t _ _
  | .connectingRemove t | .readerTop t | .recv t _ | .refresh t _ | .lookup t | .applyResult t
  | .relay t | .emitCheck t | .emitWrite t | .teardown t => some t

namespace Sys

def setThread (s : Sys) (t : Nat) (th : Thread) : Sys :=
  { s with threads := Function.update s.threads t th }

def setG (s : Sys) (g : Global) : Sys := { s with g := g }

def emit (s : Sys) (out : List OutFrame) : Sys := { s with stdout := s.stdout ++ out }

@[simp] theorem setThread_g (s : Sys) (t : Nat) (th : Thread) : (s.setThread t th).g = s.g := rfl
@[simp] theorem setThread_frames (s : Sys) (t : Nat) (th : Thread) :
    (s.setThread t th).frames = s.frames := rfl
@[simp] theorem setThread_main (s : Sys) (t : Nat) (th : Thread) :
    (s.setThread t th).main = s.main := rfl
@[simp] theorem setThread_stdout (s : Sys) (t : Nat) (th : Thread) :
    (s.setThread t th).stdout = s.stdout := rfl
@[simp] theorem setThread_conns (s : Sys) (t : Nat) (th : Thread) :
    (s.setThread t th).conns = s.conns := rfl
@[simp] theorem setThread_same (s : Sys) (t : Nat) (th : Thread) :
    (s.setThread t th).threads t = th := by simp [setThread]
theorem setThread_ne (s : Sys) {t t' : Nat} (th : Thread) (h : t' ≠ t) :
    (s.setThread t th).threads t' = s.threads t' := by simp [setThread, h]
theorem setThread_apply (s : Sys) (t t' : Nat) (th : Thread) :
    (s.setThread t th).threads t' = if t' = t then th else s.threads t' := by
  simp [setThread, Function.update_apply]
@[simp] theorem setG_g (s : Sys) (g : Global) : (s.setG g).g = g := rfl
@[simp] theorem setG_frames (s : Sys) (g : Global) : (s.setG g).frames = s.frames := rfl
@[simp] theorem setG_main (s : Sys) (g : Global) : (s.setG g).main = s.main := rfl
@[simp] theorem setG_threads (s : Sys) (g : Global) : (s.setG g).threads = s.threads := rfl
@[simp] theorem setG_stdout (s : Sys) (g : Global) : (s.setG g).stdout = s.stdout := rfl
@[simp] theorem setG_conns (s : Sys) (g : Global) : (s.setG g).conns = s.conns := rfl
@[simp] theorem emit_g (s : Sys) (out : List OutFrame) : (s.emit out).g = s.g := rfl
@[simp] theorem emit_frames (s : Sys) (out : List OutFrame) : (s.emit out).frames = s.frames := rfl
@[simp] theorem emit_main (s : Sys) (out : List OutFrame) : (s.emit out).main = s.main := rfl
@[simp] theorem emit_threads (s : Sys) (out : List OutFrame) :
    (s.emit out).threads = s.threads := rfl
@[simp] theorem emit_stdout (s : Sys) (out : List OutFrame) :
    (s.emit out).stdout = s.stdout ++ out := rfl
@[simp] theorem emit_nil (s : Sys) : s.emit [] = s := by simp [emit]
@[simp] theorem emit_conns (s : Sys) (out : List OutFrame) : (s.emit out).conns = s.conns := rfl

/-- Main takes a frame. -/
def onAgentFrame (s : Sys) (frame : Option Json) (ok : Bool) : Sys :=
  let h := handleAgentFrame s.g s.frames.length frame ok
  { s with
    g := h.g
    frames := s.frames ++ [frame]
    main := match h.reply with
      | some r => .reply s.frames.length r (isInitialize frame)
      | none => .idle }

/-- `spawn_setup` with the outcome of its allocation and thread start. -/
def spawnSetup (s : Sys) (isShell : Bool) (pid : ℤ) : Spawn → Sys
  | .noMemory => s
  | .noThread => s.setG (connectingRemove s.g isShell pid)
  | .thread t => s.setThread t (.setup isShell pid .connect)

/-- A thread id handed out by `pthread_create` is not in use. -/
def FreshThread (s : Sys) : Spawn → Prop
  | .thread t => s.threads t = .gone
  | _ => True

end Sys

/-- The reader's next point after a read. -/
def onInbound : Inbound → ReaderPc
  | .eof => .dying
  | .junk => .top
  | .msg j => onMessage j

/-- The text of a notification, with no request behind it. -/
def listChangedFrame : OutFrame := ⟨none, listChanged⟩

/-- One step. -/
inductive Step : Sys → Act → Sys → Prop where
  | agentFrame {s frame ok} (hm : s.main = .idle) :
      Step s (.agentFrame frame ok) (s.onAgentFrame frame ok)
  | agentWrite {s seq body hello} (hm : s.main = .reply seq body hello) :
      Step s .agentWrite { s.emit [⟨some seq, body.reparse⟩] with
        main := if hello then .markInitialized else .idle }
  | markInitialized {s} (hm : s.main = .markInitialized) :
      Step s .markInitialized
        { s.setG { s.g with agentInitialized := true } with main := .idle }
  | pollScan {s pids self} (hp : s.poll = .scan) (hlen : pids.length ≤ 64) :
      Step s (.pollScan pids self) { s.setG (pollScan s.g pids self).1 with
        poll := .spawn (pollScan s.g pids self).2.1 (pollScan s.g pids self).2.2 }
  | pollSpawn {s pid fresh shell r} (hp : s.poll = .spawn (pid :: fresh) shell)
      (hr : s.FreshThread r) :
      Step s (.pollSpawn r) { s.spawnSetup false pid r with poll := .spawn fresh shell }
  | pollSpawnShell {s r} (hp : s.poll = .spawn [] true) (hr : s.FreshThread r) :
      Step s (.pollSpawn r) { s.spawnSetup true 0 r with poll := .spawn [] false }
  | pollSleep {s} (hp : s.poll = .spawn [] false) : Step s .pollSleep { s with poll := .scan }
  | connect {s t sh pid} (h : s.threads t = .setup sh pid .connect) :
      Step s (.connect t true)
        { s.setThread t (.setup sh pid (.send s.conns .hello)) with conns := s.conns + 1 }
  | connectFail {s t sh pid} (h : s.threads t = .setup sh pid .connect) :
      Step s (.connect t false) (s.setThread t (.setup sh pid (.remove false)))
  | syncSend {s t sh pid c ph ok} (h : s.threads t = .setup sh pid (.send c ph)) :
      Step s (.syncSend t ok)
        (s.setThread t (.setup sh pid (if ok then .recv c ph 0 else .remove false)))
  | syncRecv {s t sh pid c ph k f} (h : s.threads t = .setup sh pid (.recv c ph k)) :
      Step s (.syncRecv t f) (s.setThread t (.setup sh pid (syncStep c ph k f)))
  | sendInitialized {s t sh pid c appId ok}
      (h : s.threads t = .setup sh pid (.initialized c appId)) :
      Step s (.sendInitialized t ok) (s.setThread t (.setup sh pid (.send c (.list appId))))
  | registerFull {s t sh pid c appId resp exe r}
      (h : s.threads t = .setup sh pid (.register c appId resp))
      (hr : backendRegister s.g sh pid c appId resp exe = none) :
      Step s (.register t exe r) (s.setThread t (.setup sh pid (.remove false)))
  | registerNoThread {s t sh pid c appId resp exe idx g'}
      (h : s.threads t = .setup sh pid (.register c appId resp))
      (hr : backendRegister s.g sh pid c appId resp exe = some (idx, g')) :
      Step s (.register t exe .noThread)
        (((s.setG (backendTeardownLocked g' idx).1).emit (backendTeardownLocked g' idx).2).setThread
          t (.setup sh pid (.remove false)))
  | registered {s t t' sh pid c appId resp exe idx g'}
      (h : s.threads t = .setup sh pid (.register c appId resp))
      (hr : backendRegister s.g sh pid c appId resp exe = some (idx, g'))
      (hfree : s.threads t' = .gone) :
      Step s (.register t exe (.thread t'))
        (((s.setG g').setThread t (.setup sh pid (.remove true))).setThread t' (.reader idx .top))
  | connectingRemove {s t sh pid registered}
      (h : s.threads t = .setup sh pid (.remove registered)) :
      Step s (.connectingRemove t)
        ((s.setG (connectingRemove s.g sh pid)).setThread t (if registered then .emitCheck else .gone))
  | readerTop {s t idx} (h : s.threads t = .reader idx .top) :
      Step s (.readerTop t) (s.setThread t (.reader idx (match s.g.backends idx with
        | some b => .read b.conn
        | none => .dying)))
  | recv {s t idx c f} (h : s.threads t = .reader idx (.read c)) :
      Step s (.recv t f) (s.setThread t (.reader idx (onInbound f)))
  | refresh {s t idx ok} (h : s.threads t = .reader idx .refresh) :
      Step s (.refresh t ok)
        ((s.setG (refreshBackendTools s.g idx ok).1).setThread t (.reader idx .top))
  | lookup {s t idx d msg} (h : s.threads t = .reader idx (.lookup d msg)) :
      Step s (.lookup t) ((s.setG (readerLookup s.g idx d msg).1).setThread t
        (.reader idx (readerLookup s.g idx d msg).2))
  | applied {s t idx result g'} (h : s.threads t = .reader idx (.apply result))
      (ha : applyToolsResult s.g idx result = some g') :
      Step s (.applyResult t) ((s.setG g').setThread t (.reader idx .emitCheck))
  | notApplied {s t idx result} (h : s.threads t = .reader idx (.apply result))
      (ha : applyToolsResult s.g idx result = none) :
      Step s (.applyResult t) (s.setThread t (.reader idx .top))
  | relay {s t idx seq body} (h : s.threads t = .reader idx (.relay seq body)) :
      Step s (.relay t) ((s.emit [⟨seq, body.reparse⟩]).setThread t (.reader idx .top))
  | readerEmitCheck {s t idx} (h : s.threads t = .reader idx .emitCheck) :
      Step s (.emitCheck t) (s.setThread t
        (.reader idx (if s.g.agentInitialized then .emitWrite else .top)))
  | readerEmitWrite {s t idx} (h : s.threads t = .reader idx .emitWrite) :
      Step s (.emitWrite t) ((s.emit [listChangedFrame]).setThread t (.reader idx .top))
  | teardown {s t idx} (h : s.threads t = .reader idx .dying) :
      Step s (.teardown t)
        (((s.setG (backendTeardownLocked s.g idx).1).emit (backendTeardownLocked s.g idx).2).setThread
          t .emitCheck)
  | emitCheck {s t} (h : s.threads t = .emitCheck) :
      Step s (.emitCheck t) (s.setThread t (if s.g.agentInitialized then .emitWrite else .gone))
  | emitWrite {s t} (h : s.threads t = .emitWrite) :
      Step s (.emitWrite t) ((s.emit [listChangedFrame]).setThread t .gone)

namespace Sys

/-- The start of `workspace_aggregator_run`. -/
def start (platform : Platform) (exposeDiagnostics : Bool) : Sys where
  g :=
    { platform := platform
      exposeDiagnostics := exposeDiagnostics
      agentInitialized := false
      backends := Slots.empty _ _
      inflight := Slots.empty _ _
      nextLocalId := 0
      usedPrefixes := []
      connecting := []
      shellConnecting := false }
  frames := []
  main := .idle
  poll := .scan
  threads := fun _ => .gone
  stdout := []
  conns := 0

/-- The complete frame a step writes to a backend connection. -/
def sent (s : Sys) : Act → Option (ConnId × Json)
  | .agentFrame frame ok => (handleAgentFrame s.g s.frames.length frame ok).sent
  | .syncSend t ok => match s.threads t with
    | .setup _ _ (.send c ph) => if ok then some (c, ph.request) else none
    | _ => none
  | .sendInitialized t ok => match s.threads t with
    | .setup _ _ (.initialized c _) => if ok then some (c, initializedNote) else none
    | _ => none
  | .refresh t ok => match s.threads t with
    | .reader idx .refresh => (refreshBackendTools s.g idx ok).2
    | _ => none
  | _ => none

/-- What a step reads from a backend connection. -/
def recvd (s : Sys) : Act → Option (ConnId × Inbound)
  | .syncRecv t f => match s.threads t with
    | .setup _ _ (.recv c _ _) => some (c, f)
    | _ => none
  | .recv t f => match s.threads t with
    | .reader _ (.read c) => some (c, f)
    | _ => none
  | _ => none

end Sys

/-- The aggregator with unconstrained peers. -/
def aggregator : Lts.System Sys Act where
  init s := ∃ platform expose, s = Sys.start platform expose
  step := Step

end DisplayxrMcp
