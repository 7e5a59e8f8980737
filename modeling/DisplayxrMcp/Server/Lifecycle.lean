/-
  The client slots of the server (src/mcp_server.c, "Notifications", "Per-connection
  serve loop", "Thread entry", "Public start/stop").

  A connection goes from the accept thread to a slot, and from the slot to its
  serve thread, which closes it; broadcasts and `mcp_server_stop` work on the
  slots meanwhile. One step takes `conns_mutex`, or is what its holder does up to
  the next call that lets others run, or one operation on a connection. The
  connection an operation is applied to is read from where the code reads it:
  it may be NULL, or closed, for all the steps say.

  `slot_lifecycle` is what holds in every state: the steps keep the discipline
  of `Lib.Custody`, and the counter is the number of used slots.
-/
import DisplayxrMcp.Lib.Custody
import DisplayxrMcp.Server.System

namespace DisplayxrMcp.Server.Lifecycle

open Lib Lts

/-! ## State -/

/-- What is done to a connection, beside closing it, with its outcome: a read or a write of the
    serve thread, a bounded write of a broadcast, an abort. -/
inductive ConnOp where
  | read (got : Bool)
  | write (ok : Bool)
  | bounded (ok : Bool)
  | abort
  deriving DecidableEq

/-- A failure the serve thread sees. -/
def ConnOp.failed : ConnOp → Bool
  | .read got => !got
  | .write ok => !ok
  | _ => false

/-- Where `server_thread` stands; under the lock the section says more. -/
inductive AcceptPc where
  | accept
  | accepted (c : ConnId)
  | locked
  | rejected (c : ConnId)
  | returned
  deriving DecidableEq

/-- Where a `client_thread` stands. -/
inductive ClientPc where
  | serve
  | reply
  | header
  | body
  | unwind
  | locked
  | leaving
  | closing (c : Option ConnId)
  | returned
  deriving DecidableEq

/-- A client thread and the slot it was given. -/
structure ClientThread where
  slot : Fin maxConns
  pc : ClientPc
  deriving DecidableEq

/-- Where `mcp_server_stop` stands. -/
inductive StopPc where
  | idle
  | join
  | lock
  | locked
  | waiting
  | woken
  | returned
  deriving DecidableEq

/-- What the holder of `conns_mutex` is about to do. -/
inductive Section where
  /-- The accept thread: look for a slot, start the thread, count it. -/
  | scan (c : ConnId)
  | placed (k : Fin maxConns) (c : ConnId)
  | created
  /-- Client thread `j`: clear slot `k`, count down. -/
  | unwind (j : Nat) (k : Fin maxConns)
  | left (j : Nat) (k : Fin maxConns) (c : Option ConnId)
  /-- A broadcast: the loop at slot `i`, the two writes. -/
  | visit (i : Nat)
  | header (k : Fin maxConns)
  | body (k : Fin maxConns)
  /-- The stopper: the loop at slot `i`, the wait. -/
  | abort (i : Nat)
  | drain
  deriving DecidableEq

/-- `g_server` and its threads. `accepted` connections were accepted so far, `threads` client
    threads created. A `writeMutex` is whether it is held. -/
structure State where
  slots : Slots maxConns ConnId
  initialized : Fin maxConns → Bool
  writeMutex : Fin maxConns → Bool
  activeClients : Nat
  connsMutex : Option Section
  listenerOpen : Bool
  accept : AcceptPc
  clients : Nat → Option ClientThread
  threads : Nat
  stop : StopPc
  accepted : ConnId
  log : List (Deed ConnOp × Option ConnId)

/-- A server that has just been started. -/
def started : State where
  slots := Slots.empty _ _
  initialized := fun _ => false
  writeMutex := fun _ => false
  activeClients := 0
  connsMutex := none
  listenerOpen := true
  accept := .accept
  clients := fun _ => none
  threads := 0
  stop := .idle
  accepted := 0
  log := []

namespace State

def setClient (s : State) (j : Nat) (t : ClientThread) : State :=
  { s with clients := Function.update s.clients j (some t) }

/-- `os` is applied to the connection in slot `k`. -/
def apply (s : State) (k : Fin maxConns) (os : List ConnOp) : State :=
  { s with log := s.log ++ os.map fun o => (.op o, s.slots k) }

end State

/-! ## Steps -/

/-- A step of the accept thread. -/
inductive AcceptStep (s : State) : State → Prop where
  | accepted (ha : s.accept = .accept) (ho : s.listenerOpen = true) :
      AcceptStep s { s with accept := .accepted s.accepted, accepted := s.accepted + 1 }
  /-- `mcp_listener_accept` returns NULL: the listener is closed, or accepting failed. -/
  | listenerNull (ha : s.accept = .accept) : AcceptStep s { s with accept := .returned }
  | lock {c : ConnId} (ha : s.accept = .accepted c) (hm : s.connsMutex = none) :
      AcceptStep s { s with accept := .locked, connsMutex := some (.scan c) }
  | place {c : ConnId} {k : Fin maxConns} (hm : s.connsMutex = some (.scan c))
      (hk : s.slots.firstFree = some k) :
      AcceptStep s { s with
        slots := s.slots.put k c
        initialized := Function.update s.initialized k false
        connsMutex := some (.placed k c) }
  /-- The client limit is reached. -/
  | full {c : ConnId} (hm : s.connsMutex = some (.scan c)) (hk : s.slots.firstFree = none) :
      AcceptStep s { s with accept := .rejected c, connsMutex := none }
  | create {c : ConnId} {k : Fin maxConns} (hm : s.connsMutex = some (.placed k c)) :
      AcceptStep s { s.setClient s.threads ⟨k, .serve⟩ with
        threads := s.threads + 1
        connsMutex := some .created }
  /-- `pthread_create` fails. -/
  | createFailed {c : ConnId} {k : Fin maxConns} (hm : s.connsMutex = some (.placed k c)) :
      AcceptStep s { s with
        slots := s.slots.clear k
        accept := .rejected c
        connsMutex := none }
  | count (hm : s.connsMutex = some .created) :
      AcceptStep s { s with
        activeClients := s.activeClients + 1
        accept := .accept
        connsMutex := none }
  | close {c : ConnId} (ha : s.accept = .rejected c) :
      AcceptStep s { s with accept := .accept, log := s.log ++ [(.close, some c)] }

/-- What a read of the serve loop comes to: the frame goes on, a request was handled (`hello` for
    an `initialize`; with a reply or without), or the frame cannot be had. -/
inductive ReadResult where
  | more
  | handled (hello : Bool) (reply : Bool)
  | failed

def ReadResult.next : ReadResult → ClientPc
  | .more => .serve
  | .handled _ reply => if reply then .reply else .serve
  | .failed => .unwind

def ReadResult.got : ReadResult → Bool
  | .failed => false
  | _ => true

def ReadResult.hello : ReadResult → Bool
  | .handled hello _ => hello
  | _ => false

/-- A step of client thread `j` in `serve`. -/
inductive ServeStep (s : State) (j : Nat) : State → Prop where
  | read {k : Fin maxConns} (r : ReadResult) (hj : s.clients j = some ⟨k, .serve⟩) :
      ServeStep s j { (s.setClient j ⟨k, r.next⟩).apply k [.read r.got] with
        initialized := Function.update s.initialized k (s.initialized k || r.hello) }
  | lockWrite {k : Fin maxConns} (hj : s.clients j = some ⟨k, .reply⟩)
      (hw : s.writeMutex k = false) :
      ServeStep s j { s.setClient j ⟨k, .header⟩ with
        writeMutex := Function.update s.writeMutex k true }
  | writeHeader {k : Fin maxConns} (ok : Bool) (hj : s.clients j = some ⟨k, .header⟩) :
      ServeStep s j { (s.setClient j ⟨k, if ok then .body else .unwind⟩).apply k [.write ok] with
        writeMutex := Function.update s.writeMutex k ok }
  | writeBody {k : Fin maxConns} (ok : Bool) (hj : s.clients j = some ⟨k, .body⟩) :
      ServeStep s j { (s.setClient j ⟨k, if ok then .serve else .unwind⟩).apply k [.write ok] with
        writeMutex := Function.update s.writeMutex k false }

/-- A step of client thread `j` after `serve`. -/
inductive UnwindStep (s : State) (j : Nat) : State → Prop where
  | lock {k : Fin maxConns} (hj : s.clients j = some ⟨k, .unwind⟩) (hm : s.connsMutex = none) :
      UnwindStep s j { s.setClient j ⟨k, .locked⟩ with connsMutex := some (.unwind j k) }
  | clear {k : Fin maxConns} (hm : s.connsMutex = some (.unwind j k)) :
      UnwindStep s j { s.setClient j ⟨k, .leaving⟩ with
        slots := s.slots.clear k
        initialized := Function.update s.initialized k false
        connsMutex := some (.left j k (s.slots k)) }
  /-- Count down, signal `conns_drained` at 0, unlock. -/
  | unlock {k : Fin maxConns} {c : Option ConnId} (hm : s.connsMutex = some (.left j k c)) :
      UnwindStep s j { s.setClient j ⟨k, .closing c⟩ with
        activeClients := s.activeClients - 1
        connsMutex := none
        stop := if s.activeClients - 1 = 0 ∧ s.stop = .waiting then .woken else s.stop }
  | close {k : Fin maxConns} {c : Option ConnId} (hj : s.clients j = some ⟨k, .closing c⟩) :
      UnwindStep s j { s.setClient j ⟨k, .returned⟩ with log := s.log ++ [(.close, c)] }

/-- What `mcp_conn_write_bounded` does: a write that fails aborts the connection. -/
def writeBounded (ok : Bool) : List ConnOp :=
  if ok then [.bounded true] else [.bounded false, .abort]

/-- A step of a thread in `broadcast_notification`. -/
inductive BroadcastStep (s : State) : State → Prop where
  | lock (hm : s.connsMutex = none) : BroadcastStep s { s with connsMutex := some (.visit 0) }
  | skip {k : Fin maxConns} (hm : s.connsMutex = some (.visit k))
      (hk : s.slots k = none ∨ s.initialized k = false ∨ s.writeMutex k = true) :
      BroadcastStep s { s with connsMutex := some (.visit (k + 1)) }
  | take {k : Fin maxConns} {c : ConnId} (hm : s.connsMutex = some (.visit k))
      (hk : s.slots k = some c) (hi : s.initialized k = true) (hw : s.writeMutex k = false) :
      BroadcastStep s { s with
        writeMutex := Function.update s.writeMutex k true
        connsMutex := some (.header k) }
  | header {k : Fin maxConns} (ok : Bool) (hm : s.connsMutex = some (.header k)) :
      BroadcastStep s { s.apply k (writeBounded ok) with
        writeMutex := Function.update s.writeMutex k ok
        connsMutex := some (if ok then .body k else .visit (k + 1)) }
  | body {k : Fin maxConns} (ok : Bool) (hm : s.connsMutex = some (.body k)) :
      BroadcastStep s { s.apply k (writeBounded ok) with
        writeMutex := Function.update s.writeMutex k false
        connsMutex := some (.visit (k + 1)) }
  | unlock (hm : s.connsMutex = some (.visit maxConns)) :
      BroadcastStep s { s with connsMutex := none }

/-- A step of `mcp_server_stop`. -/
inductive StopStep (s : State) : State → Prop where
  | listenerClose (hs : s.stop = .idle) :
      StopStep s { s with listenerOpen := false, stop := .join }
  | join (hs : s.stop = .join) (ha : s.accept = .returned) : StopStep s { s with stop := .lock }
  | lock (hs : s.stop = .lock) (hm : s.connsMutex = none) :
      StopStep s { s with stop := .locked, connsMutex := some (.abort 0) }
  | skip {k : Fin maxConns} (hm : s.connsMutex = some (.abort k)) (hk : s.slots k = none) :
      StopStep s { s with connsMutex := some (.abort (k + 1)) }
  | abort {k : Fin maxConns} {c : ConnId} (hm : s.connsMutex = some (.abort k))
      (hk : s.slots k = some c) :
      StopStep s { s.apply k [.abort] with connsMutex := some (.abort (k + 1)) }
  | aborted (hm : s.connsMutex = some (.abort maxConns)) :
      StopStep s { s with connsMutex := some .drain }
  | wait (hm : s.connsMutex = some .drain) (ha : 0 < s.activeClients) :
      StopStep s { s with stop := .waiting, connsMutex := none }
  /-- A wakeup without a signal. -/
  | spurious (hs : s.stop = .waiting) : StopStep s { s with stop := .woken }
  | relock (hs : s.stop = .woken) (hm : s.connsMutex = none) :
      StopStep s { s with stop := .locked, connsMutex := some .drain }
  | unlock (hm : s.connsMutex = some .drain) (ha : s.activeClients = 0) :
      StopStep s { s with stop := .returned, connsMutex := none }

/-- Whose step it is. -/
inductive Act where
  | accept
  | client (j : Nat)
  | broadcast
  | stop

inductive Step (s : State) : Act → State → Prop where
  | accept {s' : State} (h : AcceptStep s s') : Step s .accept s'
  | serve {j : Nat} {s' : State} (h : ServeStep s j s') : Step s (.client j) s'
  | unwind {j : Nat} {s' : State} (h : UnwindStep s j s') : Step s (.client j) s'
  | broadcast {s' : State} (h : BroadcastStep s s') : Step s .broadcast s'
  | stop {s' : State} (h : StopStep s s') : Step s .stop s'

def lifecycle : Lts.System State Act where
  init s := s = started
  step := Step

/-! ## Who holds what -/

/-- Where a connection can be: a local of a thread, or a slot. -/
inductive Holder where
  | accept
  | locked
  | slot (k : Fin maxConns)
  | client (j : Nat)
  deriving DecidableEq

def AcceptPc.conn : AcceptPc → Option ConnId
  | .accepted c | .rejected c => some c
  | _ => none

def Section.conn : Section → Option ConnId
  | .scan c => some c
  | .left _ _ c => c
  | _ => none

def ClientPc.conn : ClientPc → Option ConnId
  | .closing c => c
  | _ => none

def State.holds (s : State) : Holder → Option ConnId
  | .accept => s.accept.conn
  | .locked => s.connsMutex.bind Section.conn
  | .slot k => s.slots k
  | .client j => (s.clients j).bind fun t => t.pc.conn

def State.custody (s : State) : Custody Holder ConnOp := ⟨s.accepted, s.holds, s.log⟩

/-- The client thread uses its slot. -/
def ClientPc.serving : ClientPc → Bool
  | .serve | .reply | .header | .body | .unwind | .locked => true
  | _ => false

/-- The slot a client thread uses. -/
def State.serving (s : State) (j : Nat) : Option (Fin maxConns) :=
  (s.clients j).bind fun t => if t.pc.serving then some t.slot else none

/-- The slot that is filled and has no thread yet. -/
def Section.placing : Section → Option (Fin maxConns)
  | .placed k _ => some k
  | _ => none

def State.placing (s : State) : Option (Fin maxConns) := s.connsMutex.bind Section.placing

@[simp] theorem setClient_same (s : State) (j : Nat) (t : ClientThread) :
    (s.setClient j t).clients j = some t := Function.update_self ..

@[simp] theorem setClient_accept (s : State) (j : Nat) (t : ClientThread) :
    (s.setClient j t).accept = s.accept := rfl

@[simp] theorem setClient_connsMutex (s : State) (j : Nat) (t : ClientThread) :
    (s.setClient j t).connsMutex = s.connsMutex := rfl

@[simp] theorem setClient_slots (s : State) (j : Nat) (t : ClientThread) :
    (s.setClient j t).slots = s.slots := rfl

theorem setClient_ne (s : State) {i j : Nat} (t : ClientThread) (h : i ≠ j) :
    (s.setClient j t).clients i = s.clients i := Function.update_of_ne h ..

theorem serving_setClient (s : State) (j : Nat) (t : ClientThread) :
    (s.setClient j t).serving =
      Function.update s.serving j (if t.pc.serving then some t.slot else none) := by
  funext i
  unfold State.serving State.setClient
  by_cases hi : i = j
  · subst hi
    simp
  · simp [hi]

theorem serving_of {s : State} {j : Nat} {k : Fin maxConns} {pc : ClientPc}
    (hj : s.clients j = some ⟨k, pc⟩) (hpc : pc.serving = true) : s.serving j = some k := by
  simp [State.serving, hj, hpc]

/-! ## Slots and threads -/

/-- A used slot is that of one serving thread, or of the thread that is being created. -/
structure Tenants (slots : Slots maxConns ConnId) (serving : Nat → Option (Fin maxConns))
    (placing : Option (Fin maxConns)) : Prop where
  used : ∀ j k, serving j = some k → slots k ≠ none
  once : Once serving
  placed : ∀ k, placing = some k → slots k ≠ none ∧ ∀ j, serving j ≠ some k
  owned : ∀ k, slots k ≠ none → (∃ j, serving j = some k) ∨ placing = some k

namespace Tenants

variable {slots : Slots maxConns ConnId} {serving : Nat → Option (Fin maxConns)}
  {placing : Option (Fin maxConns)}

theorem put (h : Tenants slots serving none) {k : Fin maxConns} (c : ConnId)
    (hk : slots k = none) : Tenants (slots.put k c) serving (some k) := by
  have hfree : ∀ j, serving j ≠ some k := fun j hj => h.used j k hj hk
  refine ⟨fun j i hi => ?_, h.once, fun i hi => ?_, fun i hi => ?_⟩
  · have hne : i ≠ k := fun he => hfree j (he ▸ hi)
    rw [Slots.put_ne _ _ hne]
    exact h.used j i hi
  · cases hi
    exact ⟨by simp, hfree⟩
  · by_cases hik : i = k
    · exact Or.inr (by rw [hik])
    · rw [Slots.put_ne _ _ hik] at hi
      refine Or.inl ((h.owned i hi).resolve_right fun hp => ?_)
      cases hp

theorem create {k : Fin maxConns} (h : Tenants slots serving (some k)) {j : Nat}
    (hj : serving j = none) : Tenants slots (Function.update serving j (some k)) none := by
  obtain ⟨hused, hfree⟩ := h.placed k rfl
  have hfrom : ∀ i l, Function.update serving j (some k) i = some l →
      (i = j ∧ l = k) ∨ serving i = some l := by
    intro i l hi
    by_cases hij : i = j
    · subst hij
      rw [Function.update_self] at hi
      exact Or.inl ⟨rfl, (Option.some.inj hi).symm⟩
    · rw [Function.update_of_ne hij] at hi
      exact Or.inr hi
  refine ⟨fun i l hi => ?_, h.once.put j k hfree hfrom, fun l hl => (by cases hl), fun l hl => ?_⟩
  · rcases hfrom i l hi with ⟨-, rfl⟩ | hi
    · exact hused
    · exact h.used i l hi
  · rcases h.owned l hl with ⟨i, hi⟩ | hp
    · have hij : i ≠ j := by
        rintro rfl
        rw [hj] at hi
        cases hi
      exact Or.inl ⟨i, (Function.update_of_ne hij _ _).trans hi⟩
    · cases hp
      exact Or.inl ⟨j, Function.update_self ..⟩

/-- The thread was not created. -/
theorem undo {k : Fin maxConns} (h : Tenants slots serving (some k)) :
    Tenants (slots.clear k) serving none := by
  obtain ⟨-, hfree⟩ := h.placed k rfl
  refine ⟨fun j i hi => ?_, h.once, fun i hi => (by cases hi), fun i hi => ?_⟩
  · have hne : i ≠ k := fun he => hfree j (he ▸ hi)
    rw [Slots.clear_ne _ hne]
    exact h.used j i hi
  · have hne : i ≠ k := by
      rintro rfl
      exact hi (Slots.clear_same ..)
    rw [Slots.clear_ne _ hne] at hi
    refine Or.inl ((h.owned i hi).resolve_right fun hp => ?_)
    cases hp
    exact hne rfl

theorem leave (h : Tenants slots serving placing) {j : Nat} {k : Fin maxConns}
    (hj : serving j = some k) :
    Tenants (slots.clear k) (Function.update serving j none) placing := by
  have hfrom : ∀ i l, Function.update serving j none i = some l →
      i ≠ j ∧ l ≠ k ∧ serving i = some l := by
    intro i l hi
    by_cases hij : i = j
    · subst hij
      rw [Function.update_self] at hi
      cases hi
    · rw [Function.update_of_ne hij] at hi
      refine ⟨hij, ?_, hi⟩
      rintro rfl
      exact hij (h.once i j l hi hj)
  refine ⟨fun i l hi => ?_, h.once.drop fun i l hi => (hfrom i l hi).2.2, fun l hl => ?_,
    fun l hl => ?_⟩
  · obtain ⟨-, hlk, hi⟩ := hfrom i l hi
    rw [Slots.clear_ne _ hlk]
    exact h.used i l hi
  · obtain ⟨hused, hfree⟩ := h.placed l hl
    have hlk : l ≠ k := by
      rintro rfl
      exact hfree j hj
    rw [Slots.clear_ne _ hlk]
    exact ⟨hused, fun i hi => hfree i (hfrom i l hi).2.2⟩
  · have hlk : l ≠ k := by
      rintro rfl
      exact hl (Slots.clear_same ..)
    rw [Slots.clear_ne _ hlk] at hl
    refine (h.owned l hl).imp_left ?_
    rintro ⟨i, hi⟩
    have hij : i ≠ j := by
      rintro rfl
      exact hlk (Option.some.inj (hi.symm.trans hj))
    exact ⟨i, (Function.update_of_ne hij _ _).trans hi⟩

end Tenants

/-! ## The lock -/

/-- A section of the accept thread. -/
def Section.ofAccept : Section → Bool
  | .scan _ | .placed _ _ | .created => true
  | _ => false

/-- A section of a broadcast or of the stopper. -/
def Section.visiting : Section → Bool
  | .visit _ | .header _ | .body _ | .abort _ | .drain => true
  | _ => false

/-- The slot a broadcast writes to. -/
def Section.writing : Section → Option (Fin maxConns)
  | .header k | .body k => some k
  | _ => none

/-- Where the threads stand agrees with who holds `conns_mutex`. -/
structure Locked (s : State) : Prop where
  accept : ∀ x, s.connsMutex = some x → x.ofAccept = true → s.accept = .locked
  placed : ∀ k c, s.connsMutex = some (.placed k c) → s.slots k = some c
  unwind : ∀ j k, s.connsMutex = some (.unwind j k) → s.clients j = some ⟨k, .locked⟩
  left : ∀ j k c, s.connsMutex = some (.left j k c) →
    s.clients j = some ⟨k, .leaving⟩ ∧ c ≠ none
  closing : ∀ j k c, s.clients j = some ⟨k, .closing c⟩ → c ≠ none
  writing : ∀ x k, s.connsMutex = some x → x.writing = some k → s.slots k ≠ none
  unborn : ∀ j, s.threads ≤ j → s.clients j = none

/-- The slots counted ahead of their connection's thread, and behind it. -/
def ahead : Option Section → Nat
  | some (.placed _ _) | some .created => 1
  | _ => 0

def behind : Option Section → Nat
  | some (.left _ _ _) => 1
  | _ => 0

/-- The counter is the number of used slots, but for the holder of the lock. -/
def Counted (s : State) : Prop :=
  s.activeClients + ahead s.connsMutex = s.slots.used + behind s.connsMutex

/-- `mcp_server_stop` has joined the accept thread. -/
def StopPc.joined : StopPc → Bool
  | .idle | .join => false
  | _ => true

/-- A section of the stopper. -/
def Section.ofStop : Section → Bool
  | .abort _ | .drain => true
  | _ => false

structure Stopping (s : State) : Prop where
  locked : ∀ x, s.connsMutex = some x → x.ofStop = true → s.stop = .locked
  waiting : s.stop = .waiting → 0 < s.activeClients
  joined : s.stop.joined = true → s.accept = .returned
  returned : s.stop = .returned → s.activeClients = 0 ∧ ∀ k, s.slots k = none

/-- A read or a write of its serve thread has failed on `c`. -/
def Failed (log : List (Deed ConnOp × Option ConnId)) (c : ConnId) : Prop :=
  ∃ o : ConnOp, o.failed = true ∧ (.op o, some c) ∈ log

/-- The thread of `c` has left `serve` and is on its way to the close. -/
def Leaving (s : State) (c : ConnId) : Prop :=
  ∃ j k, (s.slots k = some c ∧
      (s.clients j = some ⟨k, .unwind⟩ ∨ s.clients j = some ⟨k, .locked⟩)) ∨
    (s.clients j = some ⟨k, .leaving⟩ ∧ s.connsMutex = some (.left j k (some c))) ∨
    s.clients j = some ⟨k, .closing (some c)⟩

/-- Behind a failure the connection is closed, or its thread has left `serve`. -/
def Quits (s : State) : Prop :=
  ∀ c, Failed s.log c → (.close, some c) ∈ s.log ∨ Leaving s c

/-- What every step keeps. -/
structure Kept (s : State) : Prop where
  locked : Locked s
  tenants : Tenants s.slots s.serving s.placing
  counted : Counted s
  stopping : Stopping s
  custody : s.custody.Kept
  quits : Quits s

theorem kept_started : Kept started where
  locked := by
    refine ⟨?_, ?_, ?_, ?_, ?_, ?_, fun _ _ => rfl⟩ <;> intros <;> simp_all [started]
  tenants := by
    refine ⟨?_, ?_, ?_, ?_⟩
    · intro j k hj
      cases hj
    · intro p q k hp
      cases hp
    · intro k hk
      cases hk
    · intro k hk
      exact absurd rfl hk
  counted := (Slots.used_eq_zero.mpr fun _ => rfl).symm
  stopping := ⟨fun x hx => (by cases hx), fun h => (by cases h), fun h => (by cases h),
    fun h => (by cases h)⟩
  custody := by
    have hh : started.holds = fun _ => none := by
      funext h
      cases h <;> rfl
    unfold State.custody
    rw [hh]
    exact Custody.kept_empty
  quits := by
    rintro c ⟨o, -, ho⟩
    cases ho

/-- The log grows by `es`, whose failures send a thread on its way, and a thread that is on its
    way stays so or closes. -/
theorem Quits.append {s s' : State} {es : List (Deed ConnOp × Option ConnId)} (h : Quits s)
    (hlog : s'.log = s.log ++ es) (hnew : ∀ c, Failed es c → Leaving s' c)
    (hkeep : ∀ c, Leaving s c → (.close, some c) ∈ es ∨ Leaving s' c) : Quits s' := by
  rintro c ⟨o, ho, hmem⟩
  rw [hlog] at hmem ⊢
  rcases List.mem_append.mp hmem with hold | hes
  · rcases h c ⟨o, ho, hold⟩ with hclosed | hleaving
    · exact Or.inl (List.mem_append_left _ hclosed)
    · exact (hkeep c hleaving).imp_left (List.mem_append_right _)
  · exact Or.inr (hnew c ⟨o, ho, hes⟩)

/-- As `Quits.append`, for a step that does nothing to a connection. -/
theorem Quits.silent {s s' : State} (h : Quits s) (hlog : s'.log = s.log)
    (hkeep : ∀ c, Leaving s c → Leaving s' c) : Quits s' := by
  have hnone : ∀ c, ¬ Failed [] c := by
    rintro c ⟨o, -, ho⟩
    cases ho
  exact h.append (hlog.trans (List.append_nil _).symm) (fun c hc => absurd hc (hnone c))
    fun c hc => Or.inr (hkeep c hc)

theorem failed_ops {os : List ConnOp} {o : Option ConnId} {c : ConnId}
    (h : Failed (os.map fun x => (.op x, o)) c) : o = some c ∧ ∃ x ∈ os, x.failed = true := by
  obtain ⟨x, hx, hmem⟩ := h
  obtain ⟨y, hy, he⟩ := List.mem_map.mp hmem
  cases he
  exact ⟨rfl, x, hy, hx⟩

/-! ## The steps of the discipline -/

section

variable {s s' : State} {x y : Holder} {c : ConnId}

/-- Nothing changes hands. -/
theorem custody_skip (haccepted : s'.accepted = s.accepted) (hlog : s'.log = s.log)
    (hholds : s'.holds = s.holds) : s.custody.Step s'.custody := by
  unfold State.custody
  rw [haccepted, hlog, hholds]
  exact .skip

/-- The connection of a slot is used. -/
theorem custody_use {k : Fin maxConns} {os : List ConnOp} (haccepted : s'.accepted = s.accepted)
    (hlog : s'.log = (s.apply k os).log) (hk : s.slots k ≠ none) (hholds : s'.holds = s.holds) :
    s.custody.Step s'.custody := by
  obtain ⟨c, hc⟩ := Option.ne_none_iff_exists'.mp hk
  unfold State.custody
  rw [haccepted, hlog, hholds]
  unfold State.apply
  rw [hc]
  exact .use (s := s.custody) (h := .slot k) os hc

/-- A connection changes hands. -/
theorem custody_pass (haccepted : s'.accepted = s.accepted) (hlog : s'.log = s.log)
    (hc : s.holds x = some c) (hfree : s.holds y = none)
    (hholds : s'.holds = Function.update (Function.update s.holds x none) y (some c)) :
    s.custody.Step s'.custody := by
  unfold State.custody
  rw [haccepted, hlog, hholds]
  exact .pass (s := s.custody) hc hfree

/-- A connection is closed by the one who holds it. -/
theorem custody_close (haccepted : s'.accepted = s.accepted)
    (hlog : s'.log = s.log ++ [(.close, some c)]) (hc : s.holds x = some c)
    (hholds : s'.holds = Function.update s.holds x none) : s.custody.Step s'.custody := by
  unfold State.custody
  rw [haccepted, hlog, hholds]
  exact .close (s := s.custody) hc

end

/-! ## Broadcasts and the stopper -/

/-- A change of the holder that only broadcasts and the stopper make. -/
structure Handover (s s' : State) : Prop where
  before : ∀ x, s.connsMutex = some x → x.visiting = true
  after : ∀ x, s'.connsMutex = some x →
    x.visiting = true ∧ ∀ k, x.writing = some k → s.slots k ≠ none

/-- What a step of a broadcast or of the stopper can do. -/
structure Visit (s s' : State) : Prop where
  slots : s'.slots = s.slots
  clients : s'.clients = s.clients
  threads : s'.threads = s.threads
  accept : s'.accept = s.accept
  activeClients : s'.activeClients = s.activeClients
  accepted : s'.accepted = s.accepted
  log : s'.log = s.log ∨ ∃ k os, s.slots k ≠ none ∧ (∀ o ∈ os, o.failed = false) ∧
    s'.log = (s.apply k os).log
  mutex : s'.connsMutex = s.connsMutex ∨ Handover s s'

theorem Handover.lock {s s' : State} {x : Section} (hm : s.connsMutex = none)
    (hm' : s'.connsMutex = some x) (hx : x.visiting = true) (hw : x.writing = none) :
    Handover s s' := by
  refine ⟨fun y hy => ?_, fun y hy => ?_⟩
  · rw [hm] at hy
    cases hy
  · cases hm'.symm.trans hy
    exact ⟨hx, fun k hk => by rw [hw] at hk; cases hk⟩

theorem Handover.next {s s' : State} {x y : Section} (hm : s.connsMutex = some x)
    (hx : x.visiting = true) (hm' : s'.connsMutex = some y) (hy : y.visiting = true)
    (hw : ∀ k, y.writing = some k → s.slots k ≠ none) : Handover s s' := by
  refine ⟨fun z hz => ?_, fun z hz => ?_⟩
  · cases hm.symm.trans hz
    exact hx
  · cases hm'.symm.trans hz
    exact ⟨hy, hw⟩

theorem Handover.unlock {s s' : State} {x : Section} (hm : s.connsMutex = some x)
    (hx : x.visiting = true) (hm' : s'.connsMutex = none) : Handover s s' := by
  refine ⟨fun z hz => ?_, fun z hz => ?_⟩
  · cases hm.symm.trans hz
    exact hx
  · rw [hm'] at hz
    cases hz

theorem writeBounded_failed (ok : Bool) : ∀ o ∈ writeBounded ok, o.failed = false := by
  cases ok <;> decide

theorem BroadcastStep.visit {s s' : State} (h : BroadcastStep s s') (hl : Locked s) :
    Visit s s' := by
  cases h with
  | lock hm => exact ⟨rfl, rfl, rfl, rfl, rfl, rfl, Or.inl rfl, Or.inr (.lock hm rfl rfl rfl)⟩
  | skip hm hk =>
      refine ⟨rfl, rfl, rfl, rfl, rfl, rfl, Or.inl rfl, Or.inr (.next hm rfl rfl rfl ?_)⟩
      intro k hk
      cases hk
  | take hm hk hi hw =>
      refine ⟨rfl, rfl, rfl, rfl, rfl, rfl, Or.inl rfl, Or.inr (.next hm rfl rfl rfl ?_)⟩
      rintro k ⟨⟩
      rw [hk]
      exact Option.some_ne_none _
  | @header k ok hm =>
      have hused := hl.writing _ k hm rfl
      refine ⟨rfl, rfl, rfl, rfl, rfl, rfl,
        Or.inr ⟨k, _, hused, writeBounded_failed ok, rfl⟩, Or.inr ?_⟩
      cases ok with
      | true =>
          refine .next hm rfl rfl rfl ?_
          rintro i ⟨⟩
          exact hused
      | false =>
          refine .next hm rfl rfl rfl ?_
          intro i hi
          cases hi
  | @body k ok hm =>
      have hused := hl.writing _ k hm rfl
      refine ⟨rfl, rfl, rfl, rfl, rfl, rfl,
        Or.inr ⟨k, _, hused, writeBounded_failed ok, rfl⟩, Or.inr (.next hm rfl rfl rfl ?_)⟩
      intro i hi
      cases hi
  | unlock hm => exact ⟨rfl, rfl, rfl, rfl, rfl, rfl, Or.inl rfl, Or.inr (.unlock hm rfl rfl)⟩

theorem StopStep.visit {s s' : State} (h : StopStep s s') : Visit s s' := by
  cases h with
  | listenerClose hs => exact ⟨rfl, rfl, rfl, rfl, rfl, rfl, Or.inl rfl, Or.inl rfl⟩
  | join hs ha => exact ⟨rfl, rfl, rfl, rfl, rfl, rfl, Or.inl rfl, Or.inl rfl⟩
  | lock hs hm => exact ⟨rfl, rfl, rfl, rfl, rfl, rfl, Or.inl rfl, Or.inr (.lock hm rfl rfl rfl)⟩
  | skip hm hk =>
      refine ⟨rfl, rfl, rfl, rfl, rfl, rfl, Or.inl rfl, Or.inr (.next hm rfl rfl rfl ?_)⟩
      intro k hk
      cases hk
  | @abort k c hm hk =>
      have hused : s.slots k ≠ none := by
        rw [hk]
        exact Option.some_ne_none _
      refine ⟨rfl, rfl, rfl, rfl, rfl, rfl, Or.inr ⟨k, [.abort], hused, by decide, rfl⟩,
        Or.inr (.next hm rfl rfl rfl ?_)⟩
      intro i hi
      cases hi
  | aborted hm =>
      refine ⟨rfl, rfl, rfl, rfl, rfl, rfl, Or.inl rfl, Or.inr (.next hm rfl rfl rfl ?_)⟩
      intro k hk
      cases hk
  | wait hm ha => exact ⟨rfl, rfl, rfl, rfl, rfl, rfl, Or.inl rfl, Or.inr (.unlock hm rfl rfl)⟩
  | spurious hs => exact ⟨rfl, rfl, rfl, rfl, rfl, rfl, Or.inl rfl, Or.inl rfl⟩
  | relock hs hm =>
      exact ⟨rfl, rfl, rfl, rfl, rfl, rfl, Or.inl rfl, Or.inr (.lock hm rfl rfl rfl)⟩
  | unlock hm ha => exact ⟨rfl, rfl, rfl, rfl, rfl, rfl, Or.inl rfl, Or.inr (.unlock hm rfl rfl)⟩

namespace Visit

variable {s s' : State}

theorem locked (h : Visit s s') (hl : Locked s) : Locked s' := by
  rcases h.mutex with hm | hm
  · obtain ⟨h1, h2, h3, h4, h5, h6, h7⟩ := hl
    constructor
    · rwa [hm, h.accept]
    · rwa [hm, h.slots]
    · rwa [hm, h.clients]
    · rwa [hm, h.clients]
    · rwa [h.clients]
    · rwa [hm, h.slots]
    · rwa [h.threads, h.clients]
  · refine ⟨fun x hx ho => ?_, fun k c hx => ?_, fun j k hx => ?_, fun j k c hx => ?_, ?_,
      fun x k hx hk => ?_, ?_⟩
    · have := (hm.after x hx).1
      cases x <;> cases ho <;> cases this
    · cases (hm.after _ hx).1
    · cases (hm.after _ hx).1
    · cases (hm.after _ hx).1
    · rw [h.clients]
      exact hl.closing
    · rw [h.slots]
      exact (hm.after x hx).2 k hk
    · rw [h.threads, h.clients]
      exact hl.unborn

/-- The views of the holder that matter to the slots. -/
theorem views (h : Visit s s') : s'.placing = s.placing ∧
    ahead s'.connsMutex = ahead s.connsMutex ∧ behind s'.connsMutex = behind s.connsMutex ∧
      s'.holds .locked = s.holds .locked := by
  have hquiet : ∀ m : Option Section, (∀ x, m = some x → x.visiting = true) →
      m.bind Section.placing = none ∧ ahead m = 0 ∧ behind m = 0 ∧ m.bind Section.conn = none := by
    intro m hm
    cases m with
    | none => exact ⟨rfl, rfl, rfl, rfl⟩
    | some x =>
        have hx := hm x rfl
        cases x <;> first | exact ⟨rfl, rfl, rfl, rfl⟩ | cases hx
  rcases h.mutex with hm | hm
  · refine ⟨?_, by rw [hm], by rw [hm], ?_⟩
    · unfold State.placing
      rw [hm]
    · show s'.connsMutex.bind Section.conn = s.connsMutex.bind Section.conn
      rw [hm]
  · obtain ⟨h1, h2, h3, h4⟩ := hquiet _ hm.before
    obtain ⟨h1', h2', h3', h4'⟩ := hquiet _ fun x hx => (hm.after x hx).1
    exact ⟨h1'.trans h1.symm, h2'.trans h2.symm, h3'.trans h3.symm, h4'.trans h4.symm⟩

theorem tenants (h : Visit s s') (ht : Tenants s.slots s.serving s.placing) :
    Tenants s'.slots s'.serving s'.placing := by
  have hserving : s'.serving = s.serving := by
    funext j
    unfold State.serving
    rw [h.clients]
  rw [h.slots, hserving, h.views.1]
  exact ht

theorem counted (h : Visit s s') (hc : Counted s) : Counted s' := by
  obtain ⟨-, hahead, hbehind, -⟩ := h.views
  unfold Counted
  rw [h.activeClients, hahead, hbehind, h.slots]
  exact hc

theorem custody (h : Visit s s') : s.custody.Step s'.custody := by
  have hholds : s'.holds = s.holds := by
    funext x
    cases x with
    | accept => exact congrArg AcceptPc.conn h.accept
    | locked => exact h.views.2.2.2
    | slot k => exact congrFun h.slots k
    | client j => exact congrArg (·.bind fun t => t.pc.conn) (congrFun h.clients j)
  rcases h.log with hlog | ⟨k, os, hk, -, hlog⟩
  · exact custody_skip h.accepted hlog hholds
  · exact custody_use h.accepted hlog hk hholds

theorem quits (h : Visit s s') (hq : Quits s) : Quits s' := by
  have hkeep : ∀ c, Leaving s c → Leaving s' c := by
    rintro c ⟨j, k, hj | ⟨hj, hm⟩ | hj⟩
    · exact ⟨j, k, Or.inl (by rwa [h.slots, h.clients])⟩
    · rcases h.mutex with hm' | hm'
      · exact ⟨j, k, Or.inr (Or.inl (by rw [h.clients, hm']; exact ⟨hj, hm⟩))⟩
      · cases hm'.before _ hm
    · exact ⟨j, k, Or.inr (Or.inr (by rwa [h.clients]))⟩
  rcases h.log with hlog | ⟨k, os, -, hos, hlog⟩
  · exact hq.silent hlog hkeep
  · refine hq.append hlog (fun c hc => ?_) fun c hc => Or.inr (hkeep c hc)
    obtain ⟨-, o, ho, hfailed⟩ := failed_ops hc
    rw [hos o ho] at hfailed
    cases hfailed

end Visit

/-! ## Client threads in `serve` -/

/-- What a step of a client thread in `serve` can do. -/
structure Serving (s : State) (j : Nat) (s' : State) : Prop where
  client : ∃ k pc pc', s.clients j = some ⟨k, pc⟩ ∧ pc.serving = true ∧ pc ≠ .unwind ∧
    pc ≠ .locked ∧ pc'.serving = true ∧ s'.clients = (s.setClient j ⟨k, pc'⟩).clients ∧
      (s'.log = s.log ∨ ∃ o : ConnOp, (o.failed = true → pc' = .unwind) ∧
        s'.log = (s.apply k [o]).log)
  slots : s'.slots = s.slots
  threads : s'.threads = s.threads
  accept : s'.accept = s.accept
  activeClients : s'.activeClients = s.activeClients
  accepted : s'.accepted = s.accepted
  stop : s'.stop = s.stop
  mutex : s'.connsMutex = s.connsMutex

theorem ServeStep.serving {s s' : State} {j : Nat} (h : ServeStep s j s') : Serving s j s' := by
  cases h with
  | @read k r hj =>
      refine ⟨⟨k, _, r.next, hj, rfl, by decide, by decide, ?_, rfl, Or.inr ⟨_, fun hf => ?_, rfl⟩⟩,
        rfl, rfl, rfl, rfl, rfl, rfl, rfl⟩
      · cases r with
        | more => rfl
        | handled hello reply => cases reply <;> rfl
        | failed => rfl
      · cases r with
        | more => cases hf
        | handled hello reply => cases hf
        | failed => rfl
  | @lockWrite k hj hw =>
      exact ⟨⟨k, _, _, hj, rfl, by decide, by decide, rfl, rfl, Or.inl rfl⟩, rfl, rfl, rfl, rfl,
        rfl, rfl, rfl⟩
  | @writeHeader k ok hj =>
      refine ⟨⟨k, _, _, hj, rfl, by decide, by decide, ?_, rfl, Or.inr ⟨_, fun hf => ?_, rfl⟩⟩,
        rfl, rfl, rfl, rfl, rfl, rfl, rfl⟩
      · cases ok <;> rfl
      · cases ok with
        | true => cases hf
        | false => rfl
  | @writeBody k ok hj =>
      refine ⟨⟨k, _, _, hj, rfl, by decide, by decide, ?_, rfl, Or.inr ⟨_, fun hf => ?_, rfl⟩⟩,
        rfl, rfl, rfl, rfl, rfl, rfl, rfl⟩
      · cases ok <;> rfl
      · cases ok with
        | true => cases hf
        | false => rfl

namespace Serving

variable {s s' : State} {j : Nat}

theorem locked (h : Serving s j s') (hl : Locked s) : Locked s' := by
  obtain ⟨k, pc, pc', hj, hpc, -, hne, hpc', hclients, -⟩ := h.client
  refine ⟨?_, ?_, fun i l hm => ?_, fun i l c hm => ?_, fun i l c hi => ?_, ?_, fun i hi => ?_⟩
  · rw [h.mutex, h.accept]
    exact hl.accept
  · rw [h.mutex, h.slots]
    exact hl.placed
  · rw [h.mutex] at hm
    have hi := hl.unwind i l hm
    have hij : i ≠ j := by
      rintro rfl
      cases hj.symm.trans hi
      exact hne rfl
    rw [hclients, setClient_ne _ _ hij]
    exact hi
  · rw [h.mutex] at hm
    obtain ⟨hi, hc⟩ := hl.left i l c hm
    have hij : i ≠ j := by
      rintro rfl
      cases hj.symm.trans hi
      cases hpc
    rw [hclients, setClient_ne _ _ hij]
    exact ⟨hi, hc⟩
  · rw [hclients] at hi
    have hij : i ≠ j := by
      rintro rfl
      rw [setClient_same] at hi
      cases hi
      cases hpc'
    rw [setClient_ne _ _ hij] at hi
    exact hl.closing i l c hi
  · rw [h.mutex, h.slots]
    exact hl.writing
  · rw [h.threads] at hi
    have hnone := hl.unborn i hi
    have hij : i ≠ j := by
      rintro rfl
      rw [hj] at hnone
      cases hnone
    rw [hclients, setClient_ne _ _ hij]
    exact hnone

theorem tenants (h : Serving s j s') (ht : Tenants s.slots s.serving s.placing) :
    Tenants s'.slots s'.serving s'.placing := by
  obtain ⟨k, pc, pc', hj, hpc, -, -, hpc', hclients, -⟩ := h.client
  have hserving : s'.serving = s.serving := by
    have hview : s'.serving = (s.setClient j ⟨k, pc'⟩).serving := by
      unfold State.serving
      rw [hclients]
    rw [hview, serving_setClient, if_pos hpc']
    exact Function.update_eq_self_iff.mpr (serving_of hj hpc).symm
  have hplacing : s'.placing = s.placing := congrArg (·.bind Section.placing) h.mutex
  rw [h.slots, hserving, hplacing]
  exact ht

theorem counted (h : Serving s j s') (hc : Counted s) : Counted s' := by
  unfold Counted
  rw [h.activeClients, h.mutex, h.slots]
  exact hc

theorem stopping (h : Serving s j s') (hs : Stopping s) : Stopping s' := by
  refine ⟨?_, ?_, ?_, ?_⟩
  · rw [h.stop, h.mutex]
    exact hs.locked
  · rw [h.stop, h.activeClients]
    exact hs.waiting
  · rw [h.stop, h.accept]
    exact hs.joined
  · rw [h.stop, h.activeClients, h.slots]
    exact hs.returned

theorem custody (h : Serving s j s') (ht : Tenants s.slots s.serving s.placing) :
    s.custody.Step s'.custody := by
  obtain ⟨k, pc, pc', hj, hpc, -, -, hpc', hclients, hlog⟩ := h.client
  have hnone : ∀ q : ClientPc, q.serving = true → q.conn = none := by
    intro q hq
    cases q <;> first | rfl | cases hq
  have hholds : s'.holds = s.holds := by
    funext x
    cases x with
    | accept => exact congrArg AcceptPc.conn h.accept
    | locked => exact congrArg (·.bind Section.conn) h.mutex
    | slot k => exact congrFun h.slots k
    | client i =>
        show ((s'.clients i).bind fun t => t.pc.conn) = (s.clients i).bind fun t => t.pc.conn
        rw [hclients]
        by_cases hij : i = j
        · subst hij
          rw [setClient_same, hj]
          exact (hnone pc' hpc').trans (hnone pc hpc).symm
        · rw [setClient_ne _ _ hij]
  rcases hlog with hlog | ⟨o, -, hlog⟩
  · exact custody_skip h.accepted hlog hholds
  · exact custody_use h.accepted hlog (ht.used j k (serving_of hj hpc)) hholds

theorem quits (h : Serving s j s') (hq : Quits s) : Quits s' := by
  obtain ⟨k, pc, pc', hj, hpc, hunwind, hlocked, -, hclients, hlog⟩ := h.client
  -- a thread on its way is not the one that serves
  have hother : ∀ {i l} {q : ClientPc}, s.clients i = some ⟨l, q⟩ → q ≠ pc →
      s'.clients i = some ⟨l, q⟩ := by
    intro i l q hi hne
    have hij : i ≠ j := by
      rintro rfl
      cases hj.symm.trans hi
      exact hne rfl
    rw [hclients, setClient_ne _ _ hij]
    exact hi
  have hkeep : ∀ c, Leaving s c → Leaving s' c := by
    rintro c ⟨i, l, ⟨hl, hi | hi⟩ | ⟨hi, hm⟩ | hi⟩
    · exact ⟨i, l, Or.inl ⟨by rwa [h.slots], Or.inl (hother hi hunwind.symm)⟩⟩
    · exact ⟨i, l, Or.inl ⟨by rwa [h.slots], Or.inr (hother hi hlocked.symm)⟩⟩
    · refine ⟨i, l, Or.inr (Or.inl ⟨hother hi ?_, by rwa [h.mutex]⟩)⟩
      rintro rfl
      cases hpc
    · refine ⟨i, l, Or.inr (Or.inr (hother hi ?_))⟩
      rintro rfl
      cases hpc
  rcases hlog with hlog | ⟨o, ho, hlog⟩
  · exact hq.silent hlog hkeep
  · refine hq.append hlog (fun c hc => ?_) fun c hc => Or.inr (hkeep c hc)
    obtain ⟨hk, x, hx, hfailed⟩ := failed_ops hc
    rw [List.mem_singleton.mp hx] at hfailed
    refine ⟨j, k, Or.inl ⟨by rwa [h.slots], Or.inl ?_⟩⟩
    rw [hclients, setClient_same, ho hfailed]

end Serving

/-! ## Client threads after `serve` -/

theorem UnwindStep.born {s s' : State} {j : Nat} (h : UnwindStep s j s') (hl : Locked s) :
    ∃ k pc, s.clients j = some ⟨k, pc⟩ ∧ j < s.threads := by
  have hborn : ∀ {k pc}, s.clients j = some ⟨k, pc⟩ → j < s.threads := by
    intro k pc hj
    by_contra hge
    rw [hl.unborn j (Nat.le_of_not_lt hge)] at hj
    cases hj
  cases h with
  | lock hj hm => exact ⟨_, _, hj, hborn hj⟩
  | clear hm => exact ⟨_, _, hl.unwind _ _ hm, hborn (hl.unwind _ _ hm)⟩
  | unlock hm => exact ⟨_, _, (hl.left _ _ _ hm).1, hborn (hl.left _ _ _ hm).1⟩
  | close hj => exact ⟨_, _, hj, hborn hj⟩

theorem UnwindStep.locked {s s' : State} {j : Nat} (h : UnwindStep s j s') (hl : Locked s)
    (ht : Tenants s.slots s.serving s.placing) : Locked s' := by
  obtain ⟨-, -, -, hborn⟩ := h.born hl
  have hunborn : ∀ t i, s.threads ≤ i → (s.setClient j t).clients i = none := by
    intro t i hi
    rw [setClient_ne _ _ (by omega : i ≠ j)]
    exact hl.unborn i hi
  have hclosing : ∀ t, (∀ c, t.pc = .closing c → c ≠ none) → ∀ i k c,
      (s.setClient j t).clients i = some ⟨k, .closing c⟩ → c ≠ none := by
    intro t ht i k c hi
    by_cases hij : i = j
    · subst hij
      rw [setClient_same] at hi
      cases hi
      exact ht c rfl
    · rw [setClient_ne _ _ hij] at hi
      exact hl.closing i k c hi
  cases h with
  | @lock k hj hm =>
      refine ⟨fun x hx ho => ?_, fun i c hx => (by cases hx), fun i l hx => ?_,
        fun i l c hx => (by cases hx), hclosing _ fun c hc => (by cases hc),
        fun x l hx hw => ?_, hunborn _⟩
      · cases hx
        cases ho
      · cases hx
        exact setClient_same ..
      · cases hx
        cases hw
  | @clear k hm =>
      refine ⟨fun x hx ho => ?_, fun i c hx => (by cases hx), fun i l hx => (by cases hx),
        fun i l c hx => ?_, hclosing _ fun c hc => (by cases hc), fun x l hx hw => ?_, hunborn _⟩
      · cases hx
        cases ho
      · cases hx
        exact ⟨setClient_same .., ht.used j k (serving_of (hl.unwind j k hm) rfl)⟩
      · cases hx
        cases hw
  | @unlock k c hm =>
      refine ⟨fun x hx => (by cases hx), fun i c hx => (by cases hx), fun i l hx => (by cases hx),
        fun i l c hx => (by cases hx), hclosing _ fun c' hc => ?_, fun x l hx => (by cases hx),
        hunborn _⟩
      cases hc
      exact (hl.left j k c hm).2
  | @close k c hj =>
      refine ⟨hl.accept, hl.placed, fun i l hx => ?_, fun i l c' hx => ?_,
        hclosing _ fun c' hc => (by cases hc), hl.writing, hunborn _⟩
      · have hi := hl.unwind i l hx
        have hij : i ≠ j := by
          rintro rfl
          cases hj.symm.trans hi
        exact (setClient_ne _ _ hij).trans hi
      · obtain ⟨hi, hc⟩ := hl.left i l c' hx
        have hij : i ≠ j := by
          rintro rfl
          cases hj.symm.trans hi
        exact ⟨(setClient_ne _ _ hij).trans hi, hc⟩

theorem placing_of_some {s : State} {x : Section} (hm : s.connsMutex = some x) :
    s.placing = x.placing := congrArg (·.bind Section.placing) hm

theorem placing_of_none {s : State} (hm : s.connsMutex = none) : s.placing = none :=
  congrArg (·.bind Section.placing) hm

theorem UnwindStep.tenants {s s' : State} {j : Nat} (h : UnwindStep s j s') (hl : Locked s)
    (ht : Tenants s.slots s.serving s.placing) : Tenants s'.slots s'.serving s'.placing := by
  -- a thread that does not use its slot, or goes on using it
  have hsame : ∀ {k pc} pc', s.clients j = some ⟨k, pc⟩ → pc.serving = ClientPc.serving pc' →
      (s.setClient j ⟨k, pc'⟩).serving = s.serving := by
    intro k pc pc' hj hpc
    rw [serving_setClient]
    refine Function.update_eq_self_iff.mpr ?_
    simp [State.serving, hj, hpc]
  cases h with
  | @lock k hj hm =>
      rw [placing_of_none hm] at ht
      show Tenants s.slots (s.setClient j ⟨k, .locked⟩).serving none
      rw [hsame .locked hj rfl]
      exact ht
  | @clear k hm =>
      rw [placing_of_some hm] at ht
      show Tenants (s.slots.clear k) (s.setClient j ⟨k, .leaving⟩).serving none
      rw [serving_setClient]
      exact ht.leave (serving_of (hl.unwind j k hm) rfl)
  | @unlock k c hm =>
      rw [placing_of_some hm] at ht
      show Tenants s.slots (s.setClient j ⟨k, .closing c⟩).serving none
      rw [hsame (.closing c) (hl.left j k c hm).1 rfl]
      exact ht
  | @close k c hj =>
      show Tenants s.slots (s.setClient j ⟨k, .returned⟩).serving s.placing
      rw [hsame .returned hj rfl]
      exact ht

theorem UnwindStep.counted {s s' : State} {j : Nat} (h : UnwindStep s j s') (hl : Locked s)
    (ht : Tenants s.slots s.serving s.placing) (hc : Counted s) : Counted s' := by
  unfold Counted at hc ⊢
  cases h with
  | lock hj hm =>
      rw [hm] at hc
      exact hc
  | @clear k hm =>
      obtain ⟨c, hk⟩ :=
        Option.ne_none_iff_exists'.mp (ht.used j k (serving_of (hl.unwind j k hm) rfl))
      have hused := Slots.used_clear hk
      rw [hm] at hc
      show s.activeClients + 0 = (s.slots.clear k).used + 1
      simp only [ahead, behind] at hc
      omega
  | unlock hm =>
      rw [hm] at hc
      show s.activeClients - 1 + 0 = s.slots.used + 0
      simp only [ahead, behind] at hc
      omega
  | close hj => exact hc

theorem UnwindStep.stopping {s s' : State} {j : Nat} (h : UnwindStep s j s')
    (hs : Stopping s) : Stopping s' := by
  cases h with
  | lock hj hm =>
      refine ⟨fun x hx ho => ?_, hs.waiting, hs.joined, hs.returned⟩
      cases hx
      cases ho
  | @clear k hm =>
      refine ⟨fun x hx ho => ?_, hs.waiting, hs.joined,
        fun hr => ⟨(hs.returned hr).1, fun i => ?_⟩⟩
      · cases hx
        cases ho
      · show s.slots.clear k i = none
        rw [Slots.clear_apply]
        split
        · rfl
        · exact (hs.returned hr).2 i
  | unlock hm =>
      refine ⟨fun x hx => (by cases hx), fun hw => ?_, fun hj => ?_, fun hr => ?_⟩
      · dsimp only at hw ⊢
        split at hw
        · cases hw
        · next hno =>
            have hpos : s.activeClients - 1 ≠ 0 := fun hz => hno ⟨hz, hw⟩
            omega
      · dsimp only at hj ⊢
        split at hj
        · next hwait => exact hs.joined (by rw [hwait.2]; rfl)
        · exact hs.joined hj
      · dsimp only at hr ⊢
        split at hr
        · cases hr
        · obtain ⟨hzero, hfree⟩ := hs.returned hr
          exact ⟨by rw [hzero], hfree⟩
  | close hj => exact ⟨hs.locked, hs.waiting, hs.joined, hs.returned⟩

theorem UnwindStep.custody {s s' : State} {j : Nat} (h : UnwindStep s j s') (hl : Locked s)
    (ht : Tenants s.slots s.serving s.placing) : s.custody.Step s'.custody := by
  cases h with
  | @lock k hj hm =>
      refine custody_skip rfl rfl (funext fun x => ?_)
      cases x with
      | accept => rfl
      | locked => simp [State.holds, hm, Section.conn]
      | slot k => rfl
      | client i =>
          by_cases hij : i = j
          · subst hij
            simp [State.holds, hj, ClientPc.conn]
          · simp [State.holds, setClient_ne _ _ hij]
  | @clear k hm =>
      have hj := hl.unwind j k hm
      obtain ⟨c, hk⟩ := Option.ne_none_iff_exists'.mp (ht.used j k (serving_of hj rfl))
      have hfree : s.holds .locked = none := by
        simp [State.holds, hm, Section.conn]
      refine custody_pass (x := .slot k) rfl rfl hk hfree (funext fun x => ?_)
      cases x with
      | accept => simp [State.holds]
      | locked => simp [State.holds, Section.conn, hk]
      | slot i =>
          by_cases hik : i = k
          · subst hik
            simp [State.holds]
          · simp [State.holds, hik, Slots.clear_ne]
      | client i =>
          by_cases hij : i = j
          · subst hij
            simp [State.holds, hj, ClientPc.conn]
          · simp [State.holds, setClient_ne _ _ hij]
  | @unlock k c hm =>
      obtain ⟨hj, hne⟩ := hl.left j k c hm
      obtain ⟨c, rfl⟩ := Option.ne_none_iff_exists'.mp hne
      have hc : s.holds .locked = some c := by
        simp [State.holds, hm, Section.conn]
      have hfree : s.holds (.client j) = none := by
        simp [State.holds, hj, ClientPc.conn]
      refine custody_pass rfl rfl hc hfree (funext fun x => ?_)
      cases x with
      | accept => simp [State.holds]
      | locked => simp [State.holds]
      | slot i => simp [State.holds]
      | client i =>
          by_cases hij : i = j
          · subst hij
            simp [State.holds, ClientPc.conn]
          · simp [State.holds, setClient_ne _ _ hij, hij]
  | @close k c hj =>
      obtain ⟨c, rfl⟩ := Option.ne_none_iff_exists'.mp (hl.closing j k c hj)
      have hc : s.holds (.client j) = some c := by
        simp [State.holds, hj, ClientPc.conn]
      refine custody_close rfl rfl hc (funext fun x => ?_)
      cases x with
      | accept => simp [State.holds]
      | locked => simp [State.holds]
      | slot i => simp [State.holds]
      | client i =>
          by_cases hij : i = j
          · subst hij
            simp [State.holds, ClientPc.conn]
          · simp [State.holds, setClient_ne _ _ hij, hij]

/-- Closing is no failure. -/
theorem not_failed_close (o : Option ConnId) (c : ConnId) : ¬ Failed [(.close, o)] c := by
  rintro ⟨x, -, hx⟩
  cases List.mem_singleton.mp hx

theorem UnwindStep.quits {s s' : State} {j : Nat} (h : UnwindStep s j s') (hl : Locked s)
    (ht : Tenants s.slots s.serving s.placing) (hq : Quits s) : Quits s' := by
  -- the thread that moves is not one that stands elsewhere
  have hother : ∀ {i : Nat} {l k : Fin maxConns} {p q : ClientPc} (t : ClientThread),
      s.clients j = some ⟨k, p⟩ → s.clients i = some ⟨l, q⟩ → q ≠ p →
        (s.setClient j t).clients i = some ⟨l, q⟩ := by
    intro i l k p q t hj hi hne
    have hij : i ≠ j := by
      rintro rfl
      cases hj.symm.trans hi
      exact hne rfl
    rw [setClient_ne _ _ hij]
    exact hi
  cases h with
  | @lock k hj hm =>
      refine hq.silent rfl ?_
      rintro c ⟨i, l, ⟨hc, hi | hi⟩ | ⟨hi, hm'⟩ | hi⟩
      · by_cases hij : i = j
        · subst hij
          cases hj.symm.trans hi
          exact ⟨i, k, Or.inl ⟨hc, Or.inr (setClient_same ..)⟩⟩
        · exact ⟨i, l, Or.inl ⟨hc, Or.inl ((setClient_ne _ _ hij).trans hi)⟩⟩
      · exact ⟨i, l, Or.inl ⟨hc, Or.inr (hother _ hj hi (by decide))⟩⟩
      · cases hm.symm.trans hm'
      · exact ⟨i, l, Or.inr (Or.inr (hother _ hj hi (by simp)))⟩
  | @clear k hm =>
      refine hq.silent rfl ?_
      have hj := hl.unwind j k hm
      -- another thread has another slot
      have hslot : ∀ {i l c q}, i ≠ j → s.clients i = some ⟨l, q⟩ → q.serving = true →
          s.slots l = some c → s.slots.clear k l = some c := by
        intro i l c q hij hi hserving hc
        have hlk : l ≠ k := by
          rintro rfl
          exact hij (ht.once i j l (serving_of hi hserving) (serving_of hj rfl))
        rw [Slots.clear_ne _ hlk]
        exact hc
      rintro c ⟨i, l, ⟨hc, hi | hi⟩ | ⟨hi, hm'⟩ | hi⟩
      · have hij : i ≠ j := by
          rintro rfl
          cases hj.symm.trans hi
        exact ⟨i, l, Or.inl ⟨hslot hij hi rfl hc, Or.inl ((setClient_ne _ _ hij).trans hi)⟩⟩
      · by_cases hij : i = j
        · subst hij
          cases hj.symm.trans hi
          refine ⟨i, k, Or.inr (Or.inl ⟨setClient_same .., ?_⟩)⟩
          rw [hc]
        · exact ⟨i, l, Or.inl ⟨hslot hij hi rfl hc, Or.inr ((setClient_ne _ _ hij).trans hi)⟩⟩
      · cases hm.symm.trans hm'
      · exact ⟨i, l, Or.inr (Or.inr (hother _ hj hi (by simp)))⟩
  | @unlock k o hm =>
      refine hq.silent rfl ?_
      obtain ⟨hj, -⟩ := hl.left j k o hm
      rintro c ⟨i, l, ⟨hc, hi | hi⟩ | ⟨hi, hm'⟩ | hi⟩
      · exact ⟨i, l, Or.inl ⟨hc, Or.inl (hother _ hj hi (by decide))⟩⟩
      · exact ⟨i, l, Or.inl ⟨hc, Or.inr (hother _ hj hi (by decide))⟩⟩
      · cases hm.symm.trans hm'
        exact ⟨j, k, Or.inr (Or.inr (setClient_same ..))⟩
      · exact ⟨i, l, Or.inr (Or.inr (hother _ hj hi (by simp)))⟩
  | @close k o hj =>
      refine hq.append rfl (fun c hc => absurd hc (not_failed_close o c)) ?_
      rintro c ⟨i, l, ⟨hc, hi | hi⟩ | ⟨hi, hm⟩ | hi⟩
      · exact Or.inr ⟨i, l, Or.inl ⟨hc, Or.inl (hother _ hj hi (by simp))⟩⟩
      · exact Or.inr ⟨i, l, Or.inl ⟨hc, Or.inr (hother _ hj hi (by simp))⟩⟩
      · exact Or.inr ⟨i, l, Or.inr (Or.inl ⟨hother _ hj hi (by simp), hm⟩)⟩
      · by_cases hij : i = j
        · subst hij
          cases hj.symm.trans hi
          exact Or.inl (List.mem_singleton.mpr rfl)
        · exact Or.inr ⟨i, l, Or.inr (Or.inr ((setClient_ne _ _ hij).trans hi))⟩

/-! ## The accept thread -/

/-- The accept thread has not returned. -/
theorem AcceptStep.running {s s' : State} (h : AcceptStep s s') (hl : Locked s) :
    s.accept ≠ .returned := by
  have hlocked : ∀ x, s.connsMutex = some x → x.ofAccept = true → s.accept ≠ .returned := by
    intro x hx ho
    rw [hl.accept x hx ho]
    decide
  cases h with
  | accepted ha ho =>
      rw [ha]
      decide
  | listenerNull ha =>
      rw [ha]
      decide
  | lock ha hm =>
      rw [ha]
      exact fun he => by cases he
  | place hm hk => exact hlocked _ hm rfl
  | full hm hk => exact hlocked _ hm rfl
  | create hm => exact hlocked _ hm rfl
  | createFailed hm => exact hlocked _ hm rfl
  | count hm => exact hlocked _ hm rfl
  | close ha =>
      rw [ha]
      exact fun he => by cases he

theorem AcceptStep.stop {s s' : State} (h : AcceptStep s s') : s'.stop = s.stop := by
  cases h <;> rfl

theorem AcceptStep.stopping {s s' : State} (h : AcceptStep s s') (hl : Locked s)
    (hs : Stopping s) : Stopping s' := by
  have hjoined : s'.stop.joined ≠ true := by
    rw [h.stop]
    exact fun hj => h.running hl (hs.joined hj)
  refine ⟨?_, fun hw => ?_, fun hj => absurd hj hjoined, fun hr => ?_⟩
  · rw [h.stop]
    cases h with
    | accepted ha ho => exact hs.locked
    | listenerNull ha => exact hs.locked
    | close ha => exact hs.locked
    | lock ha hm => rintro x ⟨⟩ ⟨⟩
    | place hm hk => rintro x ⟨⟩ ⟨⟩
    | full hm hk => rintro x ⟨⟩
    | create hm => rintro x ⟨⟩ ⟨⟩
    | createFailed hm => rintro x ⟨⟩
    | count hm => rintro x ⟨⟩
  · rw [hw] at hjoined
    exact absurd rfl hjoined
  · rw [hr] at hjoined
    exact absurd rfl hjoined

/-- Nobody but the accept thread is concerned by a section of its own. -/
theorem Locked.enter {s s' : State} (hl : Locked s) (hclients : s'.clients = s.clients)
    (hthreads : s'.threads = s.threads)
    (haccept : ∀ x, s'.connsMutex = some x → x.ofAccept = true ∧ s'.accept = .locked)
    (hplaced : ∀ k c, s'.connsMutex = some (.placed k c) → s'.slots k = some c) : Locked s' := by
  refine ⟨fun x hx _ => (haccept x hx).2, hplaced, fun j k hx => ?_, fun j k c hx => ?_, ?_,
    fun x k hx hk => ?_, ?_⟩
  · cases (haccept _ hx).1
  · cases (haccept _ hx).1
  · rw [hclients]
    exact hl.closing
  · have ho := (haccept x hx).1
    cases x <;> cases ho <;> cases hk
  · rw [hclients, hthreads]
    exact hl.unborn

theorem AcceptStep.locked {s s' : State} (h : AcceptStep s s') (hl : Locked s) : Locked s' := by
  -- outside the lock the accept thread holds no section
  have hout : ∀ {pc : AcceptPc}, s.accept = pc → pc ≠ .locked → ∀ x, s.connsMutex = some x →
      x.ofAccept = true → False := by
    rintro pc ha hne x hx ho
    exact hne (ha.symm.trans (hl.accept x hx ho))
  cases h with
  | accepted ha ho =>
      exact ⟨fun x hx ho => (hout ha (by decide) x hx ho).elim, hl.placed, hl.unwind, hl.left,
        hl.closing, hl.writing, hl.unborn⟩
  | listenerNull ha =>
      exact ⟨fun x hx ho => (hout ha (by decide) x hx ho).elim, hl.placed, hl.unwind, hl.left,
        hl.closing, hl.writing, hl.unborn⟩
  | close ha =>
      exact ⟨fun x hx ho => (hout ha (fun he => by cases he) x hx ho).elim, hl.placed, hl.unwind,
        hl.left, hl.closing, hl.writing, hl.unborn⟩
  | @lock c ha hm =>
      refine hl.enter rfl rfl (fun x hx => ?_) fun k c' hx => (by cases hx)
      cases hx
      exact ⟨rfl, rfl⟩
  | @place c k hm hk =>
      refine hl.enter rfl rfl (fun x hx => ?_) fun i c' hx => ?_
      · cases hx
        exact ⟨rfl, hl.accept _ hm rfl⟩
      · cases hx
        exact Slots.put_same ..
  | full hm hk => exact hl.enter rfl rfl (fun x hx => by cases hx) fun k c hx => by cases hx
  | createFailed hm => exact hl.enter rfl rfl (fun x hx => by cases hx) fun k c hx => by cases hx
  | count hm => exact hl.enter rfl rfl (fun x hx => by cases hx) fun k c hx => by cases hx
  | @create c k hm =>
      refine ⟨fun x hx ho => hl.accept _ hm rfl, fun i d hx => (by cases hx),
        fun i l hx => (by cases hx), fun i l d hx => (by cases hx), fun i l d hi => ?_,
        fun x l hx hw => ?_, fun i hi => ?_⟩
      · by_cases hij : i = s.threads
        · subst hij
          cases (setClient_same ..).symm.trans hi
        · exact hl.closing i l d ((setClient_ne _ _ hij).symm.trans hi)
      · cases hx
        cases hw
      · have hlt : s.threads + 1 ≤ i := hi
        show (s.setClient s.threads ⟨k, .serve⟩).clients i = none
        rw [setClient_ne _ _ (by omega : i ≠ s.threads)]
        exact hl.unborn i (by omega)

theorem AcceptStep.tenants {s s' : State} (h : AcceptStep s s') (hl : Locked s)
    (ht : Tenants s.slots s.serving s.placing) : Tenants s'.slots s'.serving s'.placing := by
  cases h with
  | accepted ha ho => exact ht
  | listenerNull ha => exact ht
  | close ha => exact ht
  | lock ha hm =>
      rw [placing_of_none hm] at ht
      exact ht
  | @place c k hm hk =>
      rw [placing_of_some hm] at ht
      exact ht.put c (Slots.firstFree_some hk)
  | full hm hk =>
      rw [placing_of_some hm] at ht
      exact ht
  | @create c k hm =>
      rw [placing_of_some hm] at ht
      have hnew : s.serving s.threads = none := by
        unfold State.serving
        rw [hl.unborn s.threads (Nat.le_refl _)]
        rfl
      show Tenants s.slots (s.setClient s.threads ⟨k, .serve⟩).serving none
      rw [serving_setClient]
      exact ht.create hnew
  | createFailed hm =>
      rw [placing_of_some hm] at ht
      exact ht.undo
  | count hm =>
      rw [placing_of_some hm] at ht
      exact ht

theorem AcceptStep.counted {s s' : State} (h : AcceptStep s s') (hl : Locked s)
    (hc : Counted s) : Counted s' := by
  unfold Counted at hc ⊢
  cases h with
  | accepted ha ho => exact hc
  | listenerNull ha => exact hc
  | close ha => exact hc
  | lock ha hm =>
      rw [hm] at hc
      exact hc
  | @place c k hm hk =>
      have hused := Slots.used_put c (Slots.firstFree_some hk)
      rw [hm] at hc
      show s.activeClients + 1 = (s.slots.put k c).used + 0
      simp only [ahead, behind] at hc
      omega
  | full hm hk =>
      rw [hm] at hc
      exact hc
  | create hm =>
      rw [hm] at hc
      exact hc
  | @createFailed c k hm =>
      have hused := Slots.used_clear (hl.placed k c hm)
      rw [hm] at hc
      show s.activeClients + 0 = (s.slots.clear k).used + 0
      simp only [ahead, behind] at hc
      omega
  | count hm =>
      rw [hm] at hc
      exact hc

theorem AcceptStep.custody {s s' : State} (h : AcceptStep s s') (hl : Locked s) :
    s.custody.Step s'.custody := by
  have hfree : ∀ {x}, s.connsMutex = some x → x.ofAccept = true → s.holds .accept = none := by
    intro x hx ho
    show s.accept.conn = none
    rw [hl.accept x hx ho]
    rfl
  have hscan : ∀ {c}, s.connsMutex = some (.scan c) → s.holds .locked = some c := by
    intro c hm
    show s.connsMutex.bind Section.conn = some c
    rw [hm]
    rfl
  cases h with
  | accepted ha ho =>
      have hnone : s.holds .accept = none := by
        show s.accept.conn = none
        rw [ha]
        rfl
      have hholds : State.holds { s with
          accept := .accepted s.accepted
          accepted := s.accepted + 1 } = Function.update s.holds .accept (some s.accepted) := by
        funext x
        cases x <;> simp [State.holds, AcceptPc.conn]
      unfold State.custody
      rw [hholds]
      exact .take (s := s.custody) hnone
  | listenerNull ha =>
      refine custody_skip rfl rfl (funext fun x => ?_)
      cases x <;> simp [State.holds, AcceptPc.conn, ha]
  | @lock c ha hm =>
      have hc : s.holds .accept = some c := by
        show s.accept.conn = some c
        rw [ha]
        rfl
      have hnone : s.holds .locked = none := by
        show s.connsMutex.bind Section.conn = none
        rw [hm]
        rfl
      refine custody_pass rfl rfl hc hnone (funext fun x => ?_)
      cases x <;> simp [State.holds, AcceptPc.conn, Section.conn]
  | @place c k hm hk =>
      refine custody_pass (y := .slot k) rfl rfl (hscan hm) (Slots.firstFree_some hk)
        (funext fun x => ?_)
      cases x with
      | accept => simp [State.holds]
      | locked => simp [State.holds, Section.conn]
      | client j => simp [State.holds]
      | slot i =>
          by_cases hik : i = k
          · subst hik
            simp [State.holds]
          · simp [State.holds, Slots.put_ne, hik]
  | @full c hm hk =>
      refine custody_pass rfl rfl (hscan hm) (hfree hm rfl) (funext fun x => ?_)
      cases x <;> simp [State.holds, AcceptPc.conn]
  | @create c k hm =>
      have hnew := hl.unborn s.threads (Nat.le_refl _)
      refine custody_skip rfl rfl (funext fun x => ?_)
      cases x with
      | accept => simp [State.holds]
      | locked => simp [State.holds, hm, Section.conn]
      | slot i => simp [State.holds]
      | client i =>
          by_cases hij : i = s.threads
          · subst hij
            simp [State.holds, ClientPc.conn, hnew]
          · simp [State.holds, setClient_ne _ _ hij]
  | @createFailed c k hm =>
      refine custody_pass (x := .slot k) rfl rfl (hl.placed k c hm) (hfree hm rfl)
        (funext fun x => ?_)
      cases x with
      | accept => simp [State.holds, AcceptPc.conn]
      | locked => simp [State.holds, hm, Section.conn]
      | client j => simp [State.holds]
      | slot i =>
          by_cases hik : i = k
          · subst hik
            simp [State.holds]
          · simp [State.holds, Slots.clear_ne, hik]
  | count hm =>
      refine custody_skip rfl rfl (funext fun x => ?_)
      cases x with
      | accept => exact (hfree hm rfl).symm
      | locked => simp [State.holds, hm, Section.conn]
      | slot i => rfl
      | client j => rfl
  | @close c ha =>
      have hc : s.holds .accept = some c := by
        show s.accept.conn = some c
        rw [ha]
        rfl
      refine custody_close rfl rfl hc (funext fun x => ?_)
      cases x <;> simp [State.holds, AcceptPc.conn]

theorem AcceptStep.quits {s s' : State} (h : AcceptStep s s') (hl : Locked s)
    (ht : Tenants s.slots s.serving s.placing) (hq : Quits s) : Quits s' := by
  -- the accept thread's sections are not those of a thread on its way
  have hkeep : ∀ {t : State}, t.clients = s.clients → t.slots = s.slots →
      (∀ j k c, s.connsMutex = some (.left j k c) → t.connsMutex = s.connsMutex) →
        ∀ c, Leaving s c → Leaving t c := by
    rintro t hclients hslots hmutex c ⟨j, k, hj | ⟨hj, hm⟩ | hj⟩
    · exact ⟨j, k, Or.inl (by rwa [hslots, hclients])⟩
    · exact ⟨j, k, Or.inr (Or.inl ⟨by rwa [hclients], (hmutex j k _ hm).trans hm⟩)⟩
    · exact ⟨j, k, Or.inr (Or.inr (by rwa [hclients]))⟩
  have hnot : ∀ {x}, s.connsMutex = some x → x.ofAccept = true → ∀ j k c,
      s.connsMutex ≠ some (.left j k c) := by
    intro x hm hx j k c hm'
    cases hm.symm.trans hm'
    cases hx
  cases h with
  | accepted ha ho => exact hq.silent rfl (hkeep rfl rfl fun _ _ _ _ => rfl)
  | listenerNull ha => exact hq.silent rfl (hkeep rfl rfl fun _ _ _ _ => rfl)
  | lock ha hm =>
      refine hq.silent rfl (hkeep rfl rfl fun j k c hm' => ?_)
      cases hm.symm.trans hm'
  | @place o k hm hk =>
      refine hq.silent rfl ?_
      rintro c ⟨j, l, ⟨hc, hj⟩ | ⟨hj, hm'⟩ | hj⟩
      · have hlk : l ≠ k := by
          rintro rfl
          rw [Slots.firstFree_some hk] at hc
          cases hc
        exact ⟨j, l, Or.inl ⟨(Slots.put_ne _ _ hlk).trans hc, hj⟩⟩
      · exact absurd hm' (hnot hm rfl _ _ _)
      · exact ⟨j, l, Or.inr (Or.inr hj)⟩
  | full hm hk =>
      exact hq.silent rfl (hkeep rfl rfl fun j k c hm' => absurd hm' (hnot hm rfl _ _ _))
  | @create o k hm =>
      refine hq.silent rfl ?_
      have hold : ∀ {j t}, s.clients j = some t →
          (s.setClient s.threads ⟨k, .serve⟩).clients j = some t := by
        intro j t hj
        have hne : j ≠ s.threads := by
          rintro rfl
          rw [hl.unborn _ (Nat.le_refl _)] at hj
          cases hj
        exact (setClient_ne _ _ hne).trans hj
      rintro c ⟨j, l, ⟨hc, hj⟩ | ⟨hj, hm'⟩ | hj⟩
      · exact ⟨j, l, Or.inl ⟨hc, hj.imp hold hold⟩⟩
      · exact absurd hm' (hnot hm rfl _ _ _)
      · exact ⟨j, l, Or.inr (Or.inr (hold hj))⟩
  | @createFailed o k hm =>
      refine hq.silent rfl ?_
      rintro c ⟨j, l, ⟨hc, hj⟩ | ⟨hj, hm'⟩ | hj⟩
      · have hserving : s.serving j = some l :=
          hj.elim (fun hj => serving_of hj rfl) fun hj => serving_of hj rfl
        have hlk : l ≠ k := by
          rintro rfl
          exact (ht.placed l (placing_of_some hm)).2 j hserving
        exact ⟨j, l, Or.inl ⟨(Slots.clear_ne _ hlk).trans hc, hj⟩⟩
      · exact absurd hm' (hnot hm rfl _ _ _)
      · exact ⟨j, l, Or.inr (Or.inr hj)⟩
  | count hm =>
      exact hq.silent rfl (hkeep rfl rfl fun j k c hm' => absurd hm' (hnot hm rfl _ _ _))
  | close ha =>
      exact hq.append rfl (fun c hc => absurd hc (not_failed_close _ c))
        fun c hc => Or.inr (hkeep rfl rfl (fun _ _ _ _ => rfl) c hc)

/-! ## Every state -/

theorem BroadcastStep.stopping {s s' : State} (h : BroadcastStep s s') (hs : Stopping s) :
    Stopping s' := by
  cases h with
  | lock hm => exact ⟨by rintro x ⟨⟩ ⟨⟩, hs.waiting, hs.joined, hs.returned⟩
  | skip hm hk => exact ⟨by rintro x ⟨⟩ ⟨⟩, hs.waiting, hs.joined, hs.returned⟩
  | take hm hk hi hw => exact ⟨by rintro x ⟨⟩ ⟨⟩, hs.waiting, hs.joined, hs.returned⟩
  | header ok hm =>
      refine ⟨?_, hs.waiting, hs.joined, hs.returned⟩
      rintro x ⟨⟩ ho
      cases ok <;> cases ho
  | body ok hm => exact ⟨by rintro x ⟨⟩ ⟨⟩, hs.waiting, hs.joined, hs.returned⟩
  | unlock hm => exact ⟨by rintro x ⟨⟩, hs.waiting, hs.joined, hs.returned⟩

theorem StopStep.stopping {s s' : State} (h : StopStep s s') (hk : Kept s) : Stopping s' := by
  have hs := hk.stopping
  -- once past the join, the accept thread is gone
  have hgone : ∀ {pc : StopPc}, s.stop = pc → pc.joined = true → s.accept = .returned := by
    rintro pc rfl hj
    exact hs.joined hj
  cases h with
  | listenerClose hi =>
      refine ⟨fun x hx ho => ?_, fun hw => (by cases hw), fun hj => (by cases hj),
        fun hr => (by cases hr)⟩
      have := hs.locked x hx ho
      rw [hi] at this
      cases this
  | join hi ha =>
      refine ⟨fun x hx ho => ?_, fun hw => (by cases hw), fun _ => ha, fun hr => (by cases hr)⟩
      have := hs.locked x hx ho
      rw [hi] at this
      cases this
  | spurious hi =>
      refine ⟨fun x hx ho => ?_, fun hw => (by cases hw), fun _ => hgone hi rfl,
        fun hr => (by cases hr)⟩
      have := hs.locked x hx ho
      rw [hi] at this
      cases this
  | lock hi hm =>
      exact ⟨fun _ _ _ => rfl, fun hw => (by cases hw), fun _ => hgone hi rfl,
        fun hr => (by cases hr)⟩
  | relock hi hm =>
      exact ⟨fun _ _ _ => rfl, fun hw => (by cases hw), fun _ => hgone hi rfl,
        fun hr => (by cases hr)⟩
  | skip hm hk => exact ⟨fun _ _ _ => hs.locked _ hm rfl, hs.waiting, hs.joined, hs.returned⟩
  | abort hm hk => exact ⟨fun _ _ _ => hs.locked _ hm rfl, hs.waiting, hs.joined, hs.returned⟩
  | aborted hm => exact ⟨fun _ _ _ => hs.locked _ hm rfl, hs.waiting, hs.joined, hs.returned⟩
  | wait hm ha =>
      exact ⟨fun x hx => (by cases hx), fun _ => ha, fun _ => hgone (hs.locked _ hm rfl) rfl,
        fun hr => (by cases hr)⟩
  | unlock hm ha =>
      refine ⟨fun x hx => (by cases hx), fun hw => (by cases hw),
        fun _ => hgone (hs.locked _ hm rfl) rfl, fun _ => ⟨ha, ?_⟩⟩
      have hc := hk.counted
      unfold Counted at hc
      rw [hm, ha] at hc
      exact Slots.used_eq_zero.mp hc.symm

/-- Each step is one of the discipline, and keeps the slots and the counter in order. -/
theorem Kept.step {s s' : State} {a : Act} (hk : Kept s) (h : Step s a s') : Kept s' := by
  cases h with
  | accept h =>
      exact ⟨h.locked hk.locked, h.tenants hk.locked hk.tenants, h.counted hk.locked hk.counted,
        h.stopping hk.locked hk.stopping, hk.custody.step (h.custody hk.locked),
        h.quits hk.locked hk.tenants hk.quits⟩
  | serve h =>
      have h := h.serving
      exact ⟨h.locked hk.locked, h.tenants hk.tenants, h.counted hk.counted,
        h.stopping hk.stopping, hk.custody.step (h.custody hk.tenants), h.quits hk.quits⟩
  | unwind h =>
      exact ⟨h.locked hk.locked hk.tenants, h.tenants hk.locked hk.tenants,
        h.counted hk.locked hk.tenants hk.counted, h.stopping hk.stopping,
        hk.custody.step (h.custody hk.locked hk.tenants), h.quits hk.locked hk.tenants hk.quits⟩
  | broadcast h =>
      have hv := h.visit hk.locked
      exact ⟨hv.locked hk.locked, hv.tenants hk.tenants, hv.counted hk.counted,
        h.stopping hk.stopping, hk.custody.step hv.custody, hv.quits hk.quits⟩
  | stop h =>
      have hv := h.visit
      exact ⟨hv.locked hk.locked, hv.tenants hk.tenants, hv.counted hk.counted, h.stopping hk,
        hk.custody.step hv.custody, hv.quits hk.quits⟩

theorem kept_reach {s : State} (h : Reach lifecycle s) : Kept s := by
  refine h.invariant (fun s hs => ?_) fun s e s' _ hk hst => hk.step hst
  rw [show s = started from hs]
  exact kept_started

/-- A live thread is still to close `c`: the accept thread, or a client thread. -/
def Pending (s : State) (c : ConnId) : Prop :=
  s.accept = .accepted c ∨ s.accept = .rejected c ∨ s.connsMutex = some (.scan c) ∨
    (∃ k, s.connsMutex = some (.placed k c)) ∨
      ∃ j k pc, s.clients j = some ⟨k, pc⟩ ∧
        (pc.serving = true ∧ s.slots k = some c ∨
          pc = .leaving ∧ s.connsMutex = some (.left j k (some c)) ∨ pc = .closing (some c))

/-- The slots, the counter and the connections are in order. -/
structure InOrder (s : State) : Prop where
  counted : s.connsMutex = none → s.activeClients = s.slots.used ∧ s.activeClients ≤ maxConns
  /-- A connection is closed once, or a live thread is still to close it. -/
  closed : ∀ c < s.accepted, closes s.log c ≤ 1 ∧ (closes s.log c = 0 ↔ Pending s c)
  /-- Only accepted connections are operated on, and none after its close. -/
  applied : ∀ e ∈ s.log, ∃ c < s.accepted, e.2 = some c
  final : Final s.log
  /-- Behind a read or a write that failed, the connection is closed or its thread is on its way
      to close it. -/
  left : ∀ c, Failed s.log c → closes s.log c = 1 ∨ Leaving s c
  /-- When `mcp_server_stop` returns the slots are free, and a connection that is not closed yet
      has a thread that needs no lock to close it. -/
  stopped : s.stop = .returned → (∀ k, s.slots k = none) ∧
    ∀ c < s.accepted, closes s.log c = 1 ∨ ∃ j k, s.clients j = some ⟨k, .closing (some c)⟩

theorem serving_some {s : State} {j : Nat} {k : Fin maxConns} (h : s.serving j = some k) :
    ∃ pc, s.clients j = some ⟨k, pc⟩ ∧ pc.serving = true := by
  obtain ⟨⟨l, pc⟩, hj, ht⟩ := Option.bind_eq_some_iff.mp h
  dsimp only at ht
  split at ht
  · next hpc =>
      cases ht
      exact ⟨pc, hj, hpc⟩
  · cases ht

/-- Who holds a connection is to close it. -/
theorem Kept.pending {s : State} (hk : Kept s) {c : ConnId} :
    Pending s c ↔ ∃ h, s.holds h = some c := by
  constructor
  · rintro (ha | ha | hm | ⟨k, hm⟩ | ⟨j, k, pc, hj, ⟨-, hc⟩ | ⟨-, hm⟩ | rfl⟩)
    · exact ⟨.accept, congrArg AcceptPc.conn ha⟩
    · exact ⟨.accept, congrArg AcceptPc.conn ha⟩
    · exact ⟨.locked, congrArg (·.bind Section.conn) hm⟩
    · exact ⟨.slot k, hk.locked.placed k c hm⟩
    · exact ⟨.slot k, hc⟩
    · exact ⟨.locked, congrArg (·.bind Section.conn) hm⟩
    · exact ⟨.client j, congrArg (·.bind fun t => t.pc.conn) hj⟩
  · rintro ⟨h, hc⟩
    cases h with
    | accept =>
        have hc' : s.accept.conn = some c := hc
        cases ha : s.accept with
        | accepted d =>
            rw [ha] at hc'
            cases hc'
            exact Or.inl ha
        | rejected d =>
            rw [ha] at hc'
            cases hc'
            exact Or.inr (Or.inl ha)
        | accept =>
            rw [ha] at hc'
            cases hc'
        | locked =>
            rw [ha] at hc'
            cases hc'
        | returned =>
            rw [ha] at hc'
            cases hc'
    | locked =>
        obtain ⟨x, hx, hxc⟩ := Option.bind_eq_some_iff.mp hc
        cases x with
        | scan d =>
            cases hxc
            exact Or.inr (Or.inr (Or.inl hx))
        | left j k d =>
            cases hxc
            exact Or.inr (Or.inr (Or.inr (Or.inr
              ⟨j, k, _, (hk.locked.left j k _ hx).1, Or.inr (Or.inl ⟨rfl, hx⟩)⟩)))
        | placed k d => cases hxc
        | created => cases hxc
        | unwind j k => cases hxc
        | visit i => cases hxc
        | header k => cases hxc
        | body k => cases hxc
        | abort i => cases hxc
        | drain => cases hxc
    | slot k =>
        have hc' : s.slots k = some c := hc
        rcases hk.tenants.owned k (by rw [hc']; exact Option.some_ne_none _) with ⟨j, hj⟩ | hp
        · obtain ⟨pc, hjk, hpc⟩ := serving_some hj
          exact Or.inr (Or.inr (Or.inr (Or.inr ⟨j, k, pc, hjk, Or.inl ⟨hpc, hc'⟩⟩)))
        · obtain ⟨x, hx, hxk⟩ := Option.bind_eq_some_iff.mp hp
          cases x <;> cases hxk
          next d =>
            cases (hk.locked.placed k d hx).symm.trans hc'
            exact Or.inr (Or.inr (Or.inr (Or.inl ⟨k, hx⟩)))
    | client j =>
        obtain ⟨⟨k, pc⟩, hj, hpc⟩ := Option.bind_eq_some_iff.mp hc
        dsimp only at hpc
        cases pc <;> cases hpc
        exact Or.inr (Or.inr (Or.inr (Or.inr ⟨j, k, _, hj, Or.inr (Or.inr rfl)⟩)))

/-- Once `mcp_server_stop` has returned, a connection that is held is about to be closed. -/
theorem Kept.stopped {s : State} (hk : Kept s) (hs : s.stop = .returned) {c : ConnId}
    (hp : Pending s c) : ∃ j k, s.clients j = some ⟨k, .closing (some c)⟩ := by
  obtain ⟨hzero, hfree⟩ := hk.stopping.returned hs
  have hgone := hk.stopping.joined (by rw [hs]; rfl)
  have hno : ∀ x, s.connsMutex = some x → x.ofAccept = true → False := by
    intro x hx ho
    have hlocked := hk.locked.accept x hx ho
    rw [hgone] at hlocked
    cases hlocked
  rcases hp with ha | ha | hm | ⟨k, hm⟩ | ⟨j, k, pc, hj, ⟨-, hc⟩ | ⟨-, hm⟩ | rfl⟩
  · rw [hgone] at ha
    cases ha
  · rw [hgone] at ha
    cases ha
  · exact (hno _ hm rfl).elim
  · exact (hno _ hm rfl).elim
  · rw [hfree k] at hc
    cases hc
  · have hcount := hk.counted
    unfold Counted at hcount
    rw [hzero, hm, Slots.used_eq_zero.mpr hfree] at hcount
    cases hcount
  · exact ⟨j, k, hj⟩

/-- The client slots are in order in every state, whatever the interleaving. -/
theorem slot_lifecycle {s : State} (h : Reach lifecycle s) : InOrder s := by
  have hk := kept_reach h
  have hclosed : ∀ c < s.accepted, closes s.log c = 1 ∨ closes s.log c = 0 ∧ Pending s c := by
    intro c hc
    rcases hk.custody.done c hc with ⟨x, hx⟩ | hone
    · exact Or.inr ⟨hk.custody.opened x c hx, hk.pending.mpr ⟨x, hx⟩⟩
    · exact Or.inl hone
  have hopen : ∀ c, Pending s c → closes s.log c = 0 := by
    intro c hp
    obtain ⟨x, hx⟩ := hk.pending.mp hp
    exact hk.custody.opened x c hx
  refine ⟨fun hm => ?_, fun c hc => ⟨?_, fun hzero => ?_, hopen c⟩, hk.custody.known,
    hk.custody.last, fun c hf => (hk.quits c hf).imp_left fun hmem => ?_,
    fun hs => ⟨(hk.stopping.returned hs).2, fun c hc => ?_⟩⟩
  · have hcount := hk.counted
    unfold Counted at hcount
    rw [hm] at hcount
    simp only [ahead, behind, Nat.add_zero] at hcount
    exact ⟨hcount, hcount.trans_le s.slots.used_le⟩
  · rcases hclosed c hc with hone | ⟨hzero, -⟩ <;> omega
  · rcases hclosed c hc with hone | ⟨-, hp⟩
    · omega
    · exact hp
  · obtain ⟨d, hd, he⟩ := hk.custody.known _ hmem
    cases he
    refine (hclosed c hd).resolve_right fun hp => ?_
    exact closes_eq_zero.mp hp.1 _ hmem rfl rfl
  · exact (hclosed c hc).imp_right fun hp => hk.stopped hs hp.2

/-- A client comes and goes: its connection has been closed once. -/
theorem slot_lifecycle_client :
    ∃ s, s.accepted = 1 ∧ closes s.log 0 = 1 ∧ s.activeClients = 0 ∧ InOrder s := by
  have h₀ : Reach lifecycle started := ReachWhen.init rfl
  have h₁ := h₀.step trivial (.accept (.accepted rfl rfl))
  have h₂ := h₁.step trivial (.accept (.lock rfl rfl))
  have h₃ := h₂.step trivial (.accept (.place (k := 0) rfl rfl))
  have h₄ := h₃.step trivial (.accept (.create rfl))
  have h₅ := h₄.step trivial (.accept (.count rfl))
  have h₆ := h₅.step trivial (.serve (j := 0) (.read .failed rfl))
  have h₇ := h₆.step trivial (.unwind (j := 0) (.lock rfl rfl))
  have h₈ := h₇.step trivial (.unwind (.clear rfl))
  have h₉ := h₈.step trivial (.unwind (.unlock rfl))
  have h := h₉.step trivial (.unwind (j := 0) (.close rfl))
  exact ⟨_, rfl, by decide, rfl, slot_lifecycle h⟩

end DisplayxrMcp.Server.Lifecycle
