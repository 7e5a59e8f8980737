/-
  The running server as a system of threads (src/mcp_server.c, "Notifications",
  "Per-connection serve loop", "Thread entry").

  The accept thread, one serve thread a client, and any number of embedder
  threads that change the registry. One step is one critical section, one
  acquisition of a mutex that is held across steps (`conns_mutex` by a
  broadcast, a client's `write_mutex` by a broadcast or by its serve thread),
  or one write. What the environment decides is in the label: frames, what a
  tool handler returns, whether a write or a thread start succeeds.

  `sent` is every complete frame written so far, with its connection. The kind
  of a frame is a proof-only tag: which reply it is, or the notification.
-/
import DisplayxrMcp.Lib.Lts
import DisplayxrMcp.Lib.Slots
import DisplayxrMcp.Server.Registry

namespace DisplayxrMcp.Server

open Lib Cjson Lts

abbrev maxConns : Nat := 8

instance : NeZero maxConns := ⟨by decide⟩

/-- What a frame is: the reply to `initialize`, another reply, or `list_changed`. -/
inductive FrameKind where
  | hello
  | other
  | changed
  deriving DecidableEq

/-- A frame written to a connection, as the peer reads it. -/
structure SentFrame where
  conn : ConnId
  kind : FrameKind
  body : Json
  deriving DecidableEq

/-- Where a serve thread stands. -/
inductive ServePc where
  | read
  | hello (id : Json)
  | markInitialized (id : Json) (appId : CStr)
  | listTools (id : Json)
  | listAppId (id : Json) (tools : List Json)
  | findTool (id : Json) (name : CStr) (args : Option Json)
  | call (id : Json) (tool : Tool) (args : Option Json)
  | reply (kind : FrameKind) (body : Json)
  | write (kind : FrameKind) (body : Json)
  | closing
  deriving DecidableEq

/-- Who holds a `write_mutex`. -/
inductive Writer where
  | serve
  | embedder (t : Nat)
  deriving DecidableEq

/-- `struct mcp_client` of a used slot. `aborted` is the state of its connection. -/
structure Client where
  conn : ConnId
  initialized : Bool
  pc : ServePc
  writeMutex : Option Writer
  aborted : Bool

/-- Where an embedder thread stands in a registry call. `scan i` is the broadcast loop at slot
    `i`. -/
inductive EmbedPc where
  | idle
  | notify
  | lockConns
  | scan (i : Nat)
  | write (k : Fin maxConns)
  deriving DecidableEq

/-- A registry call. -/
inductive Change where
  | register (tool : Tool)
  | unregister (name : CStr)
  | setAppId (id : CStr)
  deriving DecidableEq

/-- The locked part of a registry call. -/
def Change.apply (r : Registry) : Change → Registry × Bool
  | .register tool => registerTool r tool
  | .unregister name => unregisterTool r name
  | .setAppId id => Server.setAppId r id

/-- `g_server`, the threads and the traffic. `connsMutex` is the broadcasting thread. -/
structure State where
  printText : Json → CStr
  registry : Registry
  threadStarted : Bool
  clients : Slots maxConns Client
  connsMutex : Option Nat
  embed : Nat → EmbedPc
  sent : List SentFrame
  conns : ConnId

/-- Labels. `t` is the embedder thread, `k` the slot of the serve thread. -/
inductive Act where
  | accept (started : Bool)
  | change (t : Nat) (op : Change)
  | notify (t : Nat)
  | lockConns (t : Nat)
  | scan (t : Nat)
  | notifyWrite (t : Nat) (ok : Bool)
  | recv (k : Fin maxConns) (f : Inbound)
  | dispatch (k : Fin maxConns)
  | handler (k : Fin maxConns) (inner : Option Json)
  | lockWrite (k : Fin maxConns)
  | write (k : Fin maxConns) (ok : Bool)
  | unwind (k : Fin maxConns)

/-- The embedder thread a label moves. -/
def Act.embedder : Act → Option Nat
  | .change t _ | .notify t | .lockConns t | .scan t | .notifyWrite t _ => some t
  | _ => none

/-- The slot whose serve thread a label moves. -/
def Act.slot : Act → Option (Fin maxConns)
  | .recv k _ | .dispatch k | .handler k _ | .lockWrite k | .write k _ | .unwind k => some k
  | _ => none

/-! ## handle_request -/

/-- `handle_request` up to its first lock or its reply. -/
def handleRequest (req : Json) : ServePc :=
  let params := req.getObjectItemCaseSensitive (ascii "params")
  match Json.string? (req.getObjectItemCaseSensitive (ascii "method")), idOf req with
  | none, none => .read
  | none, some id => .reply .other (jsonrpcError (some id) (-32600) "invalid request: missing method")
  | some _, none => .read
  | some method, some id =>
      if method = ascii "initialize" then .hello id
      else if method = ascii "ping" then .reply .other (jsonrpcResult id (.obj []))
      else if method = ascii "tools/list" then .listTools id
      else if method = ascii "tools/call" then
        match Json.string? (params.bind (·.getObjectItemCaseSensitive (ascii "name"))) with
        | none => .reply .other
            (jsonrpcError (some id) (-32602) "tools/call: missing string 'name'")
        | some name =>
            .findTool id name (params.bind (·.getObjectItemCaseSensitive (ascii "arguments")))
      else .reply .other (jsonrpcError (some id) (-32601) "method not found")

/-- The serve loop on what a read yields. -/
def onFrame : Inbound → ServePc
  | .eof => .closing
  | .junk => .reply .other (jsonrpcError none (-32700) "parse error")
  | .msg req => handleRequest req

/-- One locked section of `handle_request`: the next point, and whether it marks the client
    initialized. -/
def dispatchStep (r : Registry) : ServePc → Option (ServePc × Bool)
  | .hello id => some (.markInitialized id r.appId, false)
  | .markInitialized id appId =>
      some (.reply .hello (jsonrpcResult id (initializeResult r.version appId)), true)
  | .listTools id => some (.listAppId id (buildToolsList r), false)
  | .listAppId id tools =>
      some (.reply .other (jsonrpcResult id (toolsListResult tools r.appId)), false)
  | .findTool id name args =>
      match findTool r name with
      | none => some (.reply .other (jsonrpcError (some id) (-32601) "tool not found"), false)
      | some tool => some (.call id tool args, false)
  | _ => none

/-- The reply to `tools/call` after the handler returned `inner`. -/
def handlerReply (printText : Json → CStr) (id : Json) (inner : Option Json) : Json :=
  match inner with
  | none => jsonrpcError (some id) (-32000) "tool handler failed"
  | some inner => jsonrpcResult id (callResult (printText inner) inner)

/-! ## Steps -/

namespace State

def setClient (s : State) (k : Fin maxConns) (cl : Client) : State :=
  { s with clients := s.clients.put k cl }

def setEmbed (s : State) (t : Nat) (pc : EmbedPc) : State :=
  { s with embed := Function.update s.embed t pc }

def log (s : State) (out : List SentFrame) : State := { s with sent := s.sent ++ out }

@[simp] theorem setClient_clients (s : State) (k : Fin maxConns) (cl : Client) :
    (s.setClient k cl).clients = s.clients.put k cl := rfl
@[simp] theorem setClient_embed (s : State) (k : Fin maxConns) (cl : Client) :
    (s.setClient k cl).embed = s.embed := rfl
@[simp] theorem setClient_sent (s : State) (k : Fin maxConns) (cl : Client) :
    (s.setClient k cl).sent = s.sent := rfl
@[simp] theorem setClient_connsMutex (s : State) (k : Fin maxConns) (cl : Client) :
    (s.setClient k cl).connsMutex = s.connsMutex := rfl
@[simp] theorem setClient_conns (s : State) (k : Fin maxConns) (cl : Client) :
    (s.setClient k cl).conns = s.conns := rfl
@[simp] theorem setClient_threadStarted (s : State) (k : Fin maxConns) (cl : Client) :
    (s.setClient k cl).threadStarted = s.threadStarted := rfl
@[simp] theorem setEmbed_clients (s : State) (t : Nat) (pc : EmbedPc) :
    (s.setEmbed t pc).clients = s.clients := rfl
@[simp] theorem setEmbed_sent (s : State) (t : Nat) (pc : EmbedPc) :
    (s.setEmbed t pc).sent = s.sent := rfl
@[simp] theorem setEmbed_connsMutex (s : State) (t : Nat) (pc : EmbedPc) :
    (s.setEmbed t pc).connsMutex = s.connsMutex := rfl
@[simp] theorem setEmbed_conns (s : State) (t : Nat) (pc : EmbedPc) :
    (s.setEmbed t pc).conns = s.conns := rfl
@[simp] theorem setEmbed_threadStarted (s : State) (t : Nat) (pc : EmbedPc) :
    (s.setEmbed t pc).threadStarted = s.threadStarted := rfl
@[simp] theorem setEmbed_same (s : State) (t : Nat) (pc : EmbedPc) :
    (s.setEmbed t pc).embed t = pc := by simp [setEmbed]
theorem setEmbed_ne (s : State) {t u : Nat} (pc : EmbedPc) (h : u ≠ t) :
    (s.setEmbed t pc).embed u = s.embed u := by simp [setEmbed, h]
@[simp] theorem log_clients (s : State) (out : List SentFrame) : (s.log out).clients = s.clients :=
  rfl
@[simp] theorem log_embed (s : State) (out : List SentFrame) : (s.log out).embed = s.embed := rfl
@[simp] theorem log_sent (s : State) (out : List SentFrame) : (s.log out).sent = s.sent ++ out :=
  rfl
@[simp] theorem log_connsMutex (s : State) (out : List SentFrame) :
    (s.log out).connsMutex = s.connsMutex := rfl
@[simp] theorem log_conns (s : State) (out : List SentFrame) : (s.log out).conns = s.conns := rfl
@[simp] theorem log_threadStarted (s : State) (out : List SentFrame) :
    (s.log out).threadStarted = s.threadStarted := rfl

end State

/-- The frames a write leaves complete: none when it fails. -/
def frameIf (ok : Bool) (conn : ConnId) (kind : FrameKind) (body : Json) : List SentFrame :=
  if ok then [⟨conn, kind, body.reparse⟩] else []

/-- One step. -/
inductive Step : State → Act → State → Prop where
  | accepted {s k} (hm : s.connsMutex = none) (hk : s.clients.firstFree = some k) :
      Step s (.accept true)
        { s.setClient k ⟨s.conns, false, .read, none, false⟩ with conns := s.conns + 1 }
  /-- No free slot, or the thread does not start: the connection is closed. -/
  | rejected {s started} (hm : s.connsMutex = none)
      (hk : s.clients.firstFree = none ∨ started = false) :
      Step s (.accept started) { s with conns := s.conns + 1 }
  | change {s t op} (ht : s.embed t = .idle) :
      Step s (.change t op)
        ({ s with registry := (op.apply s.registry).1 }.setEmbed t
          (if (op.apply s.registry).2 then .notify else .idle))
  | notify {s t} (ht : s.embed t = .notify) :
      Step s (.notify t) (s.setEmbed t (if s.threadStarted then .lockConns else .idle))
  | lockConns {s t} (ht : s.embed t = .lockConns) (hm : s.connsMutex = none) :
      Step s (.lockConns t) ({ s with connsMutex := some t }.setEmbed t (.scan 0))
  | scanSkip {s t} {k : Fin maxConns} (ht : s.embed t = .scan k)
      (hk : ∀ cl, s.clients k = some cl → cl.initialized = false) :
      Step s (.scan t) (s.setEmbed t (.scan (k + 1)))
  /-- `pthread_mutex_trylock` fails. -/
  | scanBusy {s t cl} {k : Fin maxConns} (ht : s.embed t = .scan k)
      (hk : s.clients k = some cl) (hi : cl.initialized = true) (hb : cl.writeMutex ≠ none) :
      Step s (.scan t) (s.setEmbed t (.scan (k + 1)))
  | scanTake {s t cl} {k : Fin maxConns} (ht : s.embed t = .scan k)
      (hk : s.clients k = some cl) (hi : cl.initialized = true) (hb : cl.writeMutex = none) :
      Step s (.scan t)
        ((s.setClient k { cl with writeMutex := some (.embedder t) }).setEmbed t (.write k))
  | scanDone {s t} (ht : s.embed t = .scan maxConns) :
      Step s (.scan t) ({ s with connsMutex := none }.setEmbed t .idle)
  /-- A bounded write that fails aborts the connection. -/
  | notifyWrite {s t cl k ok} (ht : s.embed t = .write k) (hk : s.clients k = some cl)
      (hok : ok = true → cl.aborted = false) :
      Step s (.notifyWrite t ok)
        (((s.setClient k { cl with writeMutex := none, aborted := cl.aborted || !ok }).log
          (frameIf ok cl.conn .changed listChanged)).setEmbed t (.scan (k + 1)))
  | recv {s k cl f} (hk : s.clients k = some cl) (hp : cl.pc = .read) :
      Step s (.recv k f) (s.setClient k { cl with pc := onFrame f })
  | dispatch {s k cl pc mark} (hk : s.clients k = some cl)
      (hp : dispatchStep s.registry cl.pc = some (pc, mark)) :
      Step s (.dispatch k)
        (s.setClient k { cl with pc := pc, initialized := cl.initialized || mark })
  | handler {s k cl id tool args inner} (hk : s.clients k = some cl)
      (hp : cl.pc = .call id tool args) :
      Step s (.handler k inner)
        (s.setClient k { cl with pc := .reply .other (handlerReply s.printText id inner) })
  | lockWrite {s k cl kind body} (hk : s.clients k = some cl) (hp : cl.pc = .reply kind body)
      (hm : cl.writeMutex = none) :
      Step s (.lockWrite k)
        (s.setClient k { cl with pc := .write kind body, writeMutex := some .serve })
  | write {s k cl kind body ok} (hk : s.clients k = some cl) (hp : cl.pc = .write kind body)
      (hok : ok = true → cl.aborted = false) :
      Step s (.write k ok)
        ((s.setClient k { cl with pc := if ok then .read else .closing, writeMutex := none }).log
          (frameIf ok cl.conn kind body))
  | unwind {s k cl} (hk : s.clients k = some cl) (hp : cl.pc = .closing)
      (hm : s.connsMutex = none) :
      Step s (.unwind k) { s with clients := s.clients.clear k }

/-- A server that has been started, with the registry as it then was. -/
def start (printText : Json → CStr) (r : Registry) : State where
  printText := printText
  registry := r
  threadStarted := true
  clients := Slots.empty _ _
  connsMutex := none
  embed := fun _ => .idle
  sent := []
  conns := 0

def server : Lts.System State Act where
  init s := ∃ printText r, s = start printText r
  step := Step

/-! ## Running -/

/-- A step of embedder thread `t`. -/
def State.nextEmbed (s : State) (t : Nat) (a : Act) : Option State :=
  match s.embed t, a with
  | .idle, .change _ op =>
      some ({ s with registry := (op.apply s.registry).1 }.setEmbed t
        (if (op.apply s.registry).2 then .notify else .idle))
  | .notify, .notify _ => some (s.setEmbed t (if s.threadStarted then .lockConns else .idle))
  | .lockConns, .lockConns _ =>
      if s.connsMutex = none then some ({ s with connsMutex := some t }.setEmbed t (.scan 0))
      else none
  | .scan i, .scan _ =>
      if h : i < maxConns then
        match s.clients ⟨i, h⟩ with
        | none => some (s.setEmbed t (.scan (i + 1)))
        | some cl =>
            if cl.initialized then
              if cl.writeMutex = none then
                some ((s.setClient ⟨i, h⟩ { cl with writeMutex := some (.embedder t) }).setEmbed t
                  (.write ⟨i, h⟩))
              else some (s.setEmbed t (.scan (i + 1)))
            else some (s.setEmbed t (.scan (i + 1)))
      else if i = maxConns then some ({ s with connsMutex := none }.setEmbed t .idle) else none
  | .write k, .notifyWrite _ ok =>
      match s.clients k with
      | none => none
      | some cl =>
          if ok = true → cl.aborted = false then
            some (((s.setClient k { cl with writeMutex := none, aborted := cl.aborted || !ok }).log
              (frameIf ok cl.conn .changed listChanged)).setEmbed t (.scan (k + 1)))
          else none
  | _, _ => none

/-- A step of the serve thread of slot `k`. -/
def State.nextServe (s : State) (k : Fin maxConns) (a : Act) : Option State :=
  match s.clients k with
  | none => none
  | some cl => match cl.pc, a with
    | .read, .recv _ f => some (s.setClient k { cl with pc := onFrame f })
    | .call id _ _, .handler _ inner =>
        some (s.setClient k { cl with pc := .reply .other (handlerReply s.printText id inner) })
    | .reply kind body, .lockWrite _ =>
        if cl.writeMutex = none then
          some (s.setClient k { cl with pc := .write kind body, writeMutex := some .serve })
        else none
    | .write kind body, .write _ ok =>
        if ok = true → cl.aborted = false then
          some ((s.setClient k
            { cl with pc := if ok then .read else .closing, writeMutex := none }).log
              (frameIf ok cl.conn kind body))
        else none
    | .closing, .unwind _ =>
        if s.connsMutex = none then some { s with clients := s.clients.clear k } else none
    | pc, .dispatch _ =>
        (dispatchStep s.registry pc).map fun r =>
          s.setClient k { cl with pc := r.1, initialized := cl.initialized || r.2 }
    | _, _ => none

/-- A step of the accept thread. -/
def State.nextAccept (s : State) (a : Act) : Option State :=
  match a with
  | .accept started =>
      if s.connsMutex = none then
        match s.clients.firstFree, started with
        | some k, true => some { s.setClient k ⟨s.conns, false, .read, none, false⟩ with
            conns := s.conns + 1 }
        | _, _ => some { s with conns := s.conns + 1 }
      else none
  | _ => none

/-- The state a label leads to. -/
def State.next (s : State) (a : Act) : Option State :=
  match a.embedder, a.slot with
  | some t, _ => s.nextEmbed t a
  | none, some k => s.nextServe k a
  | none, none => s.nextAccept a

theorem nextEmbed_step {s s' : State} {t : Nat} {a : Act} (ha : a.embedder = some t)
    (h : s.nextEmbed t a = some s') : Step s a s' := by
  unfold State.nextEmbed at h
  split at h
  · next ht => cases ha; cases h; exact .change ht
  · next ht => cases ha; cases h; exact .notify ht
  · next ht =>
      cases ha
      split at h
      · next hm => cases h; exact .lockConns ht hm
      · cases h
  · next i t' ht =>
      cases ha
      split at h
      · next hlt =>
          have hti : s.embed t = .scan (⟨i, hlt⟩ : Fin maxConns) := ht
          split at h
          · next hk =>
              cases h
              exact .scanSkip hti fun cl hcl => by rw [hk] at hcl; cases hcl
          · next cl hk =>
              split at h
              · next hi =>
                  split at h
                  · next hb => cases h; exact .scanTake hti hk hi hb
                  · next hb => cases h; exact .scanBusy hti hk hi hb
              · next hi =>
                  cases h
                  refine .scanSkip hti fun cl' hcl' => ?_
                  rw [hk] at hcl'
                  cases hcl'
                  simpa using hi
      · split at h
        · next he => cases h; subst he; exact .scanDone ht
        · cases h
  · next k t' ok ht =>
      cases ha
      split at h
      · cases h
      · next cl hk =>
          split at h
          · next hok => cases h; exact .notifyWrite ht hk hok
          · cases h
  · cases h

theorem nextServe_step {s s' : State} {k : Fin maxConns} {a : Act} (ha : a.slot = some k)
    (h : s.nextServe k a = some s') : Step s a s' := by
  unfold State.nextServe at h
  split at h
  · cases h
  · next cl hk =>
      split at h
      · next hp => cases ha; cases h; exact .recv hk hp
      · next hp => cases ha; cases h; exact .handler hk hp
      · next hp =>
          cases ha
          split at h
          · next hm => cases h; exact .lockWrite hk hp hm
          · cases h
      · next hp =>
          cases ha
          split at h
          · next hok => cases h; exact .write hk hp hok
          · cases h
      · next hp =>
          cases ha
          split at h
          · next hm => cases h; exact .unwind hk hp hm
          · cases h
      · cases ha
        obtain ⟨⟨pc, mark⟩, hd, rfl⟩ := Option.map_eq_some_iff.mp h
        exact .dispatch hk hd
      · cases h

theorem nextAccept_step {s s' : State} {a : Act} (h : s.nextAccept a = some s') :
    Step s a s' := by
  unfold State.nextAccept at h
  split at h
  · next started =>
      split at h
      · next hm =>
          split at h
          · next hk => cases h; exact .accepted hm hk
          · next hno =>
              cases h
              refine .rejected hm ?_
              cases hf : s.clients.firstFree with
              | none => exact Or.inl rfl
              | some k =>
                  refine Or.inr (Bool.not_eq_true _ ▸ fun he => ?_)
                  exact hno k hf he
      · cases h
  · cases h

/-- `State.next` only takes steps. -/
theorem next_step {s s' : State} {a : Act} (h : s.next a = some s') : Step s a s' := by
  unfold State.next at h
  split at h
  · next ha => exact nextEmbed_step ha h
  · next ha => exact nextServe_step ha h
  · exact nextAccept_step h

/-- Labels the server can follow from a start lead to a reachable state. -/
theorem reach_of_follow {printText : Json → CStr} {r : Registry} {as : List Act} {s : State}
    (h : follow State.next (start printText r) as = some s) : Reach server s :=
  ⟨_, _, ⟨printText, r, rfl⟩, run_of_follow (fun _ _ _ => next_step) as h, fun _ _ => trivial⟩

end DisplayxrMcp.Server
