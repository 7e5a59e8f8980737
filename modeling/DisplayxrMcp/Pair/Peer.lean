/-
  The server at the other end of one of the aggregator's connections
  (src/mcp_server.c, "MCP protocol methods", "Per-connection serve loop").

  One serve thread and the embedder's changes to the registry. `inbox` is what
  has been written to the server and not read, `outbox` what it has written and
  the aggregator has not read. The serve thread goes through `onFrame` and
  `dispatchStep` of the server's model. Every change that has to be announced is
  announced, later, to a connection that is initialized by then: `owed` counts
  the announcements to come.

  The server prints whatever its tools give it; `cJSON_Parse` at the other end
  refuses a text that nests deeper than `CJSON_NESTING_LIMIT` (`Frame.inbound`). A
  request nests no deeper than the agent's frame it comes from, which was parsed.

  `answers` of a frame, `serving` and `told` are proof-only: the request a frame
  answers, the request being served, and what the connection's handshake is told.
-/
import DisplayxrMcp.Cjson.Nesting
import DisplayxrMcp.Server.System

namespace DisplayxrMcp.Pair

open Lib Cjson Server

inductive AskKind where
  | hello
  | list
  | other
  deriving DecidableEq

/-- A request, by the id its answer will carry. -/
structure Ask where
  kind : AskKind
  id : Json
  deriving DecidableEq

/-- A frame of the server, with the tree its text denotes. -/
structure Frame where
  answers : Option Ask
  body : Json
  deriving DecidableEq

/-- What the aggregator makes of it. -/
def Frame.inbound (f : Frame) : Inbound :=
  if f.body.nesting ≤ nestingLimit then .msg f.body else .junk

/-- It is what `cJSON_Parse` makes of the printed reply. -/
theorem Frame.inbound_parse {levels : Nat} {j : Json} (h : Carried levels j)
    (answers : Option Ask) :
    (Frame.mk answers j.reparse).inbound = match parse j.text with
      | .ok j' => .msg j'
      | .error _ => .junk := by
  rw [parse_nesting h, Frame.inbound, Json.nesting_reparse]
  split <;> rfl

theorem Frame.inbound_cases (f : Frame) : f.inbound = .msg f.body ∨ f.inbound = .junk := by
  unfold Frame.inbound
  split
  · exact Or.inl rfl
  · exact Or.inr rfl

/-- The frame is the reply to a `tools/list`. -/
def Frame.isList (f : Frame) : Bool := decide (f.answers.map Ask.kind = some .list)

/-- What the server tells the handshake: the app id in its `initialize` reply, the snapshot and
    the app id of its first `tools/list` reply, and whether that reply has been written. -/
structure Told where
  helloId : CStr
  tools : Option (List Json)
  listId : Option CStr
  listed : Bool

def Told.start : Told := ⟨[], none, none, false⟩

structure Peer where
  printText : Json → CStr
  registry : Registry
  pc : ServePc
  serving : Option Ask
  initialized : Bool
  owed : Nat
  told : Told
  inbox : List Json
  outbox : List Frame

/-- The registry's tools as a reader of `tools/list` gets them. -/
def surface (r : Registry) : List Json := (buildToolsList r).map Json.reparse

/-- The request in a frame: an answer will be written for it. -/
def askOf (req : Json) : Option Ask :=
  match handleRequest req with
  | .hello id => some ⟨.hello, id.reparse⟩
  | .listTools id => some ⟨.list, id.reparse⟩
  | .findTool id _ _ => some ⟨.other, id.reparse⟩
  | .reply _ body => (idOf body).map fun id => ⟨.other, id.reparse⟩
  | _ => none

/-- What the handshake is told by the next locked section. -/
def Told.hear (told : Told) (r : Registry) : ServePc → Told
  | .hello _ => { told with helloId := r.appId }
  | .listTools _ => if told.listed then told else { told with tools := some (surface r) }
  | .listAppId _ _ => if told.listed then told else { told with listId := some r.appId }
  | _ => told

inductive PeerAct where
  | change (op : Change)
  | notify
  | recv
  | dispatch
  | handler (inner : Option Json)
  | answer

/-- The announcement, to an initialized connection. -/
def announcement (initialized : Bool) : List Frame :=
  if initialized then [⟨none, listChanged.reparse⟩] else []

inductive Peer.Step : Peer → PeerAct → Peer → Prop where
  | change {p op} :
      Step p (.change op) { p with
        registry := (op.apply p.registry).1
        owed := if (op.apply p.registry).2 then p.owed + 1 else p.owed }
  | notify {p n} (ho : p.owed = n + 1) :
      Step p .notify { p with owed := n, outbox := p.outbox ++ announcement p.initialized }
  | recv {p req rest} (hp : p.pc = .read) (hi : p.inbox = req :: rest) :
      Step p .recv { p with pc := handleRequest req, serving := askOf req, inbox := rest }
  | dispatch {p pc mark} (hp : dispatchStep p.registry p.pc = some (pc, mark)) :
      Step p .dispatch { p with
        pc := pc
        initialized := p.initialized || mark
        told := p.told.hear p.registry p.pc }
  | handler {p id tool args inner} (hp : p.pc = .call id tool args) :
      Step p (.handler inner) { p with pc := .reply .other (handlerReply p.printText id inner) }
  | answer {p kind body} (hp : p.pc = .reply kind body) :
      Step p .answer { p with
        pc := .read
        serving := none
        outbox := p.outbox ++ [⟨p.serving, body.reparse⟩]
        told := if p.serving.map Ask.kind = some .list then { p.told with listed := true }
          else p.told }

/-- A server nothing has been written to. -/
def Peer.start (printText : Json → CStr) (r : Registry) : Peer where
  printText := printText
  registry := r
  pc := .read
  serving := none
  initialized := false
  owed := 0
  told := .start
  inbox := []
  outbox := []

/-- The state a label leads to. -/
def Peer.next (p : Peer) : PeerAct → Option Peer
  | .change op => some { p with
      registry := (op.apply p.registry).1
      owed := if (op.apply p.registry).2 then p.owed + 1 else p.owed }
  | .notify => match p.owed with
    | 0 => none
    | n + 1 => some { p with owed := n, outbox := p.outbox ++ announcement p.initialized }
  | .recv => match p.pc, p.inbox with
    | .read, req :: rest =>
        some { p with pc := handleRequest req, serving := askOf req, inbox := rest }
    | _, _ => none
  | .dispatch => (dispatchStep p.registry p.pc).map fun r => { p with
      pc := r.1
      initialized := p.initialized || r.2
      told := p.told.hear p.registry p.pc }
  | .handler inner => match p.pc with
    | .call id _ _ => some { p with pc := .reply .other (handlerReply p.printText id inner) }
    | _ => none
  | .answer => match p.pc with
    | .reply _ body => some { p with
        pc := .read
        serving := none
        outbox := p.outbox ++ [⟨p.serving, body.reparse⟩]
        told := if p.serving.map Ask.kind = some .list then { p.told with listed := true }
          else p.told }
    | _ => none

theorem Peer.next_step {p p' : Peer} {a : PeerAct} (h : p.next a = some p') : p.Step a p' := by
  cases a with
  | change op => cases h; exact .change
  | notify =>
      simp only [Peer.next] at h
      split at h
      · cases h
      · next n ho => cases h; exact .notify ho
  | recv =>
      simp only [Peer.next] at h
      split at h
      · next req rest hp hi => cases h; exact .recv hp hi
      · cases h
  | dispatch =>
      obtain ⟨⟨pc, mark⟩, hd, rfl⟩ := Option.map_eq_some_iff.mp h
      exact .dispatch hd
  | handler inner =>
      simp only [Peer.next] at h
      split at h
      · next hp => cases h; exact .handler hp
      · cases h
  | answer =>
      simp only [Peer.next] at h
      split at h
      · next hp => cases h; exact .answer hp
      · cases h

/-! ## Requests on their way -/

/-- The requests not yet answered towards the aggregator's reader, oldest first. -/
def Peer.asks (p : Peer) : List Ask :=
  p.outbox.filterMap Frame.answers ++ p.serving.toList ++ p.inbox.filterMap askOf

/-- What can stand in an answer. -/
def Ask.Answer (a : Ask) (body : Json) : Prop :=
  (idOf body).map Json.reparse = some a.id ∧ match a.kind with
    | .hello => ∃ id version appId, body = jsonrpcResult id (Server.initializeResult version appId)
    | .list => ∃ id tools r, body = jsonrpcResult id (toolsListResult tools (Registry.appId r))
    | .other => True

/-- The serve thread is at `pc` of serving the request. -/
def Serves : ServePc → Option Ask → Prop
  | .read, o | .closing, o => o = none
  | .hello id, o | .markInitialized id _, o => o = some ⟨.hello, id.reparse⟩
  | .listTools id, o | .listAppId id _, o => o = some ⟨.list, id.reparse⟩
  | .findTool id _ _, o | .call id _ _, o => o = some ⟨.other, id.reparse⟩
  | .reply _ body, o => ∃ a, o = some a ∧ a.Answer body
  | .write _ _, _ => False

/-- An answer to the request it is for, or an announcement. -/
def Frame.Ok (f : Frame) : Prop :=
  match f.answers with
  | some a => ∃ body, a.Answer body ∧ f.body = body.reparse
  | none => f.body = listChanged.reparse

/-- What is refused is an answer. -/
theorem Frame.Ok.refused {f : Frame} (h : f.Ok) (hj : f.inbound = .junk) :
    ∃ a, f.answers = some a := by
  cases ha : f.answers with
  | some a => exact ⟨a, rfl⟩
  | none =>
      have hbody : f.body = listChanged.reparse := by
        simpa only [Frame.Ok, ha] using h
      rw [Frame.inbound, hbody, if_pos (by decide)] at hj
      cases hj

/-- The server serves what it has read, writes answers and announcements, and is initialized
    when its reply to `initialize` is made. -/
structure Peer.Ok (p : Peer) : Prop where
  serves : Serves p.pc p.serving
  frames : ∀ f ∈ p.outbox, f.Ok
  greets : ∀ kind body, p.pc = .reply kind body → p.serving.map Ask.kind = some .hello →
    p.initialized = true
  greeted : ∀ f ∈ p.outbox, f.answers.map Ask.kind = some .hello → p.initialized = true

@[simp] theorem idOf_jsonrpcResult (id result : Json) : idOf (jsonrpcResult id result) = some id :=
  idOf_resultReply id _

/-- The result of a reply that the aggregator reads. -/
theorem result_reply (id result : Json) :
    (jsonrpcResult id result).reparse.getObjectItemCaseSensitive (ascii "result") =
      some result.reparse := by
  have hrpc : ¬ ascii "jsonrpc" = ascii "result" := by decide
  have hid : ¬ ascii "id" = ascii "result" := by decide
  rw [Json.getObjectItem_reparse]
  simp [jsonrpcResult, resultReply, envelope, Json.getObjectItem_obj_cons, hrpc, hid]

@[simp] theorem idOf_jsonrpcError (id : Json) (code : ℤ) (message : String) :
    idOf (jsonrpcError (some id) code message) = some id := idOf_errorReply id code message

theorem idOf_handlerReply (printText : Json → CStr) (id : Json) (inner : Option Json) :
    idOf (handlerReply printText id inner) = some id := by
  cases inner with
  | none => exact idOf_jsonrpcError id _ _
  | some inner => exact idOf_jsonrpcResult id _

/-- A reply `handle_request` gives at once carries the request's id. -/
theorem handleRequest_reply {req : Json} {kind : FrameKind} {body : Json}
    (h : handleRequest req = .reply kind body) : ∃ id, idOf body = some id := by
  unfold handleRequest at h
  dsimp only at h
  split at h
  · cases h
  · cases h
    exact ⟨_, idOf_jsonrpcError _ _ _⟩
  · cases h
  · split at h
    · cases h
    · split at h
      · cases h
        exact ⟨_, idOf_jsonrpcResult _ _⟩
      · split at h
        · cases h
        · split at h
          · split at h
            · cases h
              exact ⟨_, idOf_jsonrpcError _ _ _⟩
            · cases h
          · cases h
            exact ⟨_, idOf_jsonrpcError _ _ _⟩

/-- A request read is served. -/
theorem serves_handleRequest (req : Json) : Serves (handleRequest req) (askOf req) := by
  cases hr : handleRequest req with
  | read => rw [askOf, hr]; rfl
  | hello id => rw [askOf, hr]; rfl
  | listTools id => rw [askOf, hr]; rfl
  | findTool id name args => rw [askOf, hr]; rfl
  | reply kind body =>
      obtain ⟨id, hid⟩ := handleRequest_reply hr
      rw [askOf, hr]
      dsimp only
      rw [hid]
      exact ⟨⟨.other, id.reparse⟩, rfl, by rw [hid]; rfl, trivial⟩
  | _ =>
      unfold handleRequest at hr
      dsimp only at hr
      repeat (split at hr <;> try cases hr)

/-- A locked section goes on serving the same request. -/
theorem serves_dispatch {r : Registry} {pc pc' : ServePc} {mark : Bool} {o : Option Ask}
    (hd : dispatchStep r pc = some (pc', mark)) (h : Serves pc o) : Serves pc' o := by
  cases pc with
  | hello id => cases hd; exact h
  | markInitialized id appId =>
      cases hd
      exact ⟨_, h, by rw [idOf_jsonrpcResult]; rfl, _, _, _, rfl⟩
  | listTools id => cases hd; exact h
  | listAppId id tools =>
      cases hd
      exact ⟨_, h, by rw [idOf_jsonrpcResult]; rfl, _, _, _, rfl⟩
  | findTool id name args =>
      simp only [dispatchStep] at hd
      split at hd
      · cases hd
        exact ⟨_, h, by rw [idOf_jsonrpcError]; rfl, trivial⟩
      · cases hd
        exact h
  | _ => cases hd

theorem announcement_answers (b : Bool) : (announcement b).filterMap Frame.answers = [] := by
  cases b <;> rfl

theorem announcement_ok {b : Bool} {f : Frame} (h : f ∈ announcement b) : f.Ok := by
  cases b with
  | false => cases h
  | true =>
      rw [List.mem_singleton.mp h]
      rfl

/-- A request is answered at once only when it is of no other kind. -/
theorem askOf_reply {req : Json} {kind : FrameKind} {body : Json}
    (h : handleRequest req = .reply kind body) : (askOf req).map Ask.kind ≠ some .hello := by
  obtain ⟨id, hid⟩ := handleRequest_reply h
  simp [askOf, h, hid]

/-- The reply to `initialize` is made in the section that marks the client. -/
theorem dispatch_greets {r : Registry} {pc : ServePc} {mark : Bool} {kind : FrameKind} {body : Json}
    {o : Option Ask} (hd : dispatchStep r pc = some (.reply kind body, mark)) (h : Serves pc o)
    (ho : o.map Ask.kind = some .hello) : mark = true := by
  cases pc with
  | markInitialized id appId => cases hd; rfl
  | listAppId id tools =>
      rw [show o = some ⟨.list, id.reparse⟩ from h] at ho
      cases ho
  | findTool id name args =>
      rw [show o = some ⟨.other, id.reparse⟩ from h] at ho
      cases ho
  | _ => cases hd

theorem Peer.Step.ok {p p' : Peer} {a : PeerAct} (hst : p.Step a p') (h : p.Ok) : p'.Ok := by
  cases hst with
  | change => exact ⟨h.serves, h.frames, h.greets, h.greeted⟩
  | notify ho =>
      refine ⟨h.serves, fun f hf => ?_, h.greets, fun f hf hk => ?_⟩
      · rcases List.mem_append.mp hf with hf | hf
        · exact h.frames f hf
        · exact announcement_ok hf
      · rcases List.mem_append.mp hf with hf | hf
        · exact h.greeted f hf hk
        · by_contra hi
          rw [Bool.not_eq_true] at hi
          rw [show p.initialized = false from hi] at hf
          cases hf
  | recv hp hi =>
      refine ⟨serves_handleRequest _, h.frames, fun kind body hr hk => ?_, h.greeted⟩
      exact absurd hk (askOf_reply hr)
  | @dispatch pc mark hp =>
      refine ⟨serves_dispatch hp h.serves, h.frames, fun kind body hr hk => ?_, fun f hf hk => ?_⟩
      · change pc = ServePc.reply kind body at hr
        rw [hr] at hp
        show (p.initialized || mark) = true
        rw [dispatch_greets hp h.serves hk, Bool.or_true]
      · show (p.initialized || _) = true
        rw [h.greeted f hf hk]
        rfl
  | handler hp =>
      have hs := h.serves
      rw [hp] at hs
      refine ⟨⟨_, hs, ?_, trivial⟩, h.frames, fun kind body _ hk => ?_, h.greeted⟩
      · rw [idOf_handlerReply]
        rfl
      · rw [show p.serving = some _ from hs] at hk
        cases hk
  | answer hp =>
      have hs := h.serves
      rw [hp] at hs
      obtain ⟨a, ha, hans⟩ := hs
      refine ⟨rfl, fun f hf => ?_, fun kind body hr => (by cases hr), fun f hf hk => ?_⟩
      · rcases List.mem_append.mp hf with hf | hf
        · exact h.frames f hf
        · rw [List.mem_singleton.mp hf, Frame.Ok, ha]
          exact ⟨_, hans, rfl⟩
      · rcases List.mem_append.mp hf with hf | hf
        · exact h.greeted f hf hk
        · rw [List.mem_singleton.mp hf] at hk
          exact h.greets _ _ hp hk

theorem Peer.start_ok (printText : Json → CStr) (r : Registry) : (Peer.start printText r).Ok := by
  refine ⟨rfl, ?_, ?_, ?_⟩
  · intro f hf; cases hf
  · intro kind body h; cases h
  · intro f hf; cases hf

/-- Nothing makes an initialized connection uninitialized. -/
theorem Peer.Step.initialized {p p' : Peer} {a : PeerAct} (hst : p.Step a p')
    (h : p.initialized = true) : p'.initialized = true := by
  cases hst with
  | dispatch hp =>
      show (p.initialized || _) = true
      rw [h]
      rfl
  | _ => exact h

/-- No step of the server loses, adds or reorders requests. -/
theorem Peer.Step.asks {p p' : Peer} {a : PeerAct} (hst : p.Step a p') (h : p.Ok) :
    p'.asks = p.asks := by
  cases hst with
  | change => rfl
  | notify ho => simp [Peer.asks, announcement_answers]
  | recv hp hi =>
      have hs := h.serves
      rw [hp] at hs
      simp only [Peer.asks, hi, show p.serving = none from hs]
      cases hask : askOf _ <;> simp [hask]
  | dispatch hp => rfl
  | handler hp => rfl
  | answer hp =>
      have hs := h.serves
      rw [hp] at hs
      obtain ⟨a, ha, -⟩ := hs
      simp [Peer.asks, ha]

end DisplayxrMcp.Pair
