/-
  One reply for each request (src/mcp_server.c, serve and handle_request).

  `exchanges` is what a serve loop has read so far, each frame with what the tool
  handler returned for it when one was called. `Disciplined` compares it with the
  reply frames on the connection, notifications aside. The reply is read back
  from its text, so an id, or a handler's value, whose numbers cJSON does not
  print back comes out as another one; `reply_discipline` says that this is all
  that can go wrong.
-/
import DisplayxrMcp.Aggregator.Exec
import DisplayxrMcp.Cjson.Members
import DisplayxrMcp.Server.Handshake
import DisplayxrMcp.Server.Wire
import Mathlib.Data.List.ModifyLast

namespace DisplayxrMcp.Server

open Lib Cjson Lts

/-! ## Requests and replies -/

/-- A frame read by a serve loop, and what the handler returned if the frame called one. -/
structure Exchange where
  frame : Inbound
  outcome : Option (Option Json)

/-- The exchanges of connection `c` after one more step. -/
def Exchange.next (c : ConnId) (es : List Exchange) (p : State × Act) : List Exchange :=
  match p.2 with
  | .recv k f => if (p.1.clients k).map Client.conn = some c then es ++ [⟨f, none⟩] else es
  | .handler k inner =>
      if (p.1.clients k).map Client.conn = some c then
        es.modifyLast fun e => { e with outcome := some inner }
      else es
  | _ => es

/-- The exchanges of connection `c` in a run. -/
def exchanges (c : ConnId) (tr : List (State × Act)) : List Exchange :=
  tr.foldl (Exchange.next c) []

/-- Whether a frame is to be replied to: text that does not parse, or an object with an id. -/
def Exchange.owes (e : Exchange) : Bool :=
  match e.frame with
  | .eof => false
  | .junk => true
  | .msg j => (idOf j).isSome

/-- The exchanges that are owed a reply. -/
def owed (c : ConnId) (tr : List (State × Act)) : List Exchange :=
  (exchanges c tr).filter Exchange.owes

/-- The reply frames on connection `c`. -/
def replies (c : ConnId) (s : State) : List Json :=
  (s.sent.filter fun f => decide (f.conn = c ∧ f.kind ≠ .changed)).map SentFrame.body

/-- The `method` of a request. -/
def methodOf (j : Json) : Option CStr :=
  Json.string? (j.getObjectItemCaseSensitive (ascii "method"))

/-- The first `isError` member is true. -/
def flagged (j : Json) : Prop := j.getObjectItemCaseSensitive (ascii "isError") = some (.bool true)

/-- The parse error: no id, no result, one error of code -32700. -/
def IsParseError (r : Json) : Prop :=
  r.membersNamed (ascii "id") = [] ∧ r.membersNamed (ascii "result") = [] ∧
    ∃ err, r.membersNamed (ascii "error") = [err] ∧
      err.getObjectItemCaseSensitive (ascii "code") = some (.num (.fin (-32700)))

/-- The reply to a tool call: a result around what the handler returned, if it did. -/
def ReportsCall (outcome : Option (Option Json)) (r : Json) : Prop :=
  match outcome with
  | some (some inner) => ∃ res, r.membersNamed (ascii "result") = [res] ∧
      (flagged res ↔ flagged inner) ∧ res.getObjectItemCaseSensitive (ascii "structured") = some inner
  | _ => r.membersNamed (ascii "result") = []

/-- The reply to request `j`: its id, one of result and error, and for a tool call the outcome. -/
structure AnswersRequest (j : Json) (outcome : Option (Option Json)) (r : Json) : Prop where
  id : r.membersNamed (ascii "id") = (idOf j).toList
  one : (r.membersNamed (ascii "result")).length + (r.membersNamed (ascii "error")).length = 1
  call : methodOf j = some (ascii "tools/call") → ReportsCall outcome r

/-- `r` is the reply to the exchange. -/
def Answers (e : Exchange) (r : Json) : Prop :=
  match e.frame with
  | .eof => False
  | .junk => IsParseError r
  | .msg j => AnswersRequest j e.outcome r

/-- The numbers of the id, and of what the handler returned, are printed back. -/
def Survives (e : Exchange) : Prop :=
  match e.frame with
  | .msg j => (∀ id ∈ idOf j, id.reparse = id) ∧ ∀ r ∈ e.outcome, ∀ inner ∈ r, inner.reparse = inner
  | _ => True

instance (e : Exchange) : Decidable (Survives e) := by
  unfold Survives
  split <;> infer_instance

/-- The serve loop of connection `c` stands at `pc`. -/
def At (s : State) (c : ConnId) (pc : ServePc) : Prop :=
  ∃ k cl, s.clients k = some cl ∧ cl.conn = c ∧ cl.pc = pc

/-- The serve loop of connection `c` is between a read and the end of the write. -/
def AtWork (s : State) (c : ConnId) : Prop := ∃ pc, At s c pc ∧ pc ≠ .read ∧ pc ≠ .closing

/-- The replies are those to the frames read, one each and in order, but for the frame the loop
    is at work on. -/
structure Disciplined (c : ConnId) (tr : List (State × Act)) (s : State) : Prop where
  answered : List.Forall₂ Answers ((owed c tr).take (replies c s).length) (replies c s)
  idle : ¬ AtWork s c → (owed c tr).length = (replies c s).length
  working : AtWork s c → (owed c tr).length = (replies c s).length + 1

/-- The serve loop of connection `c` does not fail to write. -/
def WritesOk (c : ConnId) (s : State) (a : Act) : Prop :=
  match a with
  | .write k ok => (s.clients k).map Client.conn = some c → ok = true
  | _ => True

instance (c : ConnId) (s : State) (a : Act) : Decidable (WritesOk c s a) := by
  unfold WritesOk
  split <;> infer_instance

/-! ## Reply bodies -/

/-- What a serve loop writes for an exchange. -/
inductive BodyFor : Exchange → Json → Prop where
  | junk {o} : BodyFor ⟨.junk, o⟩ (jsonrpcError none (-32700) "parse error")
  | error {j id o code message} (hid : idOf j = some id) (ho : ∀ inner, o ≠ some (some inner)) :
      BodyFor ⟨.msg j, o⟩ (jsonrpcError (some id) code message)
  | result {j id res} (hid : idOf j = some id) (hm : methodOf j ≠ some (ascii "tools/call")) :
      BodyFor ⟨.msg j, none⟩ (jsonrpcResult id res)
  | call {j id inner printed} (hid : idOf j = some id)
      (hm : methodOf j = some (ascii "tools/call")) :
      BodyFor ⟨.msg j, some (some inner)⟩ (jsonrpcResult id (callResult printed inner))

theorem membersNamed_error (id : Option Json) (code : ℤ) (message : String) :
    (jsonrpcError id code message).membersNamed (ascii "id") = id.toList ∧
      (jsonrpcError id code message).membersNamed (ascii "result") = [] ∧
      (jsonrpcError id code message).membersNamed (ascii "error") =
        [fields [("code", .num (.fin code)), ("message", text message)]] := by
  cases id with
  | none => exact ⟨rfl, rfl, rfl⟩
  | some id => exact ⟨rfl, rfl, rfl⟩

theorem membersNamed_result (id res : Json) :
    (jsonrpcResult id res).membersNamed (ascii "id") = [id] ∧
      (jsonrpcResult id res).membersNamed (ascii "result") = [res] ∧
      (jsonrpcResult id res).membersNamed (ascii "error") = [] :=
  ⟨rfl, rfl, rfl⟩

theorem callResult_members (printed : CStr) (inner : Json) :
    (flagged (callResult printed inner) ↔ flagged inner) ∧
      (callResult printed inner).getObjectItemCaseSensitive (ascii "structured") = some inner := by
  unfold flagged callResult
  split
  · next hflag => exact ⟨iff_of_true rfl hflag, rfl⟩
  · next hflag => exact ⟨iff_of_false (fun h => by cases h) hflag, rfl⟩

theorem flagged_reparse (j : Json) : flagged j.reparse ↔ flagged j := by
  unfold flagged
  rw [Json.getObjectItem_reparse]
  cases j.getObjectItemCaseSensitive (ascii "isError") with
  | none => simp
  | some v =>
      cases v with
      | num d => cases d <;> simp [Json.reparse]
      | null => simp
      | bool b => simp
      | str s => simp
      | arr l => simp
      | obj ms => simp

/-- The text of an error reply, read back. -/
theorem error_reparse (id : Option Json) (code : ℤ) (message : String) :
    (jsonrpcError id code message).reparse.membersNamed (ascii "id") =
        (id.map Json.reparse).toList ∧
      (jsonrpcError id code message).reparse.membersNamed (ascii "result") = [] ∧
      (jsonrpcError id code message).reparse.membersNamed (ascii "error") =
        [(fields [("code", .num (.fin code)), ("message", text message)]).reparse] := by
  obtain ⟨hid, hres, herr⟩ := membersNamed_error id code message
  rw [Json.membersNamed_reparse, Json.membersNamed_reparse, Json.membersNamed_reparse, hid, hres,
    herr]
  cases id with
  | none => exact ⟨rfl, rfl, rfl⟩
  | some id => exact ⟨rfl, rfl, rfl⟩

/-- The text of a result reply, read back. -/
theorem result_reparse (id res : Json) :
    (jsonrpcResult id res).reparse.membersNamed (ascii "id") = [id.reparse] ∧
      (jsonrpcResult id res).reparse.membersNamed (ascii "result") = [res.reparse] ∧
      (jsonrpcResult id res).reparse.membersNamed (ascii "error") = [] := by
  obtain ⟨hid, hres, herr⟩ := membersNamed_result id res
  rw [Json.membersNamed_reparse, Json.membersNamed_reparse, Json.membersNamed_reparse, hid, hres,
    herr]
  exact ⟨rfl, rfl, rfl⟩

theorem parseError_reparse :
    IsParseError (jsonrpcError none (-32700) "parse error").reparse := by
  obtain ⟨hid, hres, herr⟩ := error_reparse none (-32700) "parse error"
  refine ⟨hid, hres, _, herr, ?_⟩
  decide +kernel

/-- The id in a reply is the request's exactly when it is printed back. -/
theorem sameId_iff {j id r : Json} (hid : idOf j = some id)
    (hr : r.membersNamed (ascii "id") = [id.reparse]) :
    r.membersNamed (ascii "id") = (idOf j).toList ↔ ∀ id' ∈ idOf j, id'.reparse = id' := by
  rw [hr, hid]
  constructor
  · rintro h id' hid'
    cases hid'
    exact List.head_eq_of_cons_eq h
  · intro h
    rw [h id rfl]
    rfl

/-- What is read back of a reply is the answer exactly when the numbers that go into it
    survive. -/
theorem BodyFor.answers_iff {e : Exchange} {body : Json} (h : BodyFor e body) :
    Answers e body.reparse ↔ Survives e := by
  cases h with
  | junk => exact iff_of_true parseError_reparse trivial
  | @error j id o code message hid ho =>
      obtain ⟨hrid, hres, herr⟩ := error_reparse (some id) code message
      have hcall : ReportsCall o (jsonrpcError (some id) code message).reparse := by
        cases o with
        | none => exact hres
        | some r => cases r with
          | none => exact hres
          | some inner => exact absurd rfl (ho inner)
      have hnone : ∀ r ∈ o, ∀ inner ∈ r, inner.reparse = inner := by
        rintro r hr inner hinner
        rw [Option.mem_def.mp hinner] at hr
        exact absurd hr (ho inner)
      refine ⟨fun h => ⟨(sameId_iff hid hrid).mp h.id, hnone⟩, ?_⟩
      rintro ⟨hsurv, -⟩
      refine ⟨(sameId_iff hid hrid).mpr hsurv, ?_, fun _ => hcall⟩
      rw [hres, herr]
      rfl
  | @result j id res hid hm =>
      obtain ⟨hrid, hres, herr⟩ := result_reparse id res
      refine ⟨fun h => ⟨(sameId_iff hid hrid).mp h.id, fun inner he => nomatch he⟩, ?_⟩
      rintro ⟨hsurv, -⟩
      refine ⟨(sameId_iff hid hrid).mpr hsurv, ?_, fun hcall => absurd hcall hm⟩
      rw [hres, herr]
      rfl
  | @call j id inner printed hid hm =>
      obtain ⟨hrid, hres, herr⟩ := result_reparse id (callResult printed inner)
      obtain ⟨hflag, hstruct⟩ := callResult_members printed inner
      have hback : (callResult printed inner).reparse.getObjectItemCaseSensitive
          (ascii "structured") = some inner.reparse := by
        rw [Json.getObjectItem_reparse, hstruct]
        rfl
      constructor
      · intro h
        refine ⟨(sameId_iff hid hrid).mp h.id, ?_⟩
        rintro r hr inner' hinner
        cases hr
        cases hinner
        obtain ⟨res, hone, -, hkept⟩ := h.call hm
        rw [hres] at hone
        cases hone
        exact Option.some.inj (hback.symm.trans hkept)
      · rintro ⟨hsurv, hinner⟩
        refine ⟨(sameId_iff hid hrid).mpr hsurv, ?_, fun _ => ⟨_, hres, ?_, ?_⟩⟩
        · rw [hres, herr]
          rfl
        · rw [flagged_reparse, hflag]
        · rw [hback, hinner _ rfl inner rfl]

/-! ## The loop at work -/

/-- What a point of the loop knows of the exchange it is at work on. -/
inductive Working : Exchange → ServePc → Prop where
  | hello {j id} (hid : idOf j = some id) (hm : methodOf j ≠ some (ascii "tools/call")) :
      Working ⟨.msg j, none⟩ (.hello id)
  | marking {j id appId} (hid : idOf j = some id)
      (hm : methodOf j ≠ some (ascii "tools/call")) :
      Working ⟨.msg j, none⟩ (.markInitialized id appId)
  | listing {j id} (hid : idOf j = some id) (hm : methodOf j ≠ some (ascii "tools/call")) :
      Working ⟨.msg j, none⟩ (.listTools id)
  | listed {j id tools} (hid : idOf j = some id)
      (hm : methodOf j ≠ some (ascii "tools/call")) :
      Working ⟨.msg j, none⟩ (.listAppId id tools)
  | finding {j id name args} (hid : idOf j = some id)
      (hm : methodOf j = some (ascii "tools/call")) :
      Working ⟨.msg j, none⟩ (.findTool id name args)
  | calling {j id tool args} (hid : idOf j = some id)
      (hm : methodOf j = some (ascii "tools/call")) :
      Working ⟨.msg j, none⟩ (.call id tool args)
  | reply {e kind body} (hb : BodyFor e body) (hk : kind ≠ .changed) :
      Working e (.reply kind body)
  | write {e kind body} (hb : BodyFor e body) (hk : kind ≠ .changed) :
      Working e (.write kind body)

/-- A call that has not been made, or returned NULL, has no value. -/
theorem outcome_ne {r : Option (Option Json)} (h : r = none ∨ r = some none) (inner : Json) :
    r ≠ some (some inner) := by
  rcases h with rfl | rfl
  · intro he
    cases he
  · intro he
    cases he

theorem other_ne_changed : FrameKind.other ≠ .changed := by decide

theorem hello_ne_changed : FrameKind.hello ≠ .changed := by decide

theorem Working.busy {e : Exchange} {pc : ServePc} (h : Working e pc) :
    pc ≠ .read ∧ pc ≠ .closing := by
  constructor
  · rintro rfl
    cases h
  · rintro rfl
    cases h

/-- The first point of the loop on a frame. -/
theorem working_handleRequest {j id : Json} (hid : idOf j = some id) :
    Working ⟨.msg j, none⟩ (handleRequest j) := by
  have hno := outcome_ne (Or.inl rfl)
  have hne : ascii "initialize" ≠ ascii "tools/call" ∧ ascii "ping" ≠ ascii "tools/call" ∧
      ascii "tools/list" ≠ ascii "tools/call" := by decide
  unfold handleRequest
  dsimp only
  split
  · next hid' => cases hid.symm.trans hid'
  · next id' _ hid' =>
      cases hid.symm.trans hid'
      exact .reply (.error hid hno) other_ne_changed
  · next hid' => cases hid.symm.trans hid'
  · next method id' hm hid' =>
      cases hid.symm.trans hid'
      have hother : method ≠ ascii "tools/call" → methodOf j ≠ some (ascii "tools/call") := by
        intro hne he
        exact hne (Option.some.inj (hm.symm.trans he))
      split
      · next h => exact .hello hid (hother (h.trans_ne hne.1))
      · split
        · next h => exact .reply (.result hid (hother (h.trans_ne hne.2.1))) other_ne_changed
        · split
          · next h => exact .listing hid (hother (h.trans_ne hne.2.2))
          · split
            · next h =>
                split
                · exact .reply (.error hid hno) other_ne_changed
                · exact .finding hid (hm.trans (congrArg some h))
            · exact .reply (.error hid hno) other_ne_changed

theorem working_onFrame {f : Inbound} (h : (Exchange.mk f none).owes = true) :
    Working ⟨f, none⟩ (onFrame f) := by
  cases f with
  | eof => cases h
  | junk => exact .reply .junk other_ne_changed
  | msg j =>
      obtain ⟨id, hid⟩ := Option.isSome_iff_exists.mp h
      exact working_handleRequest hid

/-- A frame that is owed nothing leaves the loop reading, or ends it. -/
theorem onFrame_unowed {f : Inbound} (h : (Exchange.mk f none).owes = false) :
    onFrame f = .read ∨ onFrame f = .closing := by
  cases f with
  | eof => exact Or.inr rfl
  | junk => cases h
  | msg j =>
      have hid : idOf j = none := Option.isNone_iff_eq_none.mp (Option.isSome_eq_false_iff.mp h)
      refine Or.inl ?_
      change handleRequest j = .read
      unfold handleRequest
      dsimp only
      rw [hid]
      split
      · rfl
      · next hid' => cases hid'
      · rfl
      · next hid' => cases hid'

theorem Working.dispatch {e : Exchange} {r : Registry} {pc pc' : ServePc} {mark : Bool}
    (h : Working e pc) (hd : dispatchStep r pc = some (pc', mark)) : Working e pc' := by
  cases h with
  | hello hid hm => cases hd; exact .marking hid hm
  | marking hid hm => cases hd; exact .reply (.result hid hm) hello_ne_changed
  | listing hid hm => cases hd; exact .listed hid hm
  | listed hid hm => cases hd; exact .reply (.result hid hm) other_ne_changed
  | finding hid hm =>
      simp only [dispatchStep] at hd
      split at hd
      · cases hd; exact .reply (.error hid (outcome_ne (Or.inl rfl))) other_ne_changed
      · cases hd; exact .calling hid hm
  | calling hid hm => cases hd
  | reply hb hk => cases hd
  | write hb hk => cases hd

theorem Working.handler {e : Exchange} {id : Json} {tool : Tool} {args : Option Json}
    (h : Working e (.call id tool args)) (printText : Json → CStr) (inner : Option Json) :
    Working { e with outcome := some inner } (.reply .other (handlerReply printText id inner)) := by
  cases h with
  | calling hid hm =>
      cases inner with
      | none => exact .reply (.error hid (outcome_ne (Or.inr rfl))) other_ne_changed
      | some inner => exact .reply (.call hid hm) other_ne_changed

/-! ## Steps of a loop -/

/-- What a step does to the serve loop of connection `c`, its exchanges and its replies. -/
inductive LoopStep (c : ConnId) (s s' : State) (a : Act) : Prop where
  | other (hkeep : ∀ pc, At s c pc → pc ≠ .closing → At s' c pc)
      (hback : ∀ pc, At s' c pc → At s c pc ∨ pc = .read)
      (hes : ∀ es, Exchange.next c es (s, a) = es) (hrs : replies c s' = replies c s)
  | recv (f : Inbound) (hp : At s c .read) (hp' : At s' c (onFrame f))
      (hes : ∀ es, Exchange.next c es (s, a) = es ++ [⟨f, none⟩])
      (hrs : replies c s' = replies c s)
  | dispatch (pc pc' : ServePc) (mark : Bool) (hp : At s c pc)
      (hd : dispatchStep s.registry pc = some (pc', mark)) (hp' : At s' c pc')
      (hes : ∀ es, Exchange.next c es (s, a) = es) (hrs : replies c s' = replies c s)
  | handler (id : Json) (tool : Tool) (args inner : Option Json)
      (hp : At s c (.call id tool args))
      (hp' : At s' c (.reply .other (handlerReply s.printText id inner)))
      (hes : ∀ es, Exchange.next c es (s, a) =
        es.modifyLast fun e => { e with outcome := some inner })
      (hrs : replies c s' = replies c s)
  | lockWrite (kind : FrameKind) (body : Json) (hp : At s c (.reply kind body))
      (hp' : At s' c (.write kind body)) (hes : ∀ es, Exchange.next c es (s, a) = es)
      (hrs : replies c s' = replies c s)
  | write (kind : FrameKind) (body : Json) (ok : Bool) (hp : At s c (.write kind body))
      (hp' : At s' c (if ok then .read else .closing))
      (hes : ∀ es, Exchange.next c es (s, a) = es) (hok : WritesOk c s a → ok = true)
      (hrs : kind ≠ .changed → ok = true → replies c s' = replies c s ++ [body.reparse])

/-- A client that changes leaves the other loops, and its own if it stays where it is. -/
theorem at_setClient {s : State} {c : ConnId} {k : Fin maxConns} {cl cl' : Client}
    (hk : s.clients k = some cl) (hc : cl'.conn = cl.conn) (hpc : cl.conn = c → cl'.pc = cl.pc)
    (pc : ServePc) : At (s.setClient k cl') c pc ↔ At s c pc := by
  constructor
  · rintro ⟨j, d, hd, hdc, hdp⟩
    rcases Slots.put_some hd with ⟨rfl, rfl⟩ | hd
    · exact ⟨j, cl, hk, hc.symm.trans hdc, (hpc (hc.symm.trans hdc)).symm.trans hdp⟩
    · exact ⟨j, d, hd, hdc, hdp⟩
  · rintro ⟨j, d, hd, hdc, hdp⟩
    by_cases hj : j = k
    · subst hj
      cases hk.symm.trans hd
      exact ⟨j, cl', Slots.put_same _ _ _, hc.trans hdc, (hpc hdc).trans hdp⟩
    · exact ⟨j, d, (Slots.put_ne _ _ hj).trans hd, hdc, hdp⟩

theorem replies_append (c : ConnId) (s : State) (out : List SentFrame) :
    replies c (s.log out) = replies c s ++
      (out.filter fun f => decide (f.conn = c ∧ f.kind ≠ .changed)).map SentFrame.body := by
  rw [replies, State.log_sent, List.filter_append, List.map_append]
  rfl

/-- Notifications, and frames on other connections, are no replies. -/
theorem replies_frameIf {c conn : ConnId} {s : State} {ok : Bool} {kind : FrameKind} {body : Json}
    (h : conn = c → kind = .changed) : replies c (s.log (frameIf ok conn kind body)) = replies c s := by
  rw [replies_append]
  cases ok with
  | false => simp [frameIf]
  | true =>
      by_cases hc : conn = c
      · simp [frameIf, h hc]
      · simp [frameIf, hc]

theorem replies_reply {c : ConnId} {s : State} {kind : FrameKind} {body : Json}
    (hkind : kind ≠ .changed) :
    replies c (s.log (frameIf true c kind body)) = replies c s ++ [body.reparse] := by
  rw [replies_append]
  simp [frameIf, hkind]

/-- Labels of other loops leave the exchanges. -/
theorem exchange_next_of_ne {c : ConnId} {s : State} {a : Act}
    (h : ∀ k, a.slot = some k → (s.clients k).map Client.conn ≠ some c) (es : List Exchange) :
    Exchange.next c es (s, a) = es := by
  cases a with
  | recv k f => exact if_neg (h k rfl)
  | handler k inner => exact if_neg (h k rfl)
  | _ => rfl

/-- A step that leaves the loop where it is, and is not one of its own. -/
theorem LoopStep.of_same {c : ConnId} {s s' : State} {a : Act}
    (hat : ∀ pc, At s' c pc ↔ At s c pc)
    (hslot : ∀ k, a.slot = some k → (s.clients k).map Client.conn ≠ some c)
    (hrs : replies c s' = replies c s) : LoopStep c s s' a :=
  .other (fun pc h _ => (hat pc).mpr h) (fun pc h => Or.inl ((hat pc).mp h))
    (exchange_next_of_ne hslot) hrs

/-- A step of the serve thread of a client on another connection. -/
theorem LoopStep.of_other {c : ConnId} {s : State} {a : Act} {k : Fin maxConns} {cl cl' : Client}
    (hk : s.clients k = some cl) (hc : cl'.conn = cl.conn) (hne : cl.conn ≠ c)
    (hslot : a.slot = some k) : LoopStep c s (s.setClient k cl') a := by
  refine .of_same (at_setClient hk hc fun he => absurd he hne) ?_ rfl
  intro j hj
  cases hslot.symm.trans hj
  rw [hk]
  exact fun he => hne (Option.some.inj he)

theorem loopStep_accepted {c : ConnId} {s : State} {k : Fin maxConns}
    (hk : s.clients.firstFree = some k) : LoopStep c s
      { s.setClient k ⟨s.conns, false, .read, none, false⟩ with conns := s.conns + 1 }
      (.accept true) := by
  refine .other ?_ ?_ (fun es => rfl) rfl
  · rintro pc ⟨j, d, hd, hdc, hdp⟩ -
    have hj : j ≠ k := by
      rintro rfl
      rw [Slots.firstFree_some hk] at hd
      cases hd
    exact ⟨j, d, (Slots.put_ne _ _ hj).trans hd, hdc, hdp⟩
  · rintro pc ⟨j, d, hd, hdc, hdp⟩
    rcases Slots.put_some hd with ⟨-, rfl⟩ | hd
    · exact Or.inr hdp.symm
    · exact Or.inl ⟨j, d, hd, hdc, hdp⟩

theorem loopStep_unwind {c : ConnId} {s : State} {k : Fin maxConns} {cl : Client}
    (hk : s.clients k = some cl) (hp : cl.pc = .closing) :
    LoopStep c s { s with clients := s.clients.clear k } (.unwind k) := by
  refine .other ?_ ?_ (fun es => rfl) rfl
  · rintro pc ⟨j, d, hd, hdc, hdp⟩ hopen
    have hj : j ≠ k := by
      rintro rfl
      cases hk.symm.trans hd
      exact hopen (hdp.symm.trans hp)
    exact ⟨j, d, (Slots.clear_ne _ hj).trans hd, hdc, hdp⟩
  · rintro pc ⟨j, d, hd, hdc, hdp⟩
    exact Or.inl ⟨j, d, Slots.clear_some hd, hdc, hdp⟩

theorem loop_step {s s' : State} {a : Act} (hst : Step s a s') (c : ConnId) :
    LoopStep c s s' a := by
  have hown : ∀ {k : Fin maxConns} {cl : Client}, s.clients k = some cl → cl.conn = c →
      (s.clients k).map Client.conn = some c := by
    intro k cl hk hc
    rw [hk, ← hc]
    rfl
  cases hst with
  | accepted hm hk => exact loopStep_accepted hk
  | unwind hk hp hm => exact loopStep_unwind hk hp
  | scanTake ht hk hi hb =>
      exact .of_same (at_setClient hk rfl fun _ => rfl) (fun k h => nomatch h) rfl
  | notifyWrite ht hk hok =>
      exact .of_same (at_setClient hk rfl fun _ => rfl) (fun k h => nomatch h)
        (replies_frameIf fun _ => rfl)
  | @recv k cl f hk hp =>
      by_cases hc : cl.conn = c
      · exact .recv f ⟨k, cl, hk, hc, hp⟩ ⟨k, _, Slots.put_same _ _ _, hc, rfl⟩
          (fun es => if_pos (hown hk hc)) rfl
      · exact .of_other hk rfl hc rfl
  | @dispatch k cl pc mark hk hd =>
      by_cases hc : cl.conn = c
      · exact .dispatch cl.pc pc mark ⟨k, cl, hk, hc, rfl⟩ hd
          ⟨k, _, Slots.put_same _ _ _, hc, rfl⟩ (fun es => rfl) rfl
      · exact .of_other hk rfl hc rfl
  | @handler k cl id tool args inner hk hp =>
      by_cases hc : cl.conn = c
      · exact .handler id tool args inner ⟨k, cl, hk, hc, hp⟩
          ⟨k, _, Slots.put_same _ _ _, hc, rfl⟩ (fun es => if_pos (hown hk hc)) rfl
      · exact .of_other hk rfl hc rfl
  | @lockWrite k cl kind body hk hp hm =>
      by_cases hc : cl.conn = c
      · exact .lockWrite kind body ⟨k, cl, hk, hc, hp⟩ ⟨k, _, Slots.put_same _ _ _, hc, rfl⟩
          (fun es => rfl) rfl
      · exact .of_other hk rfl hc rfl
  | @write k cl kind body ok hk hp hok =>
      by_cases hc : cl.conn = c
      · refine .write kind body ok ⟨k, cl, hk, hc, hp⟩ ⟨k, _, Slots.put_same _ _ _, hc, rfl⟩
          (fun es => rfl) (fun hw => hw (hown hk hc)) ?_
        rintro hkind rfl
        rw [hc]
        exact replies_reply hkind
      · refine .of_same (at_setClient hk rfl fun he => absurd he hc) ?_
          (replies_frameIf fun he => absurd he hc)
        intro j hj he
        cases hj
        rw [hk] at he
        exact hc (Option.some.inj he)
  | rejected hm hk => exact .of_same (fun pc => Iff.rfl) (fun k h => nomatch h) rfl
  | change ht => exact .of_same (fun pc => Iff.rfl) (fun k h => nomatch h) rfl
  | notify ht => exact .of_same (fun pc => Iff.rfl) (fun k h => nomatch h) rfl
  | lockConns ht hm => exact .of_same (fun pc => Iff.rfl) (fun k h => nomatch h) rfl
  | scanSkip ht hk => exact .of_same (fun pc => Iff.rfl) (fun k h => nomatch h) rfl
  | scanBusy ht hk hi hb => exact .of_same (fun pc => Iff.rfl) (fun k h => nomatch h) rfl
  | scanDone ht => exact .of_same (fun pc => Iff.rfl) (fun k h => nomatch h) rfl

/-- The loop stands at one point. -/
theorem at_unique {s : State} (hs : Reach server s) {c : ConnId} {pc pc' : ServePc}
    (h : At s c pc) (h' : At s c pc') : pc' = pc := by
  obtain ⟨k, cl, hk, hc, rfl⟩ := h
  obtain ⟨k', cl', hk', hc', rfl⟩ := h'
  cases conn_once hs k k' cl cl' hk hk' (hc.trans hc'.symm)
  cases hk.symm.trans hk'
  rfl

/-! ## The loop over a run -/

/-- The text of a reply to the exchange, read back. -/
def Wrote (e : Exchange) (r : Json) : Prop := ∃ body, BodyFor e body ∧ r = body.reparse

/-- The exchanges and replies of a loop: every reply due is written, or all but the last one,
    which the loop is at work on. -/
inductive InStep (c : ConnId) (es : List Exchange) (s : State) : Prop where
  | idle (hpc : ∀ pc, At s c pc → pc = .read ∨ pc = .closing)
      (hrs : List.Forall₂ Wrote (es.filter Exchange.owes) (replies c s))
  | busy (es₀ : List Exchange) (e : Exchange) (pc : ServePc) (hes : es = es₀ ++ [e])
      (howes : e.owes = true) (hpc : At s c pc) (hw : Working e pc)
      (hrs : List.Forall₂ Wrote (es₀.filter Exchange.owes) (replies c s))

/-- A loop that is neither waiting nor closing is at work on the last exchange. -/
theorem InStep.atWork {c : ConnId} {es : List Exchange} {s : State} (h : InStep c es s)
    (hs : Reach server s) {pc : ServePc} (hp : At s c pc) (hread : pc ≠ .read)
    (hclosing : pc ≠ .closing) :
    ∃ es₀ e, es = es₀ ++ [e] ∧ e.owes = true ∧ Working e pc ∧
      List.Forall₂ Wrote (es₀.filter Exchange.owes) (replies c s) := by
  cases h with
  | idle hpc hrs =>
      rcases hpc pc hp with he | he
      · exact absurd he hread
      · exact absurd he hclosing
  | busy es₀ e pc₀ he howes hpc hw hrs =>
      rw [at_unique hs hp hpc] at hw
      exact ⟨es₀, e, he, howes, hw, hrs⟩

theorem inStep_step {c : ConnId} {s s' : State} {a : Act} (hst : LoopStep c s s' a)
    (hs : Reach server s) (hs' : Reach server s') (hok : WritesOk c s a) {es : List Exchange}
    (h : InStep c es s) : InStep c (Exchange.next c es (s, a)) s' := by
  cases hst with
  | other hkeep hback hes hrs' =>
      rw [hes]
      cases h with
      | idle hpc hrs =>
          refine .idle (fun pc hp => ?_) (hrs' ▸ hrs)
          rcases hback pc hp with hp | hp
          · exact hpc pc hp
          · exact Or.inl hp
      | busy es₀ e pc he howes hpc hw hrs =>
          exact .busy es₀ e pc he howes (hkeep pc hpc hw.busy.2) hw (hrs' ▸ hrs)
  | recv f hp hp' hes hrs' =>
      rw [hes]
      cases h with
      | idle hpc hrs =>
          cases howes : (Exchange.mk f none).owes with
          | true => exact .busy es ⟨f, none⟩ _ rfl howes hp' (working_onFrame howes) (hrs' ▸ hrs)
          | false =>
              refine .idle (fun pc hpc' => ?_) ?_
              · rw [at_unique hs' hp' hpc']
                exact onFrame_unowed howes
              · have hnone : [(⟨f, none⟩ : Exchange)].filter Exchange.owes = [] :=
                  List.filter_cons_of_neg (Bool.eq_false_iff.mp howes)
                rw [hrs', List.filter_append, hnone, List.append_nil]
                exact hrs
      | busy es₀ e pc he howes hpc hw hrs =>
          rw [at_unique hs hp hpc] at hw
          exact absurd rfl hw.busy.1
  | dispatch pc pc' mark hp hd hp' hes hrs' =>
      have hread : pc ≠ .read := by
        rintro rfl
        cases hd
      have hclosing : pc ≠ .closing := by
        rintro rfl
        cases hd
      obtain ⟨es₀, e, he, howes, hw, hrs⟩ := h.atWork hs hp hread hclosing
      rw [hes]
      exact .busy es₀ e pc' he howes hp' (hw.dispatch hd) (hrs' ▸ hrs)
  | handler id tool args inner hp hp' hes hrs' =>
      obtain ⟨es₀, e, he, howes, hw, hrs⟩ := h.atWork hs hp ServePc.noConfusion ServePc.noConfusion
      rw [hes, he, List.modifyLast_concat]
      exact .busy es₀ _ _ rfl howes hp' (hw.handler s.printText inner) (hrs' ▸ hrs)
  | lockWrite kind body hp hp' hes hrs' =>
      obtain ⟨es₀, e, he, howes, hw, hrs⟩ := h.atWork hs hp ServePc.noConfusion ServePc.noConfusion
      rw [hes]
      cases hw with
      | reply hb hk => exact .busy es₀ e _ he howes hp' (.write hb hk) (hrs' ▸ hrs)
  | write kind body ok hp hp' hes hok' hrs' =>
      obtain ⟨es₀, e, he, howes, hw, hrs⟩ := h.atWork hs hp ServePc.noConfusion ServePc.noConfusion
      rw [hes]
      cases hw with
      | write hb hk =>
          have htrue := hok' hok
          subst htrue
          refine .idle (fun pc' hpc' => Or.inl (at_unique hs' hp' hpc')) ?_
          rw [hrs' hk rfl, he, List.filter_append, List.filter_cons_of_pos howes, List.filter_nil]
          exact List.rel_append hrs (.cons ⟨body, hb, rfl⟩ .nil)

theorem exchanges_snoc (c : ConnId) (tr : List (State × Act)) (s : State) (a : Act) :
    exchanges c (tr ++ [(s, a)]) = Exchange.next c (exchanges c tr) (s, a) := by
  simp [exchanges]

theorem inStep_run {s t : State} {tr : List (State × Act)} {c : ConnId} (hi : server.init s)
    (hrun : Run server s tr t) (hw : Meets (WritesOk c) tr) : InStep c (exchanges c tr) t := by
  refine hrun.history (I := fun tr t => InStep c (exchanges c tr) t) ?_ ?_ hw
  · obtain ⟨printText, r, rfl⟩ := hi
    refine .idle ?_ .nil
    rintro pc ⟨k, cl, hk, -⟩
    cases hk
  · intro tr t a u hrun _ hok h hst
    have ht : Reach server t := ⟨s, tr, hi, hrun, fun _ _ => trivial⟩
    rw [exchanges_snoc]
    exact inStep_step (loop_step hst c) ht (ht.step trivial hst) hok h

theorem answers_wrote_iff {es : List Exchange} {rs : List Json} (h : List.Forall₂ Wrote es rs) :
    List.Forall₂ Answers es rs ↔ ∀ e ∈ es, Survives e := by
  induction h with
  | nil => simp
  | @cons e r es rs hr _ ih =>
      obtain ⟨body, hb, rfl⟩ := hr
      rw [List.forall₂_cons, hb.answers_iff, ih, List.forall_mem_cons]

/-- A loop in step is disciplined as far as the numbers it passed on survive. -/
theorem InStep.disciplined_iff {c : ConnId} {tr : List (State × Act)} {t : State}
    (h : InStep c (exchanges c tr) t) :
    Disciplined c tr t ↔ ∀ e ∈ (owed c tr).take (replies c t).length, Survives e := by
  cases h with
  | idle hpc hrs =>
      have hlen : (owed c tr).length = (replies c t).length := hrs.length_eq
      have hidle : ¬ AtWork t c := by
        rintro ⟨pc, hat, hread, hclosing⟩
        rcases hpc pc hat with rfl | rfl
        · exact hread rfl
        · exact hclosing rfl
      have hall : (owed c tr).take (replies c t).length = owed c tr :=
        List.take_of_length_le (Nat.le_of_eq hlen)
      have hanswers : List.Forall₂ Answers (owed c tr) (replies c t) ↔ ∀ e ∈ owed c tr, Survives e :=
        answers_wrote_iff hrs
      rw [hall, ← hanswers]
      exact ⟨fun h => hall ▸ h.answered, fun h =>
        ⟨hall.symm ▸ h, fun _ => hlen, fun hwork => absurd hwork hidle⟩⟩
  | busy es₀ e pc hes howes hpc hw hrs =>
      have howed : owed c tr = es₀.filter Exchange.owes ++ [e] := by
        rw [owed, hes, List.filter_append, List.filter_cons_of_pos howes, List.filter_nil]
      have hlen : (es₀.filter Exchange.owes).length = (replies c t).length := hrs.length_eq
      have hwork : AtWork t c := ⟨pc, hpc, hw.busy.1, hw.busy.2⟩
      have hall : (owed c tr).take (replies c t).length = es₀.filter Exchange.owes := by
        rw [howed]
        exact List.take_left' hlen
      rw [hall, ← answers_wrote_iff hrs]
      refine ⟨fun h => hall ▸ h.answered, fun h =>
        ⟨hall.symm ▸ h, fun hidle => absurd hwork hidle, fun _ => ?_⟩⟩
      rw [howed, List.length_append, hlen]
      rfl

/-- The replies of a serve loop whose writes succeed are those to the frames it has read, exactly
    when the ids and the handlers' values among them are printed back. -/
theorem reply_discipline {s t : State} {tr : List (State × Act)} {c : ConnId}
    (hi : server.init s) (hrun : Run server s tr t) (hw : Meets (WritesOk c) tr) :
    Disciplined c tr t ↔ ∀ e ∈ (owed c tr).take (replies c t).length, Survives e :=
  (inStep_run hi hrun hw).disciplined_iff

/-- A client pings, sends what does not parse, calls a tool that reports an error, and leaves. -/
def fullSession : List Act :=
  [.accept true, .recv 0 (.msg (request 1 "ping")), .lockWrite 0, .write 0 true, .recv 0 .junk,
    .lockWrite 0, .write 0 true, .recv 0 (.msg (callFrame 2 "zoom")), .dispatch 0,
    .handler 0 (some (fields [("isError", .bool true)])), .lockWrite 0, .write 0 true,
    .recv 0 .eof, .unwind 0]

/-- Three frames are replied to. -/
theorem reply_discipline_session : ∃ t, follow State.next
    (start (fun _ => []) (registerTool .empty zoomTool).1) fullSession = some t ∧
      Disciplined 0 (record State.next (start (fun _ => []) (registerTool .empty zoomTool).1)
        fullSession) t ∧ (replies 0 t).length = 3 := by
  have hrun : ((follow State.next (start (fun _ => []) (registerTool .empty zoomTool).1)
      fullSession).map fun t => decide ((replies 0 t).length = 3)) = some true := by
    decide +kernel
  obtain ⟨t, ht, hrun⟩ := Option.map_eq_some_iff.mp hrun
  have hr := run_of_follow (M := server) (fun _ _ _ => next_step) _ ht
  have hlen := of_decide_eq_true hrun
  refine ⟨t, ht, (reply_discipline ⟨_, _, rfl⟩ hr ?_).mpr ?_, hlen⟩
  · decide +kernel
  · rw [hlen]
    decide +kernel

/-- A client that pings with the id 4503599627370499. -/
def bigIdSession : List Act :=
  [.accept true, .recv 0 (.msg (request 4503599627370499 "ping")), .lockWrite 0, .write 0 true]

/-- The reply has the id 4503599627370500. -/
theorem reply_discipline_bigId : ∃ t tr, server.init (start (fun _ => []) .empty) ∧
    Run server (start (fun _ => []) .empty) tr t ∧ Meets (WritesOk 0) tr ∧
    (replies 0 t).map idOf = [some (Json.ofNat 4503599627370500)] ∧ ¬ Disciplined 0 tr t := by
  have hrun : ((follow State.next (start (fun _ => []) .empty) bigIdSession).map fun t =>
      decide ((replies 0 t).map idOf = [some (Json.ofNat 4503599627370500)])) = some true := by
    decide +kernel
  obtain ⟨t, ht, hrun⟩ := Option.map_eq_some_iff.mp hrun
  have hr := run_of_follow (M := server) (fun _ _ _ => next_step) _ ht
  have hids := of_decide_eq_true hrun
  have hlen : (replies 0 t).length = 1 := by
    rw [← List.length_map idOf, hids]
    rfl
  have hw : Meets (WritesOk 0) (record State.next (start (fun _ => []) .empty) bigIdSession) := by
    decide +kernel
  refine ⟨t, _, ⟨_, _, rfl⟩, hr, hw, hids, fun hd => ?_⟩
  have hall := (inStep_run ⟨_, _, rfl⟩ hr hw).disciplined_iff.mp hd
  rw [hlen] at hall
  revert hall
  decide +kernel

end DisplayxrMcp.Server
