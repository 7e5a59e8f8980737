/-
  What a server makes of a request.

  `Serving ran req pc`: a serve thread that has read `req` can be at `pc`. The
  registry may be another one at every locked section, and a handler returns what
  `ran` says it has returned. An `Item` is a request on its way, with the stage it
  is at: written and not read, being served, or answered. `Peer.items` are those
  of a connection, oldest first. No step of the server loses one, adds one or
  moves one past another, and each goes on with its own request
  (`Peer.Step.items`).

  `served_forward` follows a forwarded call: the server does not know the tool, or
  its handler has run on the arguments of the call.
-/
import DisplayxrMcp.Pair.Steps

namespace DisplayxrMcp.Pair

open Lib Cjson Server

/-- What the handlers of a server have been called with and have returned. -/
abbrev Ran := Tool → Option Json → Option Json → Prop

/-- A serve thread that has read `req` can stand at `pc`. -/
inductive Serving (printText : Json → CStr) (ran : Ran) (req : Json) : ServePc → Prop where
  | read : Serving printText ran req (handleRequest req)
  | dispatch {r pc pc' mark} (h : Serving printText ran req pc)
      (hd : dispatchStep r pc = some (pc', mark)) : Serving printText ran req pc'
  | handler {id tool args inner} (h : Serving printText ran req (.call id tool args))
      (hr : ran tool args inner) :
      Serving printText ran req (.reply .other (handlerReply printText id inner))

theorem Serving.mono {printText : Json → CStr} {ran ran' : Ran} {req : Json} {pc : ServePc}
    (h : Serving printText ran req pc)
    (himp : ∀ tool args inner, ran tool args inner → ran' tool args inner) :
    Serving printText ran' req pc := by
  induction h with
  | read => exact .read
  | dispatch _ hd ih => exact .dispatch ih hd
  | handler _ hr ih => exact .handler ih (himp _ _ _ hr)

/-- How far a request has come. -/
inductive Stage where
  | asked (req : Json)
  | serving (pc : ServePc)
  | answered (body : Json)

/-- A request on its way. -/
structure Item where
  ask : Ask
  stage : Stage

/-- The stage is one of `req`. -/
def Stage.Of (printText : Json → CStr) (ran : Ran) (req : Json) : Stage → Prop
  | .asked r => r = req
  | .serving pc => Serving printText ran req pc
  | .answered body => ∃ kind reply, Serving printText ran req (.reply kind reply) ∧
      body = reply.reparse

theorem Stage.Of.mono {printText : Json → CStr} {ran ran' : Ran} {req : Json} {stage : Stage}
    (h : stage.Of printText ran req)
    (himp : ∀ tool args inner, ran tool args inner → ran' tool args inner) :
    stage.Of printText ran' req := by
  cases stage with
  | asked r => exact h
  | serving pc => exact Serving.mono h himp
  | answered body =>
      obtain ⟨kind, reply, hs, hb⟩ := h
      exact ⟨kind, reply, hs.mono himp, hb⟩

def Frame.item (f : Frame) : Option Item := f.answers.map fun a => ⟨a, .answered f.body⟩

def Peer.inHand (p : Peer) : Option Item := p.serving.map fun a => ⟨a, .serving p.pc⟩

/-- The item a request written to the server is. -/
def itemOf (req : Json) : Option Item := (askOf req).map fun a => ⟨a, .asked req⟩

/-- The requests on their way, oldest first. -/
def Peer.items (p : Peer) : List Item :=
  p.outbox.filterMap Frame.item ++ p.inHand.toList ++ p.inbox.filterMap itemOf

theorem Frame.item_ask (f : Frame) : f.item.map Item.ask = f.answers := by
  cases h : f.answers <;> simp [Frame.item, h]

theorem itemOf_ask (req : Json) : (itemOf req).map Item.ask = askOf req := by
  cases h : askOf req <;> simp [itemOf, h]

/-- They are the requests `asks` counts. -/
theorem Peer.items_ask (p : Peer) : p.items.map Item.ask = p.asks := by
  have hhand : p.inHand.toList.map Item.ask = p.serving.toList := by
    cases h : p.serving <;> simp [Peer.inHand, h]
  simp only [Peer.items, Peer.asks, List.map_append, List.map_filterMap, hhand, Frame.item_ask,
    itemOf_ask]

theorem Peer.items_nil {p : Peer} (h : p.asks = []) : p.items = [] := by
  rw [← List.map_eq_nil_iff, p.items_ask, h]

/-- What is written to the server is asked last. -/
theorem Peer.sent_items (p : Peer) (sent : List Json) :
    (p.exchange p.outbox sent).items = p.items ++ sent.filterMap itemOf := by
  simp [Peer.exchange, Peer.items, Peer.inHand]

/-- What is read from the server was asked first. -/
theorem Peer.read_items {p : Peer} {f : Frame} {rest : List Frame} (h : p.outbox = f :: rest) :
    p.items = f.item.toList ++ (p.exchange rest []).items := by
  cases hf : f.item <;> simp [Peer.exchange, Peer.items, Peer.inHand, h, hf]

/-! ## The server's steps -/

/-- The item goes on with its request. -/
def Onward (printText : Json → CStr) (ran : Ran) (x x' : Item) : Prop :=
  x'.ask = x.ask ∧ ∀ req, x.stage.Of printText ran req → x'.stage.Of printText ran req

theorem onward_refl (printText : Json → CStr) (ran : Ran) (l : List Item) :
    List.Forall₂ (Onward printText ran) l l :=
  List.forall₂_same.mpr fun _ _ => ⟨rfl, fun _ h => h⟩

section

variable {p p' : Peer} {a : PeerAct} {ran : Ran}

/-- A section moves the request in hand on. -/
theorem items_hand {pc : ServePc} (hbox : p'.outbox = p.outbox) (hin : p'.inbox = p.inbox)
    (hs : p'.serving = p.serving) (hpc : p'.pc = pc)
    (hgo : ∀ req, Serving p.printText ran req p.pc → Serving p.printText ran req pc) :
    List.Forall₂ (Onward p.printText ran) p.items p'.items := by
  have hhand : List.Forall₂ (Onward p.printText ran) p.inHand.toList p'.inHand.toList := by
    simp only [Peer.inHand, hs, hpc]
    cases p.serving with
    | none => exact .nil
    | some ask => exact .cons ⟨rfl, hgo⟩ .nil
  rw [Peer.items, Peer.items, hbox, hin]
  exact List.rel_append (List.rel_append (onward_refl _ _ _) hhand) (onward_refl _ _ _)

/-- No step of the server loses, adds or reorders requests, and each goes on with its own. -/
theorem Peer.Step.items (hst : p.Step a p') (hok : p.Ok)
    (hran : ∀ id tool args inner, a = .handler inner → p.pc = .call id tool args →
      ran tool args inner) :
    List.Forall₂ (Onward p.printText ran) p.items p'.items := by
  have hserves := hok.serves
  cases hst with
  | change => exact onward_refl _ _ _
  | notify ho =>
      have hquiet : (announcement p.initialized).filterMap Frame.item = [] := by
        cases p.initialized <;> rfl
      simp only [Peer.items, Peer.inHand, List.filterMap_append, hquiet, List.append_nil]
      exact onward_refl _ _ _
  | @recv req rest hp hi =>
      rw [hp] at hserves
      have hfree : p.serving = none := hserves
      have hsplit : p.items = p.outbox.filterMap Frame.item ++
          ((itemOf req).toList ++ rest.filterMap itemOf) := by
        cases h : itemOf req <;> simp [Peer.items, Peer.inHand, hfree, hi, h]
      have hnext : { p with pc := handleRequest req, serving := askOf req, inbox := rest }.items =
          p.outbox.filterMap Frame.item ++
            (((askOf req).map fun a => ⟨a, .serving (handleRequest req)⟩).toList ++
              rest.filterMap itemOf) := by
        simp [Peer.items, Peer.inHand]
      rw [hsplit, hnext]
      refine List.rel_append (onward_refl _ _ _) (List.rel_append ?_ (onward_refl _ _ _))
      unfold itemOf
      cases askOf req with
      | none => exact .nil
      | some ask => exact .cons ⟨rfl, fun _ h => by rw [← show req = _ from h]; exact .read⟩ .nil
  | dispatch hp => exact items_hand rfl rfl rfl rfl fun req h => .dispatch h hp
  | @handler id tool args inner hp =>
      refine items_hand rfl rfl rfl rfl fun req h => ?_
      rw [hp] at h
      exact .handler h (hran id tool args inner rfl hp)
  | @answer kind body hp =>
      rw [hp] at hserves
      obtain ⟨ask, hask, -⟩ := hserves
      have hsplit : p.items = p.outbox.filterMap Frame.item ++
          ([Item.mk ask (.serving (.reply kind body))] ++ p.inbox.filterMap itemOf) := by
        simp [Peer.items, Peer.inHand, hask, hp]
      have hnext : ∀ told, { p with
          pc := .read, serving := none, outbox := p.outbox ++ [⟨p.serving, body.reparse⟩],
          told := told : Peer }.items = p.outbox.filterMap Frame.item ++
            ([Item.mk ask (.answered body.reparse)] ++ p.inbox.filterMap itemOf) := by
        intro told
        have hitem : Frame.item ⟨p.serving, body.reparse⟩ = some ⟨ask, .answered body.reparse⟩ := by
          simp [Frame.item, hask]
        simp [Peer.items, Peer.inHand, hitem]
      rw [hsplit, hnext]
      refine List.rel_append (onward_refl _ _ _) (List.rel_append ?_ (onward_refl _ _ _))
      exact .cons ⟨rfl, fun _ h => ⟨kind, body, h, rfl⟩⟩ .nil

theorem Peer.Step.printText (hst : p.Step a p') : p'.printText = p.printText := by
  cases hst with
  | _ => rfl

end

/-! ## Forwarded calls -/

/-- How far a server has come with a call of the tool `bare`. -/
inductive ForwardPc (printText : Json → CStr) (ran : Ran) (id : Json) (bare : CStr)
    (args : Option Json) : ServePc → Prop where
  | find : ForwardPc printText ran id bare args (.findTool id bare args)
  | call {tool} (hname : tool.name = bare) :
      ForwardPc printText ran id bare args (.call id tool args)
  | missing : ForwardPc printText ran id bare args
      (.reply .other (jsonrpcError (some id) (-32601) "tool not found"))
  | ran {tool inner} (hname : tool.name = bare) (hr : ran tool args inner) :
      ForwardPc printText ran id bare args (.reply .other (handlerReply printText id inner))

/-- A tool found has the name it was looked up by. -/
theorem findTool_name {r : Registry} {name : CStr} {tool : Tool} (h : findTool r name = some tool) :
    tool.name = name := by
  simpa using List.find?_some (p := fun t : Tool => decide (t.name = name)) h

/-- A forwarded call is looked up by its bare name, with its arguments. -/
theorem handleRequest_forward {n : Nat} (hn : n < localIdLimit) (bare : CStr)
    (args : Option Json) :
    handleRequest (forwardRequest n bare args).reparse =
      .findTool (Json.ofNat n) bare (args.map Json.reparse) := by
  have hrpc : ¬ ascii "jsonrpc" = ascii "method" := by decide
  have hid : ¬ ascii "id" = ascii "method" := by decide
  have hrpc' : ¬ ascii "jsonrpc" = ascii "params" := by decide
  have hid' : ¬ ascii "id" = ascii "params" := by decide
  have hmethod : ¬ ascii "method" = ascii "params" := by decide
  have hname : ¬ ascii "name" = ascii "arguments" := by decide
  have hm : Json.string? ((forwardRequest n bare args).reparse.getObjectItemCaseSensitive
      (ascii "method")) = some (ascii "tools/call") := by
    simp [forwardRequest, fields, Json.getObjectItem_obj_cons, hrpc, hid, text, Json.string?]
  have hi : idOf (forwardRequest n bare args).reparse = some (Json.ofNat n) := by
    rw [idOf_reparse, idOf_forwardRequest, Option.map_some, Json.reparse_ofNat hn]
  have hbare : Json.string? (((forwardRequest n bare args).reparse.getObjectItemCaseSensitive
      (ascii "params")).bind (·.getObjectItemCaseSensitive (ascii "name"))) = some bare := by
    simp [forwardRequest, fields, Json.getObjectItem_obj_cons, hrpc', hid', hmethod, Json.string?]
  have hargs : ((forwardRequest n bare args).reparse.getObjectItemCaseSensitive
      (ascii "params")).bind (·.getObjectItemCaseSensitive (ascii "arguments")) =
        args.map Json.reparse := by
    cases args <;> simp [forwardRequest, fields, Json.getObjectItem_obj_cons, hrpc', hid', hmethod,
      hname]
  have hinit : ¬ ascii "tools/call" = ascii "initialize" := by decide
  have hping : ¬ ascii "tools/call" = ascii "ping" := by decide
  have hlist : ¬ ascii "tools/call" = ascii "tools/list" := by decide
  simp only [handleRequest, hm, hi, hbare, hargs, hinit, hping, hlist, if_false, if_true]

/-- A server that serves a forwarded call looks its tool up, and runs that tool's handler on the
    call's arguments. -/
theorem serving_forward {printText : Json → CStr} {ran : Ran} {n : Nat} (hn : n < localIdLimit)
    {bare : CStr} {args : Option Json} {pc : ServePc}
    (h : Serving printText ran (forwardRequest n bare args).reparse pc) :
    ForwardPc printText ran (Json.ofNat n) bare (args.map Json.reparse) pc := by
  induction h with
  | read =>
      rw [handleRequest_forward hn]
      exact .find
  | @dispatch r pc pc' mark _ hd ih =>
      cases ih with
      | find =>
          unfold dispatchStep at hd
          dsimp only at hd
          split at hd
          · cases hd
            exact .missing
          · next tool htool =>
              cases hd
              exact .call (findTool_name htool)
      | call _ => cases hd
      | missing => cases hd
      | ran _ _ => cases hd
  | handler _ hr ih =>
      cases ih with
      | call hname => exact .ran hname hr

end DisplayxrMcp.Pair
