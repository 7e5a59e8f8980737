/-
  What the aggregator keeps of a server: its tools and its app id.

  A `View` is one of the two: the server's value, the value a `tools/list`
  result gives, the aggregator's copy, and how a result is recorded over the
  copy. The tools of a result are fixed by `build_tools_list`; its app id is
  read in a later critical section. `View.link` is the link of `Lib.Refresh`
  that a server, its connection and its reader form for a view.
-/
import DisplayxrMcp.Lib.Refresh
import DisplayxrMcp.Pair.System

namespace DisplayxrMcp.Pair

open Lib Cjson Server

theorem reparseItems_eq (l : List Json) : Json.reparseItems l = l.map Json.reparse := by
  induction l with
  | nil => simp [Json.reparseItems]
  | cons j l ih => simp [Json.reparseItems, ih]

/-- The tools of a `tools/list` result, as read. -/
theorem toolsOf_toolsListResult (tools : List Json) (appId : CStr) :
    toolsOf (some (toolsListResult tools appId).reparse) = tools.map Json.reparse := by
  simp [toolsOf, toolsListResult, Json.getObjectItem_obj_cons, Json.items?, reparseItems_eq]

/-- The app id of a `tools/list` result, as read: there is none while the server has none. -/
theorem metaAppId_toolsListResult (tools : List Json) (appId : CStr) :
    metaAppId (toolsListResult tools appId).reparse = if appId = [] then none else some appId := by
  have htools : ¬ ascii "tools" = ascii "_meta" := by decide
  by_cases h : appId = []
  · simp [metaAppId, toolsListResult, Json.getObjectItem_obj_cons, htools, h, optField, Json.string?]
  · simp [metaAppId, toolsListResult, Json.getObjectItem_obj_cons, htools, h, optField,
      Json.string?, fields]

/-- A change that reports nothing to announce has changed nothing. -/
theorem change_same {r : Registry} {op : Change} (h : (op.apply r).2 = false) :
    (op.apply r).1 = r := by
  cases op with
  | register tool => exact registerTool_same h
  | unregister name => exact unregisterTool_same h
  | setAppId id => exact setAppId_same h

/-- An app id that is set stays set. -/
theorem change_appId (r : Registry) (op : Change) (h : (op.apply r).1.appId = []) :
    r.appId = [] := by
  cases op with
  | register tool =>
      simp only [Change.apply, registerTool] at h
      split at h <;> exact h
  | unregister name =>
      simp only [Change.apply, unregisterTool] at h
      split at h <;> exact h
  | setAppId id =>
      simp only [Change.apply, Server.setAppId] at h
      split at h
      · next hvalid =>
          split at h
          · change snprintf 33 id = [] at h
            rw [snprintf_appId hvalid] at h
            rw [h] at hvalid
            cases hvalid
          · exact h
      · exact h

/-- One of the two things the aggregator keeps of a server. `early tools` is the value that is
    fixed when `build_tools_list` has returned `tools`. -/
structure View (α : Type) extends Recording α where
  current : Registry → α
  ofResult : Json → α
  early : List Json → Option α
  cached : Backend → α
  grows : ∀ r op, Before (current r) (current (Change.apply r op).1)
  early_current : ∀ r v, early (buildToolsList r) = some v → v = current r
  early_result : ∀ tools r v, early tools = some v →
    ofResult (toolsListResult tools (Registry.appId r)).reparse = v
  late_result : ∀ tools r, early tools = none →
    ofResult (toolsListResult tools r.appId).reparse = current r

/-- The tools. -/
def toolsView : View (List Json) where
  Before _ _ := True
  record _ v := v
  refl _ := trivial
  trans _ _ _ _ _ := trivial
  record_eq _ _ _ := rfl
  current := surface
  ofResult result := toolsOf (some result)
  early tools := some (tools.map Json.reparse)
  cached := Backend.tools
  grows _ _ := trivial
  early_current r v h := (Option.some.inj h).symm
  early_result tools r v h := (toolsOf_toolsListResult tools r.appId).trans (Option.some.inj h)
  late_result tools r h := by cases h

/-- The app id; a result without one leaves the copy as it is. -/
def appIdView : View CStr where
  Before x v := v = [] → x = []
  record x v := if v = [] then x else v
  refl _ h := h
  trans _ _ _ h h' e := h (h' e)
  record_eq x v h := by
    by_cases hv : v = []
    · rw [if_pos hv, h hv, hv]
    · rw [if_neg hv]
  current := Registry.appId
  ofResult result := (metaAppId result).getD []
  early _ := none
  cached := Backend.appId
  grows r op := change_appId r op
  early_current r v h := by cases h
  early_result tools r v h := by cases h
  late_result tools r _ := by
    rw [metaAppId_toolsListResult]
    by_cases h : r.appId = []
    · rw [if_pos h, h]
      rfl
    · rw [if_neg h]
      rfl

namespace View

variable {α : Type} (V : View α)

/-- The value a `tools/list` reply gives. -/
def ofReply (reply : Json) : α :=
  V.ofResult ((reply.getObjectItemCaseSensitive (ascii "result")).getD .null)

/-- What a frame is on the link. -/
def note (f : Frame) : Option (Note α) :=
  match f.answers with
  | none => some .changed
  | some a => if a.kind = .list then some (.reply (V.ofReply f.body)) else none

/-- The request being served is a `tools/list`. -/
def lists (p : Peer) : Bool := decide (p.serving.map Ask.kind = some .list)

/-- The value the server is about to write. -/
def taken (p : Peer) : Option α :=
  match p.pc with
  | .listAppId _ tools => V.early tools
  | .reply _ body => if lists p then some (V.ofReply body.reparse) else none
  | _ => none

/-- The `tools/list` requests for which no value has been taken. -/
def asked (p : Peer) : Nat :=
  (if lists p ∧ V.taken p = none then 1 else 0) +
    (p.inbox.filterMap askOf).countP fun a => decide (a.kind = .list)

/-- The value the reader has in hand. -/
def inHand (pc : ReaderPc) (held : Option Frame) : Option α :=
  match pc with
  | .apply result => some (V.ofResult result)
  | _ => held.bind fun f => (V.note f).bind Note.value

/-- The reader is about to ask. -/
def asks : ReaderPc → Bool
  | .refresh => true
  | _ => false

/-- The link of a server, its connection and its reader. -/
def link (p : Peer) (b : Backend) (pc : ReaderPc) (held : Option Frame) : Link α where
  current := V.current p.registry
  owed := p.owed
  asked := V.asked p
  taken := V.taken p
  line := p.outbox.filterMap V.note
  due := asks pc
  held := V.inHand pc held
  copy := some (V.cached b)

/-! ## The server's steps -/

theorem ofReply_jsonrpcResult (id result : Json) :
    V.ofReply (jsonrpcResult id result).reparse = V.ofResult result.reparse := by
  rw [ofReply, result_reply]
  rfl

/-- Reading a request takes no value yet. -/
theorem taken_handleRequest {p : Peer} {req : Json} (hp : p.pc = handleRequest req)
    (hs : p.serving = askOf req) : V.taken p = none := by
  unfold taken
  rw [hp]
  have hserves := serves_handleRequest req
  cases hr : handleRequest req with
  | listAppId id tools =>
      rw [hr] at hserves
      simp only [askOf, hr, Serves] at hserves
      cases hserves
  | reply kind body =>
      have hno : lists p = false := by
        simp only [lists, hs, askOf, hr]
        cases idOf body <;> rfl
      simp only [hno, Bool.false_eq_true, if_false]
  | _ => rfl

theorem taken_congr {p p' : Peer} (hp : p'.pc = p.pc) (hs : p'.serving = p.serving) :
    V.taken p' = V.taken p := by
  unfold taken lists
  rw [hp, hs]

theorem asked_congr {p p' : Peer} (hp : p'.pc = p.pc) (hs : p'.serving = p.serving)
    (hi : p'.inbox = p.inbox) : V.asked p' = V.asked p := by
  unfold asked lists
  rw [V.taken_congr hp hs, hs, hi]

/-- While another request is served nothing is taken. -/
theorem taken_other {p : Peer} {a : Ask} (hok : Serves p.pc p.serving) (hs : p.serving = some a)
    (ha : a.kind ≠ .list) : V.taken p = none := by
  have hno : lists p = false := by simp [lists, hs, ha]
  unfold taken
  split
  · next id tools hp =>
      rw [hp, hs] at hok
      cases hok
      exact absurd rfl ha
  · rw [hno]
    rfl
  · rfl

theorem asked_other {p : Peer} {a : Ask} (hs : p.serving = some a) (ha : a.kind ≠ .list) :
    V.asked p = (p.inbox.filterMap askOf).countP fun a => decide (a.kind = .list) := by
  have hno : lists p = false := by simp [lists, hs, ha]
  simp [asked, hno]

section

variable {V : View α} {p p' : Peer} {b : Backend} {pc : ReaderPc} {held : Option Frame}

/-- The link sees the server's value, what it owes and has been asked, and its outbox. -/
theorem link_same (hr : p'.registry = p.registry) (ho : p'.owed = p.owed)
    (ha : V.asked p' = V.asked p) (ht : V.taken p' = V.taken p)
    (hx : p'.outbox.filterMap V.note = p.outbox.filterMap V.note)
    (h : (V.link p b pc held).Coherent V.toRecording) :
    (V.link p' b pc held).Coherent V.toRecording := by
  have hlink : V.link p' b pc held = V.link p b pc held := by
    simp only [link, hr, ho, ha, ht, hx]
  exact hlink ▸ h

/-- A locked section either takes the value or goes unnoticed. -/
theorem link_dispatch {pc' : ServePc} {mark : Bool} (hok : p.Ok)
    (hd : dispatchStep p.registry p.pc = some (pc', mark)) (hpc : p'.pc = pc')
    (hs : p'.serving = p.serving) (hi : p'.inbox = p.inbox) (hr : p'.registry = p.registry)
    (ho : p'.owed = p.owed) (hx : p'.outbox = p.outbox)
    (h : (V.link p b pc held).Coherent V.toRecording) :
    (V.link p' b pc held).Coherent V.toRecording := by
  have hserves := hok.serves
  have hserves' : Serves p'.pc p'.serving := by
    rw [hpc, hs]
    exact serves_dispatch hd hserves
  have hquiet : ∀ a, p.serving = some a → a.kind ≠ .list →
      (V.link p' b pc held).Coherent V.toRecording := by
    intro a ha hk
    refine link_same hr ho ?_ ?_ (by rw [hx]) h
    · rw [V.asked_other ha hk, V.asked_other (hs.trans ha) hk, hi]
    · rw [V.taken_other hserves ha hk, V.taken_other hserves' (hs.trans ha) hk]
  -- the value is taken at this step
  have htake : V.taken p = none → V.taken p' = some (V.current p.registry) →
      (V.link p' b pc held).Coherent V.toRecording := by
    intro hnone hsome
    have hlink : V.link p' b pc held = { V.link p b pc held with
        asked := V.asked p', taken := some (V.link p b pc held).current } := by
      simp only [link, hr, ho, hx, hsome]
    rw [hlink]
    exact h.snapshot _ hnone
  -- it is not taken yet, or has been
  have hsame : V.taken p' = V.taken p → (V.link p' b pc held).Coherent V.toRecording := by
    intro ht
    have hlists : lists p' = lists p := by rw [lists, lists, hs]
    refine link_same hr ho ?_ ht (by rw [hx]) h
    rw [asked, asked, hlists, ht, hi]
  cases hp : p.pc with
  | hello id =>
      rw [hp] at hserves
      exact hquiet _ hserves (by simp)
  | markInitialized id appId =>
      rw [hp] at hserves
      exact hquiet _ hserves (by simp)
  | findTool id name args =>
      rw [hp] at hserves
      exact hquiet _ hserves (by simp)
  | listTools id =>
      rw [hp] at hd
      cases hd
      have hnone : V.taken p = none := by simp [taken, hp]
      have hafter : V.taken p' = V.early (buildToolsList p.registry) := by simp [taken, hpc]
      cases he : V.early (buildToolsList p.registry) with
      | none => exact hsame (hafter.trans (he.trans hnone.symm))
      | some v =>
          refine htake hnone (hafter.trans ?_)
          rw [he, V.early_current _ _ he]
  | listAppId id tools =>
      rw [hp] at hd hserves
      cases hd
      have hlists : lists p' = true := by
        rw [lists, hs, hserves]
        rfl
      have hbefore : V.taken p = V.early tools := by simp [taken, hp]
      have hafter : V.taken p' =
          some (V.ofResult (toolsListResult tools p.registry.appId).reparse) := by
        simp only [taken, hpc, hlists, if_true, ofReply_jsonrpcResult]
      cases he : V.early tools with
      | none => exact htake (hbefore.trans he) (by rw [hafter, V.late_result _ _ he])
      | some v => exact hsame (by rw [hafter, V.early_result _ _ _ he, hbefore, he])
  | _ =>
      rw [hp] at hd
      cases hd

/-- The server writes a reply. -/
theorem link_answer {kind : FrameKind} {body : Json} (hok : p.Ok) (hp : p.pc = .reply kind body)
    (hpc : p'.pc = .read) (hs : p'.serving = none) (hi : p'.inbox = p.inbox)
    (hr : p'.registry = p.registry) (ho : p'.owed = p.owed)
    (hx : p'.outbox = p.outbox ++ [⟨p.serving, body.reparse⟩])
    (h : (V.link p b pc held).Coherent V.toRecording) :
    (V.link p' b pc held).Coherent V.toRecording := by
  have hserves := hok.serves
  rw [hp] at hserves
  obtain ⟨a, ha, -⟩ := hserves
  have hafter : V.taken p' = none := by simp [taken, hpc]
  have hno : lists p' = false := by simp [lists, hs]
  by_cases hk : a.kind = .list
  · have hlists : lists p = true := by simp [lists, ha, hk]
    have htaken : V.taken p = some (V.ofReply body.reparse) := by simp [taken, hp, hlists]
    have hasked : V.asked p' = V.asked p := by simp [asked, hno, htaken, hi]
    have hlink : V.link p' b pc held = { V.link p b pc held with
        taken := none
        line := (V.link p b pc held).line ++ [.reply (V.ofReply body.reparse)] } := by
      simp [link, hr, ho, hx, hasked, hafter, ha, note, hk]
    rw [hlink]
    exact h.write htaken
  · have hnote : V.note ⟨p.serving, body.reparse⟩ = none := by simp [note, ha, hk]
    refine link_same hr ho ?_ ?_ ?_ h
    · rw [V.asked_other ha hk, asked, hno, hi]
      simp
    · rw [hafter, V.taken_other hok.serves ha hk]
    · simp [hx, hnote]

/-- With no `tools/list` on its way nothing is asked or taken. -/
theorem settled_asks (hok : p.Ok) (h : ∀ a ∈ p.asks, a.kind ≠ .list) :
    V.asked p = 0 ∧ V.taken p = none := by
  have hserving : ∀ a, p.serving = some a → a.kind ≠ .list := by
    intro a ha
    refine h a ?_
    rw [Peer.asks, ha]
    exact List.mem_append_left _ (List.mem_append_right _ List.mem_cons_self)
  have hno : lists p = false := by
    cases hs : p.serving with
    | none => simp [lists, hs]
    | some a => simp [lists, hs, hserving a hs]
  have hcount : (p.inbox.filterMap askOf).countP (fun a => decide (a.kind = .list)) = 0 := by
    rw [List.countP_eq_zero]
    intro a ha
    simpa using h a (List.mem_append_right _ ha)
  refine ⟨by simp [asked, hno, hcount], ?_⟩
  cases hs : p.serving with
  | none =>
      have hserves := hok.serves
      rw [hs] at hserves
      unfold taken
      split
      · next hp =>
          rw [hp] at hserves
          cases hserves
      · rw [hno]
        rfl
      · rfl
  | some a => exact V.taken_other hok.serves hs (hserving a hs)

/-- A line with no answers on it carries no values. -/
theorem line_values (h : p.asks = []) : (p.outbox.filterMap V.note).filterMap Note.value = [] := by
  rw [Peer.asks, List.append_eq_nil_iff, List.append_eq_nil_iff] at h
  rw [List.filterMap_filterMap, List.filterMap_eq_nil_iff]
  intro f hf
  have hnone := List.filterMap_eq_nil_iff.mp h.1.1 f hf
  simp [note, hnone]

/-- Each step of the server is one of its steps on the link, or none. -/
theorem link_peer {a : PeerAct} (hst : p.Step a p') (hok : p.Ok) (hinit : p.initialized = true)
    (h : (V.link p b pc held).Coherent V.toRecording) :
    (V.link p' b pc held).Coherent V.toRecording := by
  have hserves := hok.serves
  cases hst with
  | @change op =>
      cases hop : (op.apply p.registry).2 with
      | true => exact h.change (V.grows p.registry op)
      | false =>
          exact link_same (p := p) (change_same hop) rfl rfl rfl rfl h
  | @notify n ho =>
      have hlink : V.link { p with owed := n, outbox := p.outbox ++ announcement p.initialized } b
          pc held = { V.link p b pc held with
            owed := n, line := (V.link p b pc held).line ++ [.changed] } := by
        simp only [link, hinit, announcement, List.filterMap_append]
        rfl
      rw [hlink]
      exact h.announce n
  | @recv req rest hp hi =>
      rw [hp] at hserves
      have hnone : p.serving = none := hserves
      have hbefore : V.taken p = none := by simp [taken, hp]
      have hafter := V.taken_handleRequest (p := { p with
        pc := handleRequest req, serving := askOf req, inbox := rest }) rfl rfl
      refine link_same (p := p) rfl rfl ?_ (hafter.trans hbefore.symm) rfl h
      simp only [asked, hafter, hbefore, hi, lists, hnone]
      cases hask : askOf req with
      | none => simp [hask]
      | some a =>
          by_cases hk : a.kind = .list
          · simp [hask, hk, Nat.add_comm]
          · simp [hask, hk]
  | dispatch hp => exact link_dispatch hok hp rfl rfl rfl rfl rfl rfl h
  | @handler id tool args inner hp =>
      rw [hp] at hserves
      have hother : p.serving = some ⟨.other, id.reparse⟩ := hserves
      have hk : AskKind.other ≠ .list := by simp
      refine link_same (p := p) rfl rfl ?_ ?_ rfl h
      · refine Eq.trans ?_ (V.asked_other (p := p) hother hk).symm
        exact V.asked_other (a := ⟨.other, id.reparse⟩) hother hk
      · simp [taken, hp, lists, hother]
  | answer hp => exact link_answer hok hp rfl rfl rfl rfl rfl rfl h

end

end View

end DisplayxrMcp.Pair
