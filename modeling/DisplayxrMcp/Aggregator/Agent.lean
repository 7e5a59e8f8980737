/-
  The agent side: handle_tools_call and handle_agent_frame
  (adapter/workspace_aggregator.c, "agent-side handlers").

  `route` is the decoder of a tool name: first `__`, non-empty prefix and rest,
  first live slot with exactly that prefix. `handleToolsCall` adds the built-in,
  the in-flight slot and the write; `ok` is the outcome of the write, which is
  consulted only when one is made. A forwarded request is given as the backend
  reads it: the tree after printing and parsing.
-/
import DisplayxrMcp.Aggregator.Tools

namespace DisplayxrMcp

open Lib Cjson

/-- What `handle_tools_call` makes of a name it does not answer itself. -/
inductive Route where
  | malformed
  | noSuchPrefix
  | backend (i : Fin maxBackends) (b : Backend) (bare : CStr)

/-- First used, live slot whose prefix is the first `plen` bytes of `full`. -/
def findByPrefix (g : Global) (full : CStr) (plen : Nat) : Option (Fin maxBackends) :=
  g.backends.findUsed fun b =>
    b.alive && decide (b.nsPrefix.length = plen) && decide (b.nsPrefix = full.take plen)

/-- The name splitting and lookup of `handle_tools_call`. -/
def route (g : Global) (full : CStr) : Route :=
  match strstr nsSep full with
  | none => .malformed
  | some sep =>
      let bare := full.drop (sep + 2)
      if sep = 0 ∨ bare = [] then .malformed
      else match findByPrefix g full sep with
        | none => .noSuchPrefix
        | some i => match g.backends i with
          | none => .noSuchPrefix
          | some b => .backend i b bare

/-- The forwarded request, before printing. -/
def forwardRequest (localId : Nat) (bare : CStr) (args : Option Json) : Json :=
  fields [("jsonrpc", text "2.0"), ("id", Json.ofNat localId), ("method", text "tools/call"),
    ("params", .obj ((ascii "name", .str bare) :: (match args with
      | some a => [(ascii "arguments", a)]
      | none => [])))]

theorem idOf_forwardRequest (localId : Nat) (bare : CStr) (args : Option Json) :
    idOf (forwardRequest localId bare args) = some (Json.ofNat localId) := by
  have hne : ¬ ascii "jsonrpc" = ascii "id" := by decide
  simp [idOf, forwardRequest, fields, Json.getObjectItem_obj_cons, hne]

/-- Outcome of handling a frame: the new global state, the request written to a backend, and
    the reply to write to stdout. -/
structure Handled where
  g : Global
  sent : Option (ConnId × Json)
  reply : Option Json

/-- `handle_tools_call`. -/
def handleToolsCall (g : Global) (seq : Nat) (id : Json) (params : Option Json) (ok : Bool) :
    Handled :=
  match Json.string? (params.bind (·.getObjectItemCaseSensitive (ascii "name"))) with
  | none => ⟨g, none, some (jsonrpcErrorStr (some id) (-32602) "tools/call: missing string 'name'")⟩
  | some full =>
      if full = listAppsName then
        ⟨g, none, some (jsonrpcResultStr (some id)
          (some (wrapToolResult g.platform (buildListApps g))))⟩
      else match route g full with
        | .malformed => ⟨g, none, some (jsonrpcErrorStr (some id) (-32601)
            "tool not found (expected <prefix>__<tool>)")⟩
        | .noSuchPrefix => ⟨g, none, some (jsonrpcErrorStr (some id) (-32601)
            "tool not found (no such app prefix)")⟩
        | .backend idx b bare =>
            match inflightAlloc g idx .agent (some id) (some seq) with
            | none => ⟨g, none, some (jsonrpcErrorStr (some id) (-32000) "too many calls in flight")⟩
            | some (i, fl, g') =>
                let args := params.bind (·.getObjectItemCaseSensitive (ascii "arguments"))
                if ok then ⟨g', some (b.conn, (forwardRequest fl.localId bare args).reparse), none⟩
                else ⟨inflightRelease g' i, none,
                  some (jsonrpcErrorStr (some id) (-32000) "backend write failed")⟩

/-- The `initialize` result. -/
def initializeResult (version : CStr) : Json :=
  fields [("protocolVersion", text "2024-11-05"),
    ("capabilities", fields [("tools", fields [("listChanged", .bool true)])]),
    ("serverInfo", fields [("name", text "displayxr-mcp-workspace"), ("version", .str version)])]

/-- A frame the loop dispatches: an object with an id and a string method. -/
def requestOf (frame : Option Json) : Option (CStr × Json × Option Json) :=
  match frame with
  | none => none
  | some req =>
      match Json.string? (req.getObjectItemCaseSensitive (ascii "method")), idOf req with
      | some method, some id => some (method, id, req.getObjectItemCaseSensitive (ascii "params"))
      | _, _ => none

/-- `handle_agent_frame`, up to its first write to stdout. `frame` is the parsed frame,
    `none` when it does not parse. -/
def handleAgentFrame (g : Global) (seq : Nat) (frame : Option Json) (ok : Bool) : Handled :=
  if frame.isNone then ⟨g, none, some (jsonrpcErrorStr none (-32700) "parse error")⟩
  else match requestOf frame with
    | none => ⟨g, none, none⟩
    | some (method, id, params) =>
        if method = ascii "initialize" then
          ⟨g, none, some (jsonrpcResultStr (some id) (some (initializeResult g.platform.version)))⟩
        else if method = ascii "ping" then ⟨g, none, some (jsonrpcResultStr (some id) none)⟩
        else if method = ascii "tools/list" then
          ⟨g, none, some (jsonrpcResultStr (some id)
            (some (fields [("tools", .arr (buildMergedTools g))])))⟩
        else if method = ascii "tools/call" then handleToolsCall g seq id params ok
        else ⟨g, none, some (jsonrpcErrorStr (some id) (-32601) "method not found")⟩

/-- The frame is an `initialize` request; after its reply the agent is marked initialized. -/
def isInitialize (frame : Option Json) : Bool :=
  match requestOf frame with
  | some (method, _, _) => decide (method = ascii "initialize")
  | none => false

/-- The frame is a `tools/call` request with this id. -/
def IsCall (frame : Option Json) (id : Json) : Prop :=
  ∃ params, requestOf frame = some (ascii "tools/call", id, params)

/-- The id of a `tools/call` request. -/
def callId (frame : Option Json) : Option Json :=
  match requestOf frame with
  | some (method, id, _) => if method = ascii "tools/call" then some id else none
  | none => none

theorem isCall_iff {frame : Option Json} {id : Json} : IsCall frame id ↔ callId frame = some id := by
  unfold IsCall callId
  cases requestOf frame with
  | none => simp
  | some r =>
      obtain ⟨method, id', params⟩ := r
      by_cases hm : method = ascii "tools/call"
      · simp [hm]
      · simp [hm]

/-- A name is routed to a backend by its first separator, with both sides non-empty. -/
theorem route_backend {g : Global} {full bare : CStr} {idx : Fin maxBackends} {b : Backend}
    (h : route g full = .backend idx b bare) :
    ∃ sep, strstr nsSep full = some sep ∧ sep ≠ 0 ∧ bare = full.drop (sep + 2) ∧ bare ≠ [] ∧
      findByPrefix g full sep = some idx ∧ g.backends idx = some b := by
  unfold route at h
  split at h
  · cases h
  · next sep hsep =>
      dsimp only at h
      split at h
      · cases h
      · next hne =>
          split at h
          · cases h
          · next i hi =>
              split at h
              · cases h
              · next hb =>
                  cases h
                  exact ⟨sep, hsep, fun e => hne (Or.inl e), rfl, fun e => hne (Or.inr e), hi, hb⟩

/-- A name that begins with a prefix without underscore and the separator is routed, if at
    all, to a backend with that prefix. -/
theorem route_prefixed {g : Global} {p rest bare : CStr} {idx : Fin maxBackends} {b : Backend}
    (hp : (0x5f : UInt8) ∉ p) (h : route g (p ++ nsSep ++ rest) = .backend idx b bare) :
    b.nsPrefix = p ∧ b.alive = true ∧ g.backends idx = some b := by
  obtain ⟨sep, hsep, -, -, -, hfind, hb⟩ := route_backend h
  have hstr : strstr nsSep (p ++ nsSep ++ rest) = some p.length := by
    rw [List.append_assoc]
    exact strstr_sep hp rest
  rw [hstr] at hsep
  cases hsep
  obtain ⟨b', hb', hmatch⟩ := Slots.findUsed_some hfind
  rw [hb] at hb'
  cases hb'
  simp only [Bool.and_eq_true, decide_eq_true_eq] at hmatch
  refine ⟨?_, hmatch.1.1, hb⟩
  rw [hmatch.2, List.append_assoc, List.take_left']
  rfl

/-! ## What handling a frame can do to the shared state -/

/-- Everything `handleAgentFrame` can do: answer without touching the state, forward a call
    (one slot taken, one request written), or take a slot and give it back after a failed
    write (only the counter moves). -/
inductive HandledCases (g : Global) (seq : Nat) (frame : Option Json) (ok : Bool) :
    Handled → Prop where
  | answered (reply : Option Json)
      (hcall : ∀ id, IsCall frame id → ∃ r, reply = some r ∧ idOf r = some id) :
      HandledCases g seq frame ok ⟨g, none, reply⟩
  | forwarded (id : Json) (params : Option Json) (full : CStr) (idx : Fin maxBackends)
      (b : Backend) (bare : CStr) (args : Option Json) (i : Fin maxInflight)
      (hok : ok = true) (hcall : requestOf frame = some (ascii "tools/call", id, params))
      (hfull : Json.string? (params.bind (·.getObjectItemCaseSensitive (ascii "name"))) = some full)
      (hnot : full ≠ listAppsName) (hroute : route g full = .backend idx b bare)
      (hargs : args = params.bind (·.getObjectItemCaseSensitive (ascii "arguments")))
      (hfree : g.inflight.firstFree = some i) :
      HandledCases g seq frame ok
        ⟨{ g with
            nextLocalId := (g.nextLocalId + 1) % 2 ^ 64
            inflight := g.inflight.put i
              ⟨(g.nextLocalId + 1) % 2 ^ 64, idx, .agent, some id, some seq⟩ },
          some (b.conn, (forwardRequest ((g.nextLocalId + 1) % 2 ^ 64) bare args).reparse), none⟩
  | unwritten (id : Json) (r : Json) (hok : ok = false)
      (hcall : IsCall frame id) (hr : idOf r = some id) :
      HandledCases g seq frame ok
        ⟨{ g with nextLocalId := (g.nextLocalId + 1) % 2 ^ 64 }, none, some r⟩

theorem isCall_unique {frame : Option Json} {id id' : Json} (h : IsCall frame id)
    (h' : IsCall frame id') : id = id' := by
  obtain ⟨p, hp⟩ := h
  obtain ⟨p', hp'⟩ := h'
  rw [hp] at hp'
  cases hp'
  rfl

theorem handleToolsCall_cases (g : Global) (seq : Nat) (frame : Option Json) (id : Json)
    (params : Option Json) (ok : Bool)
    (hcall : requestOf frame = some (ascii "tools/call", id, params)) :
    HandledCases g seq frame ok (handleToolsCall g seq id params ok) := by
  have hans : ∀ r, idOf r = some id → ∀ id', IsCall frame id' →
      ∃ r', some r = some r' ∧ idOf r' = some id' := by
    intro r hr id' hid'
    exact ⟨r, rfl, isCall_unique hid' ⟨params, hcall⟩ ▸ hr⟩
  unfold handleToolsCall
  split
  · exact .answered _ (hans _ (idOf_errorStr _ _ _))
  · next full hfull =>
      split
      · exact .answered _ (hans _ (idOf_resultStr _ _))
      · next hnot =>
          split
          · exact .answered _ (hans _ (idOf_errorStr _ _ _))
          · exact .answered _ (hans _ (idOf_errorStr _ _ _))
          · next idx b bare hroute =>
              cases hf : g.inflight.firstFree with
              | none =>
                  simp only [inflightAlloc, hf]
                  exact .answered _ (hans _ (idOf_errorStr _ _ _))
              | some i =>
                  simp only [inflightAlloc, hf]
                  cases ok with
                  | true =>
                      exact .forwarded id params full idx b bare _ i rfl hcall hfull hnot hroute
                        rfl hf
                  | false =>
                      have hclear := Slots.clear_put_of_free g.inflight
                        (⟨(g.nextLocalId + 1) % 2 ^ 64, idx, .agent, some id, some seq⟩ : Inflight)
                        (Slots.firstFree_some hf)
                      simp only [Bool.false_eq_true, if_false, inflightRelease, hclear]
                      exact .unwritten id _ rfl ⟨params, hcall⟩ (idOf_errorStr _ _ _)

theorem handleAgentFrame_cases (g : Global) (seq : Nat) (frame : Option Json) (ok : Bool) :
    HandledCases g seq frame ok (handleAgentFrame g seq frame ok) := by
  unfold handleAgentFrame
  split
  · next hnone =>
      refine .answered _ fun id hid => ?_
      obtain ⟨p, hp⟩ := hid
      rw [Option.isNone_iff_eq_none.mp hnone] at hp
      cases hp
  · split
    · next hreq =>
        refine .answered _ fun id hid => ?_
        obtain ⟨p, hp⟩ := hid
        rw [hreq] at hp
        cases hp
    · next method id params hreq =>
        have hother : method ≠ ascii "tools/call" → ∀ reply, HandledCases g seq frame ok
            ⟨g, none, reply⟩ := by
          intro hm reply
          refine .answered _ fun id' hid => ?_
          obtain ⟨p, hp⟩ := hid
          rw [hreq] at hp
          cases hp
          exact absurd rfl hm
        split
        · next hm => exact hother (by rw [hm]; decide) _
        · split
          · next hm => exact hother (by rw [hm]; decide) _
          · split
            · next hm => exact hother (by rw [hm]; decide) _
            · split
              · next hm =>
                  subst hm
                  exact handleToolsCall_cases g seq frame id params ok hreq
              · next hm => exact hother hm _

/-- A call for a name other than the built-in is sent to the backend the name is routed to, or
    answered with an error. -/
theorem handleToolsCall_outcome (g : Global) (seq : Nat) (id : Json) {params : Option Json}
    (ok : Bool) {full : CStr}
    (hfull : Json.string? (params.bind (·.getObjectItemCaseSensitive (ascii "name"))) = some full)
    (hne : full ≠ listAppsName) :
    (∃ idx b bare j, route g full = .backend idx b bare ∧
        (handleToolsCall g seq id params ok).sent = some (b.conn, j)) ∨
      ((handleToolsCall g seq id params ok).sent = none ∧ ∃ code message,
        (handleToolsCall g seq id params ok).reply =
          some (jsonrpcErrorStr (some id) code message)) := by
  unfold handleToolsCall
  rw [hfull]
  simp only [if_neg hne]
  cases hroute : route g full with
  | malformed => exact Or.inr ⟨rfl, _, _, rfl⟩
  | noSuchPrefix => exact Or.inr ⟨rfl, _, _, rfl⟩
  | backend idx b bare =>
      dsimp only
      cases inflightAlloc g idx .agent (some id) (some seq) with
      | none => exact Or.inr ⟨rfl, _, _, rfl⟩
      | some r =>
          obtain ⟨i, fl, g'⟩ := r
          cases ok with
          | true => exact Or.inl ⟨idx, b, bare, _, rfl, rfl⟩
          | false => exact Or.inr ⟨rfl, _, _, rfl⟩

end DisplayxrMcp
