/-
  Exposure: what the group filter does, and what it does not
  (adapter/workspace_aggregator.c, "exposure", build_merged_tools, handle_tools_call).

  The filter is in the listing: without `--expose-diagnostics` a `tools/list`
  shows, besides the built-in, exactly the entries outside the diagnostic group.
  A `tools/call` is routed by its prefix alone; the cached entries are not
  looked at, so a diagnostic tool that the agent names is called.
-/
import DisplayxrMcp.Aggregator.Coherence

namespace DisplayxrMcp

open Lib Cjson Lts

/-- `e` is the merged entry of a live backend's cached entry outside the diagnostic group. -/
def FromExposed (g : Global) (e : Json) : Prop :=
  ∃ i b t name, g.backends i = some b ∧ b.alive = true ∧ t ∈ b.tools ∧
    toolGroup t ≠ ascii "diagnostic" ∧
      Json.string? (t.getObjectItemCaseSensitive (ascii "name")) = some name ∧
        e = mergedEntry b.nsPrefix name t

/-- The agent's frame calls a tool of `b`, named `bare` there, with the arguments `args`. -/
def CallsTool (g : Global) (frame : Option Json) (b : Backend) (bare : CStr)
    (args : Option Json) : Prop :=
  ∃ id params full idx, requestOf frame = some (ascii "tools/call", id, params) ∧
    Json.string? (params.bind (·.getObjectItemCaseSensitive (ascii "name"))) = some full ∧
      full ≠ listAppsName ∧ route g full = .backend idx b bare ∧
        params.bind (·.getObjectItemCaseSensitive (ascii "arguments")) = args

/-- `t` is the cached entry of `b` for the tool `bare`. -/
def CachedEntry (b : Backend) (bare : CStr) (t : Json) : Prop :=
  t ∈ b.tools ∧ Json.string? (t.getObjectItemCaseSensitive (ascii "name")) = some bare

/-- No call of a diagnostic tool is forwarded. -/
def CallsEnforced (s : Sys) : Prop :=
  ∀ frame ok b bare args t, CallsTool s.g frame b bare args → CachedEntry b bare t →
    toolGroup t = ascii "diagnostic" → s.sent (.agentFrame frame ok) = none

/-- The request for a call of `bare`, as the named backend reads it: the next local id, the
    tool's own name and the agent's arguments. -/
def Global.forwarded (g : Global) (bare : CStr) (args : Option Json) : Json :=
  (forwardRequest ((g.nextLocalId + 1) % 2 ^ 64) bare args).reparse

theorem toolExposed_iff {expose : Bool} {t : Json} :
    toolExposed expose t = true ↔ expose = true ∨ toolGroup t ≠ ascii "diagnostic" := by
  simp [toolExposed]

/-- Without `--expose-diagnostics` the surface is the built-in and what the filter lets
    through. -/
theorem mem_surface {g : Global} (he : g.exposeDiagnostics = false) {e : Json} :
    e ∈ buildMergedTools g ↔ e = listAppsTool ∨ FromExposed g e := by
  constructor
  · intro h
    refine (mem_buildMergedTools.mp h).imp_right ?_
    rintro ⟨i, b, t, name, hb, halive, ht, hexp, hname, heq⟩
    rw [he] at hexp
    have hgroup := (toolExposed_iff.mp hexp).resolve_left (by decide)
    exact ⟨i, b, t, name, hb, halive, ht, hgroup, hname, heq⟩
  · intro h
    refine mem_buildMergedTools.mpr (h.imp_right ?_)
    rintro ⟨i, b, t, name, hb, halive, ht, hgroup, hname, heq⟩
    exact ⟨i, b, t, name, hb, halive, ht, toolExposed_iff.mpr (Or.inr hgroup), hname, heq⟩

/-- The reply to `tools/list` is the surface. -/
theorem handleAgentFrame_list {g : Global} {seq : Nat} {frame : Option Json} {ok : Bool}
    {id : Json} {params : Option Json}
    (h : requestOf frame = some (ascii "tools/list", id, params)) :
    (handleAgentFrame g seq frame ok).reply = some (jsonrpcResultStr (some id)
      (some (fields [("tools", .arr (buildMergedTools g))]))) := by
  have hframe : frame.isNone ≠ true := by
    intro hnone
    rw [Option.isNone_iff_eq_none.mp hnone] at h
    cases h
  have hinit : ascii "tools/list" ≠ ascii "initialize" := by decide
  have hping : ascii "tools/list" ≠ ascii "ping" := by decide
  unfold handleAgentFrame
  rw [if_neg hframe, h]
  dsimp only
  rw [if_neg hinit, if_neg hping, if_pos rfl]

/-- A `tools/call` is handled by `handle_tools_call`. -/
theorem handleAgentFrame_call {g : Global} {seq : Nat} {frame : Option Json} {ok : Bool}
    {id : Json} {params : Option Json}
    (h : requestOf frame = some (ascii "tools/call", id, params)) :
    handleAgentFrame g seq frame ok = handleToolsCall g seq id params ok := by
  have hframe : frame.isNone ≠ true := by
    intro hnone
    rw [Option.isNone_iff_eq_none.mp hnone] at h
    cases h
  have hinit : ascii "tools/call" ≠ ascii "initialize" := by decide
  have hping : ascii "tools/call" ≠ ascii "ping" := by decide
  have hlist : ascii "tools/call" ≠ ascii "tools/list" := by decide
  unfold handleAgentFrame
  rw [if_neg hframe, h]
  dsimp only
  rw [if_neg hinit, if_neg hping, if_neg hlist, if_pos rfl]

/-- A call that is routed goes out, if a slot is free and the write goes through: the cached
    entries have no say. -/
theorem handleToolsCall_routed {g : Global} {seq : Nat} {id : Json} {params : Option Json}
    {full bare : CStr} {idx : Fin maxBackends} {b : Backend}
    (hfull : Json.string? (params.bind (·.getObjectItemCaseSensitive (ascii "name"))) = some full)
    (hne : full ≠ listAppsName) (hroute : route g full = .backend idx b bare)
    (hfree : g.inflight.firstFree ≠ none) :
    (handleToolsCall g seq id params true).sent = some (b.conn,
      g.forwarded bare (params.bind (·.getObjectItemCaseSensitive (ascii "arguments")))) := by
  obtain ⟨i, hi⟩ := Option.ne_none_iff_exists'.mp hfree
  unfold handleToolsCall
  rw [hfull]
  dsimp only
  rw [if_neg hne, hroute]
  simp only [inflightAlloc, hi, if_true]
  rfl

/-- The call of a backend's tool is forwarded to it. -/
theorem CallsTool.sent {s : Sys} {frame : Option Json} {b : Backend} {bare : CStr}
    {args : Option Json} (h : CallsTool s.g frame b bare args)
    (hfree : s.g.inflight.firstFree ≠ none) :
    s.sent (.agentFrame frame true) = some (b.conn, s.g.forwarded bare args) := by
  obtain ⟨id, params, full, idx, hreq, hfull, hne, hroute, rfl⟩ := h
  have hcall : handleAgentFrame s.g s.frames.length frame true =
      handleToolsCall s.g s.frames.length id params true := handleAgentFrame_call hreq
  exact (congrArg Handled.sent hcall).trans (handleToolsCall_routed hfull hne hroute hfree)

/-- It is a call of the tool's own name, with its arguments. -/
theorem CallsTool.forwardedAs {s : Sys} {frame : Json} {b : Backend} {bare : CStr}
    {args : Option Json} (h : CallsTool s.g (some frame) b bare args)
    (hfree : s.g.inflight.firstFree ≠ none) :
    ForwardedAs s frame true b.conn bare (args.map Json.reparse) := by
  obtain ⟨params, hmethod, hparams, hname, hargs⟩ :=
    forwardRequest_read ((s.g.nextLocalId + 1) % 2 ^ 64) bare args
  exact ⟨s.g.forwarded bare args, params, h.sent hfree, hmethod, hparams, hname, hargs⟩

/-- The filter is on the listing; a call is routed without it, and the backend is sent the
    agent's call. -/
theorem exposure_listing (s : Sys) (frame : Json) (he : s.g.exposeDiagnostics = false) :
    (∀ id params ok, requestOf (some frame) = some (ascii "tools/list", id, params) →
      ∃ l, (handleAgentFrame s.g s.frames.length (some frame) ok).reply =
          some (jsonrpcResultStr (some id) (some (fields [("tools", .arr l)]))) ∧
        ∀ e, e ∈ l ↔ e = listAppsTool ∨ FromExposed s.g e) ∧
    ∀ b bare args, CallsTool s.g (some frame) b bare args → s.g.inflight.firstFree ≠ none →
      s.sent (.agentFrame (some frame) true) = some (b.conn, s.g.forwarded bare args) ∧
        ForwardedAs s frame true b.conn bare (args.map Json.reparse) := by
  constructor
  · intro id params ok hreq
    exact ⟨_, handleAgentFrame_list hreq, fun e => mem_surface he⟩
  · intro b bare args hcall hfree
    exact ⟨hcall.sent hfree, hcall.forwardedAs hfree⟩

/-- The backend a call is routed to, the tool's own name and its cached entry. -/
def calledTool (g : Global) (full : CStr) : Option (Backend × CStr × Json) :=
  match route g full with
  | .backend _ b bare => (b.tools.find? fun t => decide
      (Json.string? (t.getObjectItemCaseSensitive (ascii "name")) = some bare)).map
        fun t => (b, bare, t)
  | _ => none

theorem calledTool_some {g : Global} {full bare : CStr} {b : Backend} {t : Json}
    (h : calledTool g full = some (b, bare, t)) :
    (∃ idx, route g full = .backend idx b bare) ∧ CachedEntry b bare t := by
  unfold calledTool at h
  split at h
  · next idx b' bare' hroute =>
      obtain ⟨t', ht, heq⟩ := Option.map_eq_some_iff.mp h
      cases heq
      exact ⟨⟨idx, hroute⟩, List.mem_of_find?_eq_some ht, by simpa using List.find?_some ht⟩
  · cases h

/-- A session with one diagnostic tool. -/
def diagnosticSession : List Act :=
  joins 5 0 1 "viewer" (helloResult "viewer") (fields [("tools", .arr [fields
    [("name", text "tail_log"), ("_meta", fields [("displayxr/group", text "diagnostic")])]])])

/-- The agent's call of it. -/
def diagnosticCall : Json := callFrame 7 "viewer__tail_log"

/-- What the session leads to. -/
theorem diagnosticSession_calls : ∃ s b t, Reach aggregator s ∧ s.main = .idle ∧
    s.g.exposeDiagnostics = false ∧ CallsTool s.g (some diagnosticCall) b (ascii "tail_log") none ∧
      CachedEntry b (ascii "tail_log") t ∧ toolGroup t = ascii "diagnostic" ∧
        s.g.inflight.firstFree ≠ none := by
  have hrun : ((follow Sys.next (Sys.start plainPlatform false) diagnosticSession).bind fun s =>
      (calledTool s.g (ascii "viewer__tail_log")).map fun r =>
        (s.main matches .idle, s.g.exposeDiagnostics, decide (r.2.1 = ascii "tail_log"),
          decide (toolGroup r.2.2 = ascii "diagnostic"), s.g.inflight.firstFree.isSome)) =
      some (true, false, true, true, true) := by
    decide +kernel
  obtain ⟨s, hs, hrun⟩ := Option.bind_eq_some_iff.mp hrun
  obtain ⟨⟨b, bare, t⟩, ht, hrun⟩ := Option.map_eq_some_iff.mp hrun
  simp only [Prod.mk.injEq, decide_eq_true_eq] at hrun
  obtain ⟨hmain, he, rfl, hgroup, hfree⟩ := hrun
  obtain ⟨⟨idx, hroute⟩, hentry⟩ := calledTool_some ht
  refine ⟨s, b, t, reach_of_follow hs fun _ _ => trivial, ?_, he, ?_, hentry, hgroup, ?_⟩
  · cases hm : s.main with
    | idle => rfl
    | reply seq body hello =>
        rw [hm] at hmain
        cases hmain
    | markInitialized =>
        rw [hm] at hmain
        cases hmain
  · exact ⟨Json.ofNat 7, _, ascii "viewer__tail_log", idx, rfl, rfl, by decide, hroute, rfl⟩
  · intro hnone
    rw [hnone] at hfree
    cases hfree

/-- The call of the diagnostic tool goes out. -/
theorem exposure_listing_diagnostic : ∃ s b t, Reach aggregator s ∧
    CallsTool s.g (some diagnosticCall) b (ascii "tail_log") none ∧
      CachedEntry b (ascii "tail_log") t ∧ toolGroup t = ascii "diagnostic" ∧
        s.sent (.agentFrame (some diagnosticCall) true) =
          some (b.conn, s.g.forwarded (ascii "tail_log") none) := by
  obtain ⟨s, b, t, hs, -, he, hcall, hentry, hgroup, hfree⟩ := diagnosticSession_calls
  exact ⟨s, b, t, hs, hcall, hentry, hgroup,
    ((exposure_listing s diagnosticCall he).2 b (ascii "tail_log") none hcall hfree).1⟩

/-- Calls of diagnostic tools are forwarded. -/
theorem exposure_calls_forwarded : ∃ s, Reach aggregator s ∧ s.main = .idle ∧
    s.g.exposeDiagnostics = false ∧ ¬ CallsEnforced s := by
  obtain ⟨s, b, t, hs, hmain, he, hcall, hentry, hgroup, hfree⟩ := diagnosticSession_calls
  refine ⟨s, hs, hmain, he, fun henforced => ?_⟩
  have hnone := henforced (some diagnosticCall) true b (ascii "tail_log") none t hcall hentry hgroup
  cases hnone.symm.trans (hcall.sent hfree)

end DisplayxrMcp
