/-
  Listing and calling: the name of a merged entry leads back to its tool.

  `build_merged_tools` formats `<prefix>__<tool>` into 128 bytes;
  `handle_tools_call` cuts at the first `__`. A prefix has no underscore, so the
  cut is where the format put the separator, whatever the tool's name looks
  like, and only the buffer can lose anything (`route_prefixedName`).
  `list_call_coherence` says exactly when a listed entry's call reaches its
  backend as the backend's own tool.
-/
import DisplayxrMcp.Aggregator.Sticky

namespace DisplayxrMcp

open Lib Cjson Lts

/-- Live backends have pairwise distinct prefixes. -/
def DistinctPrefixes (g : Global) : Prop :=
  ∀ i j, ∀ b ∈ g.backends i, ∀ b' ∈ g.backends j, b.alive = true → b'.alive = true →
    b.nsPrefix = b'.nsPrefix → i = j

instance (g : Global) : Decidable (DistinctPrefixes g) :=
  inferInstanceAs (Decidable (∀ i j, ∀ b ∈ g.backends i, ∀ b' ∈ g.backends j, _))

/-- `e` is the merged entry of live backend `b`, in slot `i`, for its tool `name`. -/
structure Listed (g : Global) (i : Fin maxBackends) (b : Backend) (name : CStr) (e : Json) :
    Prop where
  slot : g.backends i = some b
  alive : b.alive = true
  entry : ∃ t ∈ b.tools, toolExposed g.exposeDiagnostics t = true ∧
    Json.string? (t.getObjectItemCaseSensitive (ascii "name")) = some name ∧
    e = mergedEntry b.nsPrefix name t

/-- The surface is the built-in and what is listed. -/
theorem mem_buildMergedTools_listed {g : Global} {e : Json} :
    e ∈ buildMergedTools g ↔ e = listAppsTool ∨ ∃ i b name, Listed g i b name e := by
  rw [mem_buildMergedTools]
  refine or_congr_right ⟨?_, ?_⟩
  · rintro ⟨i, b, t, name, hb, halive, ht, hexp, hname, he⟩
    exact ⟨i, b, name, hb, halive, t, ht, hexp, hname, he⟩
  · rintro ⟨i, b, name, hb, halive, t, ht, hexp, hname, he⟩
    exact ⟨i, b, t, name, hb, halive, ht, hexp, hname, he⟩

theorem Listed.name {g : Global} {i : Fin maxBackends} {b : Backend} {name : CStr} {e : Json}
    (h : Listed g i b name e) :
    Json.string? (e.getObjectItemCaseSensitive (ascii "name")) =
      some (prefixedName b.nsPrefix name) := by
  obtain ⟨t, -, -, hname, rfl⟩ := h.entry
  rw [mergedEntry_name hname]
  rfl

/-! ## Decoding -/

/-- The buffer holds the whole formatted name. -/
def Fits (p name : CStr) : Prop := p.length + 2 + name.length ≤ 127

instance (p name : CStr) : Decidable (Fits p name) := inferInstanceAs (Decidable (_ ≤ _))

/-- The part of the tool's name the buffer keeps is all of it exactly when it fits. -/
theorem cut_eq_iff {p : CStr} (hp : p.length ≤ 35) (name : CStr) :
    snprintf (126 - p.length) name = name ↔ Fits p name := by
  rw [snprintf_eq_iff (by omega), Fits]
  omega

theorem cut_ne_nil {p name : CStr} (hp : p.length ≤ 35) (hne : name ≠ []) :
    snprintf (126 - p.length) name ≠ [] := by
  obtain ⟨n, hn⟩ := Nat.exists_eq_succ_of_ne_zero (n := 126 - p.length - 1) (by omega)
  cases name with
  | nil => exact absurd rfl hne
  | cons c name => simp [snprintf, hn]

theorem findByPrefix_prefixed {g : Global} (hd : DistinctPrefixes g) {i : Fin maxBackends}
    {b : Backend} (hb : g.backends i = some b) (ha : b.alive = true) (rest : CStr) :
    findByPrefix g (b.nsPrefix ++ rest) b.nsPrefix.length = some i := by
  refine Slots.findUsed_eq hb (by simp [ha]) fun j b' hj hm => ?_
  simp only [List.take_left', Bool.and_eq_true, decide_eq_true_eq] at hm
  exact hd j i b' hj b hb hm.1.1 ha hm.2

/-- The cut at the first separator undoes the format, up to what the buffer lost. -/
theorem route_prefixedName {g : Global} (hd : DistinctPrefixes g) {i : Fin maxBackends}
    {b : Backend} (hb : g.backends i = some b) (ha : b.alive = true) (hp : GoodPrefix b.nsPrefix)
    {name : CStr} (hne : name ≠ []) :
    route g (prefixedName b.nsPrefix name) =
      .backend i b (snprintf (126 - b.nsPrefix.length) name) := by
  have hcut := cut_ne_nil hp.len hne
  generalize hbare : snprintf (126 - b.nsPrefix.length) name = bare at hcut
  have hfull : prefixedName b.nsPrefix name = b.nsPrefix ++ (nsSep ++ bare) := by
    rw [prefixedName_eq hp.len, hbare, List.append_assoc]
  have hsep : strstr nsSep (b.nsPrefix ++ (nsSep ++ bare)) = some b.nsPrefix.length :=
    strstr_sep hp.underscore_notMem bare
  have hdrop : (b.nsPrefix ++ (nsSep ++ bare)).drop (b.nsPrefix.length + 2) = bare := by
    rw [← List.append_assoc]
    exact List.drop_left' (by rw [List.length_append]; rfl)
  have hlen : b.nsPrefix.length ≠ 0 := by simpa using hp.ne_nil
  unfold route
  rw [hfull, hsep]
  simp only [hdrop, hlen, hcut, or_self, if_false, findByPrefix_prefixed hd hb ha, hb]

/-- A formatted name that fits is the built-in's only for `workspace` and `list_apps`. -/
theorem prefixedName_eq_listApps_iff {p name : CStr} (hp : GoodPrefix p) (hfit : Fits p name) :
    prefixedName p name = listAppsName ↔ p = ascii "workspace" ∧ name = ascii "list_apps" := by
  have heq : prefixedName p name = p ++ (nsSep ++ name) := by
    rw [prefixedName_eq hp.len, (cut_eq_iff hp.len name).mpr hfit, List.append_assoc]
  constructor
  · intro h
    have hp' : p ∈ reserved := by
      by_contra hr
      exact prefixedName_ne_listApps hp hr name h
    rw [heq] at h
    rcases List.mem_pair.mp hp' with rfl | rfl
    · have hhead : some (0x73 : UInt8) = listAppsName.head? := congrArg List.head? h
      exact absurd hhead (by decide)
    · exact ⟨rfl, List.append_cancel_left (List.append_cancel_left h)⟩
  · rintro ⟨rfl, rfl⟩
    rw [heq]
    rfl

/-! ## Forwarding -/

/-- A frame with these parameters is sent on to the connection as a call of `name` with
    `args`. -/
def ForwardedAs (s : Sys) (frame : Json) (ok : Bool) (c : ConnId) (name : CStr)
    (args : Option Json) : Prop :=
  ∃ req params, s.sent (.agentFrame (some frame) ok) = some (c, req) ∧
    Json.string? (req.getObjectItemCaseSensitive (ascii "method")) = some (ascii "tools/call") ∧
    req.getObjectItemCaseSensitive (ascii "params") = some params ∧
    Json.string? (params.getObjectItemCaseSensitive (ascii "name")) = some name ∧
    params.getObjectItemCaseSensitive (ascii "arguments") = args

/-- The members of a forwarded request, as the backend reads them. -/
theorem forwardRequest_read (localId : Nat) (bare : CStr) (args : Option Json) :
    ∃ params,
      Json.string? ((forwardRequest localId bare args).reparse.getObjectItemCaseSensitive
        (ascii "method")) = some (ascii "tools/call") ∧
      (forwardRequest localId bare args).reparse.getObjectItemCaseSensitive (ascii "params") =
        some params ∧
      Json.string? (params.getObjectItemCaseSensitive (ascii "name")) = some bare ∧
      params.getObjectItemCaseSensitive (ascii "arguments") = args.map Json.reparse := by
  have h1 : ¬ ascii "jsonrpc" = ascii "method" := by decide
  have h2 : ¬ ascii "id" = ascii "method" := by decide
  have h3 : ¬ ascii "jsonrpc" = ascii "params" := by decide
  have h4 : ¬ ascii "id" = ascii "params" := by decide
  have h5 : ¬ ascii "method" = ascii "params" := by decide
  have h6 : ¬ ascii "name" = ascii "arguments" := by decide
  cases args with
  | none =>
      simp [forwardRequest, fields, text, Json.getObjectItem_obj_cons, Json.string?, h1, h2, h3,
        h4, h5, h6]
  | some a =>
      simp [forwardRequest, fields, text, Json.getObjectItem_obj_cons, Json.string?, h1, h2, h3,
        h4, h5, h6]

/-- What a call of a listed entry does, by the four things that can stop it. -/
theorem handleToolsCall_listed {g : Global} (hd : DistinctPrefixes g) {i : Fin maxBackends}
    {b : Backend} (hb : g.backends i = some b) (ha : b.alive = true) (hp : GoodPrefix b.nsPrefix)
    {name : CStr} (hne : name ≠ []) (seq : Nat) (id : Json) {params : Option Json} (ok : Bool)
    (hfull : Json.string? (params.bind (·.getObjectItemCaseSensitive (ascii "name"))) =
      some (prefixedName b.nsPrefix name)) :
    (handleToolsCall g seq id params ok).sent =
      if prefixedName b.nsPrefix name ≠ listAppsName ∧ g.inflight.firstFree ≠ none ∧ ok = true then
        some (b.conn, (forwardRequest ((g.nextLocalId + 1) % 2 ^ 64)
          (snprintf (126 - b.nsPrefix.length) name)
          (params.bind (·.getObjectItemCaseSensitive (ascii "arguments")))).reparse)
      else none := by
  unfold handleToolsCall
  rw [hfull]
  simp only
  by_cases hbuiltin : prefixedName b.nsPrefix name = listAppsName
  · simp [hbuiltin]
  · rw [if_neg hbuiltin, route_prefixedName hd hb ha hp hne]
    simp only [inflightAlloc]
    cases hf : g.inflight.firstFree with
    | none => simp
    | some k => cases ok <;> simp [hbuiltin]

/-- List/call coherence. In every reachable state whose live prefixes are distinct, a listed entry
    is one of the surface, and a call by its name goes to the entry's backend under the tool's own
    name with the arguments unchanged, exactly when the formatted name fits its buffer, is not the
    built-in's, an in-flight slot is free, the write succeeds and the arguments print back. -/
theorem list_call_coherence {s : Sys} (h : Reach aggregator s) (hd : DistinctPrefixes s.g)
    {i : Fin maxBackends} {b : Backend} {name : CStr} {e : Json} (hl : Listed s.g i b name e)
    (hne : name ≠ []) {frame id : Json} {params : Option Json} {full : CStr}
    (hreq : requestOf (some frame) = some (ascii "tools/call", id, params))
    (hfull : Json.string? (params.bind (·.getObjectItemCaseSensitive (ascii "name"))) = some full)
    (hentry : Json.string? (e.getObjectItemCaseSensitive (ascii "name")) = some full) (ok : Bool) :
    e ∈ buildMergedTools s.g ∧
      (ForwardedAs s frame ok b.conn name
          (params.bind (·.getObjectItemCaseSensitive (ascii "arguments"))) ↔
        Fits b.nsPrefix name ∧ ¬ (b.nsPrefix = ascii "workspace" ∧ name = ascii "list_apps") ∧
          (∃ k, s.g.inflight k = none) ∧ ok = true ∧
          ∀ a ∈ params.bind (·.getObjectItemCaseSensitive (ascii "arguments")),
            a.reparse = a) := by
  refine ⟨mem_buildMergedTools_listed.mpr (Or.inr ⟨i, b, name, hl⟩), ?_⟩
  have hp := (prefixes_reach h).2 i b hl.slot
  rw [hl.name] at hentry
  cases hentry
  generalize hargs : params.bind (·.getObjectItemCaseSensitive (ascii "arguments")) = args
  have hsent : s.sent (.agentFrame (some frame) ok) =
      (handleToolsCall s.g s.frames.length id params ok).sent := by
    have h1 : ¬ ascii "tools/call" = ascii "initialize" := by decide
    have h2 : ¬ ascii "tools/call" = ascii "ping" := by decide
    have h3 : ¬ ascii "tools/call" = ascii "tools/list" := by decide
    simp [Sys.sent, handleAgentFrame, hreq, h1, h2, h3]
  rw [handleToolsCall_listed hd hl.slot hl.alive hp hne _ _ ok hfull, hargs] at hsent
  obtain ⟨params', hmethod, hparams, hname, harg⟩ := forwardRequest_read
    ((s.g.nextLocalId + 1) % 2 ^ 64) (snprintf (126 - b.nsPrefix.length) name) args
  have hback : args.map Json.reparse = args ↔ ∀ a ∈ args, a.reparse = a := by
    cases args <;> simp
  have hfree : s.g.inflight.firstFree ≠ none ↔ ∃ k, s.g.inflight k = none := by
    rw [← Slots.firstFree_isSome, Option.isSome_iff_ne_none]
  rw [← hback, ← hfree]
  constructor
  · rintro ⟨req, params'', hs, -, hparams', hname', harg'⟩
    rw [hsent] at hs
    split at hs
    · next hc =>
        obtain ⟨hbuiltin, hslot, hok⟩ := hc
        cases hs
        rw [hparams] at hparams'
        cases hparams'
        have hfit := (cut_eq_iff hp.len name).mp (Option.some.inj (hname.symm.trans hname'))
        refine ⟨hfit, ?_, hslot, hok, harg.symm.trans harg'⟩
        rwa [← prefixedName_eq_listApps_iff hp hfit]
    · cases hs
  · rintro ⟨hfit, hbuiltin, hslot, hok, hprint⟩
    rw [← prefixedName_eq_listApps_iff hp hfit] at hbuiltin
    rw [if_pos ⟨hbuiltin, hslot, hok⟩] at hsent
    rw [(cut_eq_iff hp.len name).mpr hfit] at hname
    exact ⟨_, params', hsent, hmethod, hparams, hname, harg.trans hprint⟩

/-- An app with these tools joins. -/
def oneApp (tools : List Json) : List Act :=
  joins 5 0 1 "viewer" (helloResult "viewer") (fields [("tools", .arr tools)])

/-- An exposed tool whose name is given in bytes. -/
def toolNamed (name : CStr) : Json :=
  fields [("name", .str name), ("_meta", fields [("displayxr/group", text "app")])]

/-- The parameters of a call by this name. -/
def callParams (full : CStr) : Json :=
  fields [("name", .str full), ("arguments", fields [("x", Json.ofNat 3)])]

/-- A `tools/call` of the agent with these parameters. -/
def callWith (id : Nat) (params : Json) : Json :=
  fields [("jsonrpc", text "2.0"), ("id", Json.ofNat id), ("method", text "tools/call"),
    ("params", params)]

/-- The tool `_zoom_`, underscores and all. -/
theorem list_call_coherence_underscores : ∃ t b,
    follow Sys.next (Sys.start plainPlatform false) (oneApp [toolNamed (ascii "_zoom_")]) = some t ∧
    t.g.backends 0 = some b ∧
    ForwardedAs t (callWith 7 (callParams (ascii "viewer___zoom_"))) true b.conn (ascii "_zoom_")
      (some (fields [("x", Json.ofNat 3)])) := by
  have hrun : ((follow Sys.next (Sys.start plainPlatform false)
      (oneApp [toolNamed (ascii "_zoom_")])).bind fun t =>
        (t.g.backends 0).map fun b => decide (DistinctPrefixes t.g ∧ b.alive = true ∧
          b.nsPrefix = ascii "viewer" ∧ b.tools = [toolNamed (ascii "_zoom_")] ∧
          t.g.exposeDiagnostics = false ∧ t.g.inflight 0 = none)) = some true := by
    decide +kernel
  obtain ⟨t, ht, hrun⟩ := Option.bind_eq_some_iff.mp hrun
  obtain ⟨b, hb, hrun⟩ := Option.map_eq_some_iff.mp hrun
  obtain ⟨hd, ha, hp, htools, hexp, hfree⟩ := of_decide_eq_true hrun
  have hl : Listed t.g 0 b (ascii "_zoom_")
      (mergedEntry (ascii "viewer") (ascii "_zoom_") (toolNamed (ascii "_zoom_"))) := by
    refine ⟨hb, ha, toolNamed (ascii "_zoom_"), ?_, ?_, by decide +kernel, ?_⟩
    · rw [htools]; exact List.mem_singleton.mpr rfl
    · rw [hexp]; decide +kernel
    · rw [hp]
  have hreq : requestOf (some (callWith 7 (callParams (ascii "viewer___zoom_")))) =
      some (ascii "tools/call", Json.ofNat 7, some (callParams (ascii "viewer___zoom_"))) := by
    decide +kernel
  have hfull : Json.string? ((some (callParams (ascii "viewer___zoom_"))).bind
      (·.getObjectItemCaseSensitive (ascii "name"))) = some (ascii "viewer___zoom_") := by
    decide +kernel
  refine ⟨t, b, ht, hb, (list_call_coherence (reach_of_follow ht fun _ _ => trivial) hd hl
    (by decide) hreq hfull (by decide +kernel) true).2.mpr ?_⟩
  rw [hp]
  exact ⟨by decide, by decide, ⟨0, hfree⟩, rfl, by decide +kernel⟩

/-- A tool name of 120 bytes, one more than the buffer has room for behind `viewer__`. -/
def longName : CStr := List.replicate 120 0x61

/-- The listed entry of a long tool name is called as another tool. -/
theorem list_call_coherence_longName : ∃ t b e, Reach aggregator t ∧ DistinctPrefixes t.g ∧
    Listed t.g 0 b longName e ∧ b.isShell = false ∧ (∃ k, t.g.inflight k = none) ∧
    (∃ full, Json.string? (e.getObjectItemCaseSensitive (ascii "name")) = some full ∧
      ForwardedAs t (callWith 7 (callParams full)) true b.conn (longName.take 119)
        (some (fields [("x", Json.ofNat 3)])) ∧
      ¬ ForwardedAs t (callWith 7 (callParams full)) true b.conn longName
        (some (fields [("x", Json.ofNat 3)]))) := by
  have hrun : ((follow Sys.next (Sys.start plainPlatform false)
      (oneApp [toolNamed longName])).bind fun t =>
        (t.g.backends 0).map fun b => decide (DistinctPrefixes t.g ∧ b.alive = true ∧
          b.isShell = false ∧ b.nsPrefix = ascii "viewer" ∧ b.tools = [toolNamed longName] ∧
          t.g.exposeDiagnostics = false ∧ t.g.inflight 0 = none ∧
          t.sent (.agentFrame (some (callWith 7
            (callParams (ascii "viewer__" ++ longName.take 119)))) true) =
              some (b.conn, (forwardRequest 1 (longName.take 119)
                (some (fields [("x", Json.ofNat 3)]))).reparse))) = some true := by
    decide +kernel
  obtain ⟨t, ht, hrun⟩ := Option.bind_eq_some_iff.mp hrun
  obtain ⟨b, hb, hrun⟩ := Option.map_eq_some_iff.mp hrun
  obtain ⟨hd, ha, hsh, hp, htools, hexp, hfree, hsent⟩ := of_decide_eq_true hrun
  have hname : Json.string? ((toolNamed longName).getObjectItemCaseSensitive (ascii "name")) =
      some longName := by
    decide +kernel
  have hl : Listed t.g 0 b longName
      (mergedEntry b.nsPrefix longName (toolNamed longName)) := by
    refine ⟨hb, ha, toolNamed longName, ?_, ?_, hname, rfl⟩
    · rw [htools]; exact List.mem_singleton.mpr rfl
    · rw [hexp]; decide +kernel
  have hcut : prefixedName b.nsPrefix longName = ascii "viewer__" ++ longName.take 119 := by
    rw [hp]
    decide
  obtain ⟨params, hmethod, hparams, hbare, hargs⟩ := forwardRequest_read 1 (longName.take 119)
    (some (fields [("x", Json.ofNat 3)]))
  refine ⟨t, b, _, reach_of_follow ht fun _ _ => trivial, hd, hl, hsh, ⟨0, hfree⟩, _,
    hl.name.trans (congrArg some hcut), ?_, ?_⟩
  · refine ⟨_, params, hsent, hmethod, hparams, hbare, hargs.trans ?_⟩
    decide +kernel
  · rintro ⟨req, params', hs, -, hparams', hname', -⟩
    rw [hsent] at hs
    cases hs
    rw [hparams] at hparams'
    cases hparams'
    rw [hbare] at hname'
    exact absurd (congrArg List.length (Option.some.inj hname')) (by decide)

end DisplayxrMcp
