/-
  The backend side: teardown, refresh, apply_tools_result, the reader's message
  handling, and registration (adapter/workspace_aggregator.c, "backend teardown",
  "backend reader", "backend setup", "membership poll").

  Each function is one critical section under `g.lock`. The step relation that
  schedules them is in `System`.
-/
import DisplayxrMcp.Aggregator.Prefix
import DisplayxrMcp.Aggregator.Tools

namespace DisplayxrMcp

open Lib Cjson

/-! ## Teardown -/

/-- The reply a lost call gets. -/
def exitedError (id : Option Json) : Json :=
  jsonrpcErrorStr id (-32000) "backend exited with the call in flight"

/-- One iteration of the loop of `backend_teardown_locked`. -/
def teardownSlot (idx : Fin maxBackends) (acc : Global × List OutFrame) (i : Fin maxInflight) :
    Global × List OutFrame :=
  match acc.1.inflight i with
  | none => acc
  | some fl =>
      if fl.backend = idx then
        (inflightRelease acc.1 i,
          match fl.kind with
          | .agent => acc.2 ++ [⟨fl.seq, (exitedError fl.origId).reparse⟩]
          | .toolsRefresh => acc.2)
      else acc

/-- `backend_teardown_locked`: the state, and the frames written to stdout. -/
def backendTeardownLocked (g : Global) (idx : Fin maxBackends) : Global × List OutFrame :=
  let (g', out) := (List.finRange maxInflight).foldl (teardownSlot idx) (g, [])
  ({ g' with backends := g'.backends.clear idx }, out)

/-! ## Refresh -/

/-- The `tools/list` request of a refresh; its id is formatted with `%llu`. -/
def refreshRequest (localId : Nat) : Json :=
  fields [("jsonrpc", text "2.0"), ("id", Json.ofNat localId), ("method", text "tools/list")]

theorem idOf_refreshRequest (localId : Nat) :
    idOf (refreshRequest localId) = some (Json.ofNat localId) := by
  have hne : ¬ ascii "jsonrpc" = ascii "id" := by decide
  simp [idOf, refreshRequest, fields, Json.getObjectItem_obj_cons, hne]

/-- `refresh_backend_tools`; `ok` is the outcome of the write. -/
def refreshBackendTools (g : Global) (idx : Fin maxBackends) (ok : Bool) :
    Global × Option (ConnId × Json) :=
  match g.backends idx with
  | none => (g, none)
  | some b =>
      if b.alive then
        match inflightAlloc g idx .toolsRefresh none none with
        | none => (g, none)
        | some (i, fl, g') =>
            if ok then (g', some (b.conn, refreshRequest fl.localId))
            else (inflightRelease g' i, none)
      else (g, none)

/-- The id of a `tools/list` result's `_meta`. -/
def metaAppId (result : Json) : Option CStr :=
  Json.string? ((result.getObjectItemCaseSensitive (ascii "_meta")).bind
    (·.getObjectItemCaseSensitive (ascii "displayxr/appId")))

/-- The slug an application of `result` to backend `b` assigns a prefix for, if it does. -/
def reprefixSlug (b : Backend) (result : Json) : Option CStr :=
  match metaAppId result with
  | some appId =>
      if b.isShell = false ∧ b.appId ≠ appId then some (slugify (snprintf 33 appId) 40) else none
  | none => none

/-- The cached array a response gives. -/
def toolsOf (result : Option Json) : List Json :=
  (Json.items? (result.bind (·.getObjectItemCaseSensitive (ascii "tools")))).getD []

/-- `apply_tools_result`; `none` when it returns false. -/
def applyToolsResult (g : Global) (idx : Fin maxBackends) (result : Json) : Option Global :=
  match g.backends idx with
  | none => none
  | some b =>
      let b := { b with tools := toolsOf (some result) }
      match reprefixSlug b result with
      | none => some { g with backends := g.backends.put idx b }
      | some slug =>
          let (p, used) := assignPrefix g.usedPrefixes slug 40
          let b := { b with appId := snprintf 33 ((metaAppId result).getD []), nsPrefix := p }
          some { g with backends := g.backends.put idx b, usedPrefixes := used }

/-! ## Reader -/

/-- Where a reader's loop stands. -/
inductive ReaderPc where
  | top
  | read (c : ConnId)
  | refresh
  | lookup (d : Dbl) (msg : Json)
  | apply (result : Json)
  | relay (seq : Option Nat) (body : Json)
  | emitCheck
  | emitWrite
  | dying

/-- The loop body on a parsed message, up to the next use of the lock. -/
def onMessage (msg : Json) : ReaderPc :=
  match idOf msg, Json.string? (msg.getObjectItemCaseSensitive (ascii "method")) with
  | none, some method =>
      if method = ascii "notifications/tools/list_changed" then .refresh else .top
  | id, _ =>
      match Json.number? id with
      | some d => .lookup d msg
      | none => .top

/-- The agent response with the agent's id put back. -/
def restoreId (msg : Json) (origId : Option Json) : Json :=
  match origId with
  | some o => msg.replaceItemInObjectCaseSensitive (ascii "id") o
  | none => msg

/-- The table lookup of `backend_reader`, and what the reader does with the message. The
    slot is released before its owner is compared with `idx`. -/
def readerLookup (g : Global) (idx : Fin maxBackends) (d : Dbl) (msg : Json) :
    Global × ReaderPc :=
  match inflightFind g (castU64 g.platform.castUb d) with
  | none => (g, .top)
  | some i => match g.inflight i with
    | none => (g, .top)
    | some fl =>
        (inflightRelease g i,
          if fl.backend ≠ idx then .top
          else match fl.kind with
            | .toolsRefresh =>
                match msg.getObjectItemCaseSensitive (ascii "result") with
                | some result => .apply result
                | none => .top
            | .agent => .relay fl.seq (restoreId msg fl.origId))

/-! ## Setup -/

/-- The two requests of the handshake. -/
inductive Phase where
  | hello
  | list (appId : CStr)

/-- Where a setup thread stands. `guard` counts the frames `sync_request` has read. -/
inductive SetupPc where
  | connect
  | send (c : ConnId) (ph : Phase)
  | recv (c : ConnId) (ph : Phase) (guard : Nat)
  | initialized (c : ConnId) (appId : CStr)
  | register (c : ConnId) (appId : CStr) (resp : Json)
  | remove (registered : Bool)

/-- `want_id` of the request. -/
def Phase.wantId : Phase → Nat
  | .hello => 1
  | .list _ => 2

/-- The request text of a phase. -/
def Phase.request : Phase → Json
  | .hello => fields [("jsonrpc", text "2.0"), ("id", Json.ofNat 1), ("method", text "initialize"),
      ("params", fields [("protocolVersion", text "2024-11-05"),
        ("clientInfo", fields [("name", text "displayxr-mcp-workspace")])])]
  | .list _ => fields [("jsonrpc", text "2.0"), ("id", Json.ofNat 2), ("method", text "tools/list")]

/-- `notifications/initialized`. -/
def initializedNote : Json :=
  fields [("jsonrpc", text "2.0"), ("method", text "notifications/initialized")]

theorem idOf_request (ph : Phase) : idOf ph.request = some (Json.ofNat ph.wantId) := by
  have hne : ¬ ascii "jsonrpc" = ascii "id" := by decide
  cases ph <;>
    simp [idOf, Phase.request, Phase.wantId, fields, Json.getObjectItem_obj_cons, hne]

theorem idOf_initializedNote : idOf initializedNote = none := by
  have hne : ¬ ascii "jsonrpc" = ascii "id" := by decide
  have hne' : ¬ ascii "method" = ascii "id" := by decide
  simp [idOf, initializedNote, fields, Json.getObjectItem_obj_cons, hne, hne']

/-- `serverInfo.appId` of an `initialize` response, cut to the 33-byte buffer. -/
def helloAppId (resp : Json) : CStr :=
  match Json.string? ((resp.getObjectItemCaseSensitive (ascii "result")).bind fun r =>
      (r.getObjectItemCaseSensitive (ascii "serverInfo")).bind
        (·.getObjectItemCaseSensitive (ascii "appId"))) with
  | some s => snprintf 33 s
  | none => []

/-- The app id recorded at registration: the `initialize` one, else the `tools/list` one. -/
def joinAppId (appId : CStr) (resp : Json) : CStr :=
  if appId = [] then
    match (resp.getObjectItemCaseSensitive (ascii "result")).bind metaAppId with
    | some s => snprintf 33 s
    | none => []
  else appId

/-- The loop of `sync_request` on one frame. -/
def syncStep (c : ConnId) (ph : Phase) (guard : Nat) (f : Inbound) : SetupPc :=
  match f with
  | .eof => .remove false
  | .junk => .remove false
  | .msg j =>
      if Json.number? (idOf j) = some (.fin ph.wantId) then
        match ph with
        | .hello => .initialized c (helloAppId j)
        | .list appId => .register c (joinAppId appId j) j
      else if guard + 1 < 16 then .recv c ph (guard + 1)
      else .remove false

/-- `exe_basename_for_pid` on the path the system reports (empty when there is none). -/
def exeBasename (path : CStr) (cap : Nat) : CStr :=
  let out := snprintf cap (path.rtakeWhile fun c => c != 0x2f && c != 0x5c)
  if out.length > 4 ∧ (out.drop (out.length - 4)).map toLower = ascii ".exe" then
    out.take (out.length - 4)
  else out

/-- The slug an app backend asks a prefix for when it joins. -/
def joinSlug (appId : CStr) (exe : CStr) : CStr :=
  if appId ≠ [] then slugify appId 40
  else if exeBasename exe 64 ≠ [] then slugify (exeBasename exe 64) 40
  else ascii "app"

/-- The registration block of `backend_setup`: slot, entry and registry; `none` at the limit. -/
def backendRegister (g : Global) (isShell : Bool) (pid : ℤ) (c : ConnId) (appId : CStr)
    (resp : Json) (exe : CStr) : Option (Fin maxBackends × Global) :=
  match g.backends.firstFree with
  | none => none
  | some idx =>
      let b : Backend := ⟨true, isShell, pid, [], snprintf 33 appId, c,
        toolsOf (resp.getObjectItemCaseSensitive (ascii "result"))⟩
      if isShell then
        some (idx, { g with backends := g.backends.put idx { b with nsPrefix := ascii "shell" } })
      else
        let (p, used) := assignPrefix g.usedPrefixes (joinSlug appId exe) 40
        some (idx, { g with
          backends := g.backends.put idx { b with nsPrefix := p }
          usedPrefixes := used })

/-! ## Membership -/

/-- `backend_known`. -/
def backendKnown (g : Global) (isShell : Bool) (pid : ℤ) : Bool :=
  ((List.finRange maxBackends).any fun i => match g.backends i with
    | none => false
    | some b => if isShell then b.isShell else !b.isShell && decide (b.pid = pid)) ||
  (if isShell then g.shellConnecting else g.connecting.any fun p => decide (p = pid))

/-- `connecting_remove`. -/
def connectingRemove (g : Global) (isShell : Bool) (pid : ℤ) : Global :=
  if isShell then { g with shellConnecting := false }
  else match g.connecting.findIdx? (fun p => decide (p = pid)), g.connecting.getLast? with
    | some i, some last => { g with connecting := (g.connecting.set i last).dropLast }
    | _, _ => g

/-- One enumerated pid in the poll loop; the accumulator is the state and `fresh`. -/
def pollPid (self : ℤ) (acc : Global × List ℤ) (pid : ℤ) : Global × List ℤ :=
  if pid = self then acc
  else if backendKnown acc.1 false pid = false ∧ acc.1.connecting.length < maxBackends then
    ({ acc.1 with connecting := acc.1.connecting ++ [pid] }, acc.2 ++ [pid])
  else acc

/-- The locked part of a poll iteration: the state, the fresh pids, and `try_shell`. -/
def pollScan (g : Global) (pids : List ℤ) (self : ℤ) : Global × List ℤ × Bool :=
  let (g, fresh) := pids.foldl (pollPid self) (g, [])
  if backendKnown g true 0 then (g, fresh, false)
  else ({ g with shellConnecting := true }, fresh, true)

end DisplayxrMcp
