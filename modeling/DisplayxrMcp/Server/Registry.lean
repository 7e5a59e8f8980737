/-
  The server's tool registry and its replies (src/mcp_server.c, "JSON-RPC
  helpers", "Tool registry", "MCP protocol methods").

  A `Registry` is what `tools_mutex` protects, with its two bounds as fields:
  at most `maxTools` descriptors, and an app id that is empty or a valid slug.
  Each mutator returns the new registry and whether it changed anything, which
  is what decides about the notification.
-/
import DisplayxrMcp.Rpc
import DisplayxrMcp.Aggregator.Prefix

namespace DisplayxrMcp.Server

open Lib Cjson

abbrev maxTools : Nat := 64

/-- `enum mcp_tool_group`. -/
inductive ToolGroup where
  | diagnostic
  | app
  | workspace
  | capture
  deriving DecidableEq

/-- `group_name`. -/
def groupName : ToolGroup → CStr
  | .app => ascii "app"
  | .workspace => ascii "workspace"
  | .capture => ascii "capture"
  | .diagnostic => ascii "diagnostic"

/-- `struct mcp_tool` as `tools/list` shows it. `inputSchema` is the parsed schema text, `none`
    when there is none or it does not parse. -/
structure Tool where
  name : CStr
  description : Option CStr
  inputSchema : Option Json
  group : ToolGroup
  deriving DecidableEq

/-- `app_id_valid`. -/
def appIdValid (id : CStr) : Bool :=
  match id with
  | [] => false
  | c :: rest =>
      decide (id.length ≤ 32) && isAlnum c && rest.all fun c => isAlnum c || c == dash

/-- `snprintf` into `app_id[33]` keeps a valid id whole. -/
theorem snprintf_appId {id : CStr} (h : appIdValid id = true) : snprintf 33 id = id := by
  refine snprintf_of_length_lt ?_
  cases id with
  | nil => exact Nat.zero_lt_succ 32
  | cons c rest =>
      simp only [appIdValid, Bool.and_eq_true, decide_eq_true_eq] at h
      exact Nat.lt_succ_of_le h.1.1

/-- What `tools_mutex` protects, and `DISPLAYXR_MCP_VERSION`, a string literal of the build. -/
structure Registry where
  version : CStr
  tools : List Tool
  appId : CStr
  literal : 0 ∉ version
  room : tools.length ≤ maxTools
  slug : appId = [] ∨ appIdValid appId = true

/-- The registry of a fresh process. -/
def Registry.empty : Registry :=
  ⟨ascii "0.3.2", [], [], by decide, Nat.zero_le _, Or.inl rfl⟩

/-- `mcp_server_register_tool`: append, unless the table is full. -/
def registerTool (r : Registry) (tool : Tool) : Registry × Bool :=
  if h : r.tools.length < maxTools then
    ({ r with
        tools := r.tools ++ [tool]
        room := by rw [List.length_append, List.length_singleton]; exact h }, true)
  else (r, false)

/-- `mcp_server_unregister_tool`: drop the first tool of that name. -/
def unregisterTool (r : Registry) (name : CStr) : Registry × Bool :=
  match r.tools.findIdx? fun t => decide (t.name = name) with
  | some i =>
      ({ r with
          tools := r.tools.eraseIdx i
          room := le_trans (List.eraseIdx_sublist _ _).length_le r.room }, true)
  | none => (r, false)

/-- `mcp_server_set_app_id`: ignored when invalid or already set. -/
def setAppId (r : Registry) (id : CStr) : Registry × Bool :=
  if h : appIdValid id = true then
    if r.appId ≠ id then
      ({ r with appId := snprintf 33 id, slug := Or.inr ((snprintf_appId h).symm ▸ h) }, true)
    else (r, false)
  else (r, false)

/-- `find_tool`. -/
def findTool (r : Registry) (name : CStr) : Option Tool :=
  r.tools.find? fun t => decide (t.name = name)

/-- A mutator that reports no change has made none. -/
theorem registerTool_same {r : Registry} {tool : Tool} (h : (registerTool r tool).2 = false) :
    (registerTool r tool).1 = r := by
  unfold registerTool at h ⊢
  split at h
  · cases h
  · next hfull => rw [dif_neg hfull]

theorem unregisterTool_same {r : Registry} {name : CStr}
    (h : (unregisterTool r name).2 = false) : (unregisterTool r name).1 = r := by
  unfold unregisterTool at h ⊢
  cases hf : r.tools.findIdx? fun t => decide (t.name = name) with
  | none => rfl
  | some i => rw [hf] at h; cases h

theorem setAppId_same {r : Registry} {id : CStr} (h : (setAppId r id).2 = false) :
    (setAppId r id).1 = r := by
  unfold setAppId at h ⊢
  split at h
  · next hvalid =>
      split at h
      · cases h
      · next hsame => rw [dif_pos hvalid, if_neg hsame]
  · next hinvalid => rw [dif_neg hinvalid]

/-! ## Replies -/

/-- `jsonrpc_result`. -/
def jsonrpcResult (id : Json) (result : Json) : Json := resultReply (some id) (some result)

/-- `jsonrpc_error`. -/
def jsonrpcError (id : Option Json) (code : ℤ) (message : String) : Json :=
  errorReply id code message

/-- An optional member. -/
def optField (name : String) (v : Option Json) : List (CStr × Json) :=
  match v with
  | some j => [(ascii name, j)]
  | none => []

/-- One element of `build_tools_list`. -/
def listEntry (t : Tool) : Json :=
  .obj ([(ascii "name", .str t.name)] ++ optField "description" (t.description.map .str) ++
    optField "inputSchema" t.inputSchema ++
    [(ascii "_meta", fields [("displayxr/group", .str (groupName t.group))])])

/-- `build_tools_list`. -/
def buildToolsList (r : Registry) : List Json := r.tools.map listEntry

/-- The result of `tools/list`. -/
def toolsListResult (tools : List Json) (appId : CStr) : Json :=
  .obj ((ascii "tools", .arr tools) ::
    optField "_meta" (if appId ≠ [] then some (fields [("displayxr/appId", .str appId)]) else none))

/-- The result of `initialize`. -/
def initializeResult (version appId : CStr) : Json :=
  fields [("protocolVersion", text "2024-11-05"),
    ("capabilities", fields [("tools", fields [("listChanged", .bool true)])]),
    ("serverInfo", .obj ([(ascii "name", text "displayxr-mcp"), (ascii "version", .str version)] ++
      optField "appId" (if appId ≠ [] then some (.str appId) else none)))]

/-- The result of `tools/call` around what the handler returned; `printed` is its text. -/
def callResult (printed : CStr) (inner : Json) : Json :=
  .obj ([(ascii "content", .arr [fields [("type", text "text"), ("text", .str printed)]])] ++
    optField "isError" (if inner.getObjectItemCaseSensitive (ascii "isError") = some (.bool true)
      then some (.bool true) else none) ++
    [(ascii "structured", inner)])

end DisplayxrMcp.Server
