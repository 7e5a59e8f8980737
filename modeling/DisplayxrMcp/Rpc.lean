/-
  JSON-RPC messages, as both programs of the repository build and read them.

  The envelope, error and result builders of src/mcp_server.c and of
  adapter/workspace_aggregator.c differ in name only; each program keeps its own
  definitions, which apply the ones here.
-/
import DisplayxrMcp.Cjson.Json

namespace DisplayxrMcp

open Lib Cjson

/-- A connection, numbered in the order of connecting. -/
abbrev ConnId := Nat

/-- What a read on a connection yields: NULL, text that does not parse, or a message. -/
inductive Inbound where
  | eof
  | junk
  | msg (j : Json)
  deriving DecidableEq

/-- `obj` with literal keys. -/
def fields (ms : List (String × Json)) : Json := .obj (ms.map fun m => (ascii m.1, m.2))

def text (s : String) : Json := .str (ascii s)

/-- The members of a reply envelope: `jsonrpc`, then the id when there is one. -/
def envelope (id : Option Json) : List (CStr × Json) :=
  (ascii "jsonrpc", text "2.0") :: (match id with
    | some id => [(ascii "id", id)]
    | none => [])

/-- An error reply. -/
def errorReply (id : Option Json) (code : ℤ) (message : String) : Json :=
  .obj (envelope id ++ [(ascii "error",
    fields [("code", .num (.fin code)), ("message", text message)])])

/-- A result reply; a NULL result becomes an empty object. -/
def resultReply (id : Option Json) (result : Option Json) : Json :=
  .obj (envelope id ++ [(ascii "result", result.getD (.obj []))])

/-- The `list_changed` notification. -/
def listChanged : Json :=
  fields [("jsonrpc", text "2.0"), ("method", text "notifications/tools/list_changed")]

/-- The `id` of a message. -/
def idOf (j : Json) : Option Json := j.getObjectItemCaseSensitive (ascii "id")

@[simp] theorem idOf_errorReply (id : Json) (code : ℤ) (message : String) :
    idOf (errorReply (some id) code message) = some id := by
  have hne : ¬ ascii "jsonrpc" = ascii "id" := by decide
  simp [idOf, errorReply, envelope, Json.getObjectItem_obj_cons, hne]

@[simp] theorem idOf_resultReply (id : Json) (result : Option Json) :
    idOf (resultReply (some id) result) = some id := by
  have hne : ¬ ascii "jsonrpc" = ascii "id" := by decide
  simp [idOf, resultReply, envelope, Json.getObjectItem_obj_cons, hne]

theorem idOf_reparse (j : Json) : idOf j.reparse = (idOf j).map Json.reparse :=
  Json.getObjectItem_reparse j _

end DisplayxrMcp
