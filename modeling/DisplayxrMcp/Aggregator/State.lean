/-
  The aggregator's global state and in-flight map
  (adapter/workspace_aggregator.c, "state", "JSON-RPC helpers", "in-flight map").

  `Global` is the static `g`: backend slots, in-flight slots, the local id
  counter, the prefix registry and the membership lists. A slot's `used` flag is
  the `Option` of the slot table: `memset` to zero is `none`. A connection is
  named by a number, in the order connections are made.

  `seq` of an in-flight slot and `answers` of a stdout frame are proof-only
  tags: the index of the agent frame the slot was taken for, and of the agent
  frame the reply is for. No definition branches on them.
-/
import DisplayxrMcp.Lib.Slots
import DisplayxrMcp.Rpc

namespace DisplayxrMcp

open Lib Cjson

abbrev maxBackends : Nat := 32
abbrev maxInflight : Nat := 128

/-- `struct backend` of a used slot. `tools` is the cached array (never NULL while used). -/
structure Backend where
  alive : Bool
  isShell : Bool
  pid : ℤ
  nsPrefix : CStr
  appId : CStr
  conn : ConnId
  tools : List Json

inductive InflightKind where
  | agent
  | toolsRefresh
  deriving DecidableEq

/-- `struct inflight` of a used slot. -/
structure Inflight where
  localId : Nat
  backend : Fin maxBackends
  kind : InflightKind
  origId : Option Json
  seq : Option Nat

/-- What the model leaves to the platform and to cJSON: `castUb` is the result of the
    conversions of a double to `uint64_t` that C leaves undefined, `printText` the text of
    `cJSON_PrintUnformatted` where it is embedded as a string, `version` is
    `DISPLAYXR_MCP_VERSION`. -/
structure Platform where
  castUb : Dbl → Nat
  printText : Json → CStr
  version : CStr

/-- The static state `g`. -/
structure Global where
  platform : Platform
  exposeDiagnostics : Bool
  agentInitialized : Bool
  backends : Slots maxBackends Backend
  inflight : Slots maxInflight Inflight
  nextLocalId : Nat
  usedPrefixes : List CStr
  connecting : List ℤ
  shellConnecting : Bool

/-- A frame written to stdout, as the agent reads it. -/
structure OutFrame where
  answers : Option Nat
  body : Json

/-! ## JSON-RPC helpers -/

/-- `jsonrpc_error_str`. -/
def jsonrpcErrorStr (id : Option Json) (code : ℤ) (message : String) : Json :=
  errorReply id code message

/-- `jsonrpc_result_str`; a NULL result becomes an empty object. -/
def jsonrpcResultStr (id : Option Json) (result : Option Json) : Json := resultReply id result

@[simp] theorem idOf_errorStr (id : Json) (code : ℤ) (message : String) :
    idOf (jsonrpcErrorStr (some id) code message) = some id := idOf_errorReply id code message

@[simp] theorem idOf_resultStr (id : Json) (result : Option Json) :
    idOf (jsonrpcResultStr (some id) result) = some id := idOf_resultReply id result

/-! ## In-flight map -/

/-- `inflight_alloc`: the first free slot, with the next local id. -/
def inflightAlloc (g : Global) (backend : Fin maxBackends) (kind : InflightKind)
    (origId : Option Json) (seq : Option Nat) : Option (Fin maxInflight × Inflight × Global) :=
  match g.inflight.firstFree with
  | none => none
  | some i =>
      let id := (g.nextLocalId + 1) % 2 ^ 64
      let fl : Inflight := ⟨id, backend, kind, origId, seq⟩
      some (i, fl, { g with nextLocalId := id, inflight := g.inflight.put i fl })

/-- `inflight_find`. -/
def inflightFind (g : Global) (localId : Nat) : Option (Fin maxInflight) :=
  g.inflight.findUsed fun fl => decide (fl.localId = localId)

/-- `inflight_release`. -/
def inflightRelease (g : Global) (i : Fin maxInflight) : Global :=
  { g with inflight := g.inflight.clear i }

@[simp] theorem inflightRelease_inflight (g : Global) (i : Fin maxInflight) :
    (inflightRelease g i).inflight = g.inflight.clear i := rfl

@[simp] theorem inflightRelease_backends (g : Global) (i : Fin maxInflight) :
    (inflightRelease g i).backends = g.backends := rfl

@[simp] theorem inflightRelease_nextLocalId (g : Global) (i : Fin maxInflight) :
    (inflightRelease g i).nextLocalId = g.nextLocalId := rfl

@[simp] theorem inflightRelease_usedPrefixes (g : Global) (i : Fin maxInflight) :
    (inflightRelease g i).usedPrefixes = g.usedPrefixes := rfl

@[simp] theorem inflightRelease_agentInitialized (g : Global) (i : Fin maxInflight) :
    (inflightRelease g i).agentInitialized = g.agentInitialized := rfl

theorem inflightFind_some {g : Global} {n : Nat} {i : Fin maxInflight}
    (h : inflightFind g n = some i) : ∃ fl, g.inflight i = some fl ∧ fl.localId = n := by
  obtain ⟨fl, hfl, hn⟩ := Slots.findUsed_some h
  exact ⟨fl, hfl, of_decide_eq_true hn⟩

end DisplayxrMcp
