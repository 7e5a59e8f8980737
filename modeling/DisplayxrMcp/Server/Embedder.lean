/-
  The embedder's calls: tools come and go, the server starts and stops
  (src/mcp_server.c, "Tool registry", "Public start/stop").

  `mcp_server_register_tool` appends and does not look for the name,
  `mcp_server_unregister_tool` drops one entry. A name is gone after its
  unregistration exactly when it was in the table once
  (`unregister_complete`). `register_builtins` runs at every start and nothing
  takes the built-ins out again: a restart keeps its hands off the table exactly
  when the built-ins are not in yet or the table is full (`restart_keeps`).
-/
import DisplayxrMcp.Server.Registry

namespace DisplayxrMcp.Server

open Lib Cjson

/-- `struct mcp_tool` as the embedder fills it; `fn` is whether there is a handler. -/
structure Descriptor where
  name : Option CStr
  description : Option CStr
  inputSchema : Option Json
  fn : Bool
  group : ToolGroup
  deriving DecidableEq

/-- The tool of a descriptor with a name and a handler. -/
def Descriptor.tool (d : Descriptor) : Option Tool :=
  if d.fn then d.name.map fun name => ⟨name, d.description, d.inputSchema, d.group⟩ else none

/-- `mcp_server_register_tool`, with its checks of the pointers. -/
def mcpServerRegisterTool (r : Registry) (tool : Option Descriptor) : Registry :=
  match tool.bind Descriptor.tool with
  | some t => (registerTool r t).1
  | none => r

/-- `mcp_server_unregister_tool`. -/
def mcpServerUnregisterTool (r : Registry) (name : Option CStr) : Registry :=
  match name with
  | some name => (unregisterTool r name).1
  | none => r

/-! ## Unregistration -/

/-- A call that changes the table. -/
inductive Call where
  | registerTool (tool : Option Descriptor)
  | unregisterTool (name : Option CStr)

def Call.apply (r : Registry) : Call → Registry
  | .registerTool tool => mcpServerRegisterTool r tool
  | .unregisterTool name => mcpServerUnregisterTool r name

/-- The table after a history of calls. -/
def afterCalls (r : Registry) (calls : List Call) : Registry := calls.foldl Call.apply r

/-- How often a name is in the table. -/
def named (r : Registry) (name : CStr) : Nat := r.tools.countP fun t => decide (t.name = name)

/-- The call puts a tool of that name into the table. -/
def Adds (r : Registry) (name : CStr) : Call → Prop
  | .registerTool tool => ∃ t, tool.bind Descriptor.tool = some t ∧ t.name = name ∧
      r.tools.length < maxTools
  | .unregisterTool _ => False

/-- No tool of that name is found, listed or held. -/
structure Gone (r : Registry) (name : CStr) : Prop where
  find : findTool r name = none
  list : ∀ e ∈ buildToolsList r, e.getObjectItemCaseSensitive (ascii "name") ≠ some (.str name)
  hold : ∀ t ∈ r.tools, t.name ≠ name

theorem listEntry_name (t : Tool) :
    (listEntry t).getObjectItemCaseSensitive (ascii "name") = some (.str t.name) := by
  simp [listEntry, Json.getObjectItem_obj_cons]

theorem named_eq_zero {r : Registry} {name : CStr} :
    named r name = 0 ↔ ∀ t ∈ r.tools, t.name ≠ name := by
  simp [named, List.countP_eq_zero]

theorem gone_iff {r : Registry} {name : CStr} : Gone r name ↔ named r name = 0 := by
  rw [named_eq_zero]
  constructor
  · exact Gone.hold
  · intro h
    refine ⟨?_, fun e he => ?_, h⟩
    · rw [findTool, List.find?_eq_none]
      intro t ht
      simpa using h t ht
    · obtain ⟨t, ht, rfl⟩ := List.mem_map.mp he
      rw [listEntry_name]
      intro hn
      exact h t ht (by simpa using hn)

theorem countP_eraseIdx_findIdx {α : Type*} (p : α → Bool) (l : List α) :
    (match l.findIdx? p with
      | some i => l.eraseIdx i
      | none => l).countP p = l.countP p - 1 := by
  induction l with
  | nil => rfl
  | cons a l ih =>
      rw [List.findIdx?_cons]
      cases ha : p a with
      | true => simp [ha]
      | false =>
          cases hf : l.findIdx? p with
          | none =>
              rw [hf] at ih
              simpa [ha] using ih
          | some i =>
              rw [hf] at ih
              simpa [ha] using ih

/-- Unregistering takes one entry out. -/
theorem named_unregister (r : Registry) (name : CStr) :
    named (mcpServerUnregisterTool r (some name)) name = named r name - 1 := by
  rw [named, named, ← countP_eraseIdx_findIdx]
  unfold mcpServerUnregisterTool unregisterTool
  dsimp only
  cases r.tools.findIdx? fun t => decide (t.name = name) <;> rfl

/-- A name that is not there stays away until it is registered. -/
theorem named_apply {r : Registry} {name : CStr} {c : Call} (h : named r name = 0)
    (hc : ¬ Adds r name c) : named (c.apply r) name = 0 := by
  rw [named_eq_zero] at h ⊢
  intro t ht
  cases c with
  | registerTool tool =>
      simp only [Call.apply, mcpServerRegisterTool] at ht
      cases htool : tool.bind Descriptor.tool with
      | none =>
          rw [htool] at ht
          exact h t ht
      | some d =>
          simp only [htool, registerTool] at ht
          split at ht
          · next hroom =>
              rcases List.mem_append.mp ht with ht | ht
              · exact h t ht
              · rw [List.mem_singleton.mp ht]
                exact fun he => hc ⟨d, htool, he, hroom⟩
          · exact h t ht
  | unregisterTool name' =>
      cases name' with
      | none => exact h t ht
      | some name' =>
          simp only [Call.apply, mcpServerUnregisterTool, unregisterTool] at ht
          split at ht
          · exact h t (List.mem_of_mem_eraseIdx ht)
          · exact h t ht

theorem named_after {r : Registry} {name : CStr} {calls : List Call} (h : named r name = 0)
    (hc : ∀ p c q, calls = p ++ c :: q → ¬ Adds (afterCalls r p) name c) :
    named (afterCalls r calls) name = 0 := by
  induction calls generalizing r with
  | nil => exact h
  | cons c calls ih =>
      refine ih (named_apply h (hc [] c calls rfl)) fun p d q he => ?_
      exact hc (c :: p) d q (by rw [he]; rfl)

theorem afterCalls_append (r : Registry) (calls calls' : List Call) :
    afterCalls r (calls ++ calls') = afterCalls (afterCalls r calls) calls' := List.foldl_append

/-- After each unregistration, and until the name is registered again, the name is gone. -/
def Unregistered (r : Registry) (calls : List Call) : Prop :=
  ∀ before name after rest, calls = before ++ .unregisterTool (some name) :: (after ++ rest) →
    (∀ p c q, after = p ++ c :: q →
      ¬ Adds (afterCalls r (before ++ .unregisterTool (some name) :: p)) name c) →
    Gone (afterCalls r (before ++ .unregisterTool (some name) :: after)) name

/-- A name that is unregistered is in the table once at most. -/
def SingleUnregistered (r : Registry) (calls : List Call) : Prop :=
  ∀ before name after, calls = before ++ .unregisterTool (some name) :: after →
    named (afterCalls r before) name ≤ 1

/-- In every sequence of calls an unregistration takes the name away exactly when every name that
    is unregistered has one entry at most. -/
theorem unregister_complete (r : Registry) (calls : List Call) :
    Unregistered r calls ↔ SingleUnregistered r calls := by
  have hstep : ∀ before name, afterCalls r (before ++ [.unregisterTool (some name)]) =
      mcpServerUnregisterTool (afterCalls r before) (some name) := by
    intro before name
    rw [afterCalls_append]
    rfl
  constructor
  · intro h before name after he
    have hgone := gone_iff.mp (h before name [] after he fun p c q hp => by simp at hp)
    rw [hstep, named_unregister] at hgone
    omega
  · intro h before name after rest he hadds
    have hone := h before name (after ++ rest) he
    have hsplit : ∀ l, before ++ Call.unregisterTool (some name) :: l =
        (before ++ [.unregisterTool (some name)]) ++ l := by
      intro l
      rw [List.append_assoc]
      rfl
    rw [gone_iff, hsplit, afterCalls_append]
    refine named_after ?_ fun p c q hp => ?_
    · rw [hstep, named_unregister]
      omega
    · have hno := hadds p c q hp
      rwa [hsplit, afterCalls_append] at hno

/-- A descriptor with this name. -/
def namedTool (name : String) : Descriptor := ⟨some (ascii name), none, none, true, .app⟩

/-- A tool that is registered twice is still found after its unregistration. -/
theorem unregister_complete_twice :
    ¬ Unregistered Registry.empty [.registerTool (some (namedTool "zoom")),
      .registerTool (some (namedTool "zoom")), .unregisterTool (some (ascii "zoom"))] := by
  intro h
  have hgone := h [.registerTool (some (namedTool "zoom")), .registerTool (some (namedTool "zoom"))]
    (ascii "zoom") [] [] rfl fun p c q hp => by simp at hp
  exact absurd hgone.find (by decide)

/-! ## Restarts -/

/-- `ECHO_TOOL`. -/
def echoTool : Descriptor where
  name := some (ascii "echo")
  description := some (ascii
    "Echoes the params back in \x7b\"echo\": <params>\x7d. Used for handshake testing.")
  inputSchema := some (fields [("type", text "object")])
  fn := true
  group := .diagnostic

/-- `TAIL_LOG_TOOL`. -/
def tailLogTool : Descriptor where
  name := some (ascii "tail_log")
  description := some (ascii ("Return buffered U_LOG lines with seq > `since`. Pass the returned " ++
    "`cursor` as `since` on the next call to stream. `dropped` indicates how many entries were " ++
    "evicted before the caller read them (ring size is fixed)."))
  inputSchema := some (fields [("type", text "object"),
    ("properties", fields [
      ("since", fields [("type", text "integer"), ("default", Json.ofNat 0)]),
      ("max", fields [("type", text "integer"), ("default", Json.ofNat 128),
        ("maximum", Json.ofNat 1024)])])])
  fn := true
  group := .diagnostic

/-- `register_builtins`, as far as the table goes. -/
def registerBuiltins (r : Registry) : Registry :=
  mcpServerRegisterTool (mcpServerRegisterTool r (some echoTool)) (some tailLogTool)

/-- The table and `thread_started`. -/
structure Life where
  registry : Registry
  threadStarted : Bool

/-- `start_with_listener`: `thread` is whether the accept thread was created. -/
def startWithListener (l : Life) (thread : Bool) : Life :=
  if thread then { l with threadStarted := true } else l

/-- `mcp_server_start`: `listener` is whether the listener was opened. -/
def mcpServerStart (l : Life) (listener thread : Bool) : Life :=
  if l.threadStarted then l
  else
    let l := { l with registry := registerBuiltins l.registry }
    if listener then startWithListener l thread else l

/-- `mcp_server_start_named`. -/
def mcpServerStartNamed (l : Life) (role : Option CStr) (listener thread : Bool) : Life :=
  if l.threadStarted then l
  else if role.getD [] = [] then l
  else
    let l := { l with registry := registerBuiltins l.registry }
    if listener then startWithListener l thread else l

/-- `mcp_server_stop`. -/
def mcpServerStop (l : Life) : Life :=
  if l.threadStarted then { l with threadStarted := false } else l

/-- A call of the embedder. -/
inductive LifeCall where
  | start (listener thread : Bool)
  | startNamed (role : Option CStr) (listener thread : Bool)
  | stop
  | registerTool (tool : Option Descriptor)

def LifeCall.apply (l : Life) : LifeCall → Life
  | .start listener thread => mcpServerStart l listener thread
  | .startNamed role listener thread => mcpServerStartNamed l role listener thread
  | .stop => mcpServerStop l
  | .registerTool tool => { l with registry := mcpServerRegisterTool l.registry tool }

/-- A fresh process, after the calls. -/
def afterLife (calls : List LifeCall) : Life := calls.foldl LifeCall.apply ⟨Registry.empty, false⟩

/-- The call gets as far as `register_builtins`. -/
def LifeCall.bringsUp (l : Life) : LifeCall → Bool
  | .start _ _ => !l.threadStarted
  | .startNamed role _ _ => !l.threadStarted && decide (role.getD [] ≠ [])
  | _ => false

/-- The tool a call registers. -/
def LifeCall.tool : LifeCall → Option Tool
  | .registerTool tool => tool.bind Descriptor.tool
  | _ => none

/-- The names of the built-ins. -/
def builtinNames : List CStr := [ascii "echo", ascii "tail_log"]

/-- No tool of the embedder is named like a built-in. -/
def OwnNames (calls : List LifeCall) : Prop :=
  ∀ t ∈ calls.filterMap LifeCall.tool, t.name ∉ builtinNames

/-- The embedder's tools in the table. -/
def own (r : Registry) : Nat := r.tools.countP fun t => decide (t.name ∉ builtinNames)

/-- In every state each built-in is in the table at most once, and a tool is dropped only when
    the embedder has all but two entries. -/
def Unconsumed (calls : List LifeCall) : Prop :=
  ∀ before after, calls = before ++ after →
    (∀ name ∈ builtinNames, named (afterLife before).registry name ≤ 1) ∧
      ∀ c rest t, after = c :: rest → c.tool = some t →
        (registerTool (afterLife before).registry t).2 = false →
          maxTools - 2 ≤ own (afterLife before).registry

/-- `register_builtins` runs only while no built-in is in the table, or when it is full. -/
def BroughtUpOnce (calls : List LifeCall) : Prop :=
  ∀ before c after, calls = before ++ c :: after → c.bringsUp (afterLife before) = true →
    (∀ name ∈ builtinNames, named (afterLife before).registry name = 0) ∨
      (afterLife before).registry.tools.length = maxTools

theorem named_registerTool (r : Registry) (t : Tool) (name : CStr) :
    named (registerTool r t).1 name =
      named r name + if t.name = name ∧ r.tools.length < maxTools then 1 else 0 := by
  unfold named registerTool
  by_cases hroom : r.tools.length < maxTools
  · rw [dif_pos hroom]
    by_cases hn : t.name = name
    · simp [hn, hroom]
    · simp [hn]
  · rw [dif_neg hroom]
    simp [hroom]

/-- The built-ins go in once each, the first of them first. -/
theorem registerBuiltins_eq (r : Registry) : ∃ echo tail : Tool,
    echo.name = ascii "echo" ∧ tail.name = ascii "tail_log" ∧
      registerBuiltins r = (registerTool (registerTool r echo).1 tail).1 :=
  ⟨_, _, rfl, rfl, rfl⟩

theorem named_registerBuiltins_le {r : Registry} {name : CStr} (h : name ∈ builtinNames) :
    named (registerBuiltins r) name ≤ named r name + 1 := by
  obtain ⟨echo, tail, hecho, htail, hr⟩ := registerBuiltins_eq r
  have hne : ascii "echo" ≠ ascii "tail_log" := by decide
  rw [hr, named_registerTool, named_registerTool, hecho, htail]
  rcases List.mem_cons.mp h with rfl | h
  · have htail : ∀ p : Prop, ¬ (ascii "tail_log" = ascii "echo" ∧ p) := fun p hc => hne hc.1.symm
    rw [if_neg (htail _)]
    split <;> omega
  · rw [List.mem_singleton.mp h]
    have hecho : ∀ p : Prop, ¬ (ascii "echo" = ascii "tail_log" ∧ p) := fun p hc => hne hc.1
    rw [if_neg (hecho _)]
    split <;> omega

theorem named_registerBuiltins_echo {r : Registry} (h : r.tools.length < maxTools) :
    named (registerBuiltins r) (ascii "echo") = named r (ascii "echo") + 1 := by
  obtain ⟨echo, tail, hecho, htail, hr⟩ := registerBuiltins_eq r
  have hne : ∀ p : Prop, ¬ (ascii "tail_log" = ascii "echo" ∧ p) :=
    fun p hc => absurd hc.1 (by decide)
  rw [hr, named_registerTool, named_registerTool, hecho, htail, if_neg (hne _), if_pos ⟨rfl, h⟩]

theorem registerBuiltins_full {r : Registry} (h : r.tools.length = maxTools) :
    registerBuiltins r = r := by
  have hfull : ∀ t, registerTool r t = (r, false) := fun t => dif_neg (by omega)
  obtain ⟨echo, tail, -, -, hr⟩ := registerBuiltins_eq r
  rw [hr, hfull, hfull]

/-- `tail_log` is not there without `echo`. -/
theorem registerBuiltins_order {r : Registry}
    (h : named r (ascii "echo") = 0 → named r (ascii "tail_log") = 0)
    (he : named (registerBuiltins r) (ascii "echo") = 0) :
    named (registerBuiltins r) (ascii "tail_log") = 0 := by
  by_cases hroom : r.tools.length < maxTools
  · rw [named_registerBuiltins_echo hroom] at he
    omega
  · have hfull : registerBuiltins r = r := registerBuiltins_full (Nat.le_antisymm r.room (by omega))
    rw [hfull] at he ⊢
    exact h he

/-- The entries are the embedder's and the built-ins. -/
theorem length_own (r : Registry) : r.tools.length =
    own r + (named r (ascii "echo") + named r (ascii "tail_log")) := by
  have hne : ascii "echo" ≠ ascii "tail_log" := by decide
  unfold own named
  induction r.tools with
  | nil => rfl
  | cons t l ih =>
      simp only [List.length_cons, List.countP_cons, ih]
      by_cases he : t.name = ascii "echo"
      · simp [builtinNames, he, hne]
        omega
      · by_cases ht : t.name = ascii "tail_log"
        · simp [builtinNames, ht, hne.symm]
          omega
        · simp [builtinNames, he, ht]
          omega

/-- A call brings the built-ins up, registers the embedder's tool, or leaves the table alone. -/
theorem apply_registry (l : Life) (c : LifeCall) : (c.apply l).registry =
    if c.bringsUp l then registerBuiltins l.registry
    else match c.tool with
      | some t => (registerTool l.registry t).1
      | none => l.registry := by
  have hstart : ∀ listener thread r, (if listener = true then
      startWithListener { l with registry := r } thread else { l with registry := r }).registry =
        r := by
    intro listener thread r
    unfold startWithListener
    split
    · split <;> rfl
    · rfl
  cases c with
  | start listener thread =>
      simp only [LifeCall.apply, LifeCall.bringsUp, LifeCall.tool, mcpServerStart]
      by_cases hs : l.threadStarted = true
      · simp [hs]
      · rw [if_neg hs]
        exact (hstart _ _ _).trans (by simp [hs])
  | startNamed role listener thread =>
      simp only [LifeCall.apply, LifeCall.bringsUp, LifeCall.tool, mcpServerStartNamed]
      by_cases hs : l.threadStarted = true
      · simp [hs]
      · rw [if_neg hs]
        by_cases hrole : role.getD [] = []
        · simp [hs, hrole]
        · rw [if_neg hrole]
          exact (hstart _ _ _).trans (by simp [hs, hrole])
  | stop =>
      simp only [LifeCall.apply, LifeCall.bringsUp, LifeCall.tool, mcpServerStop]
      split <;> rfl
  | registerTool tool =>
      simp only [LifeCall.apply, LifeCall.bringsUp, LifeCall.tool, mcpServerRegisterTool]
      cases tool.bind Descriptor.tool <;> rfl

theorem afterLife_snoc (calls : List LifeCall) (c : LifeCall) :
    afterLife (calls ++ [c]) = c.apply (afterLife calls) := List.foldl_concat ..

/-- A tool of the embedder is none of the built-ins. -/
theorem named_own {r : Registry} {t : Tool} {name : CStr} (ht : t.name ∉ builtinNames)
    (hn : name ∈ builtinNames) : named (registerTool r t).1 name = named r name := by
  rw [named_registerTool, if_neg]
  · rfl
  · rintro ⟨rfl, -⟩
    exact ht hn

theorem OwnNames.snoc {calls : List LifeCall} {c : LifeCall} (h : OwnNames (calls ++ [c])) :
    OwnNames calls ∧ ∀ t, c.tool = some t → t.name ∉ builtinNames := by
  unfold OwnNames at h ⊢
  simp only [List.filterMap_append, List.mem_append] at h
  refine ⟨fun t ht => h t (Or.inl ht), fun t ht => h t (Or.inr ?_)⟩
  simp [ht]

/-- The order of the built-ins holds throughout. -/
theorem life_order {calls : List LifeCall} (h : OwnNames calls)
    (he : named (afterLife calls).registry (ascii "echo") = 0) :
    named (afterLife calls).registry (ascii "tail_log") = 0 := by
  induction calls using List.reverseRecOn with
  | nil => rfl
  | append_singleton calls c ih =>
      obtain ⟨hown, hc⟩ := h.snoc
      rw [afterLife_snoc, apply_registry] at he ⊢
      split at he
      · next hup =>
          rw [if_pos hup]
          exact registerBuiltins_order (ih hown) he
      · next hup =>
          rw [if_neg hup]
          cases ht : c.tool with
          | none =>
              rw [ht] at he
              exact ih hown he
          | some t =>
              rw [ht] at he
              dsimp only at he ⊢
              rw [named_own (hc t ht) (by decide)] at he ⊢
              exact ih hown he

/-- Under the condition each built-in is in the table at most once. -/
theorem life_once {calls : List LifeCall} (h : OwnNames calls) (hup : BroughtUpOnce calls)
    {name : CStr} (hn : name ∈ builtinNames) : named (afterLife calls).registry name ≤ 1 := by
  induction calls using List.reverseRecOn with
  | nil => exact Nat.zero_le _
  | append_singleton calls c ih =>
      obtain ⟨hown, hc⟩ := h.snoc
      have hbefore : BroughtUpOnce calls := by
        intro before c' after he hb
        exact hup before c' (after ++ [c]) (by rw [he]; simp) hb
      have hle := ih hown hbefore
      rw [afterLife_snoc, apply_registry]
      split
      · next hbring =>
          rcases hup calls c [] rfl hbring with hzero | hfull
          · have hnext := named_registerBuiltins_le (r := (afterLife calls).registry) hn
            rw [hzero name hn] at hnext
            exact hnext
          · rw [registerBuiltins_full hfull]
            exact hle
      · cases ht : c.tool with
        | none => exact hle
        | some t => exact (named_own (hc t ht) hn).trans_le hle

/-- Starting and stopping costs the embedder no entry of the table exactly when no start finds a
    built-in in a table that has room. -/
theorem restart_keeps (calls : List LifeCall) (h : OwnNames calls) :
    Unconsumed calls ↔ BroughtUpOnce calls := by
  have hpart : ∀ before after, calls = before ++ after → OwnNames before := by
    intro before after he t ht
    refine h t ?_
    rw [he, List.filterMap_append]
    exact List.mem_append_left _ ht
  constructor
  · intro hun before c after he hbring
    by_contra hno
    rw [not_or] at hno
    obtain ⟨hsome, hroom⟩ := hno
    have hlt : (afterLife before).registry.tools.length < maxTools :=
      Nat.lt_of_le_of_ne (afterLife before).registry.room hroom
    have hone : named (afterLife before).registry (ascii "echo") ≠ 0 := by
      intro hzero
      refine hsome fun name hn => ?_
      rcases List.mem_cons.mp hn with rfl | hn
      · exact hzero
      · rw [List.mem_singleton.mp hn]
        exact life_order (hpart before _ he) hzero
    have hafter := (hun (before ++ [c]) after (by rw [he]; simp)).1 (ascii "echo") (by decide)
    rw [afterLife_snoc, apply_registry, if_pos hbring, named_registerBuiltins_echo hlt] at hafter
    omega
  · intro hup before after he
    have hbefore : BroughtUpOnce before := by
      intro b c a hb hbring
      exact hup b c (a ++ after) (by rw [he, hb]; simp) hbring
    have honce : ∀ name ∈ builtinNames, named (afterLife before).registry name ≤ 1 :=
      fun name hn => life_once (hpart before after he) hbefore hn
    refine ⟨honce, fun c rest t _ _ hdrop => ?_⟩
    have hfull : (afterLife before).registry.tools.length = maxTools := by
      refine Nat.le_antisymm (afterLife before).registry.room ?_
      by_contra hroom
      simp [registerTool, Nat.lt_of_not_le hroom] at hdrop
    have hlen := length_own (afterLife before).registry
    have hecho := honce (ascii "echo") (by decide)
    have htail := honce (ascii "tail_log") (by decide)
    omega

/-- A tool, a start and a stop: nothing is consumed. -/
theorem restart_keeps_once : Unconsumed
    [.registerTool (some (namedTool "pan")), .start true true, .stop] := by
  refine (restart_keeps _ ?_).mpr ?_
  · intro t ht
    rw [List.mem_singleton.mp ht]
    decide
  · intro before c after he hbring
    left
    rcases before with _ | ⟨c₁, _ | ⟨c₂, _ | ⟨c₃, before⟩⟩⟩
    · obtain ⟨rfl, -⟩ := List.cons.inj he
      exact absurd hbring (by decide)
    · obtain ⟨rfl, -⟩ := List.cons.inj he
      decide
    · simp only [List.cons_append, List.nil_append, List.cons.injEq] at he
      obtain ⟨rfl, rfl, rfl, -⟩ := he
      exact absurd hbring (by decide)
    · simp at he

/-- Thirty-two starts and stops fill the table: the embedder's first tool is dropped. -/
theorem restart_keeps_cycles : ¬ Unconsumed
    ((List.replicate 32 [LifeCall.start true true, .stop]).flatten ++
      [.registerTool (some (namedTool "pan"))]) := by
  intro h
  have hafter := (h _ _ rfl).2 (.registerTool (some (namedTool "pan"))) []
    ⟨ascii "pan", none, none, .app⟩ rfl rfl (by decide +kernel)
  exact absurd hafter (by decide +kernel)

end DisplayxrMcp.Server
