/-
  Exposure and the merged tool list (adapter/workspace_aggregator.c, "exposure",
  build_list_apps, build_merged_tools).

  `buildMergedTools` is the agent-visible surface: the built-in entry, then for
  each used slot in slot order the exposed entries of its cached array under
  `<prefix>__<tool>`, formatted into a 128-byte buffer. It reads the backend
  slots and the exposure flag only (`buildMergedTools_congr`).
-/
import DisplayxrMcp.Aggregator.State

namespace DisplayxrMcp

open Lib Cjson

/-- `NS_SEP`. -/
def nsSep : CStr := ascii "__"

/-- `tool_group`. -/
def toolGroup (entry : Json) : CStr :=
  let group := (entry.getObjectItemCaseSensitive (ascii "_meta")).bind
    (·.getObjectItemCaseSensitive (ascii "displayxr/group"))
  match Json.string? group with
  | some s => s
  | none =>
      if Json.string? (entry.getObjectItemCaseSensitive (ascii "name")) =
          some (ascii "capture_frame")
      then ascii "capture" else ascii "diagnostic"

/-- `tool_exposed`. -/
def toolExposed (exposeDiagnostics : Bool) (entry : Json) : Bool :=
  exposeDiagnostics || decide (toolGroup entry ≠ ascii "diagnostic")

/-- `snprintf(prefixed, 128, "%s" NS_SEP "%s", prefix, name)`. -/
def prefixedName (nsPrefix name : CStr) : CStr := snprintf 128 (nsPrefix ++ nsSep ++ name)

/-- A prefix that fits leaves the separator in place and cuts the tool's name only. -/
theorem prefixedName_eq {p : CStr} (hp : p.length ≤ 35) (name : CStr) :
    prefixedName p name = p ++ nsSep ++ snprintf (126 - p.length) name := by
  have hsep : nsSep.length = 2 := by decide
  have hlen : (p ++ nsSep).length = p.length + 2 := by rw [List.length_append, hsep]
  rw [prefixedName, snprintf_append (by omega), hlen,
    show 128 - (p.length + 2) = 126 - p.length by omega]

/-- The merged entry of an exposed tool called `name`. -/
def mergedEntry (nsPrefix name : CStr) (entry : Json) : Json :=
  let e := entry.replaceItemInObjectCaseSensitive (ascii "name") (.str (prefixedName nsPrefix name))
  match e.getObjectItemCaseSensitive (ascii "_meta") with
  | some emeta =>
      e.replaceItemInObjectCaseSensitive (ascii "_meta")
        (emeta.addItemToObject (ascii "displayxr/source") (.str nsPrefix))
  | none =>
      e.addItemToObject (ascii "_meta") (.obj [(ascii "displayxr/source", .str nsPrefix)])

/-- The entries one backend contributes, each with the tool's own name. -/
def backendEntries (exposeDiagnostics : Bool) (b : Backend) : List (CStr × Json) :=
  b.tools.filterMap fun t =>
    if toolExposed exposeDiagnostics t then
      (Json.string? (t.getObjectItemCaseSensitive (ascii "name"))).map fun name =>
        (name, mergedEntry b.nsPrefix name t)
    else none

/-- `workspace__list_apps`. -/
def listAppsName : CStr := ascii "workspace" ++ nsSep ++ ascii "list_apps"

/-- The built-in's entry. -/
def listAppsTool : Json :=
  fields [("name", .str listAppsName),
    ("description", text ("List aggregated workspace members: tool-name prefix, pid, app id, " ++
      "and tool counts per app, plus whether the shell is running. The prefix joins app tools " ++
      "(<prefix>__<tool>) to shell window operations.")),
    ("inputSchema", fields [("type", text "object")])]

/-- The entries of backend slot `i`. -/
def slotEntries (g : Global) (i : Fin maxBackends) : List (CStr × Json) :=
  match g.backends i with
  | some b => if b.alive then backendEntries g.exposeDiagnostics b else []
  | none => []

/-- `build_merged_tools`. -/
def buildMergedTools (g : Global) : List Json :=
  listAppsTool :: (List.finRange maxBackends).flatMap fun i => (slotEntries g i).map Prod.snd

/-- The `apps` element of one backend. -/
def listAppsEntry (exposeDiagnostics : Bool) (b : Backend) : Json :=
  .obj ([(ascii "prefix", .str b.nsPrefix), (ascii "pid", .num (.fin b.pid))] ++
    (if b.appId ≠ [] then [(ascii "app_id", .str b.appId)] else []) ++
    [(ascii "tools_exposed", Json.ofNat (b.tools.filter (toolExposed exposeDiagnostics)).length),
      (ascii "tools_total", Json.ofNat b.tools.length)])

/-- `build_list_apps`. -/
def buildListApps (g : Global) : Json :=
  let live := (List.finRange maxBackends).filterMap fun i => (g.backends i).filter (·.alive)
  fields [("apps", .arr ((live.filter (!·.isShell)).map (listAppsEntry g.exposeDiagnostics))),
    ("shell", text (if live.any (·.isShell) then "running" else "not_running")),
    ("diagnostics_exposed", .bool g.exposeDiagnostics)]

/-- `wrap_tool_result`: the payload as text and as it is. -/
def wrapToolResult (platform : Platform) (inner : Json) : Json :=
  fields [("content", .arr [fields [("type", text "text"),
      ("text", .str (platform.printText inner))]]),
    ("structured", inner)]

/-- The surface depends on the backend slots and the exposure flag. -/
theorem buildMergedTools_congr {g g' : Global} (hb : g'.backends = g.backends)
    (he : g'.exposeDiagnostics = g.exposeDiagnostics) :
    buildMergedTools g' = buildMergedTools g := by
  simp only [buildMergedTools, slotEntries, hb, he]

theorem mem_slotEntries {g : Global} {i : Fin maxBackends} {name : CStr} {e : Json} :
    (name, e) ∈ slotEntries g i ↔ ∃ b t, g.backends i = some b ∧ b.alive = true ∧ t ∈ b.tools ∧
      toolExposed g.exposeDiagnostics t = true ∧
      Json.string? (t.getObjectItemCaseSensitive (ascii "name")) = some name ∧
      e = mergedEntry b.nsPrefix name t := by
  unfold slotEntries
  constructor
  · intro hmem
    split at hmem
    · next b hb =>
        split at hmem
        · next halive =>
            obtain ⟨t, ht, hsome⟩ := List.mem_filterMap.mp hmem
            split at hsome
            · next hexp =>
                obtain ⟨name', hname, heq⟩ := Option.map_eq_some_iff.mp hsome
                cases heq
                exact ⟨b, t, hb, halive, ht, hexp, hname, rfl⟩
            · cases hsome
        · cases hmem
    · cases hmem
  · rintro ⟨b, t, hb, halive, ht, hexp, hname, rfl⟩
    rw [hb]
    dsimp only
    rw [if_pos halive]
    refine List.mem_filterMap.mpr ⟨t, ht, ?_⟩
    rw [if_pos hexp, hname]
    rfl

/-- The surface: the built-in, and the named and exposed entries of live backends' caches. -/
theorem mem_buildMergedTools {g : Global} {e : Json} :
    e ∈ buildMergedTools g ↔ e = listAppsTool ∨ ∃ i b t name, g.backends i = some b ∧
      b.alive = true ∧ t ∈ b.tools ∧ toolExposed g.exposeDiagnostics t = true ∧
      Json.string? (t.getObjectItemCaseSensitive (ascii "name")) = some name ∧
      e = mergedEntry b.nsPrefix name t := by
  unfold buildMergedTools
  rw [List.mem_cons]
  refine or_congr_right ⟨fun h => ?_, ?_⟩
  · obtain ⟨i, -, hi⟩ := List.mem_flatMap.mp h
    obtain ⟨⟨name, e'⟩, hmem, rfl⟩ := List.mem_map.mp hi
    obtain ⟨b, t, hentry⟩ := mem_slotEntries.mp hmem
    exact ⟨i, b, t, name, hentry⟩
  · rintro ⟨i, b, t, name, hentry⟩
    refine List.mem_flatMap.mpr ⟨i, List.mem_finRange i, ?_⟩
    exact List.mem_map.mpr ⟨(name, e), mem_slotEntries.mpr ⟨b, t, hentry⟩, rfl⟩

/-- A merged entry carries the formatted name. -/
theorem mergedEntry_name {p name : CStr} {t : Json}
    (h : Json.string? (t.getObjectItemCaseSensitive (ascii "name")) = some name) :
    (mergedEntry p name t).getObjectItemCaseSensitive (ascii "name") =
      some (.str (prefixedName p name)) := by
  have hne : ascii "name" ≠ ascii "_meta" := by decide
  obtain ⟨old, hold⟩ : ∃ old, t.getObjectItemCaseSensitive (ascii "name") = some old := by
    cases hn : t.getObjectItemCaseSensitive (ascii "name") with
    | none => rw [hn] at h; cases h
    | some old => exact ⟨old, rfl⟩
  have hself := Json.getObjectItem_replace_self (.str (prefixedName p name)) hold
  unfold mergedEntry
  dsimp only
  split
  · rw [Json.getObjectItem_replace_ne _ _ hne]
    exact hself
  · -- `_meta` is appended behind the members that are there
    generalize hj : t.replaceItemInObjectCaseSensitive (ascii "name")
      (.str (prefixedName p name)) = j at hself ⊢
    cases j with
    | obj ms =>
        simp only [Json.addItemToObject, Json.getObjectItemCaseSensitive] at hself ⊢
        rw [List.find?_append]
        cases hf : ms.find? fun m => decide (m.1 = ascii "name") with
        | none => rw [hf] at hself; cases hself
        | some m => rw [hf] at hself; simpa using hself
    | null => cases hself
    | bool b => cases hself
    | num d => cases hself
    | str s => cases hself
    | arr l => cases hself

end DisplayxrMcp
