/-
  Attribution of merged entries (adapter/workspace_aggregator.c,
  build_merged_tools).

  A merged entry is a copy of the backend's own object, so whatever the backend
  put under `_meta` is in it when `displayxr/source` is added.
  `merged_attribution` says for which cached arrays the result is a faithful
  and correctly attributed list; what it needs of a tool is `Unclaimed`.

  An object may repeat a member. cJSON's accessors see the first one, a client
  of the printed text may take any, so `Attributed` is about each `_meta`.
-/
import DisplayxrMcp.Aggregator.Exec
import DisplayxrMcp.Cjson.Members

namespace DisplayxrMcp

open Lib Cjson

/-! ## What a merged entry should be -/

/-- The exposed objects with a string name, in slot then array order, each with the prefix of
    its backend. -/
def exposedTools (g : Global) : List (CStr × Json) :=
  (List.finRange maxBackends).flatMap fun i =>
    match g.backends i with
    | some b =>
        if b.alive then
          (b.tools.filter fun t => toolExposed g.exposeDiagnostics t &&
            (Json.string? (t.getObjectItemCaseSensitive (ascii "name"))).isSome).map
              fun t => (b.nsPrefix, t)
        else []
    | none => []

/-- The name of a tool, for one that has a string as its name. -/
def toolName (t : Json) : CStr :=
  (Json.string? (t.getObjectItemCaseSensitive (ascii "name"))).getD []

/-- A `_meta` value that names `nsPrefix`, once, as the source. -/
def NamesSource (nsPrefix : CStr) (emeta : Json) : Prop :=
  (∃ ms, emeta = .obj ms) ∧ emeta.membersNamed (ascii "displayxr/source") = [.str nsPrefix]

/-- `e` has a `_meta`, and every `_meta` of it names the prefix. -/
def Attributed (nsPrefix : CStr) (e : Json) : Prop :=
  e.membersNamed (ascii "_meta") ≠ [] ∧
    ∀ emeta ∈ e.membersNamed (ascii "_meta"), NamesSource nsPrefix emeta

/-- `e` is the entry of the backend's object `t`: the same but for the name, which is prefixed,
    and `_meta`, which attributes it to the backend. -/
structure Faithful (nsPrefix : CStr) (t e : Json) : Prop where
  name : e.getObjectItemCaseSensitive (ascii "name") =
    some (.str (prefixedName nsPrefix (toolName t)))
  rest : e.membersBut [ascii "name", ascii "_meta"] = t.membersBut [ascii "name", ascii "_meta"]
  source : Attributed nsPrefix e

/-- What the backend may have put under `_meta` itself: at first nothing, or an object that
    names no source; a repeated `_meta` has to name the backend's own prefix. -/
def Unclaimed (nsPrefix : CStr) (t : Json) : Prop :=
  match t.membersNamed (ascii "_meta") with
  | [] => True
  | emeta :: again =>
      ((∃ ms, emeta = .obj ms) ∧ emeta.membersNamed (ascii "displayxr/source") = []) ∧
        ∀ other ∈ again, NamesSource nsPrefix other

/-! ## The entry of one tool -/

theorem filterMap_eq_map_filter (keep : Json → Bool) (entry : CStr → Json → Json)
    (tools : List Json) :
    (tools.filterMap fun t => if keep t then
        (Json.string? (t.getObjectItemCaseSensitive (ascii "name"))).map fun name =>
          (name, entry name t)
      else none).map Prod.snd =
    (tools.filter fun t => keep t &&
      (Json.string? (t.getObjectItemCaseSensitive (ascii "name"))).isSome).map
        fun t => entry (toolName t) t := by
  induction tools with
  | nil => rfl
  | cons t tools ih =>
      rw [List.filterMap_cons, List.filter_cons]
      cases hkeep : keep t with
      | false => simpa using ih
      | true =>
          cases hname : Json.string? (t.getObjectItemCaseSensitive (ascii "name")) with
          | none => simpa [hname] using ih
          | some name => simp [hname, toolName, ih]

/-- The surface, entry by entry. -/
theorem buildMergedTools_eq (g : Global) :
    buildMergedTools g =
      listAppsTool :: (exposedTools g).map fun s => mergedEntry s.1 (toolName s.2) s.2 := by
  rw [buildMergedTools, exposedTools, List.map_flatMap]
  congr 2
  funext i
  unfold slotEntries backendEntries
  cases g.backends i with
  | none => rfl
  | some b =>
      dsimp only
      split
      · rw [filterMap_eq_map_filter _ fun name t => mergedEntry b.nsPrefix name t, List.map_map]
        rfl
      · rfl

/-- Adding the source makes a `_meta` name it exactly when it is an object without one. -/
theorem names_add_iff (nsPrefix : CStr) (emeta : Json) :
    NamesSource nsPrefix (emeta.addItemToObject (ascii "displayxr/source") (.str nsPrefix)) ↔
      (∃ ms, emeta = .obj ms) ∧ emeta.membersNamed (ascii "displayxr/source") = [] := by
  cases emeta with
  | obj ms =>
      rw [NamesSource, Json.membersNamed_add]
      simp [Json.addItemToObject]
  | null => simp [NamesSource, Json.addItemToObject]
  | bool b => simp [NamesSource, Json.addItemToObject]
  | num d => simp [NamesSource, Json.addItemToObject]
  | str s => simp [NamesSource, Json.addItemToObject]
  | arr l => simp [NamesSource, Json.addItemToObject]

/-- Nothing but the name and `_meta` is touched. -/
theorem mergedEntry_rest (nsPrefix name : CStr) (t : Json) :
    (mergedEntry nsPrefix name t).membersBut [ascii "name", ascii "_meta"] =
      t.membersBut [ascii "name", ascii "_meta"] := by
  have hn : ascii "name" ∈ [ascii "name", ascii "_meta"] := List.mem_cons_self
  have hm : ascii "_meta" ∈ [ascii "name", ascii "_meta"] :=
    List.mem_cons_of_mem _ List.mem_cons_self
  have hrenamed := Json.membersBut_replace t (.str (prefixedName nsPrefix name)) hn
  unfold mergedEntry
  dsimp only
  split
  · rw [Json.membersBut_replace _ _ hm, hrenamed]
  · rw [← hrenamed]
    cases t.replaceItemInObjectCaseSensitive (ascii "name") (.str (prefixedName nsPrefix name)) with
    | obj ms => exact Json.membersBut_add _ hm
    | null => rfl
    | bool b => rfl
    | num d => rfl
    | str s => rfl
    | arr l => rfl

/-- Every `_meta` of an object's entry: the first gets the source, or a new one is added. -/
theorem mergedEntry_metas (nsPrefix name : CStr) (ms : List (CStr × Json)) :
    (mergedEntry nsPrefix name (.obj ms)).membersNamed (ascii "_meta") =
      match Json.membersNamed (.obj ms) (ascii "_meta") with
      | [] => [.obj [(ascii "displayxr/source", .str nsPrefix)]]
      | emeta :: again =>
          emeta.addItemToObject (ascii "displayxr/source") (.str nsPrefix) :: again := by
  have hne : ascii "name" ≠ ascii "_meta" := by decide
  have hrenamed := Json.membersNamed_replace_ne (.obj ms) (.str (prefixedName nsPrefix name)) hne
  unfold mergedEntry
  dsimp only
  rw [Json.getObjectItem_eq_head?, ← hrenamed]
  cases hmetas : (Json.replaceItemInObjectCaseSensitive (.obj ms) (ascii "name")
      (.str (prefixedName nsPrefix name))).membersNamed (ascii "_meta") with
  | nil =>
      dsimp only [List.head?_nil]
      rw [Json.replaceItemInObjectCaseSensitive] at hmetas ⊢
      rw [Json.membersNamed_add, hmetas]
      rfl
  | cons emeta again =>
      dsimp only [List.head?_cons]
      rw [Json.membersNamed_replace_self, hmetas]

theorem attributed_iff (nsPrefix name : CStr) (ms : List (CStr × Json)) :
    Attributed nsPrefix (mergedEntry nsPrefix name (.obj ms)) ↔ Unclaimed nsPrefix (.obj ms) := by
  unfold Attributed Unclaimed
  rw [mergedEntry_metas]
  cases Json.membersNamed (.obj ms) (ascii "_meta") with
  | nil =>
      have hnew : NamesSource nsPrefix (.obj [(ascii "displayxr/source", .str nsPrefix)]) :=
        ⟨⟨_, rfl⟩, rfl⟩
      exact iff_of_true ⟨List.cons_ne_nil _ _, List.forall_mem_singleton.mpr hnew⟩ trivial
  | cons emeta again =>
      dsimp only
      rw [List.forall_mem_cons, names_add_iff]
      exact and_iff_right (List.cons_ne_nil _ _)

theorem faithful_iff (nsPrefix : CStr) {t : Json}
    (hname : (Json.string? (t.getObjectItemCaseSensitive (ascii "name"))).isSome = true) :
    Faithful nsPrefix t (mergedEntry nsPrefix (toolName t) t) ↔ Unclaimed nsPrefix t := by
  obtain ⟨name, hname⟩ := Option.isSome_iff_exists.mp hname
  obtain ⟨ms, rfl⟩ : ∃ ms, t = .obj ms := by
    cases t with
    | obj ms => exact ⟨ms, rfl⟩
    | null => cases hname
    | bool b => cases hname
    | num d => cases hname
    | str s => cases hname
    | arr l => cases hname
  have hself : Json.string? (Json.getObjectItemCaseSensitive (.obj ms) (ascii "name")) =
      some (toolName (.obj ms)) := by
    rw [toolName, hname]
    rfl
  exact ⟨fun h => (attributed_iff nsPrefix _ ms).mp h.source, fun h =>
    ⟨mergedEntry_name hself, mergedEntry_rest nsPrefix _ _, (attributed_iff nsPrefix _ ms).mpr h⟩⟩

/-! ## The list -/

theorem isSome_of_mem_exposedTools {g : Global} {s : CStr × Json} (hs : s ∈ exposedTools g) :
    (Json.string? (s.2.getObjectItemCaseSensitive (ascii "name"))).isSome = true := by
  obtain ⟨i, -, hi⟩ := List.mem_flatMap.mp hs
  cases hb : g.backends i with
  | none => rw [hb] at hi; cases hi
  | some b =>
      rw [hb] at hi
      dsimp only at hi
      split at hi
      · obtain ⟨t, ht, rfl⟩ := List.mem_map.mp hi
        exact (Bool.and_eq_true_iff.mp (List.mem_filter.mp ht).2).2
      · cases hi

/-- The merged list is as it should be exactly when each exposed tool's entry is. -/
theorem merged_iff_entries (g : Global) :
    (∃ es, buildMergedTools g = listAppsTool :: es ∧
      List.Forall₂ (fun s e => Faithful s.1 s.2 e) (exposedTools g) es) ↔
    ∀ s ∈ exposedTools g, Faithful s.1 s.2 (mergedEntry s.1 (toolName s.2) s.2) := by
  rw [buildMergedTools_eq]
  constructor
  · rintro ⟨es, hes, hall⟩
    cases hes
    rwa [List.forall₂_map_right_iff, List.forall₂_same] at hall
  · intro hall
    refine ⟨_, rfl, ?_⟩
    rwa [List.forall₂_map_right_iff, List.forall₂_same]

/-- The merged list is the built-in followed by one faithful, attributed entry for each exposed
    tool, in order, exactly when no exposed tool's own `_meta` stands in the way. -/
theorem merged_attribution (g : Global) :
    (∃ es, buildMergedTools g = listAppsTool :: es ∧
      List.Forall₂ (fun s e => Faithful s.1 s.2 e) (exposedTools g) es) ↔
    ∀ s ∈ exposedTools g, Unclaimed s.1 s.2 := by
  rw [merged_iff_entries]
  exact forall₂_congr fun s hs => faithful_iff s.1 (isSome_of_mem_exposedTools hs)

/-- A tool that says itself that it is the shell's. -/
def shellClaim : Json :=
  fields [("name", text "capture_frame"), ("_meta", fields [("displayxr/source", text "shell")])]

/-- The app `viewer`, with that tool. -/
def claimingApp : Backend :=
  ⟨true, false, 5, ascii "viewer", ascii "viewer", 0, [shellClaim]⟩

/-- An aggregator with that app alone. -/
def claimedState : Global :=
  let g := (Sys.start plainPlatform false).g
  { g with backends := g.backends.put 0 claimingApp }

/-- The app's tool is shown under two sources, the shell's first. -/
theorem merged_attribution_shell :
    ¬ ∃ es, buildMergedTools claimedState = listAppsTool :: es ∧
      List.Forall₂ (fun s e => Faithful s.1 s.2 e) (exposedTools claimedState) es := by
  have hmem : (ascii "viewer", shellClaim) ∈ exposedTools claimedState := by decide +kernel
  rw [merged_iff_entries]
  intro hall
  have hsource := (hall _ hmem).source.2
    (fields [("displayxr/source", text "shell"), ("displayxr/source", text "viewer")])
    (by decide +kernel)
  exact absurd hsource.2 (by decide +kernel)

end DisplayxrMcp
