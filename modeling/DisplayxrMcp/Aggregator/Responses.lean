/-
  Which messages of a backend complete a call.

  The reader takes any message with a numeric `id` for a response: it converts the
  number to 64 bits, looks the result up, and frees the slot it finds. So what it does
  is right exactly where the message names no slot in use, or names, by exactly its
  local id and in a message without `method`, one of its own (`only_responses`).
-/
import DisplayxrMcp.Aggregator.Isolation

namespace DisplayxrMcp

open Lib Cjson Lts

/-- A message: the tree that `cJSON_Parse` builds, and the number that the text of its `id`
    denotes, if that is a number. The tree has the nearest double. -/
structure Received where
  tree : Json
  idText : Option ℚ
  reads : Json.number? (idOf tree) = idText.map toDouble

/-- A frame of the backend: a message, or text that does not parse. -/
def arrival : Option Received → Inbound
  | none => .junk
  | some m => .msg m.tree

/-- A response to the call of this slot. -/
def Genuine (m : Received) (fl : Inflight) : Prop :=
  (∃ ms, m.tree = .obj ms) ∧ m.tree.getObjectItemCaseSensitive (ascii "method") = none ∧
    m.idText = some (fl.localId : ℚ)

/-- The reader is about to apply a refreshed list, or to relay a reply. -/
def ReaderPc.HasReply : ReaderPc → Prop
  | .apply _ | .relay _ _ => True
  | _ => False

/-- Of the handling of a frame `f` by the reader `t` of backend `idx`: a slot is freed, and a reply
    taken from one, only by a genuine response to it; every other frame leaves the table as it
    is, but for the slot of the refresh that a `list_changed` notification starts. -/
structure OnlyResponses (s s' : Sys) (t : Nat) (idx : Fin maxBackends) (f : Option Received) :
    Prop where
  freed : ∀ i fl, s.g.inflight i = some fl → s'.g.inflight i ≠ some fl →
    fl.backend = idx ∧ ∃ m ∈ f, Genuine m fl
  taken : ∀ pc, s'.threads t = .reader idx pc → pc.HasReply →
    ∃ i fl, s.g.inflight i = some fl ∧ s'.g.inflight i = none ∧ fl.backend = idx ∧
      ∃ m ∈ f, Genuine m fl
  others : (∀ i fl, s.g.inflight i = some fl → fl.backend = idx → ∀ m ∈ f, ¬ Genuine m fl) →
    s'.g.inflight = s.g.inflight ∨ (onInbound (arrival f) = .refresh ∧
      ∃ i fl, s.g.inflight i = none ∧ fl.backend = idx ∧ s'.g.inflight = s.g.inflight.put i fl)

/-- The number in the message converts to the local id of this slot. -/
def Names (s : Sys) (m : Received) (i : Fin maxInflight) (fl : Inflight) : Prop :=
  ∃ d, Json.number? (idOf m.tree) = some d ∧
    inflightFind s.g (castU64 s.g.platform.castUb d) = some i ∧ s.g.inflight i = some fl

/-- A slot that the message names is the backend's own, the message has no `method`, and its `id`
    is the local id exactly. -/
def NamesRightly (s : Sys) (idx : Fin maxBackends) (m : Received) : Prop :=
  ∀ i fl, Names s m i fl → fl.backend = idx ∧
    m.tree.getObjectItemCaseSensitive (ascii "method") = none ∧
    m.idText = some (fl.localId : ℚ)

/-- A message with a number for its `id` is looked up, any other never is. -/
theorem onMessage_cases (msg : Json) :
    (∃ d, Json.number? (idOf msg) = some d ∧ onMessage msg = .lookup d msg) ∨
      (Json.number? (idOf msg) = none ∧ (onMessage msg = .top ∨ onMessage msg = .refresh)) := by
  unfold onMessage
  split
  · next method hid hm =>
      rw [hid]
      refine Or.inr ⟨rfl, ?_⟩
      split
      · exact Or.inr rfl
      · exact Or.inl rfl
  · cases hn : Json.number? (idOf msg) with
    | some d => exact Or.inl ⟨d, rfl, rfl⟩
    | none => exact Or.inr ⟨rfl, Or.inl rfl⟩

theorem onInbound_number {m : Received} {d : Dbl} (hd : Json.number? (idOf m.tree) = some d) :
    onInbound (arrival (some m)) = .lookup d m.tree := by
  rcases onMessage_cases m.tree with ⟨d', hd', hon⟩ | ⟨hnone, -⟩
  · rw [hd] at hd'
    cases hd'
    exact hon
  · rw [hd] at hnone
    cases hnone

/-- A reader at the top of its loop changes no table. -/
theorem step_top {s s' : Sys} {a : Act} {t : Nat} {idx : Fin maxBackends}
    (hst : Step s a s') (ht : s.threads t = .reader idx .top) (ha : a.thread = some t) :
    s'.g = s.g ∧ ∀ pc, s'.threads t = .reader idx pc → ¬ pc.HasReply := by
  have hn := step_reader hst ht ha
  cases a with
  | readerTop u =>
      cases Option.some.inj hn
      refine ⟨rfl, fun pc hpc => ?_⟩
      rw [Sys.setThread_same] at hpc
      cases hpc
      split <;> exact id
  | _ => cases hn

/-- A reader about to refresh takes at most a free slot. -/
theorem step_refresh {s s' : Sys} {a : Act} {t : Nat} {idx : Fin maxBackends}
    (hst : Step s a s') (ht : s.threads t = .reader idx .refresh) (ha : a.thread = some t) :
    s'.threads t = .reader idx .top ∧ (s'.g.inflight = s.g.inflight ∨
      ∃ i fl, s.g.inflight i = none ∧ fl.backend = idx ∧
        s'.g.inflight = s.g.inflight.put i fl) := by
  have hn := step_reader hst ht ha
  cases a with
  | refresh u ok =>
      cases Option.some.inj hn
      refine ⟨Sys.setThread_same _ _ _, ?_⟩
      have hcases := refreshBackendTools_cases s.g idx ok
      rw [Sys.setThread_g, Sys.setG_g]
      generalize refreshBackendTools s.g idx ok = r at hcases
      cases hcases with
      | refused h => exact Or.inl rfl
      | written b i hok hb hfree =>
          exact Or.inr ⟨i, _, Slots.firstFree_some hfree, rfl, rfl⟩
      | unwritten hok => exact Or.inl rfl
  | _ => cases hn

/-- Frames that free nothing. -/
theorem OnlyResponses.of_keep {s s' : Sys} {t : Nat} {idx : Fin maxBackends}
    {f : Option Received} (hpc : ∀ pc, s'.threads t = .reader idx pc → ¬ pc.HasReply)
    (h : s'.g.inflight = s.g.inflight ∨ (onInbound (arrival f) = .refresh ∧
      ∃ i fl, s.g.inflight i = none ∧ fl.backend = idx ∧
        s'.g.inflight = s.g.inflight.put i fl)) : OnlyResponses s s' t idx f := by
  refine ⟨fun i fl hfl hne => absurd ?_ hne, fun pc h hr => absurd hr (hpc pc h), fun _ => h⟩
  rcases h with h | ⟨-, j, fl', hfree, -, h⟩
  · rw [h]
    exact hfl
  · have hji : i ≠ j := by
      rintro rfl
      rw [hfree] at hfl
      cases hfl
    rw [h, Slots.put_ne _ _ hji]
    exact hfl

/-- Looking up an id that no slot has changes nothing. -/
theorem readerLookup_missed {g : Global} {idx : Fin maxBackends} {d : Dbl} {msg : Json}
    (h : inflightFind g (castU64 g.platform.castUb d) = none) :
    readerLookup g idx d msg = (g, .top) := by
  unfold readerLookup
  rw [h]

/-- Looking up an id frees its slot and no other. -/
theorem readerLookup_found {g : Global} {idx : Fin maxBackends} {d : Dbl} {msg : Json}
    {i : Fin maxInflight} (h : inflightFind g (castU64 g.platform.castUb d) = some i) :
    (readerLookup g idx d msg).1.inflight = g.inflight.clear i := by
  obtain ⟨fl, hfl, -⟩ := inflightFind_some h
  unfold readerLookup
  rw [h]
  dsimp only
  rw [hfl]
  rfl

/-- Only an object has an `id`. -/
theorem obj_of_number {msg : Json} {d : Dbl} (h : Json.number? (idOf msg) = some d) :
    ∃ ms, msg = .obj ms := by
  cases msg with
  | obj ms => exact ⟨ms, rfl⟩
  | _ => cases h

/-- A message with a number for its `id`, at its lookup. -/
theorem onlyResponses_lookup {s : Sys} {m : Received} {d : Dbl}
    (hd : Json.number? (idOf m.tree) = some d) (t : Nat) (idx : Fin maxBackends) :
    OnlyResponses s ((s.setG (readerLookup s.g idx d m.tree).1).setThread t
        (.reader idx (readerLookup s.g idx d m.tree).2)) t idx (some m) ↔
      NamesRightly s idx m := by
  constructor
  · rintro h i fl ⟨d', hd', hf, hfl⟩
    rw [hd] at hd'
    cases hd'
    have hgone : (readerLookup s.g idx d m.tree).1.inflight i ≠ some fl := by
      rw [readerLookup_found hf, Slots.clear_same]
      exact fun he => by cases he
    obtain ⟨hown, m', hm, hgen⟩ := h.freed i fl hfl hgone
    cases hm
    exact ⟨hown, hgen.2⟩
  · intro h
    cases hf : inflightFind s.g (castU64 s.g.platform.castUb d) with
    | none =>
        rw [readerLookup_missed hf]
        refine .of_keep (fun pc hpc => ?_) (Or.inl rfl)
        rw [Sys.setThread_same] at hpc
        cases hpc
        exact id
    | some i =>
        obtain ⟨fl, hfl, -⟩ := inflightFind_some hf
        obtain ⟨hown, hmethod, hid⟩ := h i fl ⟨d, hd, hf, hfl⟩
        have hgen : Genuine m fl := ⟨obj_of_number hd, hmethod, hid⟩
        refine ⟨fun j flj hflj hne => ?_, fun _ _ _ => ⟨i, fl, hfl, ?_, hown, m, rfl, hgen⟩,
          fun hno => absurd hgen (hno i fl hfl hown m rfl)⟩
        · by_cases hji : j = i
          · subst hji
            rw [hfl] at hflj
            cases hflj
            exact ⟨hown, m, rfl, hgen⟩
          · refine absurd ?_ hne
            rw [Sys.setThread_g, Sys.setG_g, readerLookup_found hf, Slots.clear_ne _ hji]
            exact hflj
        · rw [Sys.setThread_g, Sys.setG_g, readerLookup_found hf, Slots.clear_same]

/-- Only genuine responses complete calls: a reader's step on a frame frees slots and takes replies
    as it should if and only if the frame names no slot wrongly. -/
theorem only_responses {s s' : Sys} {a : Act} {t : Nat} {idx : Fin maxBackends}
    {f : Option Received} (ht : s.threads t = .reader idx (onInbound (arrival f)))
    (ha : a.thread = some t) (hst : Step s a s') :
    OnlyResponses s s' t idx f ↔ ∀ m ∈ f, NamesRightly s idx m := by
  cases f with
  | none =>
      obtain ⟨hg, hpc⟩ := step_top hst ht ha
      have honly : OnlyResponses s s' t idx none := .of_keep hpc (Or.inl (by rw [hg]))
      have hnone : ∀ m ∈ (none : Option Received), NamesRightly s idx m := fun m hm => by cases hm
      exact ⟨fun _ => hnone, fun _ => honly⟩
  | some m =>
      rcases onMessage_cases m.tree with ⟨d, hd, -⟩ | ⟨hnone, hon⟩
      · rw [onInbound_number hd] at ht
        obtain ⟨-, rfl⟩ := step_lookup hst ht ha
        exact (onlyResponses_lookup hd t idx).trans
          ⟨fun h m' hm => by cases hm; exact h, fun h => h m rfl⟩
      · have hright : ∀ m' ∈ some m, NamesRightly s idx m' := by
          rintro m' hm i fl ⟨d, hd, -⟩
          cases hm
          rw [hnone] at hd
          cases hd
        refine ⟨fun _ => hright, fun _ => ?_⟩
        rcases hon with hon | hon
        · rw [arrival, onInbound, hon] at ht
          obtain ⟨hg, hpc⟩ := step_top hst ht ha
          exact .of_keep hpc (Or.inl (by rw [hg]))
        · rw [arrival, onInbound, hon] at ht
          obtain ⟨hpc, hg⟩ := step_refresh hst ht ha
          refine .of_keep (fun pc h => ?_) (hg.imp_right fun hput => ⟨hon, hput⟩)
          rw [hpc] at h
          cases h
          exact id

/-- A response whose `id` is this number. -/
def responseTo (d : Dbl) : Json := fields [("id", .num d), ("result", fields [])]

/-- A response with the local id 1. -/
def exactResponse : Received := ⟨responseTo (.fin 1), some 1, by decide +kernel⟩

/-- A response with the `id` 1.5. -/
def fractionalResponse : Received := ⟨responseTo (.fin (3 / 2)), some (3 / 2), by decide +kernel⟩

/-- The connection a reader waits on. -/
def Thread.waitsOn : Thread → Option (Fin maxBackends × ConnId)
  | .reader idx (.read c) => some (idx, c)
  | _ => none

/-- A call is outstanding at the second app, under the local id 1. -/
theorem callAtSecond_state : ∃ s c fl, Reach aggregator s ∧ s.threads 3 = .reader 1 (.read c) ∧
    s.g.inflight 0 = some fl ∧ fl.backend = 1 ∧ fl.localId = 1 ∧ inflightFind s.g 1 = some 0 := by
  have hrun : ((follow Sys.next (Sys.start plainPlatform false) callAtSecond).bind fun s =>
      (s.g.inflight 0).map fun fl => ((s.threads 3).waitsOn.map Prod.fst, fl.backend, fl.localId,
        inflightFind s.g 1)) = some (some 1, 1, 1, some 0) := by
    decide +kernel
  obtain ⟨s, hs, hrun⟩ := Option.bind_eq_some_iff.mp hrun
  obtain ⟨fl, hfl, hrun⟩ := Option.map_eq_some_iff.mp hrun
  simp only [Prod.mk.injEq] at hrun
  obtain ⟨hwaits, hback, hid, hfind⟩ := hrun
  obtain ⟨c, hpc⟩ : ∃ c, s.threads 3 = .reader 1 (.read c) := by
    obtain ⟨⟨idx, c⟩, hw, rfl⟩ := Option.map_eq_some_iff.mp hwaits
    refine ⟨c, ?_⟩
    unfold Thread.waitsOn at hw
    split at hw
    · next idx' c' ht =>
        cases hw
        exact ht
    · cases hw
  have hreach : Reach aggregator s := reach_of_follow hs fun _ _ => trivial
  exact ⟨s, c, fl, hreach, hpc, hfl, hback, hid, hfind⟩

/-- It sends a message whose number converts to 1. -/
theorem callAtSecond_message {m : Received} {d : Dbl} (hd : Json.number? (idOf m.tree) = some d)
    (hone : ∀ ub, castU64 ub d = 1) : ∃ s s' fl, Reach aggregator s ∧
      s.threads 3 = .reader 1 (onInbound (arrival (some m))) ∧ Step s (.lookup 3) s' ∧
      Names s m 0 fl ∧ fl.backend = 1 ∧ fl.localId = 1 := by
  obtain ⟨s, c, fl, hreach, hpc, hfl, hback, hid, hfind⟩ := callAtSecond_state
  have hrecv : Step s (.recv 3 (arrival (some m))) _ := .recv hpc
  have hat : (s.setThread 3 (.reader 1 (onInbound (arrival (some m))))).threads 3 =
      .reader 1 (.lookup d m.tree) := by
    rw [Sys.setThread_same, onInbound_number hd]
  refine ⟨_, _, fl, hreach.step trivial hrecv, Sys.setThread_same _ _ _, .lookup hat,
    ⟨d, hd, ?_, hfl⟩, hback, hid⟩
  rw [Sys.setThread_g, hone]
  exact hfind

/-- The response to the call: it has the slot's id, and completes no other call. -/
theorem only_responses_exact : ∃ s s' fl, Step s (.lookup 3) s' ∧
    Names s exactResponse 0 fl ∧ Genuine exactResponse fl ∧
    OnlyResponses s s' 3 1 (some exactResponse) := by
  have hcast : ∀ ub, castU64 ub (.fin 1) = 1 := fun ub => castU64_natCast ub (by decide)
  obtain ⟨s, s', fl, -, ht, hst, hnames, hback, hid⟩ :=
    callAtSecond_message (m := exactResponse) rfl hcast
  have hmethod : exactResponse.tree.getObjectItemCaseSensitive (ascii "method") = none := by
    decide +kernel
  have htext : exactResponse.idText = some (fl.localId : ℚ) := by
    rw [hid]
    rfl
  refine ⟨s, s', fl, hst, hnames, ⟨⟨_, rfl⟩, hmethod, htext⟩,
    (only_responses ht rfl hst).mpr fun m hm i fl' hnames' => ?_⟩
  cases hm
  obtain ⟨d, hd, hf, hfl⟩ := hnames
  obtain ⟨d', hd', hf', hfl'⟩ := hnames'
  rw [hd] at hd'
  cases hd'
  rw [hf] at hf'
  cases hf'
  rw [hfl] at hfl'
  cases hfl'
  exact ⟨hback, hmethod, htext⟩

/-- A response whose `id` is 1.5 completes the call with the local id 1. -/
theorem only_responses_fractional : ∃ s s', Reach aggregator s ∧
    s.threads 3 = .reader 1 (onInbound (arrival (some fractionalResponse))) ∧
    Step s (.lookup 3) s' ∧ ¬ OnlyResponses s s' 3 1 (some fractionalResponse) := by
  have hcast : ∀ ub, castU64 ub (.fin (3 / 2)) = 1 := by
    intro ub
    norm_num [castU64]
    decide +kernel
  obtain ⟨s, s', fl, hreach, ht, hst, hnames, -, hid⟩ :=
    callAtSecond_message (m := fractionalResponse) rfl hcast
  refine ⟨s, s', hreach, ht, hst, fun honly => ?_⟩
  obtain ⟨d, hd, hf, hfl⟩ := hnames
  rw [onInbound_number hd] at ht
  obtain ⟨-, rfl⟩ := step_lookup hst ht rfl
  obtain ⟨-, -, htext⟩ := (onlyResponses_lookup hd 3 1).mp honly 0 fl ⟨d, hd, hf, hfl⟩
  rw [hid] at htext
  exact absurd htext (by decide +kernel)

end DisplayxrMcp
