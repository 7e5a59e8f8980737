/-
  The requests of a connection and the in-flight slots of its backend.

  `Slotted`: the requests on their way to the server, with the answer the reader is
  about to look up, have each a slot of the backend, and each goes on with the
  request its slot was taken for. A slot is without one only if the reader has
  refused its answer. `Linked` adds the handshake, which asks one thing at a time.
  Steps of the server and of the aggregator keep it (`Linked.peer`, `Linked.step`),
  so a reader looks up ids of its own backend only (`Linked.own`) and relays the
  answer to the very call of the slot (`Linked.relays`).

  `slot` says what a slot was taken for, `ran` what the handlers of the server have
  been called with, `lost` whether an answer has been refused. They are the caller's.
-/
import DisplayxrMcp.Pair.Link
import DisplayxrMcp.Pair.Serving

namespace DisplayxrMcp.Pair

open Lib Cjson Lts Server

/-- The requests, oldest first, and the slots of backend `idx`. -/
structure Slotted (slot : Inflight → Json → Prop) (ran : Ran) (lost : Prop)
    (printText : Json → CStr) (g : Global) (idx : Fin maxBackends) (items : List Item) : Prop where
  ids : (items.map fun x => x.ask.id).Nodup
  slots : ∀ x ∈ items, ∃ i fl req, g.inflight i = some fl ∧ fl.backend = idx ∧
    x.ask.id = .num (.fin fl.localId) ∧ slot fl req ∧ x.stage.Of printText ran req
  taken : ∀ i fl, g.inflight i = some fl → fl.backend = idx → ∃ req, slot fl req
  all : ∀ i fl, g.inflight i = some fl → fl.backend = idx →
    lost ∨ ∃ x ∈ items, x.ask.id = .num (.fin fl.localId)

/-- What the reader at `pc` has read and not looked up. -/
def InHand : ReaderPc → Option Item → Prop
  | .lookup d msg, held => ∃ a, held = some ⟨a, .answered msg⟩ ∧ a.id = .num d
  | _, held => held = none

/-- The holder of a connection keeps up with the server. -/
def Linked (slot : Inflight → Json → Prop) (ran : Ran) (lost : Prop) (g : Global) (p : Peer) :
    Holder → Prop
  | .setup pc => Greets p pc
  | .reader idx pc => ∃ held, InHand pc held ∧
      Slotted slot ran lost p.printText g idx (held.toList ++ p.items)

theorem inHand_none {pc : ReaderPc} (h : ¬ Looks pc) {held : Option Item} :
    InHand pc held ↔ held = none := by
  cases pc with
  | lookup d msg => exact absurd trivial h
  | _ => exact Iff.rfl

section

variable {slot slot' : Inflight → Json → Prop} {ran ran' : Ran} {lost lost' : Prop}
  {printText : Json → CStr}
  {g g' : Global} {idx : Fin maxBackends} {items items' : List Item}

theorem Slotted.mono (h : Slotted slot ran lost printText g idx items)
    (hslot : ∀ fl req, slot fl req → slot' fl req)
    (hran : ∀ tool args inner, ran tool args inner → ran' tool args inner) (hlost : lost → lost') :
    Slotted slot' ran' lost' printText g idx items := by
  refine ⟨h.ids, fun x hx => ?_, fun i fl hfl hown => ?_, fun i fl hfl hown =>
    (h.all i fl hfl hown).imp_left hlost⟩
  · obtain ⟨i, fl, req, hfl, hown, hid, hs, hof⟩ := h.slots x hx
    exact ⟨i, fl, req, hfl, hown, hid, hslot fl req hs, hof.mono hran⟩
  · obtain ⟨req, hs⟩ := h.taken i fl hfl hown
    exact ⟨req, hslot fl req hs⟩

theorem Slotted.keep (h : Slotted slot ran lost printText g idx items) (hg : SameSlots g g' idx) :
    Slotted slot ran lost printText g' idx items := by
  refine ⟨h.ids, fun x hx => ?_, fun i fl hfl hown => h.taken i fl ((hg i fl hown).mp hfl) hown,
    fun i fl hfl hown => h.all i fl ((hg i fl hown).mp hfl) hown⟩
  obtain ⟨i, fl, req, hfl, hown, hid, hs, hof⟩ := h.slots x hx
  exact ⟨i, fl, req, (hg i fl hown).mpr hfl, hown, hid, hs, hof⟩

theorem slotted_nil (hno : ∀ i fl, g.inflight i = some fl → fl.backend ≠ idx) :
    Slotted slot ran lost printText g idx [] :=
  ⟨List.nodup_nil, (fun _ hx => nomatch hx), fun i fl hfl hown => absurd hown (hno i fl hfl),
    fun i fl hfl hown => absurd hown (hno i fl hfl)⟩

theorem onward_mem (hgo : List.Forall₂ (Onward printText ran) items items') :
    (∀ y ∈ items', ∃ x ∈ items, Onward printText ran x y) ∧
      ∀ x ∈ items, ∃ y ∈ items', Onward printText ran x y := by
  induction hgo with
  | nil => exact ⟨(fun _ hy => nomatch hy), fun _ hx => nomatch hx⟩
  | @cons x y _ _ hxy _ ih =>
      refine ⟨fun z hz => ?_, fun z hz => ?_⟩
      · rcases List.mem_cons.mp hz with rfl | hz
        · exact ⟨x, List.mem_cons_self, hxy⟩
        · obtain ⟨w, hw, hgo⟩ := ih.1 z hz
          exact ⟨w, List.mem_cons_of_mem _ hw, hgo⟩
      · rcases List.mem_cons.mp hz with rfl | hz
        · exact ⟨y, List.mem_cons_self, hxy⟩
        · obtain ⟨w, hw, hgo⟩ := ih.2 z hz
          exact ⟨w, List.mem_cons_of_mem _ hw, hgo⟩

/-- The requests go on. -/
theorem Slotted.onward (h : Slotted slot ran lost printText g idx items)
    (hgo : List.Forall₂ (Onward printText ran) items items') :
    Slotted slot ran lost printText g idx items' := by
  have hids : items'.map (fun x => x.ask.id) = items.map fun x => x.ask.id := by
    clear h
    induction hgo with
    | nil => rfl
    | cons hx _ ih => rw [List.map_cons, List.map_cons, ih, hx.1]
  refine ⟨hids ▸ h.ids, fun x hx => ?_, h.taken, fun i fl hfl hown => ?_⟩
  · obtain ⟨y, hy, hask, hof⟩ := (onward_mem hgo).1 x hx
    obtain ⟨i, fl, req, hfl, hown, hid, hs, hstage⟩ := h.slots y hy
    exact ⟨i, fl, req, hfl, hown, hask ▸ hid, hs, hof req hstage⟩
  · rcases h.all i fl hfl hown with hlost | ⟨x, hx, hid⟩
    · exact Or.inl hlost
    · obtain ⟨y, hy, hask, -⟩ := (onward_mem hgo).2 x hx
      exact Or.inr ⟨y, hy, hask ▸ hid⟩

/-- The answer of the oldest request is refused. -/
theorem Slotted.dropped {x : Item} (h : Slotted slot ran lost printText g idx (x :: items))
    (hlost : lost') : Slotted slot ran lost' printText g idx items :=
  ⟨(List.nodup_cons.mp h.ids).2, fun y hy => h.slots y (List.mem_cons_of_mem _ hy), h.taken,
    fun _ _ _ _ => Or.inl hlost⟩

/-- A local id names one slot. -/
theorem slot_once {s : Sys} (hl : LocalIds s) {i k : Fin maxInflight} {fl fk : Inflight}
    (hfl : s.g.inflight i = some fl) (hfk : s.g.inflight k = some fk)
    (hid : Json.num (.fin fl.localId) = .num (.fin fk.localId)) : i = k := by
  injection hid with heq
  injection heq with heq
  have hnat : fl.localId = fk.localId := by exact_mod_cast heq
  refine hl.once i k fk.localId ?_ ?_
  · exact (congrArg (Option.map Inflight.localId) hfl).trans (congrArg some hnat)
  · exact congrArg (Option.map Inflight.localId) hfk

/-- A new request takes a free slot and the next local id. -/
theorem Slotted.ask {s : Sys} (h : Slotted slot ran lost printText s.g idx items) (hl : LocalIds s)
    {i : Fin maxInflight} {fl : Inflight} {x : Item} {req : Json} (hfree : s.g.inflight i = none)
    (hg : g'.inflight = s.g.inflight.put i fl) (hfl : fl.localId = s.g.nextLocalId + 1)
    (hown : fl.backend = idx) (hid : x.ask.id = .num (.fin fl.localId)) (hs : slot fl req)
    (hof : x.stage.Of printText ran req) : Slotted slot ran lost printText g' idx (items ++ [x]) := by
  have hkeep : ∀ k fk, s.g.inflight k = some fk → g'.inflight k = some fk := by
    intro k fk hfk
    rw [hg, Slots.put_ne _ _ fun e => by rw [e, hfree] at hfk; cases hfk]
    exact hfk
  refine ⟨?_, fun y hy => ?_, fun k fk hfk hk => ?_, fun k fk hfk hk => ?_⟩
  · rw [List.map_append, List.map_singleton, List.nodup_append]
    refine ⟨h.ids, List.nodup_singleton _, fun d hd e he => ?_⟩
    obtain ⟨y, hy, rfl⟩ := List.mem_map.mp hd
    obtain ⟨k, fk, req', hfk, -, hidk, -, -⟩ := h.slots y hy
    have hle := hl.le k fk hfk
    rw [List.mem_singleton.mp he, hid, hidk]
    intro heq
    injection heq with heq
    injection heq with heq
    have hnat : fk.localId = fl.localId := by exact_mod_cast heq
    omega
  · rcases List.mem_append.mp hy with hy | hy
    · obtain ⟨k, fk, req', hfk, hownk, hidk, hsk, hofk⟩ := h.slots y hy
      exact ⟨k, fk, req', hkeep k fk hfk, hownk, hidk, hsk, hofk⟩
    · rw [List.mem_singleton.mp hy]
      exact ⟨i, fl, req, by rw [hg, Slots.put_same], hown, hid, hs, hof⟩
  · rw [hg, Slots.put_apply] at hfk
    split at hfk
    · cases hfk
      exact ⟨req, hs⟩
    · exact h.taken k fk hfk hk
  · rw [hg, Slots.put_apply] at hfk
    split at hfk
    · cases hfk
      exact Or.inr ⟨x, List.mem_append_right _ List.mem_cons_self, hid⟩
    · refine (h.all k fk hfk hk).imp_right ?_
      rintro ⟨y, hy, hidy⟩
      exact ⟨y, List.mem_append_left _ hy, hidy⟩

/-- The slot of the oldest request is released. -/
theorem Slotted.release {s : Sys} (hl : LocalIds s) {x : Item}
    (h : Slotted slot ran lost printText s.g idx (x :: items)) {i : Fin maxInflight} {fl : Inflight}
    (hfl : s.g.inflight i = some fl) (hid : x.ask.id = .num (.fin fl.localId)) :
    Slotted slot ran lost printText (inflightRelease s.g i) idx items := by
  have hids := List.nodup_cons.mp h.ids
  have hne : ∀ y ∈ items, ∀ k fk, s.g.inflight k = some fk → y.ask.id = .num (.fin fk.localId) →
      k ≠ i := by
    rintro y hy k fk hfk hidy rfl
    rw [hfk] at hfl
    cases hfl
    exact hids.1 (List.mem_map.mpr ⟨y, hy, hidy.trans hid.symm⟩)
  refine ⟨hids.2, fun y hy => ?_, fun k fk hfk hk => ?_, fun k fk hfk hk => ?_⟩
  · obtain ⟨k, fk, req, hfk, hown, hidy, hs, hof⟩ := h.slots y (List.mem_cons_of_mem _ hy)
    refine ⟨k, fk, req, ?_, hown, hidy, hs, hof⟩
    rw [inflightRelease_inflight, Slots.clear_ne _ (hne y hy k fk hfk hidy)]
    exact hfk
  · rw [inflightRelease_inflight, Slots.clear_apply] at hfk
    split at hfk
    · cases hfk
    · exact h.taken k fk hfk hk
  · rw [inflightRelease_inflight, Slots.clear_apply] at hfk
    split at hfk
    · cases hfk
    · next hki =>
        refine (h.all k fk hfk hk).imp_right ?_
        rintro ⟨y, hy, hidy⟩
        rcases List.mem_cons.mp hy with rfl | hy
        · exact absurd (slot_once hl hfk hfl (hidy.symm.trans hid)) hki
        · exact ⟨y, hy, hidy⟩

end

/-! ## Looking an answer up -/

section

variable {slot slot' : Inflight → Json → Prop} {ran ran' : Ran} {lost lost' : Prop} {c : ConnId}
  {s : Sys} {p : Peer}
  {idx : Fin maxBackends} {d : Dbl} {msg : Json}

/-- A reader that is about to look an id up finds the slot of the request it is the answer of. -/
theorem Linked.finds (h : Linked slot ran lost s.g p (.reader idx (.lookup d msg))) (hl : LocalIds s) :
    ∃ i fl req x, Slotted slot ran lost p.printText s.g idx (x :: p.items) ∧
      s.g.inflight i = some fl ∧ fl.backend = idx ∧ x.ask.id = .num (.fin fl.localId) ∧
      slot fl req ∧ (Stage.answered msg).Of p.printText ran req ∧
      inflightFind s.g (castU64 s.g.platform.castUb d) = some i := by
  obtain ⟨held, ⟨a, rfl, hid⟩, hsl⟩ := h
  obtain ⟨i, fl, req, hfl, hown, haid, hs, hof⟩ := hsl.slots _ List.mem_cons_self
  have hd : d = .fin fl.localId := by
    rw [hid] at haid
    injection haid
  have hlt : fl.localId < 2 ^ 64 := by
    have hle := hl.le i fl hfl
    have hlim := hl.limit
    unfold localIdLimit at hlim
    omega
  refine ⟨i, fl, req, _, hsl, hfl, hown, haid, hs, hof, ?_⟩
  rw [hd, castU64_natCast _ hlt]
  exact hl.find_eq hfl

/-- The id it looks up names no other backend's slot. -/
theorem Linked.own (h : Linked slot ran lost s.g p (.reader idx (.lookup d msg))) (hl : LocalIds s)
    {t : Nat} (ht : s.threads t = .reader idx (.lookup d msg)) : ¬ NamesForeign s t := by
  rintro ⟨idx', d', msg', j, fj, ht', hfind, hfj, hne⟩
  rw [ht] at ht'
  cases ht'
  obtain ⟨i, fl, req, x, -, hfl, hown, -, -, -, hf⟩ := h.finds hl
  rw [hf] at hfind
  cases hfind
  rw [hfl] at hfj
  cases hfj
  exact hne hown

/-- What is relayed is the answer to the request of an agent's slot, under the id recorded in it. -/
theorem Linked.relays (h : Linked slot ran lost s.g p (.reader idx (.lookup d msg))) (hl : LocalIds s)
    {seq : Option Nat} {body : Json} (hr : (readerLookup s.g idx d msg).2 = .relay seq body) :
    ∃ fl req, fl.kind = .agent ∧ seq = fl.seq ∧ body = restoreId msg fl.origId ∧ slot fl req ∧
      (Stage.answered msg).Of p.printText ran req := by
  obtain ⟨i, fl, req, x, -, hfl, -, -, hs, hof, hf⟩ := h.finds hl
  have hcases := readerLookup_cases s.g idx d msg
  generalize readerLookup s.g idx d msg = r at hcases hr
  cases hcases with
  | missed _ => cases hr
  | foreign _ _ _ _ _ => cases hr
  | refreshed j fj hf' hfj _ _ pc hpc =>
      split at hpc
      · rw [hpc] at hr
        cases hr
      · rw [hpc] at hr
        cases hr
  | answered j fj hf' hfj _ hk =>
      rw [hf] at hf'
      cases hf'
      rw [hfl] at hfj
      cases hfj
      cases hr
      exact ⟨fl, req, hk, rfl, rfl, hs, hof⟩

/-- The lookup releases the slot. -/
theorem Linked.looked (h : Linked slot ran lost s.g p (.reader idx (.lookup d msg))) (hl : LocalIds s) :
    Linked slot ran lost (readerLookup s.g idx d msg).1 p (.reader idx (readerLookup s.g idx d msg).2) := by
  obtain ⟨i, fl, req, x, hsl, hfl, hown, hid, -, -, hf⟩ := h.finds hl
  have hcases := readerLookup_cases s.g idx d msg
  generalize readerLookup s.g idx d msg = r at hcases
  have hsame : ∀ j fj, inflightFind s.g (castU64 s.g.platform.castUb d) = some j →
      s.g.inflight j = some fj → j = i ∧ fj = fl := by
    intro j fj hj hfj
    rw [hf] at hj
    cases hj
    rw [hfl] at hfj
    cases hfj
    exact ⟨rfl, rfl⟩
  cases hcases with
  | missed hno =>
      rw [hf] at hno
      cases hno
  | foreign j fj hf' hfj hne =>
      obtain ⟨-, rfl⟩ := hsame j fj hf' hfj
      exact absurd hown hne
  | refreshed j fj hf' hfj _ _ pc hpc =>
      obtain ⟨rfl, rfl⟩ := hsame j fj hf' hfj
      refine ⟨none, (inHand_none ?_).mpr rfl, hsl.release hl hfl hid⟩
      rw [hpc]
      split <;> exact id
  | answered j fj hf' hfj _ _ =>
      obtain ⟨rfl, rfl⟩ := hsame j fj hf' hfj
      exact ⟨none, rfl, hsl.release hl hfl hid⟩

/-! ## Steps -/

theorem Linked.mono {g : Global} {h : Holder} (hlink : Linked slot ran lost g p h)
    (hslot : ∀ fl req, slot fl req → slot' fl req)
    (hran : ∀ tool args inner, ran tool args inner → ran' tool args inner) (hlost : lost → lost') :
    Linked slot' ran' lost' g p h := by
  cases h with
  | setup pc => exact hlink
  | reader idx pc =>
      obtain ⟨held, hhand, hsl⟩ := hlink
      exact ⟨held, hhand, hsl.mono hslot hran hlost⟩

/-- The server moves. -/
theorem Linked.peer {g : Global} {h : Holder} (hlink : Linked slot ran lost g p h) {a : PeerAct}
    {p' : Peer} (hst : p.Step a p') (hok : p.Ok)
    (hmono : ∀ tool args inner, ran tool args inner → ran' tool args inner)
    (hran : ∀ id tool args inner, a = .handler inner → p.pc = .call id tool args →
      ran' tool args inner) : Linked slot ran' lost g p' h := by
  cases h with
  | setup pc => exact ⟨(hst.asks hok).trans hlink.1, fun hg => hst.initialized (hlink.2 hg)⟩
  | reader idx pc =>
      obtain ⟨held, hhand, hsl⟩ := hlink
      refine ⟨held, hhand, ?_⟩
      rw [hst.printText]
      exact (hsl.mono (fun _ _ hs => hs) hmono id).onward
        (List.rel_append (onward_refl _ _ _) (hst.items hok hran))

/-- A frame the reader gets is an announcement, or the answer to the oldest request. -/
theorem Linked.got {f : Frame} {rest : List Frame} {g : Global}
    (h : Linked slot ran lost g p (.reader idx (.read c))) (hok : p.Ok) (hx : p.outbox = f :: rest) :
    Linked slot ran lost g (p.exchange rest []) (.reader idx (onMessage f.body)) := by
  obtain ⟨held, rfl, hsl⟩ := h
  have hfok := hok.frames f (hx ▸ List.mem_cons_self)
  have hitems := Peer.read_items hx
  cases ha : f.answers with
  | none =>
      have hbody : f.body = listChanged.reparse := by
        simpa only [Frame.Ok, ha] using hfok
      rw [hbody, onMessage_listChanged]
      refine ⟨none, rfl, ?_⟩
      rw [show f.item = none by simp [Frame.item, ha]] at hitems
      rw [hitems] at hsl
      exact hsl
  | some a =>
      rw [show f.item = some ⟨a, .answered f.body⟩ by simp [Frame.item, ha]] at hitems
      rw [hitems] at hsl
      obtain ⟨i, fl, req, -, -, hid, -, -⟩ := hsl.slots _ List.mem_cons_self
      rw [onMessage_of_id ((hfok.id ha).trans (congrArg some hid))]
      exact ⟨_, ⟨a, rfl, hid⟩, hsl⟩

/-- A request is written to the server. -/
theorem Linked.asks {pc pc' : ReaderPc} {g' : Global} {req : Json} {a : Ask} {i : Fin maxInflight}
    {fl : Inflight} (h : Linked slot ran lost s.g p (.reader idx pc)) (hl : LocalIds s)
    (hslot : ∀ fl req, slot fl req → slot' fl req) (hlost : lost → lost')
    (hpc : ∀ held, InHand pc held → InHand pc' held)
    (hfree : s.g.inflight i = none) (hg : g'.inflight = s.g.inflight.put i fl)
    (hfl : fl.localId = s.g.nextLocalId + 1) (hown : fl.backend = idx) (hask : askOf req = some a)
    (hid : a.id = .num (.fin fl.localId)) (hs : slot' fl req) :
    Linked slot' ran lost' g' (p.exchange p.outbox [req]) (.reader idx pc') := by
  obtain ⟨held, hhand, hsl⟩ := h
  refine ⟨held, hpc held hhand, ?_⟩
  have hitem : itemOf req = some ⟨a, .asked req⟩ := by simp [itemOf, hask]
  rw [Peer.sent_items, List.filterMap_cons, hitem, List.filterMap_nil, ← List.append_assoc]
  exact (hsl.mono hslot (fun _ _ _ hr => hr) hlost).ask hl hfree hg hfl hown hid hs rfl

/-- Every step of the aggregator, on the connection. -/
theorem Linked.step {a : Act} {g' : Global} {p' : Peer} {h : Holder} (hok : p.Ok) (hl : LocalIds s)
    (hprev : ∀ h, HeldBy s c h → Linked slot ran lost s.g p h) (hnew : s.conns ≤ c → p.asks = [])
    (hslot : ∀ fl req, slot fl req → slot' fl req) (hlost : lost → lost')
    (hrefused : ∀ t idx, a = .recv t .junk → s.threads t = .reader idx (.read c) → lost')
    (hcalled : ∀ frame call b idx bare, a = .agentFrame frame true → callOf frame = some call →
      call.full ≠ listAppsName → route s.g call.full = .backend idx b bare → b.conn = c →
        slot' ⟨s.g.nextLocalId + 1, idx, .agent, some call.id, some s.frames.length⟩
          (forwardRequest (s.g.nextLocalId + 1) bare call.args).reparse)
    (hrefresh : ∀ n idx, slot' ⟨n, idx, .toolsRefresh, none, none⟩ (refreshRequest n))
    (hconn : ∀ pc, h = .setup pc → pc.conn = some c) (hst : LinkStep c s a g' p h p') :
    Linked slot' ran lost' g' p' h := by
  have hran : ∀ tool args inner, ran tool args inner → ran tool args inner := fun _ _ _ hr => hr
  cases hst with
  | still hh hslots =>
      have hlink := hprev _ hh
      cases h with
      | setup pc => exact hlink
      | reader idx pc =>
          obtain ⟨held, hhand, hsl⟩ := hlink
          exact ⟨held, hhand, (hsl.mono hslot hran hlost).keep (hslots idx pc rfl)⟩
  | moved hh hpc hpc' hslots =>
      obtain ⟨held, hhand, hsl⟩ := hprev _ hh
      exact ⟨held, (inHand_none hpc').mpr ((inHand_none hpc).mp hhand),
        (hsl.mono hslot hran hlost).keep hslots⟩
  | connected hc =>
      exact ⟨hnew (Nat.le_of_eq hc), fun hg => absurd hg (by simp [isGreeted])⟩
  | asked hh =>
      have hg : Greets p _ := hprev _ hh
      exact hg.sent
  | @noted appId sent hh hsent =>
      obtain ⟨hasks, hinit⟩ : Greets p _ := hprev _ hh
      refine ⟨?_, fun _ => hinit trivial⟩
      rw [Peer.sent_asks, hasks]
      rcases hsent with rfl | rfl
      · rfl
      · simp [asked, askOf_initializedNote]
  | heard hh hx =>
      have hg : Greets p _ := hprev _ hh
      exact hg.read hok hx (hconn _ rfl)
  | registered hh hno =>
      obtain ⟨hasks, -⟩ : Greets p _ := hprev _ hh
      refine ⟨none, rfl, ?_⟩
      rw [Peer.items_nil hasks]
      exact slotted_nil hno
  | @called idx pc frame call bare i hh ha hf hlt hfree hg =>
      obtain ⟨b, hroute⟩ := hf.route
      obtain ⟨-, -, -, -, -, -, hb⟩ := route_backend hroute
      have hlink := hprev _ hh
      obtain ⟨-, b', hb', hbc⟩ := hh
      rw [hb] at hb'
      cases hb'
      subst ha
      exact hlink.asks hl hslot hlost (fun _ hh => hh) hfree hg rfl rfl
        (askOf_forwardRequest hlt bare call.args) rfl
        (hcalled frame call b idx bare rfl hf.reads hf.other hroute hbc)
  | refreshed hh hlt hfree hg =>
      exact (hprev _ hh).asks hl hslot hlost (fun _ hh => hh) hfree hg rfl rfl
        (askOf_refreshRequest hlt) rfl (hrefresh _ _)
  | got hh hx hslots =>
      obtain ⟨held, hhand, hsl⟩ := (hprev _ hh).got hok hx
      exact ⟨held, hhand, (hsl.mono hslot hran hlost).keep hslots⟩
  | @dropped idx t f rest hh ha ht hx hj hslots =>
      obtain ⟨held, rfl, hsl⟩ := hprev _ hh
      refine ⟨none, rfl, ?_⟩
      obtain ⟨ask, hask⟩ := (hok.frames f (hx ▸ List.mem_cons_self)).refused hj
      have hitems := Peer.read_items hx
      rw [show f.item = some ⟨ask, .answered f.body⟩ by simp [Frame.item, hask]] at hitems
      rw [hitems] at hsl
      exact ((hsl.mono hslot hran hlost).keep hslots).dropped (hrefused t idx ha ht)
  | looked hh hg =>
      subst hg
      obtain ⟨held, hhand, hsl⟩ := (hprev _ hh).looked hl
      exact ⟨held, hhand, hsl.mono hslot hran hlost⟩

end

end DisplayxrMcp.Pair
