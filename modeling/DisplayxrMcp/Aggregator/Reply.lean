/-
  Every tools/call is answered exactly once, under the id it came with.

  The ledger `entryAt` says where the reply to an agent frame stands: with an
  in-flight slot, in the hand of main or of a reader, or on stdout, and which id
  it carries. `Books` is the invariant: no frame is at two places, every handled
  call is at one, under its own id. Each step moves at most one entry
  (`Books.move`); a teardown moves them slot by slot (`books_teardown`). With
  answering backends a lookup never releases another backend's slot, which is
  where an entry could be lost.
-/
import DisplayxrMcp.Cjson.Members
import DisplayxrMcp.Aggregator.Answering

namespace DisplayxrMcp

open Lib Cjson Lts

/-- Where a reply can be: recorded by a slot, in a thread's hand, or written. -/
inductive Place where
  | slot (i : Fin maxInflight)
  | main
  | reader (t : Nat)
  | out (n : Nat)

def MainPc.entry : MainPc → Option (Nat × Option Json)
  | .reply seq body _ => some (seq, idOf body)
  | _ => none

def Thread.entry : Thread → Option (Nat × Option Json)
  | .reader _ (.relay seq body) => seq.map fun k => (k, idOf body)
  | _ => none

def Inflight.entry (fl : Inflight) : Option (Nat × Option Json) :=
  fl.seq.map fun k => (k, fl.origId)

def OutFrame.entry (f : OutFrame) : Option (Nat × Option Json) :=
  f.answers.map fun k => (k, idOf f.body)

/-- The number of the agent frame a place holds the reply of, and the id it carries. -/
def entryAt (s : Sys) : Place → Option (Nat × Option Json)
  | .slot i => (s.g.inflight i).bind Inflight.entry
  | .main => s.main.entry
  | .reader t => (s.threads t).entry
  | .out n => (s.stdout[n]?).bind OutFrame.entry

/-- The number alone. -/
def tokenAt (s : Sys) (p : Place) : Option Nat := (entryAt s p).map Prod.fst

/-- Frame number `k` was a `tools/call` request with this id, and has been handled. -/
def callAt (s : Sys) (k : Nat) (id : Json) : Prop :=
  ∃ frame, s.frames[k]? = some frame ∧ IsCall frame id

structure Books (s : Sys) : Prop where
  once : Once (tokenAt s)
  posted : ∀ k id, callAt s k id → ∃ p, entryAt s p = some (k, some id)
  known : ∀ p k, tokenAt s p = some k → k < s.frames.length
  survive : ∀ k id, callAt s k id → id.reparse = id

theorem tokenAt_eq {s : Sys} {p : Place} {k : Nat} {o : Option Json}
    (h : entryAt s p = some (k, o)) : tokenAt s p = some k := by
  simp [tokenAt, h]

theorem tokenAt_some {s : Sys} {p : Place} {k : Nat} (h : tokenAt s p = some k) :
    ∃ o, entryAt s p = some (k, o) := by
  obtain ⟨⟨k', o⟩, he, rfl⟩ := Option.map_eq_some_iff.mp h
  exact ⟨o, he⟩

theorem callAt_congr {s s' : Sys} (hf : s'.frames = s.frames) {k : Nat} {id : Json} :
    callAt s' k id ↔ callAt s k id := by
  simp only [callAt, hf]

/-- An entry of a call carries the call's id. -/
theorem Books.carries {s : Sys} (h : Books s) {p : Place} {k : Nat} {o : Option Json} {id : Json}
    (he : entryAt s p = some (k, o)) (hc : callAt s k id) : o = some id := by
  obtain ⟨q, hq⟩ := h.posted k id hc
  have hpq := h.once p q k (tokenAt_eq he) (tokenAt_eq hq)
  rw [hpq, hq] at he
  cases he
  rfl

/-- Nothing moves. -/
theorem Books.same {s s' : Sys} (h : Books s) (hf : s'.frames = s.frames)
    (he : ∀ p, entryAt s' p = entryAt s p) : Books s' := by
  have ht : ∀ p, tokenAt s' p = tokenAt s p := fun p => by rw [tokenAt, tokenAt, he]
  refine ⟨h.once.drop fun p k hp => (ht p) ▸ hp, fun k id hc => ?_, fun p k hp => ?_,
    fun k id hc => h.survive k id ((callAt_congr hf).mp hc)⟩
  · obtain ⟨p, hp⟩ := h.posted k id ((callAt_congr hf).mp hc)
    exact ⟨p, (he p).trans hp⟩
  · rw [hf]
    exact h.known p k ((ht p) ▸ hp)

/-- One entry moves from `src` to the free place `dst`, with the id it carries. -/
theorem Books.move {s s' : Sys} (h : Books s) (src dst : Place) (hf : s'.frames = s.frames)
    (hfree : entryAt s dst = none) (hgone : entryAt s' src = none)
    (hmoved : tokenAt s' dst = tokenAt s src)
    (hid : ∀ k id, id.reparse = id → entryAt s src = some (k, some id) →
      entryAt s' dst = some (k, some id))
    (hother : ∀ p, p ≠ src → p ≠ dst → entryAt s' p = entryAt s p) : Books s' := by
  have htoken : ∀ p, p ≠ dst → ∀ k, tokenAt s' p = some k → p ≠ src ∧ tokenAt s p = some k := by
    intro p hp k hk
    have hps : p ≠ src := by
      rintro rfl
      simp [tokenAt, hgone] at hk
    refine ⟨hps, ?_⟩
    rw [tokenAt, hother p hps hp] at hk
    exact hk
  refine ⟨?_, fun k id hc => ?_, fun p k hp => ?_, fun k id hc => ?_⟩
  · refine h.once.move src dst (fun k hk => hmoved ▸ hk) fun p k hp hk => htoken p hp k hk
  · have hc' := (callAt_congr hf).mp hc
    obtain ⟨p, hp⟩ := h.posted k id hc'
    by_cases hps : p = src
    · exact ⟨dst, hid k id (h.survive k id hc') (hps ▸ hp)⟩
    · have hpd : p ≠ dst := by
        rintro rfl
        rw [hfree] at hp
        cases hp
      exact ⟨p, (hother p hps hpd).trans hp⟩
  · rw [hf]
    by_cases hpd : p = dst
    · rw [hpd, hmoved] at hp
      exact h.known src k hp
    · exact h.known p k (htoken p hpd k hp).2
  · exact h.survive k id ((callAt_congr hf).mp hc)

/-! ## Reading the ledger after a write -/

theorem entryAt_setThread_ne {s : Sys} {t : Nat} {th : Thread} {p : Place} (h : p ≠ .reader t) :
    entryAt (s.setThread t th) p = entryAt s p := by
  cases p with
  | reader u =>
      have hu : u ≠ t := fun e => h (by rw [e])
      simp only [entryAt, Sys.setThread_ne s th hu]
  | _ => rfl

theorem entryAt_setThread_same (s : Sys) (t : Nat) (th : Thread) :
    entryAt (s.setThread t th) (.reader t) = th.entry := by
  simp only [entryAt, Sys.setThread_same]

/-- A thread that had nothing in hand takes nothing. -/
theorem entryAt_setThread_quiet {s : Sys} {t : Nat} {th : Thread} (hold : (s.threads t).entry = none)
    (hnew : th.entry = none) (p : Place) : entryAt (s.setThread t th) p = entryAt s p := by
  by_cases hp : p = .reader t
  · rw [hp, entryAt_setThread_same, hnew]
    exact hold.symm
  · exact entryAt_setThread_ne hp

theorem entryAt_out_length (s : Sys) : entryAt s (.out s.stdout.length) = none := by
  simp [entryAt]

theorem entryAt_emit_ne {s : Sys} {f : OutFrame} {p : Place} (h : p ≠ .out s.stdout.length) :
    entryAt (s.emit [f]) p = entryAt s p := by
  cases p with
  | out n =>
      have hn : n ≠ s.stdout.length := fun e => h (by rw [e])
      simp only [entryAt, Sys.emit_stdout]
      rcases Nat.lt_or_gt_of_ne hn with hlt | hgt
      · rw [List.getElem?_append_left hlt]
      · rw [List.getElem?_eq_none (by simp; omega), List.getElem?_eq_none (by omega)]
  | _ => rfl

theorem entryAt_emit_last (s : Sys) (f : OutFrame) :
    entryAt (s.emit [f]) (.out s.stdout.length) = f.entry := by
  simp [entryAt]

theorem entryAt_setG_emit_ne {s : Sys} {g : Global} {f : OutFrame} {p : Place}
    (h : p ≠ .out s.stdout.length) :
    entryAt ((s.setG g).emit [f]) p = entryAt (s.setG g) p :=
  entryAt_emit_ne h

/-- A list_changed frame is nobody's reply. -/
theorem entryAt_emit_listChanged (s : Sys) (p : Place) :
    entryAt (s.emit [listChangedFrame]) p = entryAt s p := by
  by_cases hp : p = .out s.stdout.length
  · rw [hp, entryAt_emit_last, entryAt_out_length]
    rfl
  · exact entryAt_emit_ne hp

theorem entryAt_setG {s : Sys} {g : Global} (h : g.inflight = s.g.inflight) (p : Place) :
    entryAt (s.setG g) p = entryAt s p := by
  cases p with
  | slot i => simp only [entryAt, Sys.setG_g, h]
  | _ => rfl

/-! ## A frame is handled -/

theorem callAt_snoc {s s' : Sys} {frame : Option Json} (hf : s'.frames = s.frames ++ [frame])
    {k : Nat} {id : Json} (h : callAt s' k id) :
    callAt s k id ∨ (k = s.frames.length ∧ IsCall frame id) := by
  obtain ⟨fr, hk, hc⟩ := h
  rw [hf] at hk
  rcases Nat.lt_trichotomy k s.frames.length with hlt | heq | hgt
  · rw [List.getElem?_append_left hlt] at hk
    exact Or.inl ⟨fr, hk, hc⟩
  · rw [heq, List.getElem?_append_right (Nat.le_refl _)] at hk
    simp only [Nat.sub_self, List.getElem?_cons_zero, Option.some.injEq] at hk
    exact Or.inr ⟨heq, hk ▸ hc⟩
  · rw [List.getElem?_eq_none (by simp; omega)] at hk
    cases hk

/-- A new frame: its reply, if it has one yet, is put at the free place `dst`. -/
theorem Books.post {s s' : Sys} (h : Books s) (dst : Place) {frame : Option Json}
    (hf : s'.frames = s.frames ++ [frame]) (hfree : entryAt s dst = none)
    (hother : ∀ p, p ≠ dst → entryAt s' p = entryAt s p)
    (hdst : ∀ k o, entryAt s' dst = some (k, o) → k = s.frames.length)
    (hcall : ∀ id, IsCall frame id → entryAt s' dst = some (s.frames.length, some id))
    (hid : ∀ id, IsCall frame id → id.reparse = id) : Books s' := by
  have hlen : s'.frames.length = s.frames.length + 1 := by simp [hf]
  have htoken : ∀ p k, tokenAt s' p = some k →
      (p = dst ∧ k = s.frames.length) ∨ tokenAt s p = some k := by
    intro p k hk
    by_cases hp : p = dst
    · obtain ⟨o, ho⟩ := tokenAt_some hk
      exact Or.inl ⟨hp, hdst k o (hp ▸ ho)⟩
    · rw [tokenAt, hother p hp] at hk
      exact Or.inr hk
  refine ⟨?_, fun k id hc => ?_, fun p k hk => ?_, fun k id hc => ?_⟩
  · refine h.once.put dst s.frames.length (fun p hp => ?_) htoken
    exact Nat.lt_irrefl _ (h.known p _ hp)
  · rcases callAt_snoc hf hc with hc | ⟨rfl, hnew⟩
    · obtain ⟨p, hp⟩ := h.posted k id hc
      have hpd : p ≠ dst := by
        rintro rfl
        rw [hfree] at hp
        cases hp
      exact ⟨p, (hother p hpd).trans hp⟩
    · exact ⟨dst, hcall id hnew⟩
  · rcases htoken p k hk with ⟨-, rfl⟩ | hk
    · omega
    · have := h.known p k hk
      omega
  · rcases callAt_snoc hf hc with hc | ⟨-, hc⟩
    · exact h.survive k id hc
    · exact hid id hc

theorem books_agentFrame {s : Sys} {frame : Option Json} {ok : Bool} (h : Books s)
    (hm : s.main = .idle) (hid : ∀ id, IsCall frame id → id.reparse = id) :
    Books (s.onAgentFrame frame ok) := by
  have hr := handleAgentFrame_cases s.g s.frames.length frame ok
  have hmain : entryAt s .main = none := by simp only [entryAt, hm, MainPc.entry]
  unfold Sys.onAgentFrame
  generalize handleAgentFrame s.g s.frames.length frame ok = r at hr
  cases hr with
  | answered reply hcall =>
      refine h.post .main rfl hmain ?_ ?_ ?_ hid
      · intro p hp
        cases p with
        | main => exact absurd rfl hp
        | _ => rfl
      · intro k o he
        cases reply with
        | none => cases he
        | some r => cases he; rfl
      · intro id hc
        obtain ⟨r, rfl, hr⟩ := hcall id hc
        change some (s.frames.length, idOf r) = _
        rw [hr]
  | unwritten id r hok hcall hr =>
      refine h.post .main rfl hmain ?_ ?_ ?_ hid
      · intro p hp
        cases p with
        | main => exact absurd rfl hp
        | _ => rfl
      · intro k o he
        cases he
        rfl
      · intro id' hc
        change some (s.frames.length, idOf r) = _
        rw [hr, isCall_unique hc hcall]
  | forwarded id params full idx b bare args i hok hcall hfull hnot hroute hargs hfree =>
      have hnone := Slots.firstFree_some hfree
      refine h.post (.slot i) rfl (by simp [entryAt, hnone]) ?_ ?_ ?_ hid
      · intro p hp
        cases p with
        | slot j =>
            have hj : j ≠ i := fun e => hp (by rw [e])
            simp only [entryAt, Slots.put_ne _ _ hj]
        | main => exact hmain.symm
        | _ => rfl
      · intro k o he
        simp only [entryAt, Slots.put_same, Option.bind_some, Inflight.entry, Option.map_some,
          Option.some.injEq, Prod.mk.injEq] at he
        exact he.1.symm
      · intro id' hc
        rw [isCall_unique hc ⟨params, hcall⟩]
        simp only [entryAt, Slots.put_same, Option.bind_some, Inflight.entry, Option.map_some]

/-! ## A backend is torn down -/

/-- One slot of the teardown loop: an agent call's entry goes to stdout. -/
theorem books_teardownSlot {s : Sys} (h : Books s)
    (hk : ∀ i fl, s.g.inflight i = some fl → fl.WellKinded) (idx : Fin maxBackends)
    (i : Fin maxInflight) :
    Books ((s.setG { s.g with
      inflight := Function.update s.g.inflight i (keepOthers idx (s.g.inflight i)) }).emit
        ((s.g.inflight i).bind (exitFrame idx)).toList) := by
  have hsame : keepOthers idx (s.g.inflight i) = s.g.inflight i →
      Function.update s.g.inflight i (keepOthers idx (s.g.inflight i)) = s.g.inflight := by
    intro he
    rw [he]
    exact Function.update_eq_self i _
  cases hfl : s.g.inflight i with
  | none =>
      rw [hfl] at hsame
      rw [Option.bind_none, Option.toList_none, Sys.emit_nil, hsame rfl]
      exact h.same rfl fun _ => rfl
  | some fl =>
      rw [hfl] at hsame
      by_cases hidx : fl.backend = idx
      · have hgone : keepOthers idx (some fl) = none := by simp [keepOthers, hidx]
        have hwk := hk i fl hfl
        cases hkind : fl.kind with
        | agent =>
            have hout : exitFrame idx fl =
                some ⟨fl.seq, (exitedError fl.origId).reparse⟩ := by
              simp [exitFrame, hidx, hkind]
            rw [hgone, Option.bind_some, hout, Option.toList_some]
            have hentry : entryAt s (.slot i) = fl.entry := by
              simp only [entryAt, hfl, Option.bind_some]
            refine h.move (.slot i) (.out s.stdout.length) rfl (entryAt_out_length s) ?_ ?_ ?_ ?_
            · refine (entryAt_emit_ne (by simp)).trans ?_
              simp [entryAt]
            · refine (congrArg (Option.map Prod.fst) (entryAt_emit_last _ _)).trans ?_
              rw [tokenAt, hentry]
              simp [OutFrame.entry, Inflight.entry, Function.comp_def]
            · intro k id hid he
              rw [hentry] at he
              obtain ⟨k', hk', he'⟩ := Option.map_eq_some_iff.mp he
              obtain ⟨rfl, horig⟩ := Prod.mk.inj he'
              refine (entryAt_emit_last _ _).trans ?_
              simp only [OutFrame.entry, hk', Option.map_some, exitedError, idOf_reparse, horig,
                idOf_errorStr, hid]
            · intro p hps hpd
              rw [entryAt_setG_emit_ne hpd]
              cases p with
              | slot j =>
                  have hj : j ≠ i := fun e => hps (by rw [e])
                  simp only [entryAt, Sys.setG_g, Function.update_of_ne hj]
              | _ => rfl
        | toolsRefresh =>
            have hout : exitFrame idx fl = none := by simp [exitFrame, hkind]
            rw [hgone, Option.bind_some, hout, Option.toList_none, Sys.emit_nil]
            have hseq : fl.seq = none := by
              simp only [Inflight.WellKinded, hkind] at hwk
              exact hwk.1
            refine h.same rfl fun p => ?_
            cases p with
            | slot j =>
                by_cases hj : j = i
                · simp [entryAt, hj, hfl, Inflight.entry, hseq]
                · simp only [entryAt, Sys.setG_g, Function.update_of_ne hj]
            | _ => rfl
      · have hkeep : keepOthers idx (some fl) = some fl := keepOthers_some.mpr ⟨rfl, hidx⟩
        have hout : exitFrame idx fl = none := by simp [exitFrame, hidx]
        rw [Option.bind_some, hout, Option.toList_none, Sys.emit_nil, hsame hkeep]
        exact h.same rfl fun _ => rfl

theorem books_teardownFold {s : Sys} (idx : Fin maxBackends) (l : List (Fin maxInflight)) :
    ∀ (g : Global) (out : List OutFrame), Books ((s.setG g).emit out) →
      (∀ i fl, g.inflight i = some fl → fl.WellKinded) →
      Books ((s.setG (l.foldl (teardownSlot idx) (g, out)).1).emit
        (l.foldl (teardownSlot idx) (g, out)).2) := by
  induction l with
  | nil => exact fun _ _ h _ => h
  | cons i l ih =>
      intro g out h hk
      have hstep := books_teardownSlot h hk idx i
      rw [List.foldl_cons, teardownSlot_eq]
      refine ih _ _ ?_ fun j fl hj => ?_
      · refine hstep.same rfl fun p => ?_
        simp only [Sys.emit, Sys.setG, List.append_assoc]
      · dsimp only at hj
        rw [Function.update_apply] at hj
        split at hj
        · exact hk i fl (keepOthers_some.mp hj).1
        · exact hk j fl hj

/-- The teardown of a backend keeps the books: its calls' entries move to stdout. -/
theorem books_teardown {s : Sys} (h : Books s)
    (hk : ∀ i fl, s.g.inflight i = some fl → fl.WellKinded) (idx : Fin maxBackends) :
    Books ((s.setG (backendTeardownLocked s.g idx).1).emit (backendTeardownLocked s.g idx).2) := by
  have hstart : Books ((s.setG s.g).emit []) := h.same rfl fun p => by
    rw [Sys.emit_nil, entryAt_setG rfl]
  have hfold := books_teardownFold idx (List.finRange maxInflight) s.g [] hstart hk
  unfold backendTeardownLocked
  generalize (List.finRange maxInflight).foldl (teardownSlot idx) (s.g, []) = r at hfold ⊢
  exact hfold.same rfl fun _ => rfl

/-! ## The step lemma -/

theorem Books.thread {s : Sys} (h : Books s) {t : Nat} {th : Thread}
    (hold : (s.threads t).entry = none) (hnew : th.entry = none) : Books (s.setThread t th) :=
  h.same rfl (entryAt_setThread_quiet hold hnew)

theorem Books.tables {s : Sys} (h : Books s) {g : Global} (hi : g.inflight = s.g.inflight) :
    Books (s.setG g) :=
  h.same rfl (entryAt_setG hi)

/-- A lookup by the owner moves the entry to the reader's hand; an answer to a refresh has
    none. -/
theorem books_lookup {s : Sys} (h : Books s) (hw : Wf s) {t : Nat} {idx : Fin maxBackends}
    {d : Dbl} {msg : Json} (ht : s.threads t = .reader idx (.lookup d msg))
    (hown : ∀ i fl, inflightFind s.g (castU64 s.g.platform.castUb d) = some i →
      s.g.inflight i = some fl → fl.backend = idx) :
    Books ((s.setG (readerLookup s.g idx d msg).1).setThread t
      (.reader idx (readerLookup s.g idx d msg).2)) := by
  have hnone : (s.threads t).entry = none := by rw [ht]; rfl
  have hr := readerLookup_cases s.g idx d msg
  generalize readerLookup s.g idx d msg = r at hr
  cases hr with
  | missed _ => exact (h.tables rfl).thread hnone rfl
  | foreign i fl hf hfl hne => exact absurd (hown i fl hf hfl) hne
  | refreshed i fl hf hfl _ hk pc hpc =>
      have hseq : fl.seq = none := by
        have := hw.kinded i fl hfl
        simp only [Inflight.WellKinded, hk] at this
        exact this.1
      have hclear : Books (s.setG (inflightRelease s.g i)) := by
        refine h.same rfl fun p => ?_
        cases p with
        | slot j =>
            by_cases hj : j = i
            · simp [entryAt, hj, hfl, Inflight.entry, hseq]
            · simp only [entryAt, Sys.setG_g, inflightRelease_inflight, Slots.clear_ne _ hj]
        | _ => rfl
      refine hclear.thread hnone ?_
      rw [hpc]
      split <;> rfl
  | answered i fl hf hfl _ hk =>
      have hslot : entryAt s (.slot i) = fl.entry := by
        simp only [entryAt, hfl, Option.bind_some]
      have hid := hw.lookupId t idx d msg ht
      refine h.move (.slot i) (.reader t) rfl (by simp only [entryAt, hnone]) ?_ ?_ ?_ ?_
      · rw [entryAt_setThread_ne (by simp)]
        simp [entryAt]
      · rw [tokenAt, entryAt_setThread_same, tokenAt, hslot]
        simp [Thread.entry, Inflight.entry, Function.comp_def]
      · intro k id _ he
        rw [hslot] at he
        obtain ⟨k', hk', he'⟩ := Option.map_eq_some_iff.mp he
        obtain ⟨rfl, horig⟩ := Prod.mk.inj he'
        rw [entryAt_setThread_same]
        simp only [Thread.entry, hk', Option.map_some, restoreId, horig]
        rw [idOf, Json.getObjectItem_replace_self id hid]
      · intro p hps hpd
        rw [entryAt_setThread_ne hpd]
        cases p with
        | slot j =>
            have hj : j ≠ i := fun e => hps (by rw [e])
            simp only [entryAt, Sys.setG_g, inflightRelease_inflight, Slots.clear_ne _ hj]
        | _ => rfl

/-- A write to stdout by main. -/
theorem books_agentWrite {s : Sys} (h : Books s) {seq : Nat} {body : Json} {hello : Bool}
    (hm : s.main = .reply seq body hello) {pc : MainPc} (hpc : pc.entry = none) :
    Books { s.emit [⟨some seq, body.reparse⟩] with main := pc } := by
  have hmain : entryAt s .main = some (seq, idOf body) := by simp only [entryAt, hm, MainPc.entry]
  refine h.move .main (.out s.stdout.length) rfl (entryAt_out_length s) hpc ?_ ?_ ?_
  · refine (congrArg (Option.map Prod.fst) (entryAt_emit_last s _)).trans ?_
    simp [tokenAt, hmain, OutFrame.entry]
  · intro k id hid he
    rw [hmain] at he
    obtain ⟨rfl, horig⟩ := Prod.mk.inj (Option.some.inj he)
    refine (entryAt_emit_last s _).trans ?_
    simp only [OutFrame.entry, Option.map_some, idOf_reparse, horig, hid]
  · intro p hps hpd
    cases p with
    | main => exact absurd rfl hps
    | out n => exact entryAt_emit_ne hpd
    | _ => rfl

/-- A write to stdout by a reader. -/
theorem books_relay {s : Sys} (h : Books s) {t : Nat} {idx : Fin maxBackends} {seq : Option Nat}
    {body : Json} (ht : s.threads t = .reader idx (.relay seq body)) :
    Books ((s.emit [⟨seq, body.reparse⟩]).setThread t (.reader idx .top)) := by
  have hhand : entryAt s (.reader t) = seq.map fun k => (k, idOf body) := by
    simp only [entryAt, ht, Thread.entry]
  refine h.move (.reader t) (.out s.stdout.length) rfl (entryAt_out_length s)
    (entryAt_setThread_same _ _ _) ?_ ?_ ?_
  · rw [tokenAt, entryAt_setThread_ne (by simp)]
    refine (congrArg (Option.map Prod.fst) (entryAt_emit_last s _)).trans ?_
    rw [tokenAt, hhand]
    simp [OutFrame.entry, Function.comp_def]
  · intro k id hid he
    rw [hhand] at he
    obtain ⟨k', hk', he'⟩ := Option.map_eq_some_iff.mp he
    obtain ⟨rfl, horig⟩ := Prod.mk.inj he'
    rw [entryAt_setThread_ne (by simp)]
    refine (entryAt_emit_last s _).trans ?_
    simp only [OutFrame.entry, hk', Option.map_some, idOf_reparse, horig, hid]
  · intro p hps hpd
    rw [entryAt_setThread_ne hps]
    exact entryAt_emit_ne hpd

theorem books_spawnSetup {s : Sys} (h : Books s) {sh : Bool} {pid : ℤ} {r : Spawn}
    (hr : s.FreshThread r) : Books (s.spawnSetup sh pid r) := by
  cases r with
  | noMemory => exact h
  | noThread => exact h.tables (sameTables_inflight (connectingRemove_same s.g sh pid)).1
  | thread t =>
      have hgone : s.threads t = .gone := hr
      exact h.thread (by rw [hgone]; rfl) rfl

theorem books_step {s s' : Sys} {a : Act} (hst : Step s a s') (hw : Wf s)
    (hown : ∀ t idx d msg, a.thread = some t → s.threads t = .reader idx (.lookup d msg) →
      ∀ i fl, inflightFind s.g (castU64 s.g.platform.castUb d) = some i →
        s.g.inflight i = some fl → fl.backend = idx)
    (hid : ∀ frame ok id, a = .agentFrame frame ok → IsCall frame id → id.reparse = id)
    (h : Books s) : Books s' := by
  cases hst with
  | agentFrame hm => exact books_agentFrame h hm fun id hc => hid _ _ id rfl hc
  | @agentWrite seq body hello hm =>
      refine books_agentWrite h hm ?_
      cases hello <;> rfl
  | markInitialized hm =>
      refine h.same rfl fun p => ?_
      cases p with
      | main => simp only [entryAt, hm, MainPc.entry]
      | _ => rfl
  | @pollScan pids self hp hlen =>
      have hi := (sameTables_inflight (pollScan_same s.g pids self)).1
      exact (h.tables hi).same rfl fun _ => rfl
  | pollSpawn hp hr => exact (books_spawnSetup h hr).same rfl fun _ => rfl
  | pollSpawnShell hp hr => exact (books_spawnSetup h hr).same rfl fun _ => rfl
  | pollSleep hp => exact h.same rfl fun _ => rfl
  | connect ht => exact (h.thread (by rw [ht]; rfl) rfl).same rfl fun _ => rfl
  | connectFail ht => exact h.thread (by rw [ht]; rfl) rfl
  | syncSend ht => exact h.thread (by rw [ht]; rfl) rfl
  | syncRecv ht => exact h.thread (by rw [ht]; rfl) rfl
  | sendInitialized ht => exact h.thread (by rw [ht]; rfl) rfl
  | registerFull ht hr => exact h.thread (by rw [ht]; rfl) rfl
  | @registerNoThread t sh pid c appId resp exe idx g' ht hr =>
      have hi := (backendRegister_inflight hr).1
      simp only [backendTeardownLocked_unused (hw.register_unused hr), Sys.emit_nil]
      have hreg : Books (s.setG { g' with backends := g'.backends.clear idx }) := h.tables hi
      exact hreg.thread (by rw [Sys.setG_threads, ht]; rfl) rfl
  | @registered t t' sh pid c appId resp exe idx g' ht hr hfree =>
      have hreg : Books (s.setG g') := h.tables (backendRegister_inflight hr).1
      refine (hreg.thread (by rw [Sys.setG_threads, ht]; rfl) rfl).thread ?_ rfl
      rw [Sys.setThread_apply]
      split
      · rfl
      · rw [Sys.setG_threads, hfree]
        rfl
  | @connectingRemove t sh pid r ht =>
      have hi := (sameTables_inflight (connectingRemove_same s.g sh pid)).1
      refine (h.tables hi).thread (by rw [Sys.setG_threads, ht]; rfl) ?_
      cases r <;> rfl
  | @readerTop t idx ht =>
      refine h.thread (by rw [ht]; rfl) ?_
      cases s.g.backends idx <;> rfl
  | @recv t idx c f ht =>
      refine h.thread (by rw [ht]; rfl) ?_
      cases f with
      | eof => rfl
      | junk => rfl
      | msg j =>
          unfold onInbound onMessage
          dsimp only
          split
          · split <;> rfl
          · split <;> rfl
  | @refresh t idx ok ht =>
      have hr := refreshBackendTools_cases s.g idx ok
      have hnone : (s.threads t).entry = none := by rw [ht]; rfl
      generalize refreshBackendTools s.g idx ok = r at hr
      cases hr with
      | refused _ => exact (h.tables rfl).thread hnone rfl
      | unwritten _ => refine Books.thread (h.tables ?_) hnone ?_ <;> rfl
      | written b i hok hb hfree =>
          refine Books.thread ?_ hnone rfl
          refine h.same rfl fun p => ?_
          cases p with
          | slot j =>
              by_cases hj : j = i
              · simp [entryAt, hj, Slots.firstFree_some hfree, Inflight.entry]
              · simp only [entryAt, Sys.setG_g, Slots.put_ne _ _ hj]
          | _ => rfl
  | @lookup t idx d msg ht => exact books_lookup h hw ht (hown t idx d msg rfl ht)
  | applied ht ha =>
      exact (h.tables (applyToolsResult_inflight ha).1).thread
        (by rw [Sys.setG_threads, ht]; rfl) rfl
  | notApplied ht ha => exact h.thread (by rw [ht]; rfl) rfl
  | relay ht => exact books_relay h ht
  | readerEmitCheck ht =>
      refine h.thread (by rw [ht]; rfl) ?_
      split <;> rfl
  | readerEmitWrite ht =>
      exact (h.same rfl (entryAt_emit_listChanged s) : Books (s.emit _)).thread
        (by rw [Sys.emit_threads, ht]; rfl) rfl
  | @teardown t idx ht =>
      exact (books_teardown h hw.kinded idx).thread
        (by rw [Sys.emit_threads, Sys.setG_threads, ht]; rfl) rfl
  | emitCheck ht =>
      refine h.thread (by rw [ht]; rfl) ?_
      split <;> rfl
  | emitWrite ht =>
      exact (h.same rfl (entryAt_emit_listChanged s) : Books (s.emit _)).thread
        (by rw [Sys.emit_threads, ht]; rfl) rfl

/-! ## Messages and replies as they stand -/

/-- A message about to be looked up meets `M`; a reply in hand, with its frame's number, `P`. -/
def Thread.Meets (M : Json → Prop) (P : Option Nat → Json → Prop) : Thread → Prop
  | .reader _ (.lookup _ msg) => M msg
  | .reader _ (.relay seq body) => P seq body
  | _ => True

/-- Messages about to be looked up meet `M`; replies in hand or on stdout meet `P`, but for
    list_changed. -/
structure RepliesMeet (M : Json → Prop) (P : Option Nat → Json → Prop) (s : Sys) : Prop where
  main : ∀ seq body hello, s.main = .reply seq body hello → P (some seq) body
  thread : ∀ t, (s.threads t).Meets M P
  out : ∀ f ∈ s.stdout, f = listChangedFrame ∨ ∃ body, P f.answers body ∧ f.body = body.reparse

/-- What a step brings in meets `M` and `P`: the reply to a frame, a message read, a message with
    the agent's id put back, and the error for a call that is lost. -/
structure BringsIn (M : Json → Prop) (P : Option Nat → Json → Prop) (s : Sys) (a : Act) :
    Prop where
  handled : ∀ frame ok r, a = .agentFrame frame ok →
    (handleAgentFrame s.g s.frames.length frame ok).reply = some r → P (some s.frames.length) r
  read : ∀ t j, a = .recv t (.msg j) → M j
  answered : ∀ i fl msg, s.g.inflight i = some fl → fl.kind = .agent → M msg →
    P fl.seq (restoreId msg fl.origId)
  exited : ∀ i fl, s.g.inflight i = some fl → fl.kind = .agent → P fl.seq (exitedError fl.origId)

section

variable {M : Json → Prop} {P : Option Nat → Json → Prop} {s : Sys}

theorem RepliesMeet.same (h : RepliesMeet M P s) {s' : Sys} (hm : s'.main = s.main)
    (ht : s'.threads = s.threads) (ho : s'.stdout = s.stdout) : RepliesMeet M P s' :=
  ⟨hm ▸ h.main, ht ▸ h.thread, ho ▸ h.out⟩

theorem RepliesMeet.setG (h : RepliesMeet M P s) (g : Global) : RepliesMeet M P (s.setG g) :=
  h.same rfl rfl rfl

/-- Main has nothing in hand. -/
theorem RepliesMeet.setMain (h : RepliesMeet M P s) {s' : Sys}
    (hm : ∀ seq body hello, s'.main = .reply seq body hello → P (some seq) body)
    (ht : s'.threads = s.threads) (ho : s'.stdout = s.stdout) : RepliesMeet M P s' :=
  ⟨hm, ht ▸ h.thread, ho ▸ h.out⟩

theorem RepliesMeet.setThread (h : RepliesMeet M P s) {t : Nat} {th : Thread}
    (hth : th.Meets M P) : RepliesMeet M P (s.setThread t th) := by
  refine ⟨h.main, fun u => ?_, h.out⟩
  rw [Sys.setThread_apply]
  split
  · exact hth
  · exact h.thread u

theorem RepliesMeet.emit (h : RepliesMeet M P s) {out : List OutFrame}
    (hout : ∀ f ∈ out, f = listChangedFrame ∨ ∃ body, P f.answers body ∧ f.body = body.reparse) :
    RepliesMeet M P (s.emit out) := by
  refine ⟨h.main, h.thread, fun f hf => ?_⟩
  rcases List.mem_append.mp hf with hf | hf
  · exact h.out f hf
  · exact hout f hf

theorem RepliesMeet.spawned (h : RepliesMeet M P s) (sh : Bool) (pid : ℤ) (r : Spawn) :
    RepliesMeet M P (s.spawnSetup sh pid r) := by
  cases r with
  | noMemory => exact h
  | noThread => exact h.same rfl rfl rfl
  | thread t => exact h.setThread trivial

/-- The frames of a teardown are the errors for the calls that are lost. -/
theorem exitFrames_meet {g : Global} {idx : Fin maxBackends}
    (hexit : ∀ i fl, g.inflight i = some fl → fl.kind = .agent → P fl.seq (exitedError fl.origId)) :
    ∀ f ∈ (backendTeardownLocked g idx).2,
      f = listChangedFrame ∨ ∃ body, P f.answers body ∧ f.body = body.reparse := by
  intro f hf
  rw [backendTeardownLocked_eq] at hf
  obtain ⟨i, -, hi⟩ := List.mem_filterMap.mp hf
  obtain ⟨fl, hfl, hx⟩ := Option.bind_eq_some_iff.mp hi
  unfold exitFrame at hx
  split at hx
  · next hc =>
      cases hx
      exact Or.inr ⟨exitedError fl.origId, hexit i fl hfl hc.2, rfl⟩
  · cases hx

/-- What a lookup puts in a reader's hand. -/
theorem readerLookup_meets {idx : Fin maxBackends} {d : Dbl} {msg : Json}
    (hans : ∀ i fl, s.g.inflight i = some fl → fl.kind = .agent →
      P fl.seq (restoreId msg fl.origId)) :
    (Thread.reader idx (readerLookup s.g idx d msg).2).Meets M P := by
  have hr := readerLookup_cases s.g idx d msg
  generalize readerLookup s.g idx d msg = r at hr
  cases hr with
  | missed _ => trivial
  | foreign _ _ _ _ _ => trivial
  | refreshed _ _ _ _ _ _ pc hpc =>
      rw [hpc]
      split <;> trivial
  | answered i fl hf hfl _ hk => exact hans i fl hfl hk

theorem repliesMeet_step {s' : Sys} {a : Act} (hst : Step s a s') (hin : BringsIn M P s a)
    (h : RepliesMeet M P s) : RepliesMeet M P s' := by
  have hlist : ∀ f ∈ [listChangedFrame],
      f = listChangedFrame ∨ ∃ body, P f.answers body ∧ f.body = body.reparse :=
    fun f hf => Or.inl (List.mem_singleton.mp hf)
  cases hst with
  | @agentFrame frame ok hm =>
      refine h.setMain (fun seq body hello hr => ?_) rfl rfl
      simp only [Sys.onAgentFrame] at hr
      split at hr
      · next hreply =>
          cases hr
          exact hin.handled frame ok _ rfl hreply
      · cases hr
  | @agentWrite seq body hello hm =>
      have hemit : RepliesMeet M P (s.emit [⟨some seq, body.reparse⟩]) := h.emit fun f hf => by
        rw [List.mem_singleton.mp hf]
        exact Or.inr ⟨body, h.main seq body hello hm, rfl⟩
      refine hemit.setMain (fun seq' body' hello' hr => ?_) rfl rfl
      cases hello <;> cases hr
  | markInitialized hm => exact h.setMain (fun _ _ _ hr => by cases hr) rfl rfl
  | pollScan hp hlen => exact h.same rfl rfl rfl
  | @pollSpawn pid fresh shell r hp hr => exact (h.spawned false pid r).same rfl rfl rfl
  | @pollSpawnShell r hp hr => exact (h.spawned true 0 r).same rfl rfl rfl
  | pollSleep hp => exact h.same rfl rfl rfl
  | @connect t sh pid ht =>
      have hset : RepliesMeet M P (s.setThread t (.setup sh pid (.send s.conns .hello))) :=
        h.setThread trivial
      exact hset.same rfl rfl rfl
  | connectFail ht => exact h.setThread trivial
  | syncSend ht => exact h.setThread trivial
  | syncRecv ht => exact h.setThread trivial
  | sendInitialized ht => exact h.setThread trivial
  | registerFull ht hr => exact h.setThread trivial
  | @registerNoThread t sh pid c appId resp exe idx g' ht hr =>
      have hexit : ∀ i fl, g'.inflight i = some fl → fl.kind = .agent →
          P fl.seq (exitedError fl.origId) :=
        fun i fl hi => hin.exited i fl ((backendRegister_inflight hr).1 ▸ hi)
      exact ((h.setG _).emit (exitFrames_meet hexit)).setThread trivial
  | registered ht hr hfree => refine ((h.setG _).setThread ?_).setThread ?_ <;> trivial
  | @connectingRemove t sh pid r ht =>
      refine (h.setG _).setThread ?_
      cases r <;> trivial
  | @readerTop t idx ht =>
      refine h.setThread ?_
      cases s.g.backends idx <;> trivial
  | @recv t idx c f ht =>
      refine h.setThread ?_
      cases hf : onInbound f with
      | lookup d msg =>
          obtain ⟨rfl, -⟩ := onInbound_lookup hf
          exact hin.read t msg rfl
      | relay seq body => exact absurd hf (onInbound_not_relay f seq body)
      | _ => trivial
  | refresh ht => exact (h.setG _).setThread trivial
  | @lookup t idx d msg ht =>
      have hmsg := h.thread t
      rw [ht] at hmsg
      exact (h.setG _).setThread
        (readerLookup_meets fun i fl hfl hk => hin.answered i fl msg hfl hk hmsg)
  | applied ht ha => exact (h.setG _).setThread trivial
  | notApplied ht ha => exact h.setThread trivial
  | @relay t idx seq body ht =>
      refine (h.emit fun f hf => ?_).setThread trivial
      have hbody := h.thread t
      rw [ht] at hbody
      rw [List.mem_singleton.mp hf]
      exact Or.inr ⟨body, hbody, rfl⟩
  | readerEmitCheck ht =>
      refine h.setThread ?_
      split <;> trivial
  | readerEmitWrite ht => exact (h.emit hlist).setThread trivial
  | teardown ht =>
      exact ((h.setG _).emit (exitFrames_meet hin.exited)).setThread trivial
  | emitCheck ht =>
      refine h.setThread ?_
      split <;> trivial
  | emitWrite ht => exact (h.emit hlist).setThread trivial

theorem repliesMeet_start {platform : Platform} {expose : Bool} :
    RepliesMeet M P (Sys.start platform expose) := by
  refine ⟨fun _ _ _ hr => ?_, fun t => trivial, fun f hf => ?_⟩
  · cases hr
  · cases hf

end

/-- Frames on stdout without a frame number are list_changed. -/
theorem untagged_reach {ok : Sys → Act → Prop} {s : Sys} (h : ReachWhen aggregator ok s) :
    ∀ f ∈ s.stdout, f.answers = none → f = listChangedFrame := by
  have htagged : RepliesMeet (fun _ => True) (fun seq _ => seq.isSome = true) s := by
    refine h.invariant_of (fun s hs => wf_reach hs) ?_ ?_
    · rintro s ⟨platform, expose, rfl⟩
      exact repliesMeet_start
    · intro s a s' _ hw hi hst
      have hseq : ∀ i fl, s.g.inflight i = some fl → fl.kind = .agent → fl.seq.isSome = true := by
        intro i fl hfl hk
        have hwk := hw.kinded i fl hfl
        simp only [Inflight.WellKinded, hk] at hwk
        exact hwk.1
      exact repliesMeet_step hst
        ⟨fun _ _ _ _ _ => rfl, fun _ _ _ => trivial, fun i fl _ hfl hk _ => hseq i fl hfl hk,
          fun i fl hfl hk => hseq i fl hfl hk⟩ hi
  intro f hf hn
  rcases htagged.out f hf with hlist | ⟨body, hsome, -⟩
  · exact hlist
  · rw [hn] at hsome
    cases hsome

/-! ## One id -/

/-- At most one member is called `id`. -/
def OneId (j : Json) : Prop := (j.membersNamed (ascii "id")).length ≤ 1

instance (j : Json) : Decidable (OneId j) := inferInstanceAs (Decidable (_ ≤ _))

theorem OneId.sole {j id : Json} (h : OneId j) (hid : idOf j = some id) :
    j.membersNamed (ascii "id") = [id] := by
  rw [idOf, Json.getObjectItem_eq_head?] at hid
  unfold OneId at h
  cases hl : j.membersNamed (ascii "id") with
  | nil =>
      rw [hl] at hid
      cases hid
  | cons x rest =>
      rw [hl] at hid h
      cases hid
      rw [List.eq_nil_of_length_eq_zero (Nat.le_zero.mp (Nat.le_of_succ_le_succ h))]

theorem OneId.reparse {j : Json} (h : OneId j) : OneId j.reparse := by
  rw [OneId, Json.membersNamed_reparse, List.length_map]
  exact h

theorem OneId.restoreId {msg : Json} (h : OneId msg) (o : Option Json) :
    OneId (restoreId msg o) := by
  cases o with
  | none => exact h
  | some id =>
      unfold OneId at h ⊢
      rw [DisplayxrMcp.restoreId, Json.membersNamed_replace_self]
      cases hl : msg.membersNamed (ascii "id") with
      | nil => exact Nat.zero_le 1
      | cons x rest =>
          rw [hl] at h
          exact h

theorem oneId_errorStr (id : Option Json) (code : ℤ) (message : String) :
    OneId (jsonrpcErrorStr id code message) := by
  cases id with
  | none => exact Nat.zero_le 1
  | some id => exact Nat.le_refl 1

theorem oneId_resultStr (id : Option Json) (result : Option Json) :
    OneId (jsonrpcResultStr id result) := by
  cases id with
  | none => exact Nat.zero_le 1
  | some id => exact Nat.le_refl 1

theorem handleToolsCall_oneId {g : Global} {seq : Nat} {id : Json} {params : Option Json}
    {ok : Bool} : ∀ r ∈ (handleToolsCall g seq id params ok).reply, OneId r := by
  intro r hr
  unfold handleToolsCall at hr
  split at hr
  · cases hr
    exact oneId_errorStr _ _ _
  · split at hr
    · cases hr
      exact oneId_resultStr _ _
    · split at hr
      · cases hr
        exact oneId_errorStr _ _ _
      · cases hr
        exact oneId_errorStr _ _ _
      · split at hr
        · cases hr
          exact oneId_errorStr _ _ _
        · dsimp only at hr
          split at hr
          · cases hr
          · cases hr
            exact oneId_errorStr _ _ _

theorem handleAgentFrame_oneId {g : Global} {seq : Nat} {frame : Option Json} {ok : Bool} :
    ∀ r ∈ (handleAgentFrame g seq frame ok).reply, OneId r := by
  intro r hr
  unfold handleAgentFrame at hr
  split at hr
  · cases hr
    exact oneId_errorStr _ _ _
  · split at hr
    · cases hr
    · split at hr
      · cases hr
        exact oneId_resultStr _ _
      · split at hr
        · cases hr
          exact oneId_resultStr _ _
        · split at hr
          · cases hr
            exact oneId_resultStr _ _
          · split at hr
            · exact handleToolsCall_oneId r hr
            · cases hr
              exact oneId_errorStr _ _ _

/-! ## Exactly once -/

/-- The message a reader reads in the step. -/
def Act.received : Act → Option Json
  | .recv _ (.msg j) => some j
  | _ => none

/-- The id of a call survives printing, there is a local id left for it, and no message read
    has two members called `id`. -/
def IdsSurvive (w : World) (a : Act) : Prop :=
  IdRoom w.sys a ∧ (∀ id ∈ a.callId, id.reparse = id) ∧ ∀ j ∈ a.received, OneId j

instance (w : World) (a : Act) : Decidable (IdsSurvive w a) :=
  inferInstanceAs (Decidable (_ ∧ _ ∧ _))

theorem books_reach {w : World} (h : ReachWhen answering IdsSurvive w) : Books w.sys := by
  refine h.invariant_of (J := fun w => Wf w.sys ∧ Answering w ∧ LocalIds w.sys)
    (I := fun w => Books w.sys) ?_ ?_ ?_
  · intro w hw
    have hr : ReachWhen aggregator IdRoom w.sys := sys_reach (fun _ _ h => h.1) hw
    exact ⟨wf_reach hr, answering_reach (fun _ _ h => h.1) hw, localIds_reach (fun _ _ h => h) hr⟩
  · rintro ⟨s, o⟩ ⟨⟨platform, expose, rfl⟩, ho⟩
    have hnone : ∀ p, entryAt (Sys.start platform expose) p = none := by
      intro p
      cases p with
      | out n => simp [entryAt, Sys.start]
      | _ => rfl
    have hcall : ∀ k id, ¬ callAt (Sys.start platform expose) k id := by
      rintro k id ⟨fr, hk, -⟩
      simp [Sys.start] at hk
    refine ⟨fun p q k hp => ?_, fun k id hc => absurd hc (hcall k id), fun p k hp => ?_,
      fun k id hc => absurd hc (hcall k id)⟩
    · simp [tokenAt, hnone] at hp
    · simp [tokenAt, hnone] at hp
  · intro w a w' hok ⟨hw, ha, hl⟩ hi hst
    refine books_step hst.1 hw ?_ ?_ hi
    · -- an answer names no slot of another backend
      intro t idx d msg _ ht i fl hf hfl
      have howns := ha.thread t
      rw [ht] at howns
      obtain ⟨n, rfl, hn, hown⟩ := howns
      obtain ⟨fl', hfl', hid⟩ := inflightFind_some hf
      have hlim := hl.limit
      unfold localIdLimit at hlim
      rw [castU64_natCast _ (by omega)] at hid
      rw [hfl] at hfl'
      cases hfl'
      exact hown i fl hfl hid
    · rintro frame ok id rfl hc
      exact hok.2.1 id (isCall_iff.mp hc)

/-- In such a run no reply has two members called `id`. -/
theorem oneId_reach {w : World} (h : ReachWhen answering IdsSurvive w) :
    RepliesMeet OneId (fun _ body => OneId body) w.sys := by
  refine h.invariant (I := fun w => RepliesMeet OneId (fun _ body => OneId body) w.sys) ?_ ?_
  · rintro ⟨s, o⟩ ⟨⟨platform, expose, rfl⟩, ho⟩
    exact repliesMeet_start
  · intro w a w' hok hi hst
    refine repliesMeet_step hst.1 ⟨?_, ?_, ?_, ?_⟩ hi
    · intro frame ok r _ hr
      exact handleAgentFrame_oneId r hr
    · rintro t j rfl
      exact hok.2.2 j rfl
    · intro i fl msg _ _ hone
      exact hone.restoreId fl.origId
    · intro i fl _ _
      exact oneId_errorStr _ _ _

/-- What the agent can rely on. The reply to a handled call is at exactly one place and
    carries the call's id, on stdout as its only id; a used slot is for a backend in use, and
    records an agent frame exactly when it is of the agent kind; used slots have distinct local
    ids; what answers no agent frame is a list_changed. -/
structure ExactlyOnce (s : Sys) : Prop where
  place : ∀ k id, callAt s k id → ∃! p, tokenAt s p = some k
  carries : ∀ k id p o, callAt s k id → entryAt s p = some (k, o) → o = some id
  ids : ∀ k id f, callAt s k id → f ∈ s.stdout → f.answers = some k →
    f.body.membersNamed (ascii "id") = [id]
  slot : ∀ i fl, s.g.inflight i = some fl →
    (s.g.backends fl.backend).isSome ∧ (fl.seq.isSome ↔ fl.kind = .agent)
  localIds : ∀ i j fl fl', s.g.inflight i = some fl → s.g.inflight j = some fl' →
    fl.localId = fl'.localId → i = j
  untagged : ∀ f ∈ s.stdout, f.answers = none → f = listChangedFrame

/-- Exactly-once reply. In a run in which ids survive printing and no response has two, every
    handled call has its reply at exactly one place, under the agent's id and no other. -/
theorem exactly_once_reply {w : World} (h : ReachWhen answering IdsSurvive w) :
    ExactlyOnce w.sys := by
  have hb := books_reach h
  have hr : ReachWhen aggregator IdRoom w.sys := sys_reach (fun _ _ h => h.1) h
  have hw := wf_reach hr
  have hl := localIds_reach (fun _ _ h => h) hr
  refine ⟨fun k id hc => ?_, fun k id p o hc he => hb.carries he hc, fun k id f hc hf hans => ?_,
    fun i fl hi => ?_, fun i j fl fl' hi hj he => ?_, untagged_reach hr⟩
  · obtain ⟨p, hp⟩ := hb.posted k id hc
    exact ⟨p, tokenAt_eq hp, fun q hq => hb.once q p k hq (tokenAt_eq hp)⟩
  · obtain ⟨n, hn⟩ := List.mem_iff_getElem?.mp hf
    have hentry : entryAt w.sys (.out n) = some (k, idOf f.body) := by
      simp only [entryAt, hn, Option.bind_some, OutFrame.entry, hans, Option.map_some]
    have hone : OneId f.body := by
      rcases (oneId_reach h).out f hf with rfl | ⟨body, hbody, he⟩
      · cases hans
      · rw [he]
        exact hbody.reparse
    exact hone.sole (hb.carries hentry hc)
  · refine ⟨hw.slotUsed i fl hi, ?_⟩
    have hk := hw.kinded i fl hi
    unfold Inflight.WellKinded at hk
    cases hkind : fl.kind with
    | agent =>
        rw [hkind] at hk
        simp [hk.1]
    | toolsRefresh =>
        rw [hkind] at hk
        simp [hk.1]
  · refine hl.once i j fl.localId ?_ ?_
    · simp only [hi, Option.map_some]
    · simp only [hj, Option.map_some, he]

/-- One app, one call, answered. -/
def oneCall : List Act :=
  joins 5 0 1 "viewer" (helloResult "viewer") (toolsResult ["zoom"]) ++
    [.agentFrame (some (callFrame 7 "viewer__zoom")) true, .readerTop 1,
      .recv 1 (.msg (response 1 (fields []))), .lookup 1, .relay 1]

/-- A run that meets the condition: the call is answered once, under its id. -/
theorem exactly_once_reply_oneCall : ∃ w,
    follow World.next (World.start plainPlatform false) oneCall = some w ∧
      entryAt w.sys (.out 0) = some (0, some (Json.ofNat 7)) ∧ ExactlyOnce w.sys := by
  have hout : (follow World.next (World.start plainPlatform false) oneCall).map
      (fun w => entryAt w.sys (.out 0)) = some (some (0, some (Json.ofNat 7))) := by
    decide +kernel
  obtain ⟨w, hw, he⟩ := Option.map_eq_some_iff.mp hout
  exact ⟨w, hw, he, exactly_once_reply (world_reach hw (by decide +kernel))⟩

/-- A call under the first id that cJSON does not print back. -/
def lossyCall : List Act :=
  [.agentFrame (some (callFrame 4503599627370499 "zoom")) true, .agentWrite]

/-- Without the condition the reply can carry an id the agent never used. -/
theorem exactly_once_reply_lossy : ∃ w, Reach answering w ∧ callAt w.sys 0 (Json.ofNat 4503599627370499) ∧
    entryAt w.sys (.out 0) = some (0, some (Json.ofNat 4503599627370500)) ∧
    ¬ ExactlyOnce w.sys := by
  have hrun : (follow World.next (World.start plainPlatform false) lossyCall).map
      (fun w => (w.sys.frames, entryAt w.sys (.out 0))) =
        some ([some (callFrame 4503599627370499 "zoom")],
          some (0, some (Json.ofNat 4503599627370500))) := by
    decide +kernel
  obtain ⟨w, hw, he⟩ := Option.map_eq_some_iff.mp hrun
  obtain ⟨hframes, hout⟩ := Prod.mk.inj he
  have hcall : callAt w.sys 0 (Json.ofNat 4503599627370499) := by
    refine ⟨some (callFrame 4503599627370499 "zoom"), by rw [hframes]; rfl, ?_⟩
    rw [isCall_iff]
    decide +kernel
  refine ⟨w, world_reach hw (fun _ _ => trivial), hcall, hout, fun h => ?_⟩
  have hid := h.carries 0 _ _ _ hcall hout
  exact absurd hid (by decide +kernel)

end DisplayxrMcp
