/-
  Structural invariants of the aggregator, for every behaviour of the peers.

  `Wf`: an in-flight slot points at a used backend slot; a reader runs on a used
  backend slot and is the only one there; it reads that backend's connection;
  connections are owned once (by a backend slot or by a setup thread) and were
  handed out by a `connect`. `wf_step` is the step lemma, `wf_reach` the result
  for runs.
-/
import DisplayxrMcp.Lib.Ledger
import DisplayxrMcp.Aggregator.Tables

namespace DisplayxrMcp

open Lib Cjson Lts

/-- The backend slot a thread is the reader of. -/
def Thread.readerOf : Thread → Option (Fin maxBackends)
  | .reader idx _ => some idx
  | _ => none

/-- The connection a setup thread holds. -/
def SetupPc.conn : SetupPc → Option ConnId
  | .send c _ => some c
  | .recv c _ _ => some c
  | .initialized c _ => some c
  | .register c _ _ => some c
  | _ => none

def Thread.ownConn : Thread → Option ConnId
  | .setup _ _ pc => pc.conn
  | _ => none

/-- Who can own a connection: a backend slot or a thread. -/
abbrev Owner := Fin maxBackends ⊕ Nat

def connAt (s : Sys) : Owner → Option ConnId
  | .inl i => (s.g.backends i).map Backend.conn
  | .inr t => (s.threads t).ownConn

/-- A slot for an agent call carries the call's id and number; a refresh slot neither. -/
def Inflight.WellKinded (fl : Inflight) : Prop :=
  match fl.kind with
  | .agent => fl.seq.isSome ∧ fl.origId.isSome
  | .toolsRefresh => fl.seq = none ∧ fl.origId = none

structure Wf (s : Sys) : Prop where
  slotUsed : ∀ i fl, s.g.inflight i = some fl → (s.g.backends fl.backend).isSome
  kinded : ∀ i fl, s.g.inflight i = some fl → fl.WellKinded
  alive : ∀ i b, s.g.backends i = some b → b.alive = true
  readerUsed : ∀ t idx, (s.threads t).readerOf = some idx → (s.g.backends idx).isSome
  readerOnce : Once fun t => (s.threads t).readerOf
  readConn : ∀ t idx c, s.threads t = .reader idx (.read c) →
    ∃ b, s.g.backends idx = some b ∧ b.conn = c
  lookupId : ∀ t idx d msg, s.threads t = .reader idx (.lookup d msg) → idOf msg = some (.num d)
  connOnce : Once (connAt s)
  connLt : ∀ o c, connAt s o = some c → c < s.conns

theorem Wf.congr {s s' : Sys} (h : Wf s) (hg : s'.g = s.g) (ht : s'.threads = s.threads)
    (hc : s'.conns = s.conns) : Wf s' := by
  have hconn : connAt s' = connAt s := by
    funext o
    cases o <;> simp [connAt, hg, ht]
  exact ⟨hg ▸ h.slotUsed, hg ▸ h.kinded, hg ▸ h.alive, hg ▸ ht ▸ h.readerUsed, ht ▸ h.readerOnce,
    hg ▸ ht ▸ h.readConn, ht ▸ h.lookupId, hconn ▸ h.connOnce, hconn ▸ hc ▸ h.connLt⟩

theorem Wf.start (platform : Platform) (expose : Bool) : Wf (Sys.start platform expose) := by
  have hconn : ∀ o, connAt (Sys.start platform expose) o = none := by
    rintro (i | t)
    · rfl
    · rfl
  refine ⟨?_, ?_, ?_, ?_, ?_, ?_, ?_, ?_, ?_⟩
  · intro i fl h; cases h
  · intro i fl h; cases h
  · intro i b h; cases h
  · intro t idx h; cases h
  · intro t t' k h; cases h
  · intro t idx c h; cases h
  · intro t idx d msg h; cases h
  · intro o o' k h; rw [hconn] at h; cases h
  · intro o c h; rw [hconn] at h; cases h

/-- A thread moves on without becoming a reader of, or the owner of, anything new. -/
theorem Wf.setThread {s : Sys} (h : Wf s) {t : Nat} {th : Thread}
    (hr : th.readerOf = none ∨ th.readerOf = (s.threads t).readerOf)
    (hc : th.ownConn = none ∨ th.ownConn = (s.threads t).ownConn)
    (hread : ∀ idx c, th = .reader idx (.read c) → ∃ b, s.g.backends idx = some b ∧ b.conn = c)
    (hlook : ∀ idx d msg, th = .reader idx (.lookup d msg) → idOf msg = some (.num d)) :
    Wf (s.setThread t th) := by
  have hreader : ∀ t' idx, ((s.setThread t th).threads t').readerOf = some idx →
      (s.threads t').readerOf = some idx := by
    intro t' idx ht'
    rw [Sys.setThread_apply] at ht'
    split at ht'
    · next he =>
        rw [he]
        rcases hr with hr | hr
        · rw [hr] at ht'; cases ht'
        · rw [← hr]; exact ht'
    · exact ht'
  have hconn : ∀ o c, connAt (s.setThread t th) o = some c → connAt s o = some c := by
    rintro (i | t') c ho
    · exact ho
    · simp only [connAt, Sys.setThread_apply] at ho ⊢
      split at ho
      · next he =>
          rw [he]
          rcases hc with hc | hc
          · rw [hc] at ho; cases ho
          · rw [← hc]; exact ho
      · exact ho
  refine ⟨h.slotUsed, h.kinded, h.alive, ?_, ?_, ?_, ?_, ?_, ?_⟩
  · exact fun t' idx ht' => h.readerUsed t' idx (hreader t' idx ht')
  · exact h.readerOnce.drop hreader
  · intro t' idx c ht'
    rw [Sys.setThread_apply] at ht'
    split at ht'
    · exact hread idx c ht'
    · exact h.readConn t' idx c ht'
  · intro t' idx d msg ht'
    rw [Sys.setThread_apply] at ht'
    split at ht'
    · exact hlook idx d msg ht'
    · exact h.lookupId t' idx d msg ht'
  · exact h.connOnce.drop hconn
  · exact fun o c ho => h.connLt o c (hconn o c ho)

/-- The tables change: backend slots keep their connections, in-flight slots are freed or
    taken for used backend slots. -/
theorem Wf.setG {s : Sys} (h : Wf s) {g : Global}
    (hb : ∀ i, (g.backends i).map Backend.conn = (s.g.backends i).map Backend.conn)
    (halive : ∀ i b, g.backends i = some b → b.alive = true)
    (hfl : ∀ i fl, g.inflight i = some fl →
      s.g.inflight i = some fl ∨ (s.g.backends fl.backend).isSome ∧ fl.WellKinded) :
    Wf (s.setG g) := by
  have hsome : ∀ i, (g.backends i).isSome = (s.g.backends i).isSome := by
    intro i
    have := congrArg Option.isSome (hb i)
    simpa using this
  have hconn : connAt (s.setG g) = connAt s := by
    funext o
    cases o with
    | inl i => exact hb i
    | inr t => rfl
  refine ⟨?_, ?_, halive, ?_, h.readerOnce, ?_, h.lookupId, hconn ▸ h.connOnce, hconn ▸ h.connLt⟩
  · intro i fl hi
    rw [Sys.setG_g, hsome]
    rcases hfl i fl hi with hi | ⟨hu, _⟩
    · exact h.slotUsed i fl hi
    · exact hu
  · intro i fl hi
    rcases hfl i fl hi with hi | ⟨_, hk⟩
    · exact h.kinded i fl hi
    · exact hk
  · intro t idx ht
    rw [Sys.setG_g, hsome]
    exact h.readerUsed t idx ht
  · intro t idx c ht
    obtain ⟨b, hbi, hc⟩ := h.readConn t idx c ht
    have := hb idx
    rw [hbi] at this
    obtain ⟨b', hb', hc'⟩ := Option.map_eq_some_iff.mp this
    exact ⟨b', hb', hc'.trans hc⟩

theorem connAt_setup {s : Sys} {t : Nat} {sh : Bool} {pid : ℤ} {pc : SetupPc} {c : ConnId}
    (ht : s.threads t = .setup sh pid pc) (hc : pc.conn = some c) :
    connAt s (.inr t) = some c := by
  simp only [connAt, ht, Thread.ownConn]
  exact hc

/-- One setup thread holds a connection. -/
theorem Wf.setup_unique {s : Sys} (h : Wf s) {t u : Nat} {sh sh' : Bool} {pid pid' : ℤ}
    {pc pc' : SetupPc} {c : ConnId} (hu : s.threads u = .setup sh' pid' pc')
    (hc' : pc'.conn = some c) (ht : s.threads t = .setup sh pid pc) (hc : pc.conn = some c) :
    u = t :=
  Sum.inr.inj (h.connOnce _ _ _ (connAt_setup hu hc') (connAt_setup ht hc))

theorem Wf.sameTables {s : Sys} (h : Wf s) {g : Global} (hs : SameTables s.g g) :
    Wf (s.setG g) := by
  obtain ⟨l, b, rfl⟩ := hs
  exact h.setG (fun _ => rfl) h.alive fun _ _ hi => Or.inl hi

theorem Wf.spawnSetup {s : Sys} (h : Wf s) (sh : Bool) (pid : ℤ) (r : Spawn) :
    Wf (s.spawnSetup sh pid r) := by
  cases r with
  | noMemory => exact h
  | noThread => exact h.sameTables (connectingRemove_same s.g sh pid)
  | thread t =>
      exact h.setThread (Or.inl rfl) (Or.inl rfl) (by intro idx c e; cases e)
        (by intro idx d msg e; cases e)

/-- No call points at the slot a registration takes. -/
theorem Wf.register_unused {s : Sys} (h : Wf s) {sh : Bool} {pid : ℤ} {c : ConnId} {appId exe : CStr}
    {resp : Json} {idx : Fin maxBackends} {g' : Global}
    (hr : backendRegister s.g sh pid c appId resp exe = some (idx, g')) :
    ∀ i fl, g'.inflight i = some fl → fl.backend ≠ idx := by
  obtain ⟨b, hidx, -, -, -, -, -, -, hg⟩ := backendRegister_some hr
  intro i fl hi e
  have hi' : s.g.inflight i = some fl := by
    rcases hg with ⟨-, -, rfl⟩ | ⟨-, -, rfl⟩ <;> exact hi
  have hused := h.slotUsed i fl hi'
  rw [e, hidx] at hused
  cases hused

/-- Registration: a setup thread's connection passes to a free backend slot, and a new
    thread becomes its reader. -/
theorem Wf.register {s : Sys} (h : Wf s) {t t' : Nat} {sh : Bool} {pid : ℤ} {c : ConnId}
    {appId : CStr} {resp : Json} {exe : CStr} {idx : Fin maxBackends} {g' : Global}
    (ht : s.threads t = .setup sh pid (.register c appId resp)) (hfree : s.threads t' = .gone)
    (hr : backendRegister s.g sh pid c appId resp exe = some (idx, g')) :
    Wf (((s.setG g').setThread t (.setup sh pid (.remove true))).setThread t'
      (.reader idx .top)) := by
  obtain ⟨b, hidx, hbc, hba, -, -, -, -, hg⟩ := backendRegister_some hr
  have hback : g'.backends = s.g.backends.put idx b := by
    rcases hg with ⟨-, -, rfl⟩ | ⟨-, -, rfl⟩ <;> rfl
  have hinf : g'.inflight = s.g.inflight := by
    rcases hg with ⟨-, -, rfl⟩ | ⟨-, -, rfl⟩ <;> rfl
  have hne : t ≠ t' := by
    rintro rfl
    rw [ht] at hfree
    cases hfree
  have hmono : ∀ i, (s.g.backends i).isSome → (g'.backends i).isSome := by
    intro i hi
    rw [hback, Slots.put_apply]
    split
    · rfl
    · exact hi
  have hthread : ∀ u, (((s.setG g').setThread t (.setup sh pid (.remove true))).setThread t'
      (.reader idx .top)).threads u =
      if u = t' then .reader idx .top else if u = t then .setup sh pid (.remove true)
        else s.threads u := by
    intro u
    rw [Sys.setThread_apply, Sys.setThread_apply]
    rfl
  refine ⟨?_, ?_, ?_, ?_, ?_, ?_, ?_, ?_, ?_⟩
  · intro i fl hi
    exact hmono _ (h.slotUsed i fl (hinf ▸ hi))
  · intro i fl hi
    exact h.kinded i fl (hinf ▸ hi)
  · intro i b' hi
    change g'.backends i = some b' at hi
    rw [hback, Slots.put_apply] at hi
    split at hi
    · cases hi; exact hba
    · exact h.alive i b' hi
  · intro u j hu
    rw [hthread] at hu
    change (g'.backends j).isSome
    split at hu
    · cases hu
      rw [hback, Slots.put_same]
      rfl
    · split at hu
      · cases hu
      · exact hmono _ (h.readerUsed u j hu)
  · refine h.readerOnce.put t' idx ?_ ?_
    · intro u hu
      have := h.readerUsed u idx hu
      rw [hidx] at this
      cases this
    · intro u j hu
      rw [hthread] at hu
      split at hu
      · next he => cases hu; exact Or.inl ⟨he, rfl⟩
      · split at hu
        · cases hu
        · exact Or.inr hu
  · intro u j c' hu
    rw [hthread] at hu
    split at hu
    · cases hu
    · split at hu
      · cases hu
      · obtain ⟨b', hb', hc'⟩ := h.readConn u j c' hu
        refine ⟨b', ?_, hc'⟩
        have hj : j ≠ idx := by
          rintro rfl
          rw [hidx] at hb'
          cases hb'
        change g'.backends j = some b'
        rw [hback, Slots.put_ne _ _ hj]
        exact hb'
  · intro u j d msg hu
    rw [hthread] at hu
    split at hu
    · cases hu
    · split at hu
      · cases hu
      · exact h.lookupId u j d msg hu
  · refine h.connOnce.move (Sum.inr t) (Sum.inl idx) ?_ ?_
    · intro k hk
      simp only [connAt, Sys.setThread_g, Sys.setG_g, hback, Slots.put_same, Option.map_some,
        Option.some.injEq] at hk
      simp only [connAt, ht, Thread.ownConn, SetupPc.conn]
      rw [← hk, hbc]
    · rintro (i | u) k hp hk
      · refine ⟨by simp, ?_⟩
        have hi : i ≠ idx := fun e => hp (by rw [e])
        simpa only [connAt, Sys.setThread_g, Sys.setG_g, hback, Slots.put_ne _ _ hi] using hk
      · simp only [connAt, hthread] at hk
        split at hk
        · cases hk
        · split at hk
          · cases hk
          · next hu => exact ⟨fun e => hu (Sum.inr.inj e), hk⟩
  · rintro (i | u) k hk
    · change (g'.backends i).map Backend.conn = some k at hk
      rw [hback, Slots.put_apply] at hk
      split at hk
      · have hkc : k = c := by
          simp only [Option.map_some, Option.some.injEq] at hk
          rw [← hk, hbc]
        exact h.connLt (.inr t) k (by simp [connAt, ht, Thread.ownConn, SetupPc.conn, hkc])
      · exact h.connLt (.inl i) k hk
    · simp only [connAt, hthread] at hk
      split at hk
      · cases hk
      · split at hk
        · cases hk
        · exact h.connLt (.inr u) k hk

/-- Teardown by the slot's reader, which then only emits. -/
theorem Wf.teardown {s : Sys} (h : Wf s) {t : Nat} {idx : Fin maxBackends} {pc : ReaderPc}
    (ht : s.threads t = .reader idx pc) (out : List OutFrame) :
    Wf (((s.setG (backendTeardownLocked s.g idx).1).emit out).setThread t .emitCheck) := by
  rw [backendTeardownLocked_eq]
  -- the other readers run on other slots
  have hother : ∀ u, u ≠ t → (s.threads u).readerOf ≠ some idx := by
    intro u hu he
    exact hu (h.readerOnce u t idx he (by simp only [ht]; rfl))
  refine ⟨?_, ?_, ?_, ?_, ?_, ?_, ?_, ?_, ?_⟩
  · intro i fl hi
    obtain ⟨hi, hne⟩ := keepOthers_some.mp hi
    change ((s.g.backends.clear idx) fl.backend).isSome
    rw [Slots.clear_ne _ hne]
    exact h.slotUsed i fl hi
  · intro i fl hi
    exact h.kinded i fl (keepOthers_some.mp hi).1
  · intro i b hi
    change (s.g.backends.clear idx) i = some b at hi
    rw [Slots.clear_apply] at hi
    split at hi
    · cases hi
    · exact h.alive i b hi
  · intro u j hu
    rw [Sys.setThread_apply] at hu
    split at hu
    · cases hu
    · next hut =>
        have hj : j ≠ idx := fun e => hother u hut (e ▸ hu)
        change ((s.g.backends.clear idx) j).isSome
        rw [Slots.clear_ne _ hj]
        exact h.readerUsed u j hu
  · refine h.readerOnce.drop ?_
    intro u j hu
    rw [Sys.setThread_apply] at hu
    split at hu
    · cases hu
    · exact hu
  · intro u j c hu
    rw [Sys.setThread_apply] at hu
    split at hu
    · cases hu
    · next hut =>
        obtain ⟨b, hb, hc⟩ := h.readConn u j c hu
        have hj : j ≠ idx := by
          intro e
          exact hother u hut (e ▸ (by rw [show s.threads u = _ from hu]; rfl))
        refine ⟨b, ?_, hc⟩
        change (s.g.backends.clear idx) j = some b
        rw [Slots.clear_ne _ hj]
        exact hb
  · intro u j d msg hu
    rw [Sys.setThread_apply] at hu
    split at hu
    · cases hu
    · exact h.lookupId u j d msg hu
  all_goals
    have hsub : ∀ o k, connAt (((s.setG { s.g with
        inflight := fun i => keepOthers idx (s.g.inflight i)
        backends := s.g.backends.clear idx }).emit out).setThread t .emitCheck) o = some k →
        connAt s o = some k := by
      rintro (i | u) k hk
      · change ((s.g.backends.clear idx) i).map Backend.conn = some k at hk
        rw [Slots.clear_apply] at hk
        split at hk
        · cases hk
        · exact hk
      · simp only [connAt, Sys.setThread_apply] at hk
        split at hk
        · cases hk
        · exact hk
  · exact h.connOnce.drop hsub
  · exact fun o c ho => h.connLt o c (hsub o c ho)

/-- A setup thread connects: the connection is new. -/
theorem Wf.connect {s : Sys} (h : Wf s) {t : Nat} {sh : Bool} {pid : ℤ} :
    Wf { s.setThread t (.setup sh pid (.send s.conns .hello)) with conns := s.conns + 1 } := by
  have hthread : ∀ u, (s.setThread t (.setup sh pid (.send s.conns .hello))).threads u =
      if u = t then .setup sh pid (.send s.conns .hello) else s.threads u :=
    fun u => Sys.setThread_apply _ _ _ _
  have hsub : ∀ o k, connAt { s.setThread t (.setup sh pid (.send s.conns .hello)) with
      conns := s.conns + 1 } o = some k → (o = .inr t ∧ k = s.conns) ∨ connAt s o = some k := by
    rintro (i | u) k hk
    · exact Or.inr hk
    · simp only [connAt, hthread] at hk
      split at hk
      · next he =>
          simp only [Thread.ownConn, SetupPc.conn, Option.some.injEq] at hk
          exact Or.inl ⟨by rw [he], hk.symm⟩
      · exact Or.inr hk
  refine ⟨h.slotUsed, h.kinded, h.alive, ?_, ?_, ?_, ?_, ?_, ?_⟩
  · intro u idx hu
    simp only [hthread] at hu
    split at hu
    · cases hu
    · exact h.readerUsed u idx hu
  · refine h.readerOnce.drop ?_
    intro u idx hu
    simp only [hthread] at hu
    split at hu
    · cases hu
    · exact hu
  · intro u idx c hu
    simp only [hthread] at hu
    split at hu
    · cases hu
    · exact h.readConn u idx c hu
  · intro u idx d msg hu
    simp only [hthread] at hu
    split at hu
    · cases hu
    · exact h.lookupId u idx d msg hu
  · exact h.connOnce.put (.inr t) s.conns (fun o ho => Nat.lt_irrefl _ (h.connLt o _ ho)) hsub
  · intro o k hk
    rcases hsub o k hk with ⟨_, rfl⟩ | hk
    · exact Nat.lt_succ_self _
    · exact Nat.lt_succ_of_lt (h.connLt o k hk)

/-- What a reader does after a message or a lookup keeps the reader's obligations. -/
theorem onMessage_lookup {j msg : Json} {d : Dbl} (h : onMessage j = .lookup d msg) :
    msg = j ∧ idOf j = some (.num d) := by
  unfold onMessage at h
  split at h
  · split at h <;> cases h
  · split at h
    · next d' hd' =>
        cases h
        refine ⟨rfl, ?_⟩
        unfold Json.number? at hd'
        split at hd'
        · cases hd'; assumption
        · cases hd'
    · cases h

theorem onInbound_not_read (f : Inbound) (c : ConnId) : onInbound f ≠ .read c := by
  cases f with
  | eof => simp [onInbound]
  | junk => simp [onInbound]
  | msg j =>
      simp only [onInbound, onMessage]
      split
      · split <;> simp
      · split <;> simp

theorem onInbound_lookup {f : Inbound} {d : Dbl} {msg : Json} (h : onInbound f = .lookup d msg) :
    f = .msg msg ∧ idOf msg = some (.num d) := by
  cases f with
  | eof => cases h
  | junk => cases h
  | msg j =>
      obtain ⟨rfl, hid⟩ := onMessage_lookup h
      exact ⟨rfl, hid⟩

theorem onInbound_not_relay (f : Inbound) (seq : Option Nat) (body : Json) :
    onInbound f ≠ .relay seq body := by
  cases f with
  | eof => simp [onInbound]
  | junk => simp [onInbound]
  | msg j =>
      simp only [onInbound, onMessage]
      split
      · split <;> simp
      · split <;> simp

theorem syncStep_conn (c : ConnId) (ph : Phase) (k : Nat) (f : Inbound) :
    (syncStep c ph k f).conn = none ∨ (syncStep c ph k f).conn = some c := by
  unfold syncStep
  split
  · exact Or.inl rfl
  · exact Or.inl rfl
  · split
    · cases ph <;> exact Or.inr rfl
    · split
      · exact Or.inr rfl
      · exact Or.inl rfl

theorem wf_handled {s : Sys} (h : Wf s) {seq : Nat} {frame : Option Json} {ok : Bool}
    {r : Handled} (hr : HandledCases s.g seq frame ok r) : Wf (s.setG r.g) := by
  cases hr with
  | answered reply _ => exact h.setG (fun _ => rfl) h.alive fun _ _ hi => Or.inl hi
  | unwritten id r _ _ _ => exact h.setG (fun _ => rfl) h.alive fun _ _ hi => Or.inl hi
  | forwarded id params full idx b bare args i hok hcall hfull hnot hroute hargs hfree =>
      refine h.setG (fun _ => rfl) h.alive fun j fl hj => ?_
      change s.g.inflight.put i _ j = some fl at hj
      rw [Slots.put_apply] at hj
      split at hj
      · cases hj
        refine Or.inr ⟨?_, ⟨rfl, rfl⟩⟩
        obtain ⟨sep, -, -, -, -, -, hb⟩ := route_backend hroute
        exact Option.isSome_iff_exists.mpr ⟨b, hb⟩
      · exact Or.inl hj

theorem wf_refresh {s : Sys} (h : Wf s) {idx : Fin maxBackends} {ok : Bool}
    {r : Global × Option (ConnId × Json)} (hr : RefreshCases s.g idx ok r) : Wf (s.setG r.1) := by
  cases hr with
  | refused _ => exact h.setG (fun _ => rfl) h.alive fun _ _ hi => Or.inl hi
  | unwritten _ => exact h.setG (fun _ => rfl) h.alive fun _ _ hi => Or.inl hi
  | written b i _ hb _ =>
      refine h.setG (fun _ => rfl) h.alive fun j fl hj => ?_
      change s.g.inflight.put i _ j = some fl at hj
      rw [Slots.put_apply] at hj
      split at hj
      · cases hj
        exact Or.inr ⟨Option.isSome_iff_exists.mpr ⟨b, hb⟩, ⟨rfl, rfl⟩⟩
      · exact Or.inl hj

theorem wf_lookup {s : Sys} (h : Wf s) {idx : Fin maxBackends} {d : Dbl} {msg : Json}
    {r : Global × ReaderPc} (hr : LookupCases s.g idx d msg r) :
    Wf (s.setG r.1) ∧ (∀ c, r.2 ≠ .read c) ∧ ∀ d' m, r.2 ≠ .lookup d' m := by
  have hrel : ∀ i, Wf (s.setG (inflightRelease s.g i)) := by
    intro i
    refine h.setG (fun _ => rfl) h.alive fun j fl hj => Or.inl ?_
    rw [inflightRelease_inflight, Slots.clear_apply] at hj
    split at hj
    · cases hj
    · exact hj
  cases hr with
  | missed _ =>
      refine ⟨h.setG (fun _ => rfl) h.alive fun _ _ hi => Or.inl hi, ?_, ?_⟩ <;> simp
  | foreign i fl _ _ _ =>
      refine ⟨hrel i, ?_, ?_⟩ <;> simp
  | answered i fl _ _ _ _ =>
      refine ⟨hrel i, ?_, ?_⟩ <;> simp
  | refreshed i fl _ _ _ _ pc hpc =>
      refine ⟨hrel i, ?_, ?_⟩
      · intro c
        rw [hpc]
        split <;> simp
      · intro d' m
        rw [hpc]
        split <;> simp

theorem wf_apply {s : Sys} (h : Wf s) {idx : Fin maxBackends} {result : Json} {g' : Global}
    (ha : applyToolsResult s.g idx result = some g') : Wf (s.setG g') := by
  obtain ⟨b, b', hb, hconn, halive, -, -, hg⟩ := applyToolsResult_some ha
  have hback : g'.backends = s.g.backends.put idx b' := by
    rcases hg with ⟨-, -, -, rfl⟩ | ⟨slug, -, -, -, rfl⟩ <;> rfl
  have hinf : g'.inflight = s.g.inflight := by
    rcases hg with ⟨-, -, -, rfl⟩ | ⟨slug, -, -, -, rfl⟩ <;> rfl
  refine h.setG ?_ ?_ fun i fl hi => Or.inl (hinf ▸ hi)
  · intro i
    rw [hback, Slots.put_apply]
    split
    · next he => rw [he, hb, Option.map_some, Option.map_some, hconn]
    · rfl
  · intro i b'' hi
    rw [hback, Slots.put_apply] at hi
    split at hi
    · cases hi; rw [halive]; exact h.alive idx b hb
    · exact h.alive i b'' hi

/-- A reader stands at a lookup because it has just read the message. -/
theorem step_looked {s s' : Sys} {a : Act} (hst : Step s a s') {u : Nat}
    {idx : Fin maxBackends} {d : Dbl} {msg : Json}
    (h : s'.threads u = .reader idx (.lookup d msg)) :
    s.threads u = .reader idx (.lookup d msg) ∨
      ∃ c, a = .recv u (.msg msg) ∧ s.threads u = .reader idx (.read c) := by
  have hset : ∀ {s₀ : Sys} {t : Nat} {th : Thread},
      (s₀.setThread t th).threads u = .reader idx (.lookup d msg) → s₀.threads = s.threads →
      (∀ idx d msg, th ≠ .reader idx (.lookup d msg)) →
      s.threads u = .reader idx (.lookup d msg) := by
    intro s₀ t th hu hs hne
    rw [Sys.setThread_apply] at hu
    split at hu
    · exact absurd hu (hne idx d msg)
    · exact hs ▸ hu
  have hspawn : ∀ {sh : Bool} {pid : ℤ} {r : Spawn},
      (s.spawnSetup sh pid r).threads u = .reader idx (.lookup d msg) →
      s.threads u = .reader idx (.lookup d msg) := by
    intro sh pid r hu
    rcases spawnSetup_thread s sh pid r u with he | ⟨-, he⟩
    · exact he ▸ hu
    · rw [he] at hu
      cases hu
  cases hst with
  | agentFrame hm => exact Or.inl h
  | agentWrite hm => exact Or.inl h
  | markInitialized hm => exact Or.inl h
  | pollScan hp hlen => exact Or.inl h
  | pollSpawn hp hr => exact Or.inl (hspawn h)
  | pollSpawnShell hp hr => exact Or.inl (hspawn h)
  | pollSleep hp => exact Or.inl h
  | connect ht => exact Or.inl (hset h rfl (by simp))
  | @connectingRemove t sh pid r ht => exact Or.inl (hset h rfl (by cases r <;> simp))
  | @registered t t' sh pid c appId resp exe idx' g' ht hr hfree =>
      rw [Sys.setThread_apply] at h
      split at h
      · cases h
      · exact Or.inl (hset h rfl (by simp))
  | @readerTop t idx' ht => exact Or.inl (hset h rfl (by split <;> simp))
  | @recv t idx' c f ht =>
      rw [Sys.setThread_apply] at h
      split at h
      · next hu =>
          obtain ⟨rfl, hpc⟩ := Thread.reader.inj h
          obtain ⟨rfl, -⟩ := onInbound_lookup hpc
          exact Or.inr ⟨c, by rw [hu], by rw [hu]; exact ht⟩
      · exact Or.inl h
  | @lookup t idx' d' msg' ht =>
      refine Or.inl (hset h rfl fun idx d msg he => ?_)
      have hr := readerLookup_cases s.g idx' d' msg'
      have hpc := (Thread.reader.inj he).2
      generalize readerLookup s.g idx' d' msg' = r at hr hpc
      cases hr with
      | missed _ => cases hpc
      | foreign _ _ _ _ _ => cases hpc
      | refreshed _ _ _ _ _ _ pc hr => rw [hr] at hpc; split at hpc <;> cases hpc
      | answered _ _ _ _ _ _ => cases hpc
  | readerEmitCheck ht => exact Or.inl (hset h rfl (by split <;> simp))
  | emitCheck ht => exact Or.inl (hset h rfl (by split <;> simp))
  | registerNoThread ht hr =>
      exact Or.inl (hset h (by rw [Sys.emit_threads, Sys.setG_threads]) (by simp))
  | teardown ht =>
      exact Or.inl (hset h (by rw [Sys.emit_threads, Sys.setG_threads]) (by simp))
  | _ => exact Or.inl (hset h rfl (by simp))

theorem wf_step {s s' : Sys} {a : Act} (hst : Step s a s') (h : Wf s) : Wf s' := by
  cases hst with
  | agentFrame hm =>
      exact (wf_handled h (handleAgentFrame_cases s.g _ _ _)).congr rfl rfl rfl
  | agentWrite hm => exact h.congr rfl rfl rfl
  | markInitialized hm =>
      have hg : Wf (s.setG { s.g with agentInitialized := true }) :=
        h.setG (fun _ => rfl) h.alive fun _ _ hi => Or.inl hi
      exact hg.congr rfl rfl rfl
  | pollScan hp hlen => exact (h.sameTables (pollScan_same s.g _ _)).congr rfl rfl rfl
  | @pollSpawn pid fresh shell r hp hr => exact (h.spawnSetup false pid r).congr rfl rfl rfl
  | @pollSpawnShell r hp hr => exact (h.spawnSetup true 0 r).congr rfl rfl rfl
  | pollSleep hp => exact h.congr rfl rfl rfl
  | connect ht => exact h.connect
  | connectFail ht =>
      exact h.setThread (Or.inl rfl) (Or.inl rfl) (by intro _ _ e; cases e)
        (by intro _ _ _ e; cases e)
  | @syncSend t sh pid c ph ok ht =>
      refine h.setThread (Or.inl rfl) ?_ (by intro _ _ e; cases e) (by intro _ _ _ e; cases e)
      rw [ht]
      cases ok
      · exact Or.inl rfl
      · exact Or.inr rfl
  | @syncRecv t sh pid c ph k f ht =>
      refine h.setThread (Or.inl rfl) ?_ (by intro _ _ e; cases e) (by intro _ _ _ e; cases e)
      rw [ht]
      exact syncStep_conn c ph k f
  | sendInitialized ht =>
      refine h.setThread (Or.inl rfl) (Or.inr ?_) (by intro _ _ e; cases e)
        (by intro _ _ _ e; cases e)
      rw [ht]
      rfl
  | registerFull ht hr =>
      exact h.setThread (Or.inl rfl) (Or.inl rfl) (by intro _ _ e; cases e)
        (by intro _ _ _ e; cases e)
  | @registerNoThread t sh pid c appId resp exe idx g' ht hr =>
      obtain ⟨b, hidx, -, -, -, -, -, -, hg⟩ := backendRegister_some hr
      rw [backendTeardownLocked_unused (h.register_unused hr)]
      have hback : g'.backends.clear idx = s.g.backends := by
        rcases hg with ⟨-, -, rfl⟩ | ⟨-, -, rfl⟩ <;> exact Slots.clear_put_of_free _ _ hidx
      have hinf : g'.inflight = s.g.inflight := by
        rcases hg with ⟨-, -, rfl⟩ | ⟨-, -, rfl⟩ <;> rfl
      have hg' : Wf (s.setG { g' with backends := g'.backends.clear idx }) :=
        h.setG (fun i => by rw [hback]) (fun i b hi => h.alive i b (hback ▸ hi))
          fun i fl hi => Or.inl (hinf ▸ hi)
      refine ((hg'.congr rfl rfl rfl : Wf ((s.setG _).emit []))).setThread (Or.inl rfl)
        (Or.inl rfl) (by intro _ _ e; cases e) (by intro _ _ _ e; cases e)
  | registered ht hr hfree => exact h.register ht hfree hr
  | @connectingRemove t sh pid registered ht =>
      refine (h.sameTables (connectingRemove_same s.g sh pid)).setThread ?_ ?_ ?_ ?_
      · left; cases registered <;> rfl
      · left; cases registered <;> rfl
      · intro _ _ e; cases registered <;> cases e
      · intro _ _ _ e; cases registered <;> cases e
  | @readerTop t idx ht =>
      refine h.setThread (Or.inr (by rw [ht]; rfl)) (Or.inl rfl) ?_ ?_
      · intro idx' c e
        obtain ⟨rfl, e⟩ := Thread.reader.inj e
        split at e
        · next b hb => cases e; exact ⟨b, hb, rfl⟩
        · cases e
      · intro idx' d msg e
        obtain ⟨rfl, e⟩ := Thread.reader.inj e
        split at e <;> cases e
  | @recv t idx c f ht =>
      refine h.setThread (Or.inr (by rw [ht]; rfl)) (Or.inl rfl) ?_ ?_
      · intro idx' c' e
        exact absurd (Thread.reader.inj e).2 (onInbound_not_read f c')
      · intro idx' d msg e
        exact (onInbound_lookup (Thread.reader.inj e).2).2
  | @refresh t idx ok ht =>
      refine (wf_refresh h (refreshBackendTools_cases s.g idx ok)).setThread
        (Or.inr (by rw [Sys.setG_threads, ht]; rfl)) (Or.inl rfl) ?_ ?_
      · intro _ _ e; cases e
      · intro _ _ _ e; cases e
  | @lookup t idx d msg ht =>
      obtain ⟨hw, hread, hlook⟩ := wf_lookup h (readerLookup_cases s.g idx d msg)
      refine hw.setThread (Or.inr (by rw [Sys.setG_threads, ht]; rfl)) (Or.inl rfl) ?_ ?_
      · intro idx' c e
        exact absurd (Thread.reader.inj e).2 (hread c)
      · intro idx' d' m e
        exact absurd (Thread.reader.inj e).2 (hlook d' m)
  | @applied t idx result g' ht ha =>
      refine (wf_apply h ha).setThread (Or.inr (by rw [Sys.setG_threads, ht]; rfl)) (Or.inl rfl)
        ?_ ?_
      · intro _ _ e; cases e
      · intro _ _ _ e; cases e
  | notApplied ht ha =>
      exact h.setThread (Or.inr (by rw [ht]; rfl)) (Or.inl rfl) (by intro _ _ e; cases e)
        (by intro _ _ _ e; cases e)
  | @relay t idx seq body ht =>
      refine (h.congr rfl rfl rfl : Wf (s.emit [⟨seq, body.reparse⟩])).setThread
        (Or.inr (by rw [Sys.emit_threads, ht]; rfl)) (Or.inl rfl) ?_ ?_
      · intro _ _ e; cases e
      · intro _ _ _ e; cases e
  | @readerEmitCheck t idx ht =>
      refine h.setThread (Or.inr (by rw [ht]; rfl)) (Or.inl rfl) ?_ ?_
      · intro _ _ e
        have := (Thread.reader.inj e).2
        split at this <;> cases this
      · intro _ _ _ e
        have := (Thread.reader.inj e).2
        split at this <;> cases this
  | @readerEmitWrite t idx ht =>
      refine (h.congr rfl rfl rfl : Wf (s.emit [listChangedFrame])).setThread
        (Or.inr (by rw [Sys.emit_threads, ht]; rfl)) (Or.inl rfl) ?_ ?_
      · intro _ _ e; cases e
      · intro _ _ _ e; cases e
  | teardown ht => exact h.teardown ht _
  | @emitCheck t ht =>
      refine h.setThread ?_ ?_ ?_ ?_
      · left; split <;> rfl
      · left; split <;> rfl
      · intro _ _ e; split at e <;> cases e
      · intro _ _ _ e; split at e <;> cases e
  | @emitWrite t ht =>
      exact (h.congr rfl rfl rfl : Wf (s.emit [listChangedFrame])).setThread (Or.inl rfl)
        (Or.inl rfl) (by intro _ _ e; cases e) (by intro _ _ _ e; cases e)

/-- Every state a run of the aggregator reaches is well formed, whatever the peers send. -/
theorem wf_reach {ok : Sys → Act → Prop} {s : Sys} (h : ReachWhen aggregator ok s) : Wf s := by
  refine h.invariant ?_ fun s a s' _ hw hst => wf_step (show Step s a s' from hst) hw
  rintro s ⟨platform, expose, rfl⟩
  exact Wf.start platform expose

end DisplayxrMcp
