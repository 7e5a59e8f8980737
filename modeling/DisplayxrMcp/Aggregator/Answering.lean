/-
  The aggregator with backends that answer.

  `answering` adds to the aggregator the ids each peer has been sent and has not
  answered. A peer may send what it likes as long as it carries no id; a message
  with an id answers one such request, which is then answered. `Answering` is
  the invariant: an id still owed on a backend's connection is a local id of that
  backend or of no slot at all, so an answer never names another backend's slot
  (`answering_reach`).
-/
import DisplayxrMcp.Aggregator.Exec
import DisplayxrMcp.Aggregator.LocalIds

namespace DisplayxrMcp

open Lib Cjson Lts

/-- The ids of the requests a peer has read and not answered, by connection. -/
abbrev Owed := ConnId → List Dbl

namespace Owed

/-- A request is written: its id is owed. -/
def owe (o : Owed) : Option (ConnId × Json) → Owed
  | some (c, j) => match Json.number? (idOf j) with
    | some d => Function.update o c (d :: o c)
    | none => o
  | none => o

/-- A message with an id is read: the request is answered. -/
def settle (o : Owed) : Option (ConnId × Inbound) → Owed
  | some (c, .msg j) => match Json.number? (idOf j) with
    | some d => Function.update o c ((o c).erase d)
    | none => o
  | _ => o

theorem owe_id (o : Owed) (c : ConnId) {j : Json} {d : Dbl} (h : idOf j = some (.num d)) :
    o.owe (some (c, j)) = Function.update o c (d :: o c) := by
  simp [owe, h, Json.number?]

theorem owe_noId (o : Owed) (c : ConnId) {j : Json} (h : idOf j = none) :
    o.owe (some (c, j)) = o := by
  simp [owe, h, Json.number?]

theorem settle_id (o : Owed) (c : ConnId) {j : Json} {d : Dbl} (h : idOf j = some (.num d)) :
    o.settle (some (c, .msg j)) = Function.update o c ((o c).erase d) := by
  simp [settle, h, Json.number?]

theorem settle_noId (o : Owed) (c : ConnId) {j : Json} (h : idOf j = none) :
    o.settle (some (c, .msg j)) = o := by
  simp [settle, h, Json.number?]

end Owed

/-- A message with an id echoes the number of a request not yet answered. -/
def Answers (o : Owed) : Option (ConnId × Inbound) → Prop
  | some (c, .msg j) => ∀ id, idOf j = some id → ∃ d, id = .num d ∧ d ∈ o c
  | _ => True

/-- The aggregator and what its peers owe it. -/
structure World where
  sys : Sys
  owed : Owed

/-- A step of the aggregator on which the peers keep to their part. -/
def World.Step (w : World) (a : Act) (w' : World) : Prop :=
  DisplayxrMcp.Step w.sys a w'.sys ∧ Answers w.owed (w.sys.recvd a) ∧
    w'.owed = (w.owed.settle (w.sys.recvd a)).owe (w.sys.sent a)

/-- The aggregator with answering backends. -/
def answering : Lts.System World Act where
  init w := aggregator.init w.sys ∧ w.owed = fun _ => []
  step := World.Step

/-- Runs with answering backends are runs of the aggregator. -/
theorem sys_reach {ok : World → Act → Prop} {ok' : Sys → Act → Prop}
    (himp : ∀ w a, ok w a → ok' w.sys a) {w : World} (h : ReachWhen answering ok w) :
    ReachWhen aggregator ok' w.sys := by
  obtain ⟨w₀, tr, hi, hr, hm⟩ := h
  induction hr with
  | refl => exact ReachWhen.init hi.1
  | tail _ hst ih =>
      obtain ⟨hm', he⟩ := meets_snoc.mp hm
      exact (ih hm').step (himp _ _ he) hst.1

/-! ## What is owed -/

/-- `d` is a local id given out, and no slot of another backend has it. -/
def Owns (g : Global) (idx : Fin maxBackends) (d : Dbl) : Prop :=
  ∃ n : Nat, d = .fin n ∧ n ≤ g.nextLocalId ∧
    ∀ i fl, g.inflight i = some fl → fl.localId = n → fl.backend = idx

/-- Slots of the new table are old ones or have new local ids. -/
def Grows (g g' : Global) : Prop :=
  g.nextLocalId ≤ g'.nextLocalId ∧
    ∀ i fl, g'.inflight i = some fl → g.inflight i = some fl ∨ g.nextLocalId < fl.localId

theorem Owns.grows {g g' : Global} {idx : Fin maxBackends} {d : Dbl} (h : Owns g idx d)
    (hg : Grows g g') : Owns g' idx d := by
  obtain ⟨n, hd, hn, hown⟩ := h
  refine ⟨n, hd, Nat.le_trans hn hg.1, fun i fl hi he => ?_⟩
  rcases hg.2 i fl hi with hi | hlt
  · exact hown i fl hi he
  · omega

theorem grows_step {s s' : Sys} {a : Act} (hs : InflightStep s s' a) (hroom : IdRoom s a) :
    Grows s.g s'.g := by
  cases hs with
  | keep hi hn => exact ⟨by omega, fun i fl h => Or.inl (hi ▸ h)⟩
  | counted ha hi hn =>
      rw [nextLocalId_mod (hroom ha)] at hn
      exact ⟨by omega, fun i fl h => Or.inl (hi ▸ h)⟩
  | taken ha i fl hfree hid horig hi hn =>
      rw [nextLocalId_mod (hroom ha)] at hn hid
      refine ⟨by omega, fun j fl' h => ?_⟩
      rw [hi, Slots.put_apply] at h
      split at h
      · cases h; exact Or.inr (by omega)
      · exact Or.inl h
  | released i fl ht hf hfl hi hn =>
      refine ⟨by omega, fun j fl' h => ?_⟩
      rw [hi, Slots.clear_apply] at h
      split at h
      · cases h
      · exact Or.inl h
  | torn ht hi hn =>
      refine ⟨by omega, fun j fl' h => ?_⟩
      rw [hi] at h
      exact Or.inl (keepOthers_some.mp h).1

/-- A backend whose new request got the next local id owns it. -/
theorem owns_next {s : Sys} (h : LocalIds s) {g' : Global} {idx : Fin maxBackends}
    (hn : g'.nextLocalId = s.g.nextLocalId + 1)
    (hi : ∀ i fl, g'.inflight i = some fl → s.g.inflight i = some fl ∨ fl.backend = idx) :
    Owns g' idx (.fin (s.g.nextLocalId + 1 : Nat)) := by
  refine ⟨s.g.nextLocalId + 1, rfl, by omega, fun i fl hfl he => ?_⟩
  rcases hi i fl hfl with hold | hidx
  · have := h.le i fl hold
    omega
  · exact hidx

/-- What the handshake at `pc` may be owed. -/
def SetupPc.Owes (o : Owed) : SetupPc → Prop
  | .send c _ => o c = []
  | .recv c ph _ => o c = [] ∨ o c = [.fin ph.wantId]
  | .initialized c _ => o c = []
  | .register c _ _ => o c = []
  | _ => True

theorem SetupPc.Owes.congr {o o' : Owed} {pc : SetupPc} (h : pc.Owes o)
    (he : ∀ c, pc.conn = some c → o' c = o c) : pc.Owes o' := by
  cases pc with
  | send c ph => exact (he c rfl).trans h
  | recv c ph k =>
      change o' c = [] ∨ o' c = [.fin ph.wantId]
      rw [he c rfl]
      exact h
  | initialized c appId => exact (he c rfl).trans h
  | register c appId resp => exact (he c rfl).trans h
  | connect => trivial
  | remove r => trivial

/-- What a thread's program counter may assume. -/
def Thread.Answered (o : Owed) (g : Global) : Thread → Prop
  | .setup _ _ pc => pc.Owes o
  | .reader idx (.lookup d _) => Owns g idx d
  | _ => True

structure Answering (w : World) : Prop where
  unmade : ∀ c, w.sys.conns ≤ c → w.owed c = []
  thread : ∀ t, (w.sys.threads t).Answered w.owed w.sys.g
  owns : ∀ idx b d, w.sys.g.backends idx = some b → d ∈ w.owed b.conn → Owns w.sys.g idx d

theorem Thread.Answered.congr {o o' : Owed} {g g' : Global} {th : Thread} (h : th.Answered o g)
    (he : ∀ c, th.ownConn = some c → o' c = o c) (hg : Grows g g') : th.Answered o' g' := by
  cases th with
  | setup sh pid pc => exact SetupPc.Owes.congr h he
  | reader idx pc =>
      cases pc with
      | lookup d msg => exact Owns.grows h hg
      | _ => trivial
  | _ => trivial

/-- A step that keeps the debts: the tables grow, backends keep their connections, and the
    threads that move have nothing to show. -/
theorem Answering.quiet {w w' : World} (h : Answering w) (ho : w'.owed = w.owed)
    (hc : w.sys.conns ≤ w'.sys.conns) (hg : Grows w.sys.g w'.sys.g)
    (hb : ∀ idx b', w'.sys.g.backends idx = some b' →
      ∃ b, w.sys.g.backends idx = some b ∧ b.conn = b'.conn)
    (ht : ∀ t, w'.sys.threads t = w.sys.threads t ∨
      (w'.sys.threads t).Answered w'.owed w'.sys.g) : Answering w' := by
  refine ⟨fun c hc' => ?_, fun t => ?_, fun idx b' d hb' hd => ?_⟩
  · rw [ho]
    exact h.unmade c (Nat.le_trans hc hc')
  · rcases ht t with he | ha
    · rw [he]
      exact (h.thread t).congr (fun c _ => by rw [ho]) hg
    · exact ha
  · obtain ⟨b, hbi, hconn⟩ := hb idx b' hb'
    exact (h.owns idx b d hbi (by rw [hconn, ← ho]; exact hd)).grows hg

/-- A step that changes the debts on the connection of `o` only; `o` and its backend are
    accounted for by the caller. -/
theorem Answering.onConn {w w' : World} (h : Answering w) (hw : Wf w.sys) {o : Owner} {c : ConnId}
    (hoc : connAt w.sys o = some c) (ho : ∀ c', c' ≠ c → w'.owed c' = w.owed c')
    (hc : w'.sys.conns = w.sys.conns) (hg : Grows w.sys.g w'.sys.g)
    (hb : ∀ idx, w'.sys.g.backends idx = w.sys.g.backends idx)
    (ht : ∀ t, (w'.sys.threads t = w.sys.threads t ∧ o ≠ .inr t) ∨
      (w'.sys.threads t).Answered w'.owed w'.sys.g)
    (hown : ∀ idx d, o = .inl idx → d ∈ w'.owed c → Owns w'.sys.g idx d) : Answering w' := by
  have hother : ∀ o' c', o' ≠ o → connAt w.sys o' = some c' → c' ≠ c := by
    intro o' c' hne ho' e
    exact hne (hw.connOnce o' o c (e ▸ ho') hoc)
  refine ⟨fun c' hc' => ?_, fun t => ?_, fun idx b d hbi hd => ?_⟩
  · have hlt := hw.connLt o c hoc
    have hne : c' ≠ c := Nat.ne_of_gt (Nat.lt_of_lt_of_le hlt (hc ▸ hc'))
    rw [ho c' hne]
    exact h.unmade c' (hc ▸ hc')
  · rcases ht t with ⟨he, hne⟩ | ha
    · rw [he]
      refine (h.thread t).congr (fun c' hc' => ho c' ?_) hg
      exact hother (.inr t) c' (Ne.symm hne) hc'
    · exact ha
  · rw [hb] at hbi
    have hconn : connAt w.sys (.inl idx) = some b.conn := by simp [connAt, hbi]
    by_cases he : o = .inl idx
    · have hbc : b.conn = c := by
        rw [he, hconn] at hoc
        exact Option.some.inj hoc
      exact hown idx d he (hbc ▸ hd)
    · have hne := hother (.inl idx) b.conn (Ne.symm he) hconn
      rw [ho _ hne] at hd
      exact (h.owns idx b d hbi hd).grows hg

/-! ## The step lemma -/

theorem ofNat_localId {n : Nat} (hn : n < localIdLimit) : Json.ofNat n = .num (.fin n) := by
  unfold localIdLimit at hn
  rw [Json.ofNat, toDouble_natCast (by omega)]

theorem onMessage_of_id {j : Json} {d : Dbl} (h : idOf j = some (.num d)) :
    onMessage j = .lookup d j := by
  simp [onMessage, h, Json.number?]

/-- A request with the next local id is written to backend `idx`. -/
theorem Answering.asked {w : World} {s' : Sys} {idx : Fin maxBackends} {b : Backend} {j : Json}
    (h : Answering w) (hw : Wf w.sys) (hl : LocalIds w.sys) (hb : w.sys.g.backends idx = some b)
    (hid : idOf j = some (.num (.fin (w.sys.g.nextLocalId + 1 : Nat))))
    (hgrow : Grows w.sys.g s'.g) (hn : s'.g.nextLocalId = w.sys.g.nextLocalId + 1)
    (hi : ∀ i fl, s'.g.inflight i = some fl → w.sys.g.inflight i = some fl ∨ fl.backend = idx)
    (hback : s'.g.backends = w.sys.g.backends) (hc : s'.conns = w.sys.conns)
    (ht : ∀ t, s'.threads t = w.sys.threads t ∨
      (s'.threads t).Answered (w.owed.owe (some (b.conn, j))) s'.g) :
    Answering ⟨s', w.owed.owe (some (b.conn, j))⟩ := by
  refine h.onConn hw (o := .inl idx) (c := b.conn) (by simp [connAt, hb]) ?_ hc hgrow ?_ ?_ ?_
  · intro c' hne
    rw [Owed.owe_id _ _ hid]
    exact Function.update_of_ne hne _ _
  · intro k
    rw [hback]
  · intro t
    rcases ht t with he | ha
    · exact Or.inl ⟨he, by simp⟩
    · exact Or.inr ha
  · intro k d hk hd
    cases hk
    change d ∈ w.owed.owe (some (b.conn, j)) b.conn at hd
    rw [Owed.owe_id _ _ hid, Function.update_self] at hd
    rcases List.mem_cons.mp hd with rfl | hd
    · exact owns_next hl hn hi
    · exact (h.owns _ b d hb hd).grows hgrow

/-- A frame handled, with backends that answer. -/
theorem answering_handled {w : World} {seq : Nat} {frame : Option Json} {ok : Bool} {r : Handled}
    {s' : Sys} (hr : HandledCases w.sys.g seq frame ok r) (hg : s'.g = r.g)
    (ht : s'.threads = w.sys.threads) (hc : s'.conns = w.sys.conns) (hgrow : Grows w.sys.g s'.g)
    (hroom : ∀ id, IsCall frame id → w.sys.g.nextLocalId + 1 < localIdLimit)
    (hw : Wf w.sys) (hl : LocalIds w.sys) (h : Answering w) :
    Answering ⟨s', w.owed.owe r.sent⟩ := by
  have hthreads : ∀ t, s'.threads t = w.sys.threads t := fun t => by rw [ht]
  cases hr with
  | answered reply hcall =>
      refine h.quiet rfl (Nat.le_of_eq hc.symm) hgrow (fun _ b' hb => ⟨b', ?_, rfl⟩)
        fun t => Or.inl (hthreads t)
      rw [← hb, hg]
  | unwritten id r hok hcall hr =>
      refine h.quiet rfl (Nat.le_of_eq hc.symm) hgrow (fun _ b' hb => ⟨b', ?_, rfl⟩)
        fun t => Or.inl (hthreads t)
      rw [← hb, hg]
  | forwarded id params full idx b bare args i hok hcall hfull hnot hroute hargs hfree =>
      obtain ⟨-, -, -, -, -, -, hb⟩ := route_backend hroute
      have hlt := hroom id ⟨params, hcall⟩
      have hmod := nextLocalId_mod hlt
      have hid : idOf (forwardRequest ((w.sys.g.nextLocalId + 1) % 2 ^ 64) bare args).reparse =
          some (.num (.fin (w.sys.g.nextLocalId + 1 : Nat))) := by
        rw [idOf_reparse, idOf_forwardRequest, hmod, Option.map_some, Json.reparse_ofNat hlt,
          ofNat_localId hlt]
      refine h.asked hw hl hb hid hgrow (by rw [hg]; exact hmod) ?_ (by rw [hg]) hc
        fun t => Or.inl (hthreads t)
      intro k fl hk
      rw [hg] at hk
      change w.sys.g.inflight.put i _ k = some fl at hk
      rw [Slots.put_apply] at hk
      split at hk
      · cases hk; exact Or.inr rfl
      · exact Or.inl hk

/-- A registration: what the connection owed is settled by then. -/
theorem Answering.registered {w : World} (h : Answering w) {t t' : Nat} {sh : Bool} {pid : ℤ}
    {c : ConnId} {appId : CStr} {resp : Json} {exe : CStr} {idx : Fin maxBackends} {g' : Global}
    (ht : w.sys.threads t = .setup sh pid (.register c appId resp))
    (hr : backendRegister w.sys.g sh pid c appId resp exe = some (idx, g'))
    (hgrow : Grows w.sys.g g') :
    Answering ⟨((w.sys.setG g').setThread t (.setup sh pid (.remove true))).setThread t'
      (.reader idx .top), w.owed⟩ := by
  obtain ⟨b, hidx, hbc, -, -, -, -, -, hg⟩ := backendRegister_some hr
  have hback : g'.backends = w.sys.g.backends.put idx b := by
    rcases hg with ⟨-, -, rfl⟩ | ⟨-, -, rfl⟩ <;> rfl
  refine ⟨h.unmade, fun u => ?_, fun j b' d hb' hd => ?_⟩
  · rw [Sys.setThread_apply, Sys.setThread_apply]
    split
    · trivial
    · split
      · trivial
      · exact (h.thread u).congr (fun _ _ => rfl) hgrow
  · change g'.backends j = some b' at hb'
    rw [hback, Slots.put_apply] at hb'
    split at hb'
    · cases hb'
      have hnone : w.owed c = [] := by
        have := h.thread t
        rw [ht] at this
        exact this
      change d ∈ w.owed b.conn at hd
      rw [hbc, hnone] at hd
      cases hd
    · exact (h.owns j b' d hb' hd).grows hgrow

/-- The handshake reads a frame. -/
theorem Answering.syncRecv {w : World} (h : Answering w) (hw : Wf w.sys) {t : Nat} {sh : Bool}
    {pid : ℤ} {c : ConnId} {ph : Phase} {k : Nat} {f : Inbound}
    (ht : w.sys.threads t = .setup sh pid (.recv c ph k)) (hans : Answers w.owed (some (c, f))) :
    Answering ⟨w.sys.setThread t (.setup sh pid (syncStep c ph k f)),
      w.owed.settle (some (c, f))⟩ := by
  have hgrow : Grows w.sys.g w.sys.g := ⟨Nat.le_refl _, fun _ _ hfl => Or.inl hfl⟩
  have howes : w.owed c = [] ∨ w.owed c = [.fin ph.wantId] := by
    have := h.thread t
    rw [ht] at this
    exact this
  have hquiet : (syncStep c ph k f).Owes w.owed → w.owed.settle (some (c, f)) = w.owed →
      Answering ⟨w.sys.setThread t (.setup sh pid (syncStep c ph k f)),
        w.owed.settle (some (c, f))⟩ := by
    intro hpc ho
    rw [ho]
    refine h.quiet rfl (Nat.le_refl _) hgrow (fun _ b' hb => ⟨b', hb, rfl⟩) fun u => ?_
    dsimp only
    rw [Sys.setThread_apply]
    split
    · exact Or.inr hpc
    · exact Or.inl rfl
  cases f with
  | eof => exact hquiet trivial rfl
  | junk => exact hquiet trivial rfl
  | msg j =>
      cases hid : idOf j with
      | none =>
          refine hquiet ?_ (Owed.settle_noId _ _ hid)
          simp only [syncStep, hid, Json.number?]
          split
          · next hno => cases hno
          · split
            · exact howes
            · trivial
      | some id =>
          obtain ⟨d, rfl, hd⟩ := hans id hid
          -- the only id owed here is the one the handshake waits for
          have hone : w.owed c = [.fin ph.wantId] := by
            rcases howes with hnil | hone
            · rw [hnil] at hd; cases hd
            · exact hone
          have hwant : d = .fin ph.wantId := by
            rw [hone] at hd
            exact List.mem_singleton.mp hd
          have howed := Owed.settle_id w.owed c hid
          have hnil : w.owed.settle (some (c, .msg j)) c = [] := by
            rw [howed, Function.update_self, hone, hwant]
            simp
          refine h.onConn hw (o := .inr t) (c := c) (by simp [connAt, ht, Thread.ownConn,
            SetupPc.conn]) ?_ rfl hgrow (fun _ => rfl) (fun u => ?_) (by intro i e he; cases he)
          · intro c' hne
            rw [howed]
            exact Function.update_of_ne hne _ _
          · dsimp only
            rw [Sys.setThread_apply]
            split
            · right
              simp only [syncStep, hid, Json.number?, hwant, if_true]
              cases ph with
              | hello => exact hnil
              | list appId => exact hnil
            · next hne => exact Or.inl ⟨rfl, fun e => hne (Sum.inr.inj e).symm⟩

/-- A reader reads a frame: an answer names a request of its own backend. -/
theorem Answering.recv {w : World} (h : Answering w) (hw : Wf w.sys) {t : Nat}
    {idx : Fin maxBackends} {c : ConnId} {f : Inbound}
    (ht : w.sys.threads t = .reader idx (.read c)) (hans : Answers w.owed (some (c, f))) :
    Answering ⟨w.sys.setThread t (.reader idx (onInbound f)), w.owed.settle (some (c, f))⟩ := by
  have hgrow : Grows w.sys.g w.sys.g := ⟨Nat.le_refl _, fun _ _ hfl => Or.inl hfl⟩
  obtain ⟨b, hb, rfl⟩ := hw.readConn t idx c ht
  have hthread : ∀ o' : Owed, (Thread.reader idx (onInbound f)).Answered o' w.sys.g → ∀ u,
      (w.sys.setThread t (.reader idx (onInbound f))).threads u = w.sys.threads u ∨
        ((w.sys.setThread t (.reader idx (onInbound f))).threads u).Answered o' w.sys.g := by
    intro o' hth u
    rw [Sys.setThread_apply]
    split
    · exact Or.inr hth
    · exact Or.inl rfl
  have hquiet : (∀ d msg, onInbound f ≠ .lookup d msg) →
      w.owed.settle (some (b.conn, f)) = w.owed →
      Answering ⟨w.sys.setThread t (.reader idx (onInbound f)),
        w.owed.settle (some (b.conn, f))⟩ := by
    intro hpc ho
    rw [ho]
    refine h.quiet rfl (Nat.le_refl _) hgrow (fun _ b' hb' => ⟨b', hb', rfl⟩) (hthread _ ?_)
    cases hp : onInbound f with
    | lookup d msg => exact absurd hp (hpc d msg)
    | _ => trivial
  cases f with
  | eof => exact hquiet (by intro d msg e; cases e) rfl
  | junk => exact hquiet (by intro d msg e; cases e) rfl
  | msg j =>
      cases hid : idOf j with
      | none =>
          refine hquiet (fun d msg e => ?_) (Owed.settle_noId _ _ hid)
          obtain ⟨rfl, he⟩ := onMessage_lookup e
          rw [hid] at he
          cases he
      | some id =>
          obtain ⟨d, rfl, hd⟩ := hans id hid
          have howns := h.owns idx b d hb hd
          have howed := Owed.settle_id w.owed b.conn hid
          refine h.onConn hw (o := .inl idx) (c := b.conn) (by simp [connAt, hb]) ?_ rfl hgrow
            (fun _ => rfl) (fun u => ?_) ?_
          · intro c' hne
            rw [howed]
            exact Function.update_of_ne hne _ _
          · have hth : (Thread.reader idx (onInbound (.msg j))).Answered
                (w.owed.settle (some (b.conn, .msg j))) w.sys.g := by
              rw [onInbound, onMessage_of_id hid]
              exact howns
            rcases hthread _ hth u with he | ha
            · exact Or.inl ⟨he, by simp⟩
            · exact Or.inr ha
          · intro k e hk he
            cases hk
            change e ∈ w.owed.settle (some (b.conn, .msg j)) b.conn at he
            rw [howed, Function.update_self] at he
            exact h.owns idx b e hb (List.mem_of_mem_erase he)

/-- The handshake writes a request. -/
theorem Answering.syncSend {w : World} (h : Answering w) (hw : Wf w.sys) {t : Nat} {sh : Bool}
    {pid : ℤ} {c : ConnId} {ph : Phase} (ht : w.sys.threads t = .setup sh pid (.send c ph)) :
    Answering ⟨w.sys.setThread t (.setup sh pid (.recv c ph 0)),
      w.owed.owe (some (c, ph.request))⟩ := by
  have hnil : w.owed c = [] := by
    have := h.thread t
    rw [ht] at this
    exact this
  have hid : idOf ph.request = some (.num (.fin ph.wantId)) := by
    rw [idOf_request, ofNat_localId]
    cases ph with
    | hello => exact (by decide : 1 < localIdLimit)
    | list appId => exact (by decide : 2 < localIdLimit)
  have howed := Owed.owe_id w.owed c hid
  refine h.onConn hw (o := .inr t) (c := c) (by simp [connAt, ht, Thread.ownConn, SetupPc.conn])
    ?_ rfl ⟨Nat.le_refl _, fun _ _ hfl => Or.inl hfl⟩ (fun _ => rfl) (fun u => ?_)
    (by intro i e he; cases he)
  · intro c' hne
    rw [howed]
    exact Function.update_of_ne hne _ _
  · dsimp only
    rw [Sys.setThread_apply]
    split
    · refine Or.inr (Or.inr ?_)
      rw [howed, Function.update_self, hnil]
    · next hne => exact Or.inl ⟨rfl, fun e => hne (Sum.inr.inj e).symm⟩

/-- A setup that is started holds no connection yet. -/
theorem Answering.spawned {s s' : Sys} {o : Owed} (h : Answering ⟨s, o⟩)
    (hgrow : Grows s.g s'.g) {sh : Bool} {pid : ℤ} {r : Spawn}
    (he : s' = { s.spawnSetup sh pid r with poll := s'.poll }) : Answering ⟨s', o⟩ := by
  obtain ⟨-, -, -, hconns⟩ := spawnSetup_rest s sh pid r
  obtain ⟨l, b, hg⟩ := spawnSetup_same s sh pid r
  have hback : s'.g.backends = s.g.backends := by
    rw [he]
    dsimp only
    rw [hg]
  refine h.quiet rfl ?_ hgrow (fun idx b' hb => ⟨b', hback ▸ hb, rfl⟩) fun u => ?_
  · rw [he]
    exact Nat.le_of_eq hconns.symm
  · have hu : s'.threads u = (s.spawnSetup sh pid r).threads u := by rw [he]
    rcases spawnSetup_thread s sh pid r u with hold | ⟨-, hnew⟩
    · exact Or.inl (hu.trans hold)
    · refine Or.inr ?_
      dsimp only
      rw [hu, hnew]
      trivial

theorem answering_step {w w' : World} {a : Act} (hst : w.Step a w') (hroom : IdRoom w.sys a)
    (hw : Wf w.sys) (hl : LocalIds w.sys) (h : Answering w) : Answering w' := by
  obtain ⟨s, o⟩ := w
  obtain ⟨s', o'⟩ := w'
  obtain ⟨hstep, hans, howed⟩ := hst
  have hgrow : Grows s.g s'.g := grows_step (inflight_step hstep hw) hroom
  dsimp only at hstep hans howed hgrow
  have hset : ∀ {s₀ : Sys} {g : Global} {t : Nat} {th : Thread}, th.Answered o' g → ∀ u,
      (s₀.setThread t th).threads u = s₀.threads u ∨
        ((s₀.setThread t th).threads u).Answered o' g := by
    intro s₀ g t th hth u
    rw [Sys.setThread_apply]
    split
    · exact Or.inr hth
    · exact Or.inl rfl
  have hsame : ∀ {g : Global}, g.backends = s.g.backends → ∀ idx b', g.backends idx = some b' →
      ∃ b, s.g.backends idx = some b ∧ b.conn = b'.conn :=
    fun he _ b' hb => ⟨b', he ▸ hb, rfl⟩
  have htables : ∀ {g : Global}, SameTables s.g g → g.backends = s.g.backends := by
    rintro g ⟨l, b, rfl⟩
    rfl
  cases hstep with
  | @agentFrame frame ok hm =>
      subst howed
      refine answering_handled (handleAgentFrame_cases s.g s.frames.length frame ok) ?_ ?_ ?_
        hgrow (fun id hid => hroom (allocates_call hid)) hw hl h <;> rfl
  | agentWrite hm => exact h.quiet howed (Nat.le_refl _) hgrow (hsame rfl) fun _ => Or.inl rfl
  | markInitialized hm => exact h.quiet howed (Nat.le_refl _) hgrow (hsame rfl) fun _ => Or.inl rfl
  | pollScan hp hlen =>
      exact h.quiet howed (Nat.le_refl _) hgrow (hsame (htables (pollScan_same s.g _ _)))
        fun _ => Or.inl rfl
  | pollSpawn hp hr =>
      subst howed
      exact h.spawned hgrow rfl
  | pollSpawnShell hp hr =>
      subst howed
      exact h.spawned hgrow rfl
  | pollSleep hp => exact h.quiet howed (Nat.le_refl _) hgrow (hsame rfl) fun _ => Or.inl rfl
  | connect ht =>
      refine h.quiet howed (Nat.le_succ _) hgrow (hsame rfl) (hset ?_)
      change o' s.conns = []
      rw [howed]
      exact h.unmade s.conns (Nat.le_refl _)
  | connectFail ht => exact h.quiet howed (Nat.le_refl _) hgrow (hsame rfl) (hset trivial)
  | @syncSend t sh pid c ph ok ht =>
      simp only [Sys.recvd, Sys.sent, ht] at howed
      cases ok with
      | true =>
          subst howed
          exact h.syncSend hw ht
      | false => exact h.quiet howed (Nat.le_refl _) hgrow (hsame rfl) (hset trivial)
  | @syncRecv t sh pid c ph k f ht =>
      simp only [Sys.recvd, ht] at hans
      simp only [Sys.recvd, Sys.sent, ht] at howed
      subst howed
      exact h.syncRecv hw ht hans
  | @sendInitialized t sh pid c appId ok ht =>
      have ho : o' = o := by
        simp only [Sys.recvd, Sys.sent, ht] at howed
        cases ok with
        | true => exact howed.trans (Owed.owe_noId _ _ idOf_initializedNote)
        | false => exact howed
      refine h.quiet ho (Nat.le_refl _) hgrow (hsame rfl) (hset ?_)
      have := h.thread t
      rw [ht] at this
      change o' c = []
      rw [ho]
      exact this
  | registerFull ht hr => exact h.quiet howed (Nat.le_refl _) hgrow (hsame rfl) (hset trivial)
  | @registerNoThread t sh pid c appId resp exe idx g' ht hr =>
      obtain ⟨b, hidx, -, -, -, -, -, -, hg⟩ := backendRegister_some hr
      refine h.quiet howed (by simp) hgrow (hsame ?_) (hset trivial)
      simp only [Sys.setThread_g, Sys.emit_g, Sys.setG_g, backendTeardownLocked_eq]
      rcases hg with ⟨-, -, rfl⟩ | ⟨-, -, rfl⟩ <;> exact Slots.clear_put_of_free _ _ hidx
  | registered ht hr hfree =>
      subst howed
      exact h.registered ht hr hgrow
  | @connectingRemove t sh pid r ht =>
      refine h.quiet howed (Nat.le_refl _) hgrow (hsame (htables (connectingRemove_same s.g sh pid)))
        (hset ?_)
      cases r <;> trivial
  | @readerTop t idx ht =>
      refine h.quiet howed (Nat.le_refl _) hgrow (hsame rfl) (hset ?_)
      cases s.g.backends idx <;> trivial
  | @recv t idx c f ht =>
      simp only [Sys.recvd, ht] at hans
      simp only [Sys.recvd, Sys.sent, ht] at howed
      subst howed
      exact h.recv hw ht hans
  | @refresh t idx ok ht =>
      have hr := refreshBackendTools_cases s.g idx ok
      simp only [Sys.recvd, Sys.sent, ht] at howed
      generalize refreshBackendTools s.g idx ok = r at hr howed hgrow
      have hlt : s.g.nextLocalId + 1 < localIdLimit := hroom rfl
      cases hr with
      | refused _ => exact h.quiet howed (Nat.le_refl _) hgrow (hsame rfl) (hset trivial)
      | unwritten _ => exact h.quiet howed (Nat.le_refl _) hgrow (hsame rfl) (hset trivial)
      | written b i hok hb hfree =>
          subst howed
          refine h.asked hw hl hb ?_ hgrow (nextLocalId_mod hlt) ?_ rfl rfl (hset trivial)
          · rw [idOf_refreshRequest, nextLocalId_mod hlt, ofNat_localId hlt]
          · intro k fl hk
            change s.g.inflight.put i _ k = some fl at hk
            rw [Slots.put_apply] at hk
            split at hk
            · cases hk; exact Or.inr rfl
            · exact Or.inl hk
  | @lookup t idx d msg ht =>
      have hr := readerLookup_cases s.g idx d msg
      obtain ⟨-, -, hlook⟩ := wf_lookup hw hr
      generalize readerLookup s.g idx d msg = r at hr hlook hgrow
      have hquiet : (Thread.reader idx r.2).Answered o' r.1 := by
        cases hp : r.2 with
        | lookup d' m => exact absurd hp (hlook d' m)
        | _ => trivial
      refine h.quiet howed (Nat.le_refl _) hgrow (hsame ?_) (hset hquiet)
      cases hr <;> rfl
  | @applied t idx result g' ht ha =>
      obtain ⟨b, b', hb, hconn, -, -, -, hg⟩ := applyToolsResult_some ha
      refine h.quiet howed (Nat.le_refl _) hgrow (fun j b'' hj => ?_) (hset trivial)
      have hback : g'.backends = s.g.backends.put idx b' := by
        rcases hg with ⟨-, -, -, rfl⟩ | ⟨slug, -, -, -, rfl⟩ <;> rfl
      change g'.backends j = some b'' at hj
      rw [hback, Slots.put_apply] at hj
      split at hj
      · next he => cases hj; exact ⟨b, he ▸ hb, hconn.symm⟩
      · exact ⟨b'', hj, rfl⟩
  | notApplied ht ha => exact h.quiet howed (Nat.le_refl _) hgrow (hsame rfl) (hset trivial)
  | relay ht => exact h.quiet howed (Nat.le_refl _) hgrow (hsame rfl) (hset trivial)
  | readerEmitCheck ht =>
      refine h.quiet howed (Nat.le_refl _) hgrow (hsame rfl) (hset ?_)
      split <;> trivial
  | readerEmitWrite ht => exact h.quiet howed (Nat.le_refl _) hgrow (hsame rfl) (hset trivial)
  | @teardown t idx ht =>
      refine h.quiet howed (by simp) hgrow (fun j b' hj => ?_) (hset trivial)
      simp only [Sys.setThread_g, Sys.emit_g, Sys.setG_g, backendTeardownLocked_eq,
        Slots.clear_apply] at hj
      split at hj
      · cases hj
      · exact ⟨b', hj, rfl⟩
  | emitCheck ht =>
      refine h.quiet howed (Nat.le_refl _) hgrow (hsame rfl) (hset ?_)
      split <;> trivial
  | emitWrite ht => exact h.quiet howed (Nat.le_refl _) hgrow (hsame rfl) (hset trivial)

theorem answering_reach {ok : World → Act → Prop} (hroom : ∀ w a, ok w a → IdRoom w.sys a)
    {w : World} (h : ReachWhen answering ok w) : Answering w := by
  refine h.invariant_of (J := fun w => Wf w.sys ∧ LocalIds w.sys) ?_ ?_ ?_
  · intro w hw
    have hr : ReachWhen aggregator IdRoom w.sys := sys_reach hroom hw
    exact ⟨wf_reach hr, localIds_reach (fun _ _ h => h) hr⟩
  · rintro ⟨s, o⟩ ⟨⟨platform, expose, rfl⟩, ho⟩
    refine ⟨fun c _ => ?_, fun t => trivial, fun idx b d hb => ?_⟩
    · exact congrFun ho c
    · cases hb
  · intro w a w' hok hJ hi hst
    exact answering_step hst (hroom w a hok) hJ.1 hJ.2 hi

/-! ## Running it -/

/-- `Answers`, as a test. -/
def mayAnswer (o : Owed) : Option (ConnId × Inbound) → Bool
  | some (c, .msg j) => match idOf j with
    | none => true
    | some (.num d) => decide (d ∈ o c)
    | some _ => false
  | _ => true

theorem answers_of_mayAnswer {o : Owed} {m : Option (ConnId × Inbound)}
    (h : mayAnswer o m = true) : Answers o m := by
  match m with
  | none => trivial
  | some (c, .eof) => trivial
  | some (c, .junk) => trivial
  | some (c, .msg j) =>
      intro id hid
      simp only [mayAnswer, hid] at h
      split at h
      · next he => cases he
      · next d he =>
          cases he
          exact ⟨d, rfl, of_decide_eq_true h⟩
      · cases h

/-- The state a label leads to, when the peers may do it. -/
def World.next (w : World) (a : Act) : Option World :=
  if mayAnswer w.owed (w.sys.recvd a) then
    (w.sys.next a).map fun s' => ⟨s', (w.owed.settle (w.sys.recvd a)).owe (w.sys.sent a)⟩
  else none

/-- The world at the start. -/
def World.start (platform : Platform) (expose : Bool) : World :=
  ⟨Sys.start platform expose, fun _ => []⟩

theorem world_reach {ok : World → Act → Prop} {platform : Platform} {expose : Bool}
    {as : List Act} {w : World} (h : follow World.next (World.start platform expose) as = some w)
    (hok : Meets ok (record World.next (World.start platform expose) as)) :
    ReachWhen answering ok w := by
  refine ⟨_, _, ⟨⟨platform, expose, rfl⟩, rfl⟩, run_of_follow (fun w a w' hn => ?_) as h, hok⟩
  unfold World.next at hn
  split at hn
  · next hans =>
      obtain ⟨s', hs, rfl⟩ := Option.map_eq_some_iff.mp hn
      exact ⟨next_step hs, answers_of_mayAnswer hans, rfl⟩
  · cases hn

end DisplayxrMcp
