/-
  The aggregator with a server on every connection.

  `workspace` runs the aggregator beside a server for each connection it has made
  or will make, so the other end of every backend is a genuine one. What is left to
  the environment is the agent, the enumeration of processes, the scheduling, the
  failures of a write, an allocation or a connection, and what handlers return.

  `Taken`, `Ran` and `Lost` read off the record of a run what an in-flight slot was
  taken for, which handlers have run and whether an answer has been refused.
  `joined_run`: in every run, each connection is linked to its server in these
  terms, so no reader looks up an id of another backend (`Joined.own`).
-/
import DisplayxrMcp.Pair.Linked

namespace DisplayxrMcp.Workspace

open Lib Cjson Lts Server Pair

structure State where
  sys : Sys
  peers : ConnId → Peer

inductive Move where
  | agg (a : Act)
  | peer (c : ConnId) (a : PeerAct)

inductive Step : State → Move → State → Prop where
  | agg {w a s'} {rest : ConnId → List Frame} (hst : DisplayxrMcp.Step w.sys a s')
      (hr : ∀ c, Reads c (w.peers c).outbox (w.sys.recvd a) (rest c)) :
      Step w (.agg a) ⟨s', fun c => (w.peers c).exchange (rest c) (sentTo c (w.sys.sent a))⟩
  | peer {w c a p'} (hst : (w.peers c).Step a p') :
      Step w (.peer c a) ⟨w.sys, Function.update w.peers c p'⟩

def workspace : Lts.System State Move where
  init w := aggregator.init w.sys ∧ ∃ (printText : ConnId → Json → CStr) (r : ConnId → Registry),
    w.peers = fun c => Peer.start (printText c) (r c)
  step := Step

abbrev Trace := List (State × Move)

/-- What a step must meet for `cond` to hold of the aggregator's part. -/
def OnAgg (cond : Sys → Act → Prop) (w : State) : Move → Prop
  | .agg a => cond w.sys a
  | .peer _ _ => True

/-- A frame for a reader parses. -/
def Act.parses : Act → Bool
  | .recv _ .junk => false
  | _ => true

/-- The ids of the calls survive, there is a local id for each, and no answer is refused. -/
def Survives (s : Sys) (a : Act) : Prop :=
  IdRoom s a ∧ (∀ id ∈ a.callId, id.reparse = id) ∧ Act.parses a = true

instance (s : Sys) (a : Act) : Decidable (Survives s a) := inferInstanceAs (Decidable (_ ∧ _ ∧ _))

theorem survives_room {tr : Trace} (h : Meets (OnAgg Survives) tr) : Meets (OnAgg IdRoom) tr :=
  h.mono fun w m he => by
    cases m with
    | agg a => exact he.1
    | peer c a => trivial

/-- A run of the workspace is a run of the aggregator. -/
theorem agg_reach {ok : State → Move → Prop} {cond : Sys → Act → Prop}
    (himp : ∀ w m, ok w m → OnAgg cond w m) {w : State} (h : ReachWhen workspace ok w) :
    ReachWhen aggregator cond w.sys := by
  obtain ⟨w₀, tr, hi, hr, hm⟩ := h
  induction hr with
  | refl => exact ReachWhen.init hi.1
  | tail _ hst ih =>
      obtain ⟨hm', he⟩ := meets_snoc.mp hm
      cases hst with
      | agg hst hr => exact (ih hm').step (himp _ _ he) hst
      | peer hst => exact ih hm'

/-! ## What the record says -/

/-- The agent's frame number `k` was `call`, and was routed to the server on `c` as a call of the
    tool `bare`. -/
inductive Routed (tr : Trace) (c : ConnId) (k : Nat) (call : Pair.Call) (bare : CStr) : Prop where
  | intro {w frame idx b} (hmem : (w, .agg (.agentFrame frame true)) ∈ tr)
      (hk : w.sys.frames.length = k) (hreads : callOf frame = some call)
      (hother : call.full ≠ listAppsName) (hroute : route w.sys.g call.full = .backend idx b bare)
      (hconn : b.conn = c)

/-- The handlers the server on `c` has run, with their arguments and what they returned. -/
def Ran (tr : Trace) (c : ConnId) : Pair.Ran := fun tool args inner =>
  ∃ w id, (w, .peer c (.handler inner)) ∈ tr ∧ (w.peers c).pc = .call id tool args

/-- The request a slot was taken for. -/
inductive Taken (tr : Trace) (c : ConnId) : Inflight → Json → Prop where
  | refresh {n idx} : Taken tr c ⟨n, idx, .toolsRefresh, none, none⟩ (refreshRequest n)
  | call {n idx k call bare} (hn : n < localIdLimit) (hr : Routed tr c k call bare) :
      Taken tr c ⟨n, idx, .agent, some call.id, some k⟩ (forwardRequest n bare call.args).reparse

/-- The reader of `c` has refused an answer. -/
def Lost (tr : Trace) (c : ConnId) : Prop :=
  ∃ w t idx, (w, .agg (.recv t .junk)) ∈ tr ∧ w.sys.threads t = .reader idx (.read c)

section

variable {tr : Trace} {c : ConnId} {e : State × Move}

theorem Routed.snoc {k : Nat} {call : Pair.Call} {bare : CStr} (h : Routed tr c k call bare) :
    Routed (tr ++ [e]) c k call bare := by
  obtain ⟨hmem, hk, hreads, hother, hroute, hconn⟩ := h
  exact ⟨List.mem_append_left _ hmem, hk, hreads, hother, hroute, hconn⟩

theorem Taken.snoc {fl : Inflight} {req : Json} (h : Taken tr c fl req) :
    Taken (tr ++ [e]) c fl req := by
  cases h with
  | refresh => exact .refresh
  | call hn hr => exact .call hn hr.snoc

theorem ran_snoc {tool : Tool} {args inner : Option Json} (h : Ran tr c tool args inner) :
    Ran (tr ++ [e]) c tool args inner := by
  obtain ⟨w, id, hmem, hpc⟩ := h
  exact ⟨w, id, List.mem_append_left _ hmem, hpc⟩

theorem Lost.snoc (h : Lost tr c) : Lost (tr ++ [e]) c := by
  obtain ⟨w, t, idx, hmem, ht⟩ := h
  exact ⟨w, t, idx, List.mem_append_left _ hmem, ht⟩

/-- In a run in which no answer is refused none is lost. -/
theorem not_lost (h : Meets (OnAgg Survives) tr) : ¬ Lost tr c := by
  rintro ⟨w, t, idx, hmem, -⟩
  have hparses := (h _ hmem).2.2
  cases hparses

end

/-! ## The traffic of a step -/

section

variable {s s' : Sys} {a : Act} {c : ConnId}

theorem backend_made (hw : Wf s) {idx : Fin maxBackends} {b : Backend}
    (hb : s.g.backends idx = some b) : b.conn < s.conns :=
  hw.connLt (.inl idx) b.conn (by rw [connAt, hb, Option.map_some])

theorem setup_made (hw : Wf s) {t : Nat} {sh : Bool} {pid : ℤ} {pc : SetupPc}
    (ht : s.threads t = .setup sh pid pc) (hc : pc.conn = some c) : c < s.conns :=
  hw.connLt (.inr t) c (by rw [connAt, ht, Thread.ownConn, hc])

/-- What is read is read on a connection that was made. -/
theorem recvd_made (hw : Wf s) {f : Inbound} (h : s.recvd a = some (c, f)) : c < s.conns := by
  cases a with
  | syncRecv t f' =>
      simp only [Sys.recvd] at h
      split at h
      · next sh pid c' ph k ht =>
          cases h
          exact setup_made hw ht rfl
      · cases h
  | recv t f' =>
      simp only [Sys.recvd] at h
      split at h
      · next idx c' ht =>
          cases h
          obtain ⟨b, hb, rfl⟩ := hw.readConn t idx c ht
          exact backend_made hw hb
      · cases h
  | _ => cases h

/-- What is written is written to a connection that was made. -/
theorem sent_made (hw : Wf s) {j : Json} (h : s.sent a = some (c, j)) : c < s.conns := by
  cases a with
  | agentFrame frame ok =>
      have hcases := handleAgentFrame_cases s.g s.frames.length frame ok
      rw [Sys.sent] at h
      generalize handleAgentFrame s.g s.frames.length frame ok = r at hcases h
      cases hcases with
      | answered _ _ => cases h
      | unwritten _ _ _ _ _ => cases h
      | forwarded id params full idx b bare args i _ _ _ _ hroute _ _ =>
          cases h
          obtain ⟨-, -, -, -, -, -, hb⟩ := route_backend hroute
          exact backend_made hw hb
  | syncSend t ok =>
      simp only [Sys.sent] at h
      split at h
      · next sh pid c' ph ht =>
          cases ok with
          | false => cases h
          | true =>
              cases h
              exact setup_made hw ht rfl
      · cases h
  | sendInitialized t ok =>
      simp only [Sys.sent] at h
      split at h
      · next sh pid c' appId ht =>
          cases ok with
          | false => cases h
          | true =>
              cases h
              exact setup_made hw ht rfl
      · cases h
  | refresh t ok =>
      simp only [Sys.sent] at h
      split at h
      · next idx ht =>
          have hcases := refreshBackendTools_cases s.g idx ok
          generalize refreshBackendTools s.g idx ok = r at hcases h
          cases hcases with
          | refused _ => cases h
          | unwritten _ => cases h
          | written b i _ hb _ =>
              cases h
              exact backend_made hw hb
      · cases h
  | _ => cases h

theorem conns_step (hst : DisplayxrMcp.Step s a s') : s.conns ≤ s'.conns := by
  cases hst with
  | connect ht => exact Nat.le_succ _
  | @pollSpawn pid fresh shell r hp hfresh =>
      exact Nat.le_of_eq (spawnSetup_rest s false pid r).2.2.2.symm
  | @pollSpawnShell r hp hfresh => exact Nat.le_of_eq (spawnSetup_rest s true 0 r).2.2.2.symm
  | registerNoThread ht hreg => rw [Sys.setThread_conns, Sys.emit_conns, Sys.setG_conns]
  | teardown ht => rw [Sys.setThread_conns, Sys.emit_conns, Sys.setG_conns]
  | _ => exact Nat.le_refl _

/-- A connection that is not made yet is left alone. -/
theorem exchange_unmade (hw : Wf s) {p : Peer} {rest : List Frame}
    (hr : Reads c p.outbox (s.recvd a) rest) (hc : s.conns ≤ c) :
    p.exchange rest (sentTo c (s.sent a)) = p := by
  have hsent : sentTo c (s.sent a) = [] := by
    cases h : s.sent a with
    | none => rfl
    | some m =>
        obtain ⟨c', j⟩ := m
        refine sentTo_ne (fun e => absurd (sent_made hw h) (Nat.not_lt.mpr ?_)) j
        rw [e]
        exact hc
  rw [hsent]
  exact exchange_quiet hr fun f h => absurd (recvd_made hw h) (Nat.not_lt.mpr hc)

/-- The server after the aggregator has read and written. -/
theorem exchange_ok {p : Peer} (h : p.Ok) {m : Option (ConnId × Inbound)} {rest : List Frame}
    (hr : Reads c p.outbox m rest) (sent : List Json) : (p.exchange rest sent).Ok := by
  cases hr with
  | elsewhere _ => exact h.sent _
  | broken => exact h.sent _
  | frame hx =>
      have hread := h.read hx
      exact ⟨hread.serves, hread.frames, hread.greets, hread.greeted⟩

end

/-! ## The connections of a run -/

/-- Each server keeps its books, one not connected to is asked nothing, and the holder of a
    connection keeps up with the server on it. -/
structure Joined (tr : Trace) (w : State) : Prop where
  ok : ∀ c, (w.peers c).Ok
  unmade : ∀ c, w.sys.conns ≤ c → (w.peers c).asks = []
  linked : ∀ c h, HeldBy w.sys c h →
    Linked (Taken tr c) (Ran tr c) (Lost tr c) w.sys.g (w.peers c) h

/-- A reader that is about to look an id up holds the connection of its backend. -/
theorem held_lookup {s : Sys} (hw : Wf s) {t : Nat} {idx : Fin maxBackends} {pc : ReaderPc}
    (ht : s.threads t = .reader idx pc) :
    ∃ b, s.g.backends idx = some b ∧ HeldBy s b.conn (.reader idx pc) := by
  have hused := hw.readerUsed t idx (by rw [ht]; rfl)
  obtain ⟨b, hb⟩ := Option.isSome_iff_exists.mp hused
  exact ⟨b, hb, ⟨t, ht⟩, b, hb, rfl⟩

/-- No reader names a slot of another backend. -/
theorem Joined.own {tr : Trace} {w : State} (h : Joined tr w) (hw : Wf w.sys) (hl : LocalIds w.sys)
    (t : Nat) : ¬ NamesForeign w.sys t := by
  intro hno
  obtain ⟨idx, d, msg, -, -, ht, -⟩ := id hno
  obtain ⟨b, -, hh⟩ := held_lookup hw ht
  exact (h.linked b.conn _ hh).own hl ht hno

theorem Joined.noForeign {tr : Trace} {w : State} (h : Joined tr w) (hw : Wf w.sys)
    (hl : LocalIds w.sys) (a : Act) : NoForeign w.sys a := by
  cases a with
  | lookup t => exact h.own hw hl t
  | _ => trivial

/-- The aggregator moves. -/
theorem Joined.agg {tr : Trace} {w : State} {a : Act} {s' : Sys} {rest : ConnId → List Frame}
    (h : Joined tr w) (hw : Wf w.sys) (hl : LocalIds w.sys) (hroom : IdRoom w.sys a)
    (hst : DisplayxrMcp.Step w.sys a s')
    (hr : ∀ c, Reads c (w.peers c).outbox (w.sys.recvd a) (rest c)) :
    Joined (tr ++ [(w, .agg a)])
      ⟨s', fun c => (w.peers c).exchange (rest c) (sentTo c (w.sys.sent a))⟩ := by
  refine ⟨fun c => exchange_ok (h.ok c) (hr c) _, fun c hc => ?_, fun c holder hh => ?_⟩
  · have hold : w.sys.conns ≤ c := Nat.le_trans (conns_step hst) hc
    dsimp only
    rw [exchange_unmade hw (hr c) hold]
    exact h.unmade c hold
  · have hmem : (w, Move.agg a) ∈ tr ++ [(w, .agg a)] :=
      List.mem_append_right _ List.mem_cons_self
    have hstep := held_step hst (hr c) hw hroom (h.noForeign hw hl a) hh
    refine Linked.mono (Linked.step (h.ok c) hl (h.linked c) (h.unmade c)
      (fun _ _ ht => ht.snoc) Lost.snoc ?_ ?_ (fun _ _ => .refresh) ?_ hstep) (fun _ _ ht => ht)
      (fun _ _ _ hran => ran_snoc hran) id
    · rintro t idx rfl ht
      exact ⟨w, t, idx, hmem, ht⟩
    · rintro frame call b idx bare rfl hreads hother hroute hconn
      have hcall : IsCall frame call.id := callOf_isCall hreads
      exact .call (hroom (allocates_call hcall)) ⟨hmem, rfl, hreads, hother, hroute, hconn⟩
    · rintro pc rfl
      exact hh.1

/-- A server moves. -/
theorem Joined.peer {tr : Trace} {w : State} {c : ConnId} {a : PeerAct} {p' : Peer}
    (h : Joined tr w) (hst : (w.peers c).Step a p') :
    Joined (tr ++ [(w, .peer c a)]) ⟨w.sys, Function.update w.peers c p'⟩ := by
  refine ⟨fun d => ?_, fun d hd => ?_, fun d holder hh => ?_⟩
  · dsimp only
    rw [Function.update_apply]
    split
    · exact hst.ok (h.ok c)
    · exact h.ok d
  · dsimp only
    rw [Function.update_apply]
    split
    · next he => exact (hst.asks (h.ok c)).trans (h.unmade c (he ▸ hd))
    · exact h.unmade d hd
  · have hlink := h.linked d holder hh
    dsimp only
    rw [Function.update_apply]
    split
    · next he =>
        subst he
        refine (hlink.mono (fun _ _ ht => ht.snoc) (fun _ _ _ hr => hr) Lost.snoc).peer hst (h.ok d)
          (fun _ _ _ hr => ran_snoc hr) ?_
        rintro id tool args inner rfl hpc
        exact ⟨w, id, List.mem_append_right _ List.mem_cons_self, hpc⟩
    · exact hlink.mono (fun _ _ ht => ht.snoc) (fun _ _ _ hr => ran_snoc hr) Lost.snoc

theorem joined_start {w : State} (hi : workspace.init w) : Joined [] w := by
  obtain ⟨s, peers⟩ := w
  obtain ⟨⟨platform, expose, rfl⟩, printText, r, rfl⟩ := hi
  refine ⟨fun c => Peer.start_ok _ _, fun c _ => rfl, fun c holder hh => ?_⟩
  cases holder with
  | setup pc =>
      obtain ⟨-, t, sh, pid, ht⟩ := hh
      cases ht
  | reader idx pc =>
      obtain ⟨⟨t, ht⟩, -⟩ := hh
      cases ht

/-- The tables of the aggregator are sound, and each local id in them was given out once. -/
theorem run_tables {w₀ w : State} {tr : Trace} (hi : workspace.init w₀) (h : Run workspace w₀ tr w)
    (hroom : Meets (OnAgg IdRoom) tr) : Wf w.sys ∧ LocalIds w.sys := by
  have hreach : ReachWhen aggregator IdRoom w.sys :=
    agg_reach (fun _ _ h => h) ⟨w₀, tr, hi, h, hroom⟩
  exact ⟨wf_reach hreach, localIds_reach (fun _ _ h => h) hreach⟩

/-- In every run in which local ids do not run out, every connection is linked. -/
theorem joined_run {w₀ w : State} {tr : Trace} (hi : workspace.init w₀) (h : Run workspace w₀ tr w)
    (hroom : Meets (OnAgg IdRoom) tr) : Joined tr w := by
  refine h.history (I := Joined) (joined_start hi) ?_ hroom
  intro tr w m w' hrun hm hok hj hst
  obtain ⟨hw, hl⟩ := run_tables hi hrun hm
  cases hst with
  | agg hst hr => exact hj.agg hw hl hok hst hr
  | peer hst => exact hj.peer hst

/-! ## Running -/

instance {cond : Sys → Act → Prop} [∀ s a, Decidable (cond s a)] (w : State) :
    (m : Move) → Decidable (OnAgg cond w m)
  | .agg a => inferInstanceAs (Decidable (cond w.sys a))
  | .peer _ _ => .isTrue trivial

/-- What is left unread on every connection when a step reads `m`, if it may. -/
def unreadAfter (peers : ConnId → Peer) (m : Option (ConnId × Inbound)) :
    Option (ConnId → List Frame) :=
  match m with
  | none => some fun c => (peers c).outbox
  | some (c, f) => (readsLeft c (peers c).outbox (some (c, f))).map fun rest =>
      Function.update (fun c => (peers c).outbox) c rest

theorem reads_of_unreadAfter {peers : ConnId → Peer} {m : Option (ConnId × Inbound)}
    {rest : ConnId → List Frame} (h : unreadAfter peers m = some rest) (c : ConnId) :
    Reads c (peers c).outbox m (rest c) := by
  cases m with
  | none =>
      cases h
      exact .elsewhere fun f hf => by cases hf
  | some r =>
      obtain ⟨c', f⟩ := r
      obtain ⟨left, hleft, rfl⟩ := Option.map_eq_some_iff.mp h
      rw [Function.update_apply]
      split
      · next he =>
          subst he
          exact reads_of_readsLeft hleft
      · next hne =>
          refine .elsewhere fun f' hf => hne ?_
          cases hf
          rfl

/-- The state a label leads to. -/
def State.next (w : State) : Move → Option State
  | .agg a => (unreadAfter w.peers (w.sys.recvd a)).bind fun rest =>
      (w.sys.next a).map fun s' =>
        ⟨s', fun c => (w.peers c).exchange (rest c) (sentTo c (w.sys.sent a))⟩
  | .peer c a => ((w.peers c).next a).map fun p' => ⟨w.sys, Function.update w.peers c p'⟩

theorem State.next_step {w w' : State} {m : Move} (h : w.next m = some w') : Step w m w' := by
  cases m with
  | agg a =>
      obtain ⟨rest, hr, h⟩ := Option.bind_eq_some_iff.mp h
      obtain ⟨s', hs, rfl⟩ := Option.map_eq_some_iff.mp h
      exact .agg (DisplayxrMcp.next_step hs) (reads_of_unreadAfter hr)
  | peer c a =>
      obtain ⟨p', hp, rfl⟩ := Option.map_eq_some_iff.mp h
      exact .peer (Peer.next_step hp)

/-- The start, with servers that have no tools yet. -/
def State.start : State :=
  ⟨Sys.start plainPlatform false, fun _ => Peer.start (fun _ => []) Registry.empty⟩

theorem follow_run {ms : List Move} {w : State} (h : follow State.next State.start ms = some w) :
    workspace.init State.start ∧
      Run workspace State.start (record State.next State.start ms) w :=
  ⟨⟨⟨_, _, rfl⟩, _, _, rfl⟩, run_of_follow (fun _ _ _ => State.next_step) ms h⟩

end DisplayxrMcp.Workspace
