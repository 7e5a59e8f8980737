/-
  Where the replies on stdout come from.

  `Answer`: what can be the reply to the agent's frame number `k`. The aggregator
  made it when it took the frame, or the call was routed to a server, and the reply
  says that its connection is lost, or is what that server wrote for the call, under
  the agent's id. A server does not know the tool, or has run the handler of a tool
  of that name on the arguments of the call (`Ran`).

  `reply_provenance`: in every run every frame on stdout is an announcement or the
  `Answer` to the frame it is numbered for.
-/
import DisplayxrMcp.Pair.Refresh
import DisplayxrMcp.Workspace.System

namespace DisplayxrMcp.Workspace

open Lib Cjson Lts Server Pair

/-- What `cJSON_PrintUnformatted` makes of a tree, at each server. -/
def State.texts (w : State) (c : ConnId) : Json → CStr := (w.peers c).printText

inductive Answer (tr : Trace) (texts : ConnId → Json → CStr) (k : Nat) : Json → Prop where
  | own {w frame ok reply} (hmem : (w, .agg (.agentFrame frame ok)) ∈ tr)
      (hk : w.sys.frames.length = k)
      (hreply : (handleAgentFrame w.sys.g k frame ok).reply = some reply) :
      Answer tr texts k reply.reparse
  | exited {c call bare} (hr : Routed tr c k call bare) :
      Answer tr texts k (exitedError (some call.id)).reparse
  | missing {c call bare n} (hr : Routed tr c k call bare) :
      Answer tr texts k (restoreId
        (jsonrpcError (some (Json.ofNat n)) (-32601) "tool not found").reparse
        (some call.id)).reparse
  | ran {c call bare n tool inner} (hr : Routed tr c k call bare) (hname : tool.name = bare)
      (hran : Ran tr c tool (call.args.map Json.reparse) inner) :
      Answer tr texts k (restoreId (handlerReply (texts c) (Json.ofNat n) inner).reparse
        (some call.id)).reparse

theorem Answer.snoc {tr : Trace} {texts : ConnId → Json → CStr} {k : Nat} {body : Json}
    (h : Answer tr texts k body) (e : State × Move) : Answer (tr ++ [e]) texts k body := by
  cases h with
  | own hmem hk hreply => exact .own (List.mem_append_left _ hmem) hk hreply
  | exited hr => exact .exited hr.snoc
  | missing hr => exact .missing hr.snoc
  | ran hr hname hran => exact .ran hr.snoc hname (ran_snoc hran)

theorem numbered_snoc {tr : Trace} {texts : ConnId → Json → CStr} {seq : Option Nat} {body : Json}
    (h : ∃ k, seq = some k ∧ Answer tr texts k body) (e : State × Move) :
    ∃ k, seq = some k ∧ Answer (tr ++ [e]) texts k body := by
  obtain ⟨k, hk, hans⟩ := h
  exact ⟨k, hk, hans.snoc e⟩

/-! ## The aggregator's steps -/

section

variable {s s' : Sys} {a : Act}

/-- A reply comes into a reader's hand by a lookup. -/
theorem relay_step (hst : DisplayxrMcp.Step s a s') {t : Nat} {idx : Fin maxBackends}
    {seq : Option Nat} {body : Json} (h : s'.threads t = .reader idx (.relay seq body)) :
    s.threads t = .reader idx (.relay seq body) ∨ ∃ d msg,
      s.threads t = .reader idx (.lookup d msg) ∧
        (readerLookup s.g idx d msg).2 = .relay seq body := by
  have hset : ∀ {s₀ : Sys} {u : Nat} {th : Thread}, s₀.threads = s.threads →
      (∀ idx seq body, th ≠ .reader idx (.relay seq body)) →
      (s₀.setThread u th).threads t = .reader idx (.relay seq body) →
      s.threads t = .reader idx (.relay seq body) := by
    intro s₀ u th hs hth ht
    rw [Sys.setThread_apply] at ht
    split at ht
    · exact absurd ht (hth _ _ _)
    · exact hs ▸ ht
  have hspawn : ∀ {sh pid r}, (s.spawnSetup sh pid r).threads t = .reader idx (.relay seq body) →
      s.threads t = .reader idx (.relay seq body) := by
    intro sh pid r ht
    rcases spawnSetup_thread s sh pid r t with he | ⟨-, he⟩
    · rw [← he]
      exact ht
    · rw [he] at ht
      cases ht
  cases hst with
  | agentFrame hm => exact Or.inl h
  | agentWrite hm => exact Or.inl h
  | markInitialized hm => exact Or.inl h
  | pollScan hp hlen => exact Or.inl h
  | pollSpawn hp hr => exact Or.inl (hspawn h)
  | pollSpawnShell hp hr => exact Or.inl (hspawn h)
  | pollSleep hp => exact Or.inl h
  | connect ht => exact Or.inl (hset rfl (fun _ _ _ he => by cases he) h)
  | connectFail ht => exact Or.inl (hset rfl (fun _ _ _ he => by cases he) h)
  | syncSend ht => exact Or.inl (hset rfl (fun _ _ _ he => by cases he) h)
  | syncRecv ht => exact Or.inl (hset rfl (fun _ _ _ he => by cases he) h)
  | sendInitialized ht => exact Or.inl (hset rfl (fun _ _ _ he => by cases he) h)
  | registerFull ht hr => exact Or.inl (hset rfl (fun _ _ _ he => by cases he) h)
  | registerNoThread ht hr =>
      refine Or.inl (hset ?_ (fun _ _ _ he => by cases he) h)
      rw [Sys.emit_threads, Sys.setG_threads]
  | registered ht hr hfree =>
      rw [Sys.setThread_apply] at h
      split at h
      · cases h
      · exact Or.inl (hset rfl (fun _ _ _ he => by cases he) h)
  | connectingRemove ht =>
      refine Or.inl (hset rfl (fun _ _ _ he => ?_) h)
      split at he <;> cases he
  | readerTop ht =>
      refine Or.inl (hset rfl (fun _ _ _ he => ?_) h)
      split at he <;> cases he
  | @recv u idx' c f ht =>
      refine Or.inl (hset rfl (fun i seq' body' he => ?_) h)
      cases f with
      | eof => cases he
      | junk => cases he
      | msg j =>
          unfold onInbound onMessage at he
          dsimp only at he
          split at he
          · split at he <;> cases he
          · split at he <;> cases he
  | refresh ht => exact Or.inl (hset rfl (fun _ _ _ he => by cases he) h)
  | @lookup u idx' d msg ht =>
      rw [Sys.setThread_apply] at h
      split at h
      · next he =>
          injection h with hi hpc
          subst hi he
          exact Or.inr ⟨d, msg, ht, hpc⟩
      · exact Or.inl h
  | applied ht ha => exact Or.inl (hset rfl (fun _ _ _ he => by cases he) h)
  | notApplied ht ha => exact Or.inl (hset rfl (fun _ _ _ he => by cases he) h)
  | relay ht => exact Or.inl (hset rfl (fun _ _ _ he => by cases he) h)
  | readerEmitCheck ht =>
      refine Or.inl (hset rfl (fun _ _ _ he => ?_) h)
      split at he <;> cases he
  | readerEmitWrite ht => exact Or.inl (hset rfl (fun _ _ _ he => by cases he) h)
  | teardown ht =>
      refine Or.inl (hset ?_ (fun _ _ _ he => by cases he) h)
      rw [Sys.emit_threads, Sys.setG_threads]
  | emitCheck ht =>
      refine Or.inl (hset rfl (fun _ _ _ he => ?_) h)
      split at he <;> cases he
  | emitWrite ht => exact Or.inl (hset rfl (fun _ _ _ he => by cases he) h)

/-- Main has a reply to write when it has taken a frame. -/
theorem main_step (hst : DisplayxrMcp.Step s a s') {k : Nat} {body : Json} {hello : Bool}
    (h : s'.main = .reply k body hello) :
    s.main = .reply k body hello ∨ ∃ frame ok, a = .agentFrame frame ok ∧ s.frames.length = k ∧
      (handleAgentFrame s.g k frame ok).reply = some body := by
  cases hst with
  | @agentFrame frame ok hm =>
      simp only [Sys.onAgentFrame] at h
      split at h
      · next r hr =>
          cases h
          exact Or.inr ⟨frame, ok, rfl, rfl, hr⟩
      · cases h
  | @agentWrite seq body' hello' hm =>
      change (if hello' then MainPc.markInitialized else MainPc.idle) = _ at h
      split at h <;> cases h
  | markInitialized hm => cases h
  | @pollSpawn pid fresh shell r hp hr =>
      exact Or.inl ((spawnSetup_rest s false pid r).1.symm.trans h)
  | @pollSpawnShell r hp hr => exact Or.inl ((spawnSetup_rest s true 0 r).1.symm.trans h)
  | registerNoThread ht hr =>
      rw [Sys.setThread_main, Sys.emit_main, Sys.setG_main] at h
      exact Or.inl h
  | teardown ht =>
      rw [Sys.setThread_main, Sys.emit_main, Sys.setG_main] at h
      exact Or.inl h
  | _ => exact Or.inl h

/-- What a step writes to stdout. -/
inductive Writes (s : Sys) : OutFrame → Prop where
  | announces : Writes s listChangedFrame
  | replies {k body hello} (hm : s.main = .reply k body hello) : Writes s ⟨some k, body.reparse⟩
  | relays {t idx seq body} (ht : s.threads t = .reader idx (.relay seq body)) :
      Writes s ⟨seq, body.reparse⟩
  | exits {t idx i fl} (ht : s.threads t = .reader idx .dying) (hfl : s.g.inflight i = some fl)
      (hown : fl.backend = idx) (hk : fl.kind = .agent) :
      Writes s ⟨fl.seq, (exitedError fl.origId).reparse⟩

theorem stdout_step (hst : DisplayxrMcp.Step s a s') (hw : Wf s) {f : OutFrame}
    (h : f ∈ s'.stdout) : f ∈ s.stdout ∨ Writes s f := by
  have hemit : ∀ {f₀}, Writes s f₀ → f ∈ s.stdout ++ [f₀] → f ∈ s.stdout ∨ Writes s f := by
    intro f₀ hf₀ hf
    rcases List.mem_append.mp hf with hf | hf
    · exact Or.inl hf
    · exact Or.inr (List.mem_singleton.mp hf ▸ hf₀)
  cases hst with
  | agentWrite hm => exact hemit (.replies hm) h
  | relay ht => exact hemit (.relays ht) h
  | readerEmitWrite ht => exact hemit .announces h
  | emitWrite ht => exact hemit .announces h
  | @pollSpawn pid fresh shell r hp hr =>
      exact Or.inl ((spawnSetup_rest s false pid r).2.2.1 ▸ h)
  | @pollSpawnShell r hp hr => exact Or.inl ((spawnSetup_rest s true 0 r).2.2.1 ▸ h)
  | registerNoThread ht hr =>
      rw [Sys.setThread_stdout, Sys.emit_stdout, Sys.setG_stdout,
        backendTeardownLocked_unused (hw.register_unused hr), List.append_nil] at h
      exact Or.inl h
  | @teardown t idx ht =>
      rw [Sys.setThread_stdout, Sys.emit_stdout, Sys.setG_stdout, backendTeardownLocked_eq] at h
      rcases List.mem_append.mp h with h | h
      · exact Or.inl h
      · obtain ⟨i, -, hi⟩ := List.mem_filterMap.mp h
        obtain ⟨fl, hfl, hx⟩ := Option.bind_eq_some_iff.mp hi
        unfold exitFrame at hx
        split at hx
        · next hc =>
            cases hx
            exact Or.inr (.exits ht hfl hc.1 hc.2)
        · cases hx
  | _ => exact Or.inl h

end

/-! ## Runs -/

/-- What main and the readers are about to write, and what is written, comes from its frame. -/
structure Sourced (tr : Trace) (w : State) : Prop where
  main : ∀ k body hello, w.sys.main = .reply k body hello → Answer tr w.texts k body.reparse
  relayed : ∀ t idx seq body, w.sys.threads t = .reader idx (.relay seq body) →
    ∃ k, seq = some k ∧ Answer tr w.texts k body.reparse
  written : ∀ f ∈ w.sys.stdout,
    f = listChangedFrame ∨ ∃ k, f.answers = some k ∧ Answer tr w.texts k f.body

section

variable {tr : Trace} {w : State}

/-- What a lookup relays is what the server wrote for the call of the slot. -/
theorem Joined.relays (h : Joined tr w) (hw : Wf w.sys) (hl : LocalIds w.sys) {t : Nat}
    {idx : Fin maxBackends} {d : Dbl} {msg : Json} {seq : Option Nat} {body : Json}
    (ht : w.sys.threads t = .reader idx (.lookup d msg))
    (hr : (readerLookup w.sys.g idx d msg).2 = .relay seq body) :
    ∃ k, seq = some k ∧ Answer tr w.texts k body.reparse := by
  obtain ⟨b, -, hh⟩ := held_lookup hw ht
  obtain ⟨fl, req, hk, hseq, hbody, htaken, kind, reply, hserving, hmsg⟩ :=
    (h.linked b.conn _ hh).relays hl hr
  subst hseq hbody hmsg
  cases htaken with
  | refresh => cases hk
  | call hn hrouted =>
      refine ⟨_, rfl, ?_⟩
      have hpc := serving_forward hn hserving
      cases hpc with
      | missing => exact .missing hrouted
      | ran hname hran => exact .ran hrouted hname hran

/-- A slot that a reader gives up was taken for a call routed to its server, or for a refresh. -/
theorem Joined.exits (h : Joined tr w) (hw : Wf w.sys) {t : Nat}
    {idx : Fin maxBackends} {i : Fin maxInflight} {fl : Inflight}
    (ht : w.sys.threads t = .reader idx .dying) (hfl : w.sys.g.inflight i = some fl)
    (hown : fl.backend = idx) (hk : fl.kind = .agent) :
    ∃ k, fl.seq = some k ∧ Answer tr w.texts k (exitedError fl.origId).reparse := by
  obtain ⟨b, -, hh⟩ := held_lookup hw ht
  obtain ⟨held, -, hsl⟩ := h.linked b.conn _ hh
  obtain ⟨req, htaken⟩ := hsl.taken i fl hfl hown
  cases htaken with
  | refresh => cases hk
  | call hn hrouted => exact ⟨_, rfl, .exited hrouted⟩

/-- The aggregator moves. -/
theorem Sourced.agg (h : Sourced tr w) (hj : Joined tr w) (hw : Wf w.sys) (hl : LocalIds w.sys)
    {a : Act} {s' : Sys} {peers' : ConnId → Peer} (hst : DisplayxrMcp.Step w.sys a s')
    (htexts : ∀ c, (peers' c).printText = w.texts c) :
    Sourced (tr ++ [(w, .agg a)]) ⟨s', peers'⟩ := by
  have htx : State.texts ⟨s', peers'⟩ = w.texts := funext htexts
  have hmem : (w, Move.agg a) ∈ tr ++ [(w, .agg a)] :=
    List.mem_append_right _ List.mem_cons_self
  refine ⟨fun k body hello hm => ?_, fun t idx seq body ht => ?_, fun f hf => ?_⟩
  · rw [htx]
    rcases main_step hst hm with hold | ⟨frame, ok, rfl, hk, hreply⟩
    · exact (h.main k body hello hold).snoc _
    · exact .own hmem hk hreply
  · rw [htx]
    rcases relay_step hst ht with hold | ⟨d, msg, hlook, hr⟩
    · exact numbered_snoc (h.relayed t idx seq body hold) _
    · exact numbered_snoc (hj.relays hw hl hlook hr) _
  · rw [htx]
    rcases stdout_step hst hw hf with hold | hwrite
    · exact (h.written f hold).imp_right fun hans => numbered_snoc hans _
    · cases hwrite with
      | announces => exact Or.inl rfl
      | replies hm => exact Or.inr ⟨_, rfl, (h.main _ _ _ hm).snoc _⟩
      | relays ht => exact Or.inr (numbered_snoc (h.relayed _ _ _ _ ht) _)
      | exits ht hfl hown hk => exact Or.inr (numbered_snoc (hj.exits hw ht hfl hown hk) _)

/-- A server moves. -/
theorem Sourced.peer (h : Sourced tr w) {c : ConnId} {a : PeerAct} {p' : Peer}
    (hst : (w.peers c).Step a p') :
    Sourced (tr ++ [(w, .peer c a)]) ⟨w.sys, Function.update w.peers c p'⟩ := by
  have htx : State.texts ⟨w.sys, Function.update w.peers c p'⟩ = w.texts := by
    funext d
    simp only [State.texts, Function.update_apply]
    split
    · next he => rw [hst.printText, he]
    · rfl
  refine ⟨fun k body hello hm => ?_, fun t idx seq body ht => ?_, fun f hf => ?_⟩
  · rw [htx]
    exact (h.main k body hello hm).snoc _
  · rw [htx]
    exact numbered_snoc (h.relayed t idx seq body ht) _
  · rw [htx]
    exact (h.written f hf).imp_right fun hans => numbered_snoc hans _

theorem sourced_start (hi : workspace.init w) : Sourced [] w := by
  obtain ⟨s, peers⟩ := w
  obtain ⟨⟨platform, expose, rfl⟩, -⟩ := hi
  exact ⟨(fun _ _ _ h => nomatch h), (fun _ _ _ _ h => nomatch h), fun _ h => nomatch h⟩

end

/-- Every frame on stdout is an announcement, or the answer to the frame it is numbered for: made
    by the aggregator when it took the frame, or the word of the server its call was routed to. -/
theorem reply_provenance {w₀ w : State} {tr : Trace} (hi : workspace.init w₀)
    (h : Run workspace w₀ tr w) (hroom : Meets (OnAgg IdRoom) tr) {f : OutFrame}
    (hf : f ∈ w.sys.stdout) :
    f = listChangedFrame ∨ ∃ k, f.answers = some k ∧ Answer tr w.texts k f.body := by
  have hsourced : Sourced tr w := by
    refine h.history (I := Sourced) (sourced_start hi) ?_ hroom
    intro tr w m w' hrun hm hok hs hst
    obtain ⟨hw, hl⟩ := run_tables hi hrun hm
    cases hst with
    | agg hst hr => exact hs.agg (joined_run hi hrun hm) hw hl hst fun _ => rfl
    | peer hst => exact hs.peer hst
  exact hsourced.written f hf

def onServer : Pair.Move → Move
  | .agg a => .agg a
  | .peer a => .peer 0 a

/-- The reply the server writes to the first call forwarded to it. -/
def panReply : Json := (handlerReply (fun _ => []) (Json.ofNat 1) (some (.bool true))).reparse

/-- A server joins and gets a tool, which the agent calls under the id 7. -/
def panning : List Move :=
  joining.map onServer ++ [.peer 0 (.change (.register panTool)),
    .agg (.agentFrame (some (callFrame 7 "app__pan")) true), .peer 0 .recv, .peer 0 .dispatch,
    .peer 0 (.handler (some (.bool true))), .peer 0 .answer, .agg (.recv 1 (.msg panReply)),
    .agg (.lookup 1), .agg (.relay 1), .agg (.readerTop 1)]

/-- The call is answered through the server. -/
theorem reply_provenance_pan : ∃ (w : State) (f : OutFrame), f ∈ w.sys.stdout ∧
    OutFrame.entry f = some (0, some (Json.ofNat 7)) ∧ (f = listChangedFrame ∨ ∃ k,
      f.answers = some k ∧ Answer (record State.next State.start panning) w.texts k f.body) := by
  have hrun : ((follow State.next State.start panning).map fun w =>
      decide ((w.sys.stdout.map OutFrame.entry).head? = some (some (0, some (Json.ofNat 7))) ∧
        Meets (OnAgg IdRoom) (record State.next State.start panning))) = some true := by
    decide +kernel
  obtain ⟨w, hw, hd⟩ := Option.map_eq_some_iff.mp hrun
  obtain ⟨hout, hroom⟩ := of_decide_eq_true hd
  rw [List.head?_map] at hout
  obtain ⟨f, hf, hentry⟩ := Option.map_eq_some_iff.mp hout
  have hmem := List.mem_of_head? hf
  obtain ⟨hi, hr⟩ := follow_run hw
  exact ⟨w, f, hmem, hentry, reply_provenance hi hr hroom hmem⟩

end DisplayxrMcp.Workspace
