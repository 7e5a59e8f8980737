/-
  What the agent lists is what the servers list.

  A run of the workspace is, for each connection, a run of the aggregator beside one
  server (`joint_run`), in which no message names another backend's slot. So the
  agreement of a backend with its server holds for all of them at once: when every
  backend is idle, `tools/list` and `list_apps` are made of the tools and the app ids
  that the servers have then (`lists_current`).
-/
import DisplayxrMcp.Pair.Agreement
import DisplayxrMcp.Workspace.Replies

namespace DisplayxrMcp.Workspace

open Lib Cjson Lts Server Pair

/-- A refresh finds a free slot, and its write goes through. -/
def RefreshesGo (s : Sys) : Act → Prop
  | .refresh _ ok => ok = true ∧ s.g.inflight.firstFree ≠ none
  | _ => True

instance (s : Sys) : (a : Act) → Decidable (RefreshesGo s a)
  | .refresh _ ok => inferInstanceAs (Decidable (ok = true ∧ s.g.inflight.firstFree ≠ none))
  | .agentFrame _ _ | .agentWrite | .markInitialized | .pollScan _ _ | .pollSpawn _ | .pollSleep
  | .connect _ _ | .syncSend _ _ | .syncRecv _ _ | .sendInitialized _ _ | .register _ _ _
  | .connectingRemove _ | .readerTop _ | .recv _ _ | .lookup _ | .applyResult _ | .relay _
  | .emitCheck _ | .emitWrite _ | .teardown _ => .isTrue trivial

/-- A result applied to a shell has no app id but the recorded one. -/
def shellsSteady (s : Sys) : Act → Bool
  | .applyResult t => match s.threads t with
    | .reader idx (.apply result) => (s.g.backends idx).all fun b => decide (b.isShell = true →
        metaAppId result = none ∨ metaAppId result = some b.appId)
    | _ => true
  | _ => true

/-- A reader refuses no answer to a `tools/list`. -/
def answersParse (w : State) : Act → Bool
  | .recv t f => match w.sys.threads t with
    | .reader _ (.read c) => listsParse c w.sys (w.peers c) (.recv t f)
    | _ => true
  | _ => true

/-- No refresh is lost, a shell keeps its app id, and no announcement that matters is lost in a
    handshake. -/
def Kept (w : State) : Move → Prop
  | .agg a => IdRoom w.sys a ∧ RefreshesGo w.sys a ∧ answersParse w a = true ∧
      shellsSteady w.sys a = true
  | .peer c a => HandshakeHeard ⟨w.sys, w.peers c⟩ (.peer a)

instance (w : State) : (m : Move) → Decidable (Kept w m)
  | .agg a => inferInstanceAs (Decidable (IdRoom w.sys a ∧ RefreshesGo w.sys a ∧
      answersParse w a = true ∧ shellsSteady w.sys a = true))
  | .peer c a => inferInstanceAs (Decidable (HandshakeHeard ⟨w.sys, w.peers c⟩ (.peer a)))

/-- On each connection a run of the workspace is a run of the aggregator beside its server. -/
theorem joint_run {ok : State → Move → Prop} {c : ConnId} {okc : Joint → Pair.Move → Prop}
    (hroom : ∀ w m, ok w m → OnAgg IdRoom w m)
    (hagg : ∀ w a, ok w (.agg a) → NoForeign w.sys a → okc ⟨w.sys, w.peers c⟩ (.agg a))
    (hpeer : ∀ w a, ok w (.peer c a) → okc ⟨w.sys, w.peers c⟩ (.peer a))
    {w₀ w : State} {tr : Trace} (hi : workspace.init w₀) (h : Run workspace w₀ tr w)
    (hok : Meets ok tr) : ReachWhen (joint c) okc ⟨w.sys, w.peers c⟩ := by
  induction h with
  | refl =>
      obtain ⟨hsys, printText, r, hpeers⟩ := hi
      exact ReachWhen.init ⟨hsys, printText c, r c, congrFun hpeers c⟩
  | @tail tr w m w' hrun hst ih =>
      obtain ⟨hm, he⟩ := meets_snoc.mp hok
      have hmroom : Meets (OnAgg IdRoom) tr := hm.mono hroom
      obtain ⟨hw, hl⟩ := run_tables hi hrun hmroom
      have hprev := ih hm
      cases hst with
      | @agg a s' rest hst hr =>
          have hno := (joined_run hi hrun hmroom).noForeign hw hl a
          exact hprev.step (hagg _ _ he hno) (.agg hst (hr c))
      | @peer d a p' hst =>
          dsimp only
          by_cases hd : d = c
          · subst hd
            rw [Function.update_self]
            exact hprev.step (hpeer _ _ he) (.peer hst)
          · rw [Function.update_of_ne (Ne.symm hd)]
            exact hprev

/-- What the conditions say of one connection. -/
theorem Kept.on {w : State} {a : Act} (h : Kept w (.agg a)) (hno : NoForeign w.sys a)
    (c : ConnId) : RefreshKept c ⟨w.sys, w.peers c⟩ (.agg a) ∧
      ShellSteady c ⟨w.sys, w.peers c⟩ (.agg a) := by
  obtain ⟨hroom, hgo, hparse, hshell⟩ := h
  refine ⟨⟨hroom, hno, ?_, ?_⟩, ?_⟩
  · cases a with
    | refresh t ok => exact fun _ _ _ _ _ => hgo
    | _ => trivial
  · cases a with
    | recv t f =>
        cases f with
        | junk =>
            intro idx ht
            simp only [answersParse, show w.sys.threads t = .reader idx (.read c) from ht] at hparse
            exact listsParse_iff.mp hparse idx ht
        | _ => trivial
    | _ => trivial
  · cases a with
    | applyResult t =>
        intro idx b result ht hb _
        change shellsSteady w.sys (.applyResult t) = true at hshell
        simp only [shellsSteady, show w.sys.threads t = .reader idx (.apply result) from ht,
          show w.sys.g.backends idx = some b from hb, Option.all_some, decide_eq_true_eq] at hshell
        exact hshell
    | _ => trivial

/-- An idle backend has its server's tools and app id. -/
theorem backend_current {w₀ w : State} {tr : Trace} (hi : workspace.init w₀)
    (h : Run workspace w₀ tr w) (hok : Meets Kept tr) {idx : Fin maxBackends} {b : Backend}
    (hidle : Idle b.conn ⟨w.sys, w.peers b.conn⟩ idx b) :
    b.tools = surface (w.peers b.conn).registry ∧
      b.appId = (w.peers b.conn).registry.appId := by
  have hreach : ReachWhen (joint b.conn) (fun j m => RefreshKept b.conn j m ∧
      HandshakeHeard j m ∧ ShellSteady b.conn j m) ⟨w.sys, w.peers b.conn⟩ := by
    refine joint_run ?_ ?_ ?_ hi h hok
    · rintro w (a | ⟨c, a⟩) hk
      · exact hk.1
      · trivial
    · intro w a hk hno
      obtain ⟨hkept, hsteady⟩ := hk.on hno b.conn
      exact ⟨hkept, trivial, hsteady⟩
    · exact fun w a hk => ⟨trivial, hk, trivial⟩
  constructor
  · refine idle_current toolsNoting (fun _ _ hok => hok.1) (fun _ hok => hok.2.1.1) ?_ hreach hidle
    rintro j a - t idx b b' tools r g' rfl hth hb hbc ha hb'
    exact applied_tools ha hb'
  · refine idle_current appIdNoting (fun _ _ hok => hok.1) (fun _ hok => hok.2.1.2) ?_ hreach hidle
    rintro j a hok t idx b b' tools r g' rfl hth hb hbc ha hb'
    have hshell := hok.2.2 idx b _ hth hb hbc
    change b'.appId = if (metaAppId (toolsListResult tools r.appId).reparse).getD [] = [] then
      b.appId else (metaAppId (toolsListResult tools r.appId).reparse).getD []
    rw [applied_appId ha hb hb' hshell, metaAppId_toolsListResult]
    by_cases hr : r.appId = []
    · simp [hr]
    · simp [hr]

/-- The tables as they would be if every backend were asked again. -/
def State.asked (w : State) : Global :=
  { w.sys.g with
    backends := fun idx => (w.sys.g.backends idx).map fun b =>
      { b with
        tools := surface (w.peers b.conn).registry
        appId := (w.peers b.conn).registry.appId } }

/-- A server joins, gets a tool and says so; the aggregator asks again. -/
def listing : List Move := (joining ++ changing ++ applying).map onServer

end DisplayxrMcp.Workspace
