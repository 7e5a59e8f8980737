/-
  Frame integrity on the private wire, for both ends of a connection: the server's
  writes to its clients and the aggregator's writes to its backends
  (src/mcp_transport.c, `mcp_conn_write` and `mcp_conn_write_bounded`).

  Both parties are the split systems of their models. A send puts any part of what
  is left, as the peer's buffer has room, or the write gives up; EINTR changes
  nothing. A bounded write that gives up aborts the connection, the other kind does
  not. Aborts and closes from elsewhere are the label `shut`.
-/
import DisplayxrMcp.Server.Wire
import DisplayxrMcp.Aggregator.Exec
import DisplayxrMcp.Aggregator.Wire
import Mathlib.Data.List.Sublists

namespace DisplayxrMcp.Wire

open Lib Cjson Lts

/-- Whole Content-Length frames in the order in which they were begun, then at most a part of one,
    which its writer goes on with unless the connection is shut; on a connection that is shut
    nothing more is ever put. -/
def FramesWhole {σ α τ : Type} [DecidableEq τ] (M : System σ α) (W : Writers σ α τ ConnId UInt8)
    (s : Split σ α τ ConnId UInt8) (c : ConnId) : Prop :=
  Intact s c ∧ (∀ f ∈ (s.wires c).begun, ∃ text, f = writeFrame text) ∧
    ((s.wires c).shut = true →
      ∀ tr t, Run (split M W) s tr t → (t.wires c).out = (s.wires c).out)

theorem server_frame {s : Server.State} {a : Server.Act} {w : Write ConnId UInt8}
    (h : s.writes a = some w) : ∃ text, w.frame = writeFrame text := by
  cases a with
  | notifyWrite t ok =>
      unfold Server.State.writes at h
      dsimp only at h
      split at h
      · obtain ⟨cl, -, rfl⟩ := Option.map_eq_some_iff.mp h
        exact ⟨_, frame_frameWrite _ _ _⟩
      · cases h
  | write k ok =>
      unfold Server.State.writes at h
      dsimp only at h
      split at h
      · split at h
        · cases h
          exact ⟨_, frame_frameWrite _ _ _⟩
        · cases h
      · cases h
  | _ => cases h

theorem aggregator_frame {s : Sys} {a : Act} {w : Write ConnId UInt8} (h : s.writes a = some w) :
    ∃ text, w.frame = writeFrame text := by
  obtain ⟨c, j, -, rfl⟩ := writes_cases h
  exact ⟨_, frame_frameWrite _ _ _⟩

/-- On both sides every connection carries whole frames, in every run in which no write that is not
    bounded gives up on an open connection with part of its frame out. -/
theorem frames_whole (c : ConnId) :
    (∀ s, ReachWhen (split Server.server Server.writers) (fun s e => ¬ Torn s e) s →
        FramesWhole Server.server Server.writers s c) ∧
      ∀ s, ReachWhen (split aggregator writers) (fun s e => ¬ Torn s e) s →
        FramesWhole aggregator writers s c := by
  refine ⟨fun s hs => ⟨intact Server.exclusive hs c, ?_, ?_⟩,
    fun s hs => ⟨intact exclusive hs c, ?_, ?_⟩⟩
  · exact begun_all (P := fun f => ∃ text, f = writeFrame text)
      (fun _ _ _ hw => server_frame hw) hs c
  · exact fun hshut tr t hrun => out_frozen hrun hshut
  · exact begun_all (P := fun f => ∃ text, f = writeFrame text)
      (fun _ _ _ hw => aggregator_frame hw) hs c
  · exact fun hshut tr t hrun => out_frozen hrun hshut

/-- The text of the reply to `initialize`. -/
def helloText : CStr :=
  ascii "\x7b\"jsonrpc\":\"2.0\",\"id\":1,\"result\":\x7b\"protocolVersion\":\"2024-11-05\"," ++
  ascii "\"capabilities\":\x7b\"tools\":\x7b\"listChanged\":true\x7d\x7d,\"serverInfo\":\x7b\"name\":\"displayxr-mcp\"," ++
  ascii "\"version\":\"0.3.2\"\x7d\x7d\x7d"

/-- The text of `list_changed`. -/
def changedText : CStr :=
  ascii "\x7b\"jsonrpc\":\"2.0\",\"method\":\"notifications/tools/list_changed\"\x7d"

open Server in
/-- A client has sent `initialize`, and its serve thread is about to write the reply. -/
def greeted : List (SplitAct Server.Act Server.Mover ConnId) :=
  [.plain (.accept true), .plain (.recv 0 (.msg (request 1 "initialize"))), .plain (.dispatch 0),
    .plain (.dispatch 0), .plain (.lockWrite 0), .begin (.write 0 true), .put (.serve 0) 23,
    .next (.serve 0)]

/-- A server that prints these two texts. -/
def greeter : Split Server.State Server.Act Server.Mover ConnId UInt8 :=
  Split.init (Server.start (fun j => if j = listChanged then changedText else helloText) .empty)
    fun _ => 4096

/-- The reply goes out in three sends. -/
def helloSent : List (SplitAct Server.Act Server.Mover ConnId) :=
  greeted ++ [.put (.serve 0) 100, .put (.serve 0) 68, .finish (.serve 0)]

/-- The text of the reply stands on the connection, in one frame. -/
theorem frames_whole_hello : ∃ s,
    ReachWhen (split Server.server Server.writers) (fun s e => ¬ Torn s e) s ∧
      (s.wires 0).out = writeFrame helloText ∧ FramesWhole Server.server Server.writers s 0 := by
  have hrun : ((follow (Split.next Server.State.next Server.writers) greeter helloSent).map fun s =>
      decide ((s.wires 0).out = writeFrame helloText ∧ Meets (fun s e => ¬ Torn s e)
        (record (Split.next Server.State.next Server.writers) greeter helloSent))) = some true := by
    decide +kernel
  obtain ⟨s, hs, hd⟩ := Option.map_eq_some_iff.mp hrun
  obtain ⟨hout, hok⟩ := of_decide_eq_true hd
  have hreach : ReachWhen (split Server.server Server.writers) (fun s e => ¬ Torn s e) s :=
    ⟨_, _, ⟨_, _, ⟨_, _, rfl⟩, rfl⟩, run_of_follow (fun _ _ _ h =>
      Split.next_step (fun _ _ _ => Server.next_step) h) _ hs, hok⟩
  exact ⟨s, hreach, hout, (frames_whole 0).1 s hreach⟩

/-- The write of the reply fails in its body, and a broadcast writes behind it. -/
theorem frames_whole_torn : ∃ s, Reach (split Server.server Server.writers) s ∧
    ¬ FramesWhole Server.server Server.writers s 0 := by
  have hrun : ((follow (Split.next Server.State.next Server.writers) greeter (greeted ++
      [.put (.serve 0) 10, .fail (.serve 0), .plain (.change 0 (.register Server.zoomTool)),
        .plain (.notify 0), .plain (.lockConns 0), .plain (.scan 0), .begin (.notifyWrite 0 true),
        .put (.embedder 0) 22, .next (.embedder 0), .put (.embedder 0) 61,
        .finish (.embedder 0)])).map fun s =>
          decide (∀ frames ∈ (s.wires 0).begun.sublists, ¬ (s.wires 0).out <+: frames.flatten)) =
      some true := by
    decide +kernel
  obtain ⟨s, hs, hd⟩ := Option.map_eq_some_iff.mp hrun
  refine ⟨s, ⟨_, _, ⟨_, _, ⟨_, _, rfl⟩, rfl⟩, run_of_follow (fun _ _ _ h =>
    Split.next_step (fun _ _ _ => Server.next_step) h) _ hs, fun _ _ => trivial⟩, fun hwhole => ?_⟩
  obtain ⟨frames, hsub, hpre⟩ := hwhole.1.begins
  exact of_decide_eq_true hd frames (List.mem_sublists.mpr hsub) hpre

end DisplayxrMcp.Wire
