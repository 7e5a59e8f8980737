/-
  The cached tools of a backend in steady state.

  Once the registration has recorded the server's tools, and as long as each
  announcement that is read makes a request go out and its answer is not refused,
  an idle link means equal tools (`refresh_coherence`). `refresh_backend_tools`
  gives up when the table of calls in flight is full, whoever filled it, and
  nothing asks again: the server then has a tool the aggregator never lists
  (`refresh_coherence_dropped`). An answer nested too deep for `cJSON_Parse` is
  dropped in the same way.
-/
import DisplayxrMcp.Pair.Tied

namespace DisplayxrMcp.Pair

open Lib Cjson Lts Server

/-- The tools a registration on `c` records are the server's. -/
def StartsCorrect (c : ConnId) (j : Joint) : Move → Prop
  | .agg (.register t _ _) => ∀ sh pid appId resp,
      j.sys.threads t = .setup sh pid (.register c appId resp) →
        toolsOf (resp.getObjectItemCaseSensitive (ascii "result")) = surface j.peer.registry
  | _ => True

/-- `StartsCorrect`, as a test. -/
def startsCorrect (c : ConnId) (j : Joint) : Move → Bool
  | .agg (.register t _ _) => match j.sys.threads t with
    | .setup _ _ (.register c' _ resp) => decide (c' = c →
        toolsOf (resp.getObjectItemCaseSensitive (ascii "result")) = surface j.peer.registry)
    | _ => true
  | _ => true

theorem startsCorrect_iff {c : ConnId} {j : Joint} {m : Move} :
    startsCorrect c j m = true ↔ StartsCorrect c j m := by
  cases m with
  | peer a => simp [startsCorrect, StartsCorrect]
  | agg a =>
      cases a with
      | register t exe r =>
          simp only [startsCorrect, StartsCorrect]
          constructor
          · intro h sh pid appId resp ht
            rw [ht] at h
            simpa using h
          · intro h
            split
            · next sh pid c' appId resp ht =>
                refine decide_eq_true fun hc => ?_
                subst hc
                exact h sh pid appId resp ht
            · rfl
      | _ => simp [startsCorrect, StartsCorrect]

instance (c : ConnId) (j : Joint) (m : Move) : Decidable (StartsCorrect c j m) :=
  decidable_of_iff _ startsCorrect_iff

section

variable {α : Type} {V : View α} {c : ConnId} {j : Joint}

/-- An application records the tools of its result. -/
theorem applied_tools {g g' : Global} {idx : Fin maxBackends} {b' : Backend} {result : Json}
    (h : applyToolsResult g idx result = some g') (hb' : g'.backends idx = some b') :
    b'.tools = toolsOf (some result) := by
  obtain ⟨b, b₁, -, -, -, -, htools, hg⟩ := applyToolsResult_some h
  have hback : g'.backends idx = some b₁ := by
    rcases hg with ⟨-, -, -, rfl⟩ | ⟨slug, -, -, -, rfl⟩ <;> exact Slots.put_same _ _ _
  rw [show b' = b₁ from Option.some.inj (hb'.symm.trans hback)]
  exact htools

/-- A registration records the tools of the `tools/list` reply. -/
theorem registered_tools {g g' : Global} {sh : Bool} {pid : ℤ} {appId : CStr} {resp : Json}
    {exe : CStr} {idx : Fin maxBackends} {b : Backend}
    (h : backendRegister g sh pid c appId resp exe = some (idx, g'))
    (hb : g'.backends idx = some b) :
    b.tools = toolsOf (resp.getObjectItemCaseSensitive (ascii "result")) ∧
      b.appId = snprintf 33 appId := by
  obtain ⟨b₁, -, -, -, -, -, happ, htools, hg⟩ := backendRegister_some h
  have hback : g'.backends idx = some b₁ := by
    rcases hg with ⟨-, -, rfl⟩ | ⟨-, -, rfl⟩ <;> exact Slots.put_same _ _ _
  rw [show b = b₁ from Option.some.inj (hb.symm.trans hback)]
  exact ⟨htools, happ⟩

/-- A copy that is the server's value when it is made is coherent. -/
theorem begun_coherent {p : Peer} {b : Backend} (hok : p.Ok) (hasks : p.asks = [])
    (hb : V.cached b = V.current p.registry) :
    (V.link p b .top none).Coherent V.toRecording := by
  obtain ⟨-, htaken⟩ := View.settled_asks (V := V) hok fun a ha => by rw [hasks] at ha; cases ha
  have hbegin : Link.Coherent V.toRecording
      { V.link p b .top none with copy := some (V.link p b .top none).current } :=
    Link.Coherent.begin rfl htaken (View.line_values hasks)
  have hlink : V.link p b .top none =
      { V.link p b .top none with copy := some (V.link p b .top none).current } := by
    simp only [View.link, hb]
  rw [hlink]
  exact hbegin

/-- On an idle link the copy is the server's value. -/
theorem Tied.idle (h : Tied V c j) (hw : Wf j.sys) {idx : Fin maxBackends} {b : Backend}
    (hi : Idle c j idx b) : V.cached b = V.current j.peer.registry := by
  obtain ⟨t, ht⟩ := hi.reads
  obtain ⟨b₁, hb₁, hbc⟩ := hw.readConn t idx c ht
  rw [show b₁ = b from Option.some.inj (hb₁.symm.trans hi.backend)] at hbc
  obtain ⟨-, held, rfl, -, hco⟩ := h.follows t idx _ b ht hi.backend hbc
  obtain ⟨hasked, htaken⟩ := View.settled_asks (V := V) h.ok hi.answered
  refine hco.settled rfl hi.announced hasked htaken ?_ rfl rfl
  simp [View.link, hi.unread]

/-- In a run in which no refresh is lost, the aggregator's own invariants hold. -/
theorem kept_sys {ok : Joint → Move → Prop} (hkept : ∀ j m, ok j m → RefreshKept c j m)
    (h : ReachWhen (joint c) ok j) : Wf j.sys ∧ LocalIds j.sys := by
  have hr : ReachWhen aggregator IdRoom j.sys := agg_reach (fun _ _ hok => (hkept _ _ hok).1) h
  exact ⟨wf_reach hr, localIds_reach (fun _ _ hroom => hroom) hr⟩

end

/-- The tools of an idle backend are the server's, in a run in which they are when the reader
    starts and in which no refresh is lost. -/
theorem refresh_coherence (c : ConnId) {j : Joint}
    (h : ReachWhen (joint c) (fun j m => StartsCorrect c j m ∧ RefreshKept c j m) j)
    {idx : Fin maxBackends} {b : Backend} (hi : Idle c j idx b) :
    b.tools = surface j.peer.registry := by
  have hsys : ∀ j', ReachWhen (joint c) (fun j m => StartsCorrect c j m ∧ RefreshKept c j m) j' →
      Wf j'.sys ∧ LocalIds j'.sys := fun j' hj' => kept_sys (fun _ _ hok => hok.2) hj'
  have htied : Tied toolsView c j := by
    refine h.invariant_of hsys ?_ ?_
    · rintro ⟨s, p⟩ ⟨⟨platform, expose, rfl⟩, printText, r, rfl⟩
      exact tied_start
    · rintro ⟨s, p⟩ m j' ⟨hstart, hkept⟩ ⟨hw, hl⟩ ht hst
      cases hst with
      | peer hst => exact ht.peer hst
      | agg hst hr =>
          obtain ⟨hroom, hno, hgo, hparse⟩ := hkept
          refine tied_agg ht hst hr hw hl hroom hno hgo hparse ⟨?_, ?_⟩
          · rintro t t' exe sh pid appId resp idx g' b rfl hth hreg hb hok hasks
            refine begun_coherent hok hasks ?_
            exact (registered_tools hreg hb).1.trans (hstart sh pid appId resp hth)
          · rintro t idx b b' tools r g' rfl hth hb hbc ha hb'
            exact applied_tools ha hb'
  exact htied.idle (hsys j h).1 hi

/-- The aggregator, and a server without tools. -/
def pairStart : Joint :=
  ⟨Sys.start plainPlatform false, Peer.start (fun _ => []) Registry.empty⟩

theorem pair_reach {c : ConnId} {ok : Joint → Move → Prop} {ms : List Move} {j : Joint}
    (h : follow (Joint.next c) pairStart ms = some j)
    (hok : Meets ok (record (Joint.next c) pairStart ms)) : ReachWhen (joint c) ok j :=
  ⟨_, _, ⟨⟨_, _, rfl⟩, _, _, rfl⟩, run_of_follow (fun _ _ _ => Joint.next_step) ms h, hok⟩

/-- A `tools/list` reply of this server, which has no app id. -/
def listReply (id : Nat) (tools : List Tool) : Json :=
  (jsonrpcResult (Json.ofNat id) (toolsListResult (tools.map listEntry) [])).reparse

/-- Pid 7 is found; its server has answered `initialize`, and has read the `tools/list`. -/
def greeting : List Move :=
  [.agg (.pollScan [7] 0), .agg (.pollSpawn (.thread 0)), .agg (.connect 0 true),
    .agg (.syncSend 0 true), .peer .recv, .peer .dispatch, .peer .dispatch, .peer .answer,
    .agg (.syncRecv 0 (.msg (jsonrpcResult (Json.ofNat 1) (Server.initializeResult (ascii "0.3.2") [])).reparse)),
    .agg (.sendInitialized 0 true), .agg (.syncSend 0 true), .peer .recv, .peer .recv]

/-- The server is registered, and its reader waits for a frame. -/
def joining : List Move :=
  greeting ++ [.peer .dispatch, .peer .dispatch, .peer .answer,
    .agg (.syncRecv 0 (.msg (listReply 2 []))), .agg (.register 0 [] (.thread 1)),
    .agg (.readerTop 1)]

/-- A tool of the embedder. -/
def panTool : Tool := ⟨ascii "pan", none, none, .app⟩

/-- The tool is registered, and the reader reads the announcement and asks again. -/
def changing : List Move :=
  [.peer (.change (.register panTool)), .peer .notify, .agg (.recv 1 (.msg listChanged.reparse)),
    .agg (.refresh 1 true), .agg (.readerTop 1)]

/-- The answer is read and applied. -/
def applying : List Move :=
  [.peer .recv, .peer .dispatch, .peer .dispatch, .peer .answer,
    .agg (.recv 1 (.msg (listReply 1 [panTool]))), .agg (.lookup 1), .agg (.applyResult 1),
    .agg (.emitCheck 1), .agg (.readerTop 1)]

/-- The agent calls a tool of the backend, over and over. -/
def calling (n : Nat) : List Move :=
  List.replicate n (.agg (.agentFrame (some (callFrame 1 "app__pinch")) true))

/-- A tool registered later is in the cache. -/
theorem refresh_coherence_pan : ∃ j idx b,
    ReachWhen (joint 0) (fun j m => StartsCorrect 0 j m ∧ RefreshKept 0 j m) j ∧ Idle 0 j idx b ∧
      surface j.peer.registry = [(listEntry panTool).reparse] ∧
      b.tools = surface j.peer.registry := by
  have hrun : ((follow (Joint.next 0) pairStart (joining ++ changing ++ applying)).map fun j =>
      decide ((j.sys.g.backends 0).isSome ∧ isIdle 0 j 1 0 = true ∧
        surface j.peer.registry = [(listEntry panTool).reparse] ∧
        Meets (fun j m => StartsCorrect 0 j m ∧ RefreshKept 0 j m)
          (record (Joint.next 0) pairStart (joining ++ changing ++ applying)))) = some true := by
    decide +kernel
  obtain ⟨j, hj, hd⟩ := Option.map_eq_some_iff.mp hrun
  obtain ⟨hb, hidle, htools, hok⟩ := of_decide_eq_true hd
  obtain ⟨b, hb⟩ := Option.isSome_iff_exists.mp hb
  have hreach := pair_reach hj hok
  have hi := idle_of_isIdle hidle hb
  exact ⟨j, 0, b, hreach, hi, htools, refresh_coherence 0 hreach hi⟩

/-- With 128 calls in flight the refresh is dropped, and the tool is never listed. -/
theorem refresh_coherence_dropped : ∃ j idx b,
    ReachWhen (joint 0) (StartsCorrect 0) j ∧ Idle 0 j idx b ∧
      b.tools ≠ surface j.peer.registry := by
  have hrun : ((follow (Joint.next 0) pairStart (joining ++ calling 128 ++ changing)).map fun j =>
      decide (isIdle 0 j 1 0 = true ∧
        ((j.sys.g.backends 0).map fun b => decide (b.tools = surface j.peer.registry)) =
          some false ∧
        Meets (StartsCorrect 0)
          (record (Joint.next 0) pairStart (joining ++ calling 128 ++ changing)))) = some true := by
    decide +kernel
  obtain ⟨j, hj, hd⟩ := Option.map_eq_some_iff.mp hrun
  obtain ⟨hidle, hstale, hok⟩ := of_decide_eq_true hd
  obtain ⟨b, hb, hne⟩ := Option.map_eq_some_iff.mp hstale
  exact ⟨j, 0, b, pair_reach hj hok, idle_of_isIdle hidle hb, of_decide_eq_false hne⟩

end DisplayxrMcp.Pair
