/-
  A registered server's tools and app id, from the handshake on.

  What the handshake has noted becomes the link that the reader goes on with, so
  an idle link means equal tools and an equal app id, in a run in which the
  server's announcements are heard (`handshake_coherence`). `sync_request` drops
  what it reads on its way to a reply, announcements included: one that is
  written between the server's snapshot and its reply is never answered
  (`handshake_coherence_discarded`).
-/
import DisplayxrMcp.Pair.Primed

namespace DisplayxrMcp.Pair

open Lib Cjson Lts Server

/-- An announcement that the handshake discards leaves nothing it has noted stale. -/
def HandshakeHeard (j : Joint) : Move → Prop
  | .peer .notify => Heard toolsNoting j.peer ∧ Heard appIdNoting j.peer
  | _ => True

/-- A result applied to the shell of connection `c` has no app id but the recorded one. -/
def ShellSteady (c : ConnId) (j : Joint) : Move → Prop
  | .agg (.applyResult t) => ∀ idx b result, j.sys.threads t = .reader idx (.apply result) →
      j.sys.g.backends idx = some b → b.conn = c → b.isShell = true →
        metaAppId result = none ∨ metaAppId result = some b.appId
  | _ => True

/-- `ShellSteady`, as a test. -/
def shellSteady (c : ConnId) (j : Joint) : Move → Bool
  | .agg (.applyResult t) => match j.sys.threads t with
    | .reader idx (.apply result) => (j.sys.g.backends idx).all fun b =>
        decide (b.conn = c → b.isShell = true →
          metaAppId result = none ∨ metaAppId result = some b.appId)
    | _ => true
  | _ => true

theorem shellSteady_iff {c : ConnId} {j : Joint} {m : Move} :
    shellSteady c j m = true ↔ ShellSteady c j m := by
  cases m with
  | peer a => simp [shellSteady, ShellSteady]
  | agg a =>
      cases a with
      | applyResult t =>
          simp only [shellSteady, ShellSteady]
          constructor
          · intro h idx b result ht hb
            rw [ht] at h
            simp only [hb, Option.all_some, decide_eq_true_eq] at h
            exact h
          · intro h
            split
            · next idx result ht =>
                cases hb : j.sys.g.backends idx with
                | none => rfl
                | some b => exact decide_eq_true (h idx b result ht hb)
            · rfl
      | _ => simp [shellSteady, ShellSteady]

instance (c : ConnId) (j : Joint) (m : Move) : Decidable (ShellSteady c j m) :=
  decidable_of_iff _ shellSteady_iff

instance {α : Type} [DecidableEq α] {V : View α} (N : Noting V) (p : Peer) :
    Decidable (Heard N p) :=
  inferInstanceAs (Decidable (p.told.listed = false → p.owed = 1 →
    N.noted p.told = none ∨ N.noted p.told = some (V.current p.registry)))

instance (j : Joint) : (m : Move) → Decidable (HandshakeHeard j m)
  | .peer .notify =>
      haveI : DecidableEq (List Json) := inferInstance
      haveI : DecidableEq CStr := inferInstance
      inferInstanceAs (Decidable (Heard toolsNoting j.peer ∧ Heard appIdNoting j.peer))
  | .peer (.change _) | .peer .recv | .peer .dispatch | .peer (.handler _) | .peer .answer
  | .agg _ => .isTrue trivial

section

variable {α : Type} {V : View α} {N : Noting V} {c : ConnId} {s : Sys} {p : Peer}

/-- The registration goes on with the link of the handshake. -/
theorem begun_noted {appId : CStr} {resp : Json} {b : Backend} (hok : p.Ok) (hasks : p.asks = [])
    (hn : Notes N p (.register c appId resp)) (hb : N.noted p.told = some (V.cached b)) :
    (V.link p b .top none).Coherent V.toRecording := by
  obtain ⟨hasked, htaken⟩ := View.settled_asks (V := V) hok fun a ha => by rw [hasks] at ha; cases ha
  have hlink : V.link p b .top none =
      setupLink N p (survivors (.register c appId resp) p.outbox) := by
    simp only [View.link, setupLink, hasked, htaken, hb]
    rfl
  rw [hlink]
  exact hn

/-- A registration of a connection whose handshake is primed begins coherent. -/
theorem Primed.begins (h : Primed N c ⟨s, p⟩) {t : Nat} {exe : CStr} {sh : Bool} {pid : ℤ}
    {appId : CStr} {resp : Json} {idx : Fin maxBackends} {g' : Global} {b : Backend}
    (ht : s.threads t = .setup sh pid (.register c appId resp))
    (hreg : backendRegister s.g sh pid c appId resp exe = some (idx, g'))
    (hb : g'.backends idx = some b) (hok : p.Ok) (hasks : p.asks = []) :
    (V.link p b .top none).Coherent V.toRecording := by
  obtain ⟨hi, hn⟩ := h.setup t sh pid _ ht rfl
  obtain ⟨htools, happ⟩ := registered_tools hreg hb
  exact begun_noted hok hasks hn (N.recorded hi.carries hi.short htools happ)

/-- An application records the app id of its result, for an app, or for a shell that keeps its
    own. -/
theorem applied_appId {g g' : Global} {idx : Fin maxBackends} {b b' : Backend} {tools : List Json}
    {r : Registry} (h : applyToolsResult g idx (toolsListResult tools r.appId).reparse = some g')
    (hb : g.backends idx = some b) (hb' : g'.backends idx = some b')
    (hshell : b.isShell = true → metaAppId (toolsListResult tools r.appId).reparse = none ∨
      metaAppId (toolsListResult tools r.appId).reparse = some b.appId) :
    b'.appId = if r.appId = [] then b.appId else r.appId := by
  obtain ⟨b₀, b₁, hb₀, -, -, -, -, hg⟩ := applyToolsResult_some h
  rw [show b₀ = b from Option.some.inj (hb₀.symm.trans hb)] at hg
  have hback : g'.backends idx = some b₁ := by
    rcases hg with ⟨-, -, -, rfl⟩ | ⟨slug, -, -, -, rfl⟩ <;> exact Slots.put_same _ _ _
  rw [show b' = b₁ from Option.some.inj (hb'.symm.trans hback)]
  rw [metaAppId_toolsListResult] at hshell
  by_cases hr : r.appId = []
  · rw [if_pos hr]
    rcases hg with ⟨-, -, happ, -⟩ | ⟨slug, hslug, -⟩
    · exact happ
    · rw [reprefixSlug, metaAppId_toolsListResult, if_pos hr] at hslug
      cases hslug
  · rw [if_neg hr] at hshell ⊢
    rcases hg with ⟨hslug, -, happ, -⟩ | ⟨slug, -, -, happ, -⟩
    · rw [happ]
      rw [reprefixSlug, metaAppId_toolsListResult, if_neg hr] at hslug
      dsimp only at hslug
      by_cases hsh : b.isShell = true
      · rcases hshell hsh with hno | hsome
        · cases hno
        · exact (Option.some.inj hsome).symm
      · by_contra hne
        rw [if_pos ⟨by simpa using hsh, hne⟩] at hslug
        cases hslug
    · rw [happ, metaAppId_toolsListResult, if_neg hr]
      exact snprintf_registry r

/-- In a run in which the announcements are heard and no refresh is lost, an idle backend's copy
    is the server's value. -/
theorem idle_current {ok : Joint → Move → Prop} (N : Noting V)
    (hkept : ∀ j m, ok j m → RefreshKept c j m)
    (hheard : ∀ j, ok j (.peer .notify) → Heard N j.peer)
    (hrec : ∀ j a, ok j (.agg a) → Records V c j.sys a) {j : Joint}
    (h : ReachWhen (joint c) ok j) {idx : Fin maxBackends} {b : Backend} (hi : Idle c j idx b) :
    V.cached b = V.current j.peer.registry := by
  have hinv : Tied V c j ∧ Primed N c j := by
    refine h.invariant_of (I := fun j => Tied V c j ∧ Primed N c j)
      (fun _ hj => kept_sys hkept hj) ?_ ?_
    · rintro ⟨s, p⟩ ⟨⟨platform, expose, rfl⟩, printText, r, rfl⟩
      exact ⟨tied_start, fun _ => rfl, fun t sh pid pc ht => by cases ht⟩
    · rintro ⟨s, p⟩ m j' hok ⟨hw, hl⟩ ⟨ht, hp⟩ hst
      cases hst with
      | @peer a p' hst =>
          refine ⟨ht.peer hst, hp.peer ht hst fun ha => ?_⟩
          subst ha
          exact hheard _ hok
      | agg hst hr =>
          obtain ⟨hroom, hno, hgo, hparse⟩ := hkept _ _ hok
          refine ⟨tied_agg ht hst hr hw hl hroom hno hgo hparse ⟨?_, hrec _ _ hok⟩,
            primed_agg hp ht hst hr hw⟩
          rintro t t' exe sh pid appId resp idx g' b rfl hth hreg hb hpok hasks
          exact hp.begins hth hreg hb hpok hasks
  exact hinv.1.idle (kept_sys hkept h).1 hi

end

/-- The tools and the app id of an idle backend are the server's, in a run in which the handshake
    loses no announcement that matters, no refresh is lost, and a shell keeps its app id. -/
theorem handshake_coherence (c : ConnId) {j : Joint}
    (h : ReachWhen (joint c)
      (fun j m => RefreshKept c j m ∧ HandshakeHeard j m ∧ ShellSteady c j m) j)
    {idx : Fin maxBackends} {b : Backend} (hi : Idle c j idx b) :
    b.tools = surface j.peer.registry ∧ b.appId = j.peer.registry.appId := by
  constructor
  · refine idle_current toolsNoting (fun _ _ hok => hok.1) (fun _ hok => hok.2.1.1) ?_ h hi
    rintro j a - t idx b b' tools r g' rfl hth hb hbc ha hb'
    exact applied_tools ha hb'
  · refine idle_current appIdNoting (fun _ _ hok => hok.1) (fun _ hok => hok.2.1.2) ?_ h hi
    rintro j a hok t idx b b' tools r g' rfl hth hb hbc ha hb'
    have hshell := hok.2.2 idx b _ hth hb hbc
    change b'.appId = if (metaAppId (toolsListResult tools r.appId).reparse).getD [] = [] then
      b.appId else (metaAppId (toolsListResult tools r.appId).reparse).getD []
    rw [applied_appId ha hb hb' hshell, metaAppId_toolsListResult]
    by_cases hr : r.appId = []
    · simp [hr]
    · simp [hr]

/-- The server writes its `tools/list` reply and then gets an app id; the reader hears of it after
    the registration. -/
def naming : List Move :=
  greeting ++ [.peer .dispatch, .peer .dispatch, .peer .answer,
    .peer (.change (.setAppId (ascii "viewer"))), .peer .notify,
    .agg (.syncRecv 0 (.msg (listReply 2 []))), .agg (.register 0 [] (.thread 1)),
    .agg (.readerTop 1), .agg (.recv 1 (.msg listChanged.reparse)), .agg (.refresh 1 true),
    .agg (.readerTop 1), .peer .recv, .peer .dispatch, .peer .dispatch, .peer .answer,
    .agg (.recv 1 (.msg (jsonrpcResult (Json.ofNat 1) (toolsListResult [] (ascii "viewer"))).reparse)),
    .agg (.lookup 1), .agg (.applyResult 1), .agg (.emitCheck 1), .agg (.readerTop 1)]

/-- A tool is registered and announced between the server's snapshot and its reply. -/
def discarding : List Move :=
  greeting ++ [.peer .dispatch, .peer (.change (.register panTool)), .peer .notify,
    .peer .dispatch, .peer .answer, .agg (.syncRecv 0 (.msg listChanged.reparse)),
    .agg (.syncRecv 0 (.msg (listReply 2 []))), .agg (.register 0 [] (.thread 1)),
    .agg (.readerTop 1)]

/-- An app id that is set while the handshake runs is recorded. -/
theorem handshake_coherence_viewer : ∃ j idx b,
    ReachWhen (joint 0) (fun j m => RefreshKept 0 j m ∧ HandshakeHeard j m ∧ ShellSteady 0 j m) j ∧
      Idle 0 j idx b ∧ j.peer.registry.appId = ascii "viewer" ∧
      b.tools = surface j.peer.registry ∧ b.appId = j.peer.registry.appId := by
  have hrun : ((follow (Joint.next 0) pairStart naming).map fun j =>
      decide ((j.sys.g.backends 0).isSome ∧ isIdle 0 j 1 0 = true ∧
        j.peer.registry.appId = ascii "viewer" ∧
        Meets (fun j m => RefreshKept 0 j m ∧ HandshakeHeard j m ∧ ShellSteady 0 j m)
          (record (Joint.next 0) pairStart naming))) = some true := by
    decide +kernel
  obtain ⟨j, hj, hd⟩ := Option.map_eq_some_iff.mp hrun
  obtain ⟨hb, hidle, happ, hok⟩ := of_decide_eq_true hd
  obtain ⟨b, hb⟩ := Option.isSome_iff_exists.mp hb
  have hreach := pair_reach hj hok
  have hi := idle_of_isIdle hidle hb
  exact ⟨j, 0, b, hreach, hi, happ, handshake_coherence 0 hreach hi⟩

/-- The announcement is dropped with the frames that the handshake skips, and the tool is never
    listed. -/
theorem handshake_coherence_discarded : ∃ j idx b,
    ReachWhen (joint 0) (fun j m => RefreshKept 0 j m ∧ ShellSteady 0 j m) j ∧ Idle 0 j idx b ∧
      b.tools ≠ surface j.peer.registry := by
  have hrun : ((follow (Joint.next 0) pairStart discarding).map fun j =>
      decide (isIdle 0 j 1 0 = true ∧
        ((j.sys.g.backends 0).map fun b => decide (b.tools = surface j.peer.registry)) =
          some false ∧
        Meets (fun j m => RefreshKept 0 j m ∧ ShellSteady 0 j m)
          (record (Joint.next 0) pairStart discarding))) = some true := by
    decide +kernel
  obtain ⟨j, hj, hd⟩ := Option.map_eq_some_iff.mp hrun
  obtain ⟨hidle, hstale, hok⟩ := of_decide_eq_true hd
  obtain ⟨b, hb, hne⟩ := Option.map_eq_some_iff.mp hstale
  exact ⟨j, 0, b, pair_reach hj hok, idle_of_isIdle hidle hb, of_decide_eq_false hne⟩

end DisplayxrMcp.Pair
