/-
  An agent, the 1:1 bridge and the server (src/adapter/displayxr_mcp.c and
  src/mcp_server.c).

  `bridge_stdout` says of the bridge alone which frames of the server stand on stdout: those
  that are all there, in the framing of the latch. With `Server.session` it gives what the
  agent is told (`bridged_session`): the agent writes any bytes on stdin, the serve loop
  reads what the bridge has sent it, and the bridge what the server has.
-/
import DisplayxrMcp.Server.Session
import DisplayxrMcp.Stdio.Bridge
import DisplayxrMcp.Stdio.Limit

namespace DisplayxrMcp.Stdio

open Lib Lts Wire

/-! ## What the reader returns -/

namespace Reader

theorem detect_wf {r : Reader} (h : r.Wf) : r.detect.2.Wf := by
  have hskip : ∀ {r : Reader}, r.Wf → r.skipWs.Wf := fun h => h.advance (takeWhile_length_le _)
  fun_induction detect r with
  | case1 r hb ih =>
      refine ih ((hskip h).advance ?_)
      have hlen := congrArg List.length (eq_of_beq hb : r.skipWs.window.take 3 = bom)
      rw [List.length_take] at hlen
      simp only [bom, List.length_cons, List.length_nil] at hlen
      omega
  | case2 r hb framing hj => exact (hskip h).with_framing framing
  | case3 r hb hj hf ih => exact ih (fill_wf (hskip h))
  | case4 r hb hj hf hne => exact (fill_wf (hskip h)).with_framing .ndjson
  | case5 r hb hj hf hnil => exact fill_wf (hskip h)

/-- The result of a call fits the limit, and the reader stays well formed. -/
structure Sane (p : Option Bytes × Reader) : Prop where
  short : ∀ b ∈ p.1, b.length ≤ maxMessageBytes
  wf : p.2.Wf

theorem sane_none {r : Reader} (h : r.Wf) : Sane (none, r) := ⟨fun b hb => (by cases hb), h⟩

theorem nextNdjson_sane {r : Reader} {scanned : Nat} (h : r.Wf)
    (hs : scanned ≤ r.window.length) : Sane (r.nextNdjson scanned) := by
  fun_induction nextNdjson r scanned with
  | case1 r scanned k hk hnil ih =>
      have hlt := memchrLf_lt hk
      rw [List.length_drop] at hlt
      exact ih (h.advance (by omega)) (Nat.zero_le _)
  | case2 r scanned k hk hnil hbig =>
      have hlt := memchrLf_lt hk
      rw [List.length_drop] at hlt
      exact sane_none (h.advance (by omega))
  | case3 r scanned k hk hnil hbig =>
      have hlt := memchrLf_lt hk
      rw [List.length_drop] at hlt
      refine ⟨fun b hb => ?_, h.advance (by omega)⟩
      cases hb
      exact Nat.le_of_not_lt hbig
  | case4 r scanned hk hf ih =>
      refine ih (fill_wf h) ?_
      exact (fill_window hf).length_le
  | case5 r scanned hk hf hstop => exact sane_none ((fill_wf h).advance (Nat.le_refl _))
  | case6 r scanned hk hf hsome =>
      have hwf := fill_wf h
      refine ⟨fun b hb => ?_, hwf.advance (Nat.le_refl _)⟩
      cases hb
      have hlen : r.fill.2.window.length ≤ r.fill.2.buf.length := by
        unfold window
        rw [List.length_drop]
        omega
      have hcap := capLe_of_shape hwf.capShape
      have htrim := trim_length_le r.fill.2.window
      have hfits := hwf.lenLe
      omega

theorem headerLine_wf {r : Reader} (h : r.Wf) : r.headerLine.2.Wf := by
  fun_induction headerLine r with
  | case1 r k hk => exact h
  | case2 r hk hlong => exact h
  | case3 r hk hlong hf ih => exact ih (fill_wf h)
  | case4 r hk hlong hf => exact fill_wf h

theorem assemble_sane {r : Reader} (h : r.Wf) {n : Nat} (hn : n ≤ maxMessageBytes) :
    Sane (r.assemble n) := by
  fun_induction assemble r n with
  | case1 r hlt hf ih => exact ih (fill_wf h)
  | case2 r hlt hf => exact sane_none (fill_wf h)
  | case3 r hge =>
      refine ⟨fun b hb => ?_, h.advance (Nat.le_of_not_lt hge)⟩
      cases hb
      rw [List.length_take]
      omega

theorem nextContentLength_sane [Abi] {r : Reader} (h : r.Wf) (hs : Headers) :
    Sane (r.nextContentLength hs) := by
  have hpast : ∀ {r : Reader}, r.Wf → r.pastLine.Wf := fun h =>
    (headerLine_wf h).advance (headerLine_spec _).2.2
  fun_induction nextContentLength r hs with
  | case1 r hs h0 => exact sane_none (headerLine_wf h)
  | case2 r hs h0 hb hany =>
      unfold body
      split
      · exact sane_none (hpast h)
      · next hcond =>
          simp only [Bool.or_eq_true, decide_eq_true_eq, not_or] at hcond
          exact assemble_sane (hpast h) (by omega)
  | case3 r hs h0 hb hany ih => exact ih (hpast h)
  | case4 r hs h0 hb ih => exact ih (hpast h)

theorem next_sane [Abi] {r : Reader} (h : r.Wf) : Sane r.next := by
  have hd : (if r.framing = .unknown then r.detect else (true, r)).2.Wf := by
    split
    · exact detect_wf h
    · exact h
  unfold next
  generalize (if r.framing = .unknown then r.detect else (true, r)) = d at hd ⊢
  dsimp only
  split
  · exact sane_none hd
  · split
    · exact nextContentLength_sane hd _
    · exact nextNdjson_sane hd (Nat.zero_le _)

/-- No message is empty or above the limit. -/
theorem messages_sized [Abi] {r : Reader} (h : r.Wf) (n : Nat) : Sized (r.messages n) := by
  induction n generalizing r with
  | zero => exact List.forall_mem_nil _
  | succ n ih =>
      have hsane := next_sane h
      have hne := next_ne_nil r
      rw [messages]
      split
      · exact List.forall_mem_nil _
      · next body r' hnext =>
          rw [hnext] at hsane hne
          refine List.forall_mem_cons.mpr ⟨⟨?_, hsane.short body rfl⟩, ih hsane.wf⟩
          exact List.length_pos_of_ne_nil fun h => hne (congrArg some h)

end Reader

/-! ## The bridge -/

namespace Bridge

variable {agent server : Source UInt8} {behind : Nat → Nat → Bytes} {bodies : List Bytes}

/-- The frames of `taken` have been read off what the server has sent, and `src` is still to come. -/
def Taken (server : Source UInt8) (bodies taken : List Bytes) (src : Bytes) : Prop :=
  taken <+: bodies ∧ frameBytes taken ++ src <+: server.rest

/-- What the stdout pump has read: what stands on stdout, and the body it holds. -/
def Pumped (server : Source UInt8) (bodies ts : List Bytes) (s : Bridge) : Prop :=
  match s.down with
  | .reading => Taken server bodies ts s.src.rest
  | .waiting b => Taken server bodies (ts ++ [b]) s.src.rest
  | .writing f b => f = s.latch ∧ s.latch ≠ .unknown ∧ Taken server bodies (ts ++ [b]) s.src.rest
  | .ended => Taken server bodies ts []

/-- Frames that are all there stand on stdout, in one framing. -/
def Shown (server : Source UInt8) (bodies : List Bytes) (s : Bridge) : Prop :=
  ∃ ts, s.stdout = encodeAll s.latch ts ∧ (s.latch = .unknown → ts = []) ∧ Pumped server bodies ts s

theorem Taken.less {taken : List Bytes} {src : Bytes} (h : Taken server bodies taken src)
    {src' : Bytes} (hsrc : src' <+: src) : Taken server bodies taken src' :=
  ⟨h.1, ((List.prefix_append_right_inj _).mpr hsrc).trans h.2⟩

theorem Taken.init {ts : List Bytes} {b src : Bytes} (h : Taken server bodies (ts ++ [b]) src) :
    Taken server bodies ts [] := by
  refine ⟨(List.prefix_append ts [b]).trans h.1, ?_⟩
  obtain ⟨-, tail, htail⟩ := h
  rw [frameBytes_concat, List.append_assoc, List.append_assoc, List.append_assoc] at htail
  rw [List.append_nil]
  exact ⟨_, htail⟩

/-- The next frame is read. -/
theorem Taken.next [Abi] {taken : List Bytes} {src src' : Source UInt8} {b : Bytes}
    (h : Taken server bodies taken src.rest) (hb : Sized bodies)
    (hserver : server.rest <+: frameBytes bodies) (hread : connReadFrame src = some (b, src')) :
    Taken server bodies (taken ++ [b]) src'.rest := by
  obtain ⟨⟨rest, rfl⟩, hbytes⟩ := h
  have hall : frameBytes (taken ++ rest) = frameBytes taken ++ frameBytes rest := by
    unfold frameBytes
    rw [List.map_append, List.flatten_append]
  have hsrc : src.rest <+: frameBytes rest :=
    (List.prefix_append_right_inj (frameBytes taken)).mp (hall ▸ hbytes.trans hserver)
  have hrest : Sized rest := fun d hd => hb d (List.mem_append_right taken hd)
  obtain ⟨rest', rfl, hfront, -⟩ := readFrameWith_prefix adapterKey_lengthLine hrest hsrc hread
  refine ⟨⟨rest', by rw [List.append_assoc, List.singleton_append]⟩, ?_⟩
  rw [frameBytes_concat, List.append_assoc, List.append_assoc, ← List.append_assoc (header _)]
  change frameBytes taken ++ (connWriteFrame b ++ src'.rest) <+: server.rest
  rw [← hfront]
  exact hbytes

theorem shown_start : Shown server bodies (start agent server behind) :=
  ⟨[], rfl, fun _ => rfl, List.nil_prefix, List.prefix_rfl⟩

/-- Setting the latch changes nothing once something was written. -/
theorem Shown.latched {s : Bridge} (h : Shown server bodies s) {f : Framing} :
    Shown server bodies (s.setLatch f) := by
  obtain ⟨ts, hout, hnil, hpump⟩ := h
  by_cases hl : s.latch = .unknown
  · have hts := hnil hl
    subst hts
    refine ⟨[], hout, fun _ => rfl, ?_⟩
    unfold Pumped setLatch at *
    dsimp only at *
    revert hpump
    cases s.down with
    | writing g b => exact fun hpump => absurd hl hpump.2.1
    | _ => exact id
  · have hsame : s.setLatch f = s := by
      unfold setLatch
      rw [if_neg hl]
    rw [hsame]
    exact ⟨ts, hout, hnil, hpump⟩

theorem shown_step [Abi] {s s' : Bridge} {a : Act} (hb : Sized bodies)
    (hserver : server.rest <+: frameBytes bodies) (hst : Step s a s') (h : Shown server bodies s) :
    Shown server bodies s' := by
  cases hst with
  | upLatch hu => exact h.latched
  | mainLatch hm => exact h.latched
  | @downRead body src hd hr =>
      obtain ⟨ts, hout, hnil, hpump⟩ := h
      unfold Pumped at hpump
      rw [hd] at hpump
      exact ⟨ts, hout, hnil, hpump.next hb hserver hr⟩
  | downEnd hd hr =>
      obtain ⟨ts, hout, hnil, hpump⟩ := h
      unfold Pumped at hpump
      rw [hd] at hpump
      exact ⟨ts, hout, hnil, hpump.less List.nil_prefix⟩
  | downWait hd hl =>
      obtain ⟨ts, hout, hnil, hpump⟩ := h
      unfold Pumped at hpump
      rw [hd] at hpump
      exact ⟨ts, hout, hnil, rfl, hl, hpump⟩
  | @downWrite framing body hd =>
      obtain ⟨ts, hout, hnil, hpump⟩ := h
      unfold Pumped at hpump
      rw [hd] at hpump
      obtain ⟨rfl, hl, hpump⟩ := hpump
      refine ⟨ts ++ [body], ?_, fun hu => absurd hu hl, hpump⟩
      show s.stdout ++ encode s.latch body = encodeAll s.latch (ts ++ [body])
      rw [encodeAll_concat, hout]
  | downWriteFailed hd =>
      obtain ⟨ts, hout, hnil, hpump⟩ := h
      unfold Pumped at hpump
      rw [hd] at hpump
      exact ⟨ts, hout, hnil, hpump.2.2.init⟩
  | @mainAbort arrived hm =>
      obtain ⟨ts, hout, hnil, hpump⟩ := h
      refine ⟨ts, hout, hnil, ?_⟩
      have hcut := List.take_prefix arrived s.src.rest
      unfold Pumped at *
      dsimp only
      revert hpump
      cases s.down with
      | reading => exact fun hpump => hpump.less hcut
      | waiting b => exact fun hpump => hpump.less hcut
      | writing g b => exact fun hpump => ⟨hpump.1, hpump.2.1, hpump.2.2.less hcut⟩
      | ended => exact id
  | _ => exact h

/-- On stdout stand, in the framing of the latch, the bodies of some frames of the server that are
    all there. -/
theorem bridge_stdout [Abi] {s : Bridge} (hb : Sized bodies)
    (hserver : server.rest <+: frameBytes bodies) (hs : Reach (bridge agent server behind) s) :
    ∃ ts, ts <+: bodies ∧ frameBytes ts <+: server.rest ∧ s.stdout = encodeAll s.latch ts := by
  have hshown : Shown server bodies s := hs.invariant (fun s hi => hi ▸ shown_start)
    fun s a s' _ h hst => shown_step hb hserver (show Bridge.Step s a s' from hst) h
  obtain ⟨ts, hout, -, hpump⟩ := hshown
  have htaken : Taken server bodies ts [] := by
    unfold Pumped at hpump
    split at hpump
    · exact hpump.less List.nil_prefix
    · exact hpump.init
    · exact hpump.2.2.init
    · exact hpump
  exact ⟨ts, htaken.1, (List.append_nil (frameBytes ts)) ▸ htaken.2, hout⟩

/-- What the bridge has sent is a part of the frames of the messages that it has read. -/
theorem bridge_sent [Abi] {s : Bridge} (hs : Reach (bridge agent server behind) s) :
    s.got = (Reader.init agent behind).messages s.got.length ∧ s.sent <+: frameBytes s.got := by
  have hup : UpInv agent behind s := hs.invariant (fun s hi => hi ▸ upInv_start)
    fun s a s' _ h hst => upInv_step (show Bridge.Step s a s' from hst) h
  refine ⟨hup.got, ?_⟩
  obtain ⟨ms, rest, hgot, hsent | ⟨b, rest', rfl, hsent⟩⟩ := hup.standing.sent
  · rw [hsent, hgot]
    unfold frameBytes
    rw [List.map_append, List.flatten_append]
    exact List.prefix_append _ _
  · rw [hsent, hgot]
    unfold frameBytes connWriteFrame
    rw [List.map_append, List.flatten_append, List.map_cons, List.flatten_cons, List.append_assoc]
    exact (List.prefix_append_right_inj _).mpr (List.prefix_append _ _)

end Bridge

end DisplayxrMcp.Stdio

namespace DisplayxrMcp.Server

open Lib Cjson Lts Wire Stdio

/-! ## The agent, the bridge and the server -/

/-- Frames that are all there are among those before the part of one. -/
theorem whole_frames {js : List Json} {k : Json} {part front : Bytes} {ts : List Bytes}
    (hpart : part <+: writeFrame k.text) (hne : part ≠ writeFrame k.text)
    (hts : ts <+: (js ++ [k]).map Json.text) (hfront : frameBytes ts <+: front)
    (hout : front <+: (js.map fun j => writeFrame j.text).flatten ++ part) :
    ∃ n, ts = (js.take n).map Json.text := by
  rw [List.map_append, List.map_singleton] at hts
  rcases List.prefix_concat_iff.mp hts with rfl | hbefore
  · have hall : frameBytes (js.map Json.text ++ [k.text]) =
        frameBytes (js.map Json.text) ++ writeFrame k.text := by
      rw [writeFrame_text]
      unfold frameBytes
      rw [List.map_append, List.flatten_append, List.map_singleton, List.flatten_singleton]
    have hcut := hfront.trans hout
    rw [hall, frames_text, List.prefix_append_right_inj] at hcut
    exact absurd (hpart.eq_of_length_le hcut.length_le) hne
  · refine ⟨ts.length, ?_⟩
    rw [List.map_take]
    exact List.prefix_iff_eq_take.mp hbefore

/-- Of the messages of the agent, the server reads some, and what asks for a reply among them comes
    before what asks for one in the rest. -/
theorem asked_prefix [Abi] {got : List Bytes} (hgot : Sized got) {src : Source UInt8}
    (hsrc : src.rest <+: frameBytes got) (n : Nat) :
    (inbounds n src).filter asks <+: (got.map received).filter asks := by
  obtain ⟨k, -, hall⟩ := inbounds_prefix hgot hsrc
  have heof : ∀ m, (List.replicate m Inbound.eof).filter asks = [] := fun m =>
    List.filter_eq_nil_iff.mpr fun f hf => by
      rw [List.eq_of_mem_replicate hf]
      exact Bool.false_ne_true
  rw [hall, List.filter_append, heof, List.append_nil, List.map_take, List.take_take]
  exact (List.take_prefix _ _).filter asks

/-- Fewer replies answer fewer frames. -/
theorem forall₂_prefix {α β : Type} {R : α → β → Prop} {xs ys : List α} {rs ss : List β}
    (h : List.Forall₂ R (xs.take rs.length) rs) (hss : ss <+: rs) (hys : xs <+: ys) :
    List.Forall₂ R (ys.take ss.length) ss := by
  obtain ⟨rest, rfl⟩ := hss
  obtain ⟨more, rfl⟩ := hys
  have hlen := h.length_eq
  rw [List.length_take, List.length_append] at hlen
  have htake := List.forall₂_take ss.length h
  rw [List.take_left, List.take_take, List.length_append, Nat.min_eq_left (Nat.le_add_right _ _)]
    at htake
  rwa [List.take_append_of_le_length (by omega)]

/-- An agent talks to the server through the bridge. It writes any bytes on stdin; the serve loop reads
    what the bridge has sent so far, and the bridge what the server has. Then stdout is an
    encoding, in the framing of the latch, of texts of messages, and these, notifications
    aside, are the replies to the agent's messages, one each to those that ask for one, in
    their order and with their ids. -/
theorem bridged_session [Abi] {s₀ s : Split State Act Mover ConnId UInt8}
    {tr : List (Split State Act Mover ConnId UInt8 × SplitAct Act Mover ConnId)} {c : ConnId}
    {src agent answers : Source UInt8} {behind : Nat → Nat → Bytes} {b : Bridge}
    (hi : (split supplied writers).init s₀) (hrun : Run (split supplied writers) s₀ tr s)
    (hok : Meets (WritesOk c) (baseTrace writers tr)) (hfed : Fed c src (baseTrace writers tr))
    (hb : Reach (bridge agent answers behind) b) (hup : src.rest <+: b.sent)
    (hdown : answers.rest <+: (s.wires c).out) :
    b.got = (Reader.init agent behind).messages b.got.length ∧ ∃ js : List Json,
      b.stdout = encodeAll b.latch (js.map Json.text) ∧
      (∀ j ∈ js, parse j.text = .ok j.reparse ∧ (isReply j.reparse = false → j.reparse = listChanged)) ∧
      List.Forall₂ Replied
        (((b.got.map received).filter asks).take ((js.map Json.reparse).filter isReply).length)
        ((js.map Json.reparse).filter isReply) := by
  obtain ⟨hgot, hsent⟩ := Bridge.bridge_sent hb
  refine ⟨hgot, ?_⟩
  obtain ⟨js, part, hst, htold⟩ := standing_told hi hrun hok hfed
  obtain ⟨k, hk, hpart, hne⟩ := hst.cut
  have hsendable : ∀ j ∈ js ++ [k], Sendable maxMessageBytes j := fun j hj =>
    (List.mem_append.mp hj).elim (hst.sendable j) (List.forall_mem_singleton.mpr hk j)
  have hserver : answers.rest <+: frameBytes ((js ++ [k]).map Json.text) := by
    refine hdown.trans ?_
    rw [hst.out, ← frames_text, List.map_append, List.flatten_append, List.map_singleton,
      List.flatten_singleton]
    exact (List.prefix_append_right_inj _).mpr hpart
  obtain ⟨ts, hts, hfront, hstdout⟩ :=
    Bridge.bridge_stdout (text_sized (Nat.le_refl _) hsendable) hserver hb
  obtain ⟨n, rfl⟩ := whole_frames hpart hne hts hfront (hst.out ▸ hdown)
  refine ⟨js.take n, hstdout, fun j hj => ?_, ?_⟩
  · have hmem := List.mem_of_mem_take hj
    exact ⟨(parse_text (hst.sendable j hmem).carried).2,
      htold.notes j.reparse (List.mem_map_of_mem hmem)⟩
  · have hsized : Sized b.got := by
      rw [hgot]
      exact Reader.messages_sized (Reader.wf_init agent behind) _
    have hasked := asked_prefix hsized (hup.trans hsent)
      (exchanges c (baseTrace writers tr)).length
    have hrs : ((js.take n).map Json.reparse).filter isReply <+:
        (js.map Json.reparse).filter isReply := by
      rw [List.map_take]
      exact (List.take_prefix _ _).filter isReply
    exact forall₂_prefix htold.replies hrs hasked

/-- The agent's line. -/
def pingLine : Source UInt8 := ⟨(request 1 "ping").text ++ [10], fun _ => 7⟩

open Lp64 in
/-- An agent pings in a line, and gets the reply in a line. -/
theorem bridged_session_ping : ∃ b, Reach (bridge pingLine ⟨writeFrame pingReply, fun _ => 9⟩
      fun _ _ => []) b ∧ b.got = [(request 1 "ping").text] ∧ b.stdout = pingReply ++ [10] ∧
    ∃ js : List Json, b.stdout = encodeAll b.latch (js.map Json.text) ∧ List.Forall₂ Replied
      (((b.got.map received).filter asks).take ((js.map Json.reparse).filter isReply).length)
      ((js.map Json.reparse).filter isReply) := by
  obtain ⟨s, tr, hi, hrun, hok, hfed, -, hout, -⟩ := pinged
  have hpump : ((follow Bridge.next (Bridge.start pingLine ⟨writeFrame pingReply, fun _ => 9⟩
      fun _ _ => []) [.upRead, .upLatch, .upHeader true, .upBody true, .downRead, .downWait,
        .downWrite true]).map fun b => decide (b.got = [(request 1 "ping").text] ∧
          b.sent = connWriteFrame (request 1 "ping").text ++ [] ∧
          b.stdout = pingReply ++ [10])) = some true := by
    decide +kernel
  obtain ⟨b, hb, hd⟩ := Option.map_eq_some_iff.mp hpump
  obtain ⟨hgot, hsent, hstdout⟩ := of_decide_eq_true hd
  have hreach : Reach (bridge pingLine ⟨writeFrame pingReply, fun _ => 9⟩ fun _ _ => []) b :=
    ⟨_, _, rfl, run_of_follow (fun _ _ _ => Bridge.next_step) _ hb, fun _ _ => trivial⟩
  have hup : pingSource.rest <+: b.sent := by
    rw [hsent]
    exact List.prefix_rfl
  obtain ⟨-, js, hjs, -, hreplied⟩ :=
    bridged_session hi hrun hok hfed hreach hup (hout ▸ List.prefix_rfl)
  exact ⟨b, hreach, hgot, hstdout, js, hjs, hreplied⟩

end DisplayxrMcp.Server
