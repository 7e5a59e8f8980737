/-
  The 1:1 bridge (src/adapter/displayxr_mcp.c): two pump threads, the framing latch
  and the shutdown in `main`.

  A write to the connection or to stdout is complete or fails, and a frame to the
  connection is two writes. The abort ends the stream from the server at an
  arbitrary place, so a frame that is being read when it happens is cut there too.
  `got` is the record of the bodies read from stdin. Memory allocation succeeds.
-/
import DisplayxrMcp.Lib.Lts
import DisplayxrMcp.Wire.Frame

namespace DisplayxrMcp.Stdio

open Lib Lts Reader Wire

/-- Where the stdin pump stands. -/
inductive Up where
  | reading
  | latching (body : Bytes)
  | header (body : Bytes)
  | body (body : Bytes)
  | ended
  deriving DecidableEq

/-- Where the stdout pump stands. -/
inductive Down where
  | reading
  | waiting (body : Bytes)
  | writing (framing : Framing) (body : Bytes)
  | ended
  deriving DecidableEq

/-- Where `main` stands. -/
inductive Main where
  | joinUp
  | latch
  | abort
  | joinDown
  | done
  deriving DecidableEq

/-- `sent` is what was written to the connection, `src` what is to be read from it. -/
structure Bridge where
  reader : Reader
  got : List Bytes
  up : Up
  sent : Bytes
  latch : Framing
  src : Source UInt8
  down : Down
  stdout : Bytes
  main : Main

namespace Bridge

/-- `dxr_stdio_framing_latch_set`. -/
def setLatch (s : Bridge) (framing : Framing) : Bridge :=
  { s with latch := if s.latch = .unknown then framing else s.latch }

inductive Act where
  | upRead
  | upLatch
  | upHeader (ok : Bool)
  | upBody (ok : Bool)
  | downRead
  | downWait
  | downWrite (ok : Bool)
  | mainJoinUp
  | mainLatch
  | mainAbort (arrived : Nat)
  | mainJoinDown
  deriving DecidableEq

/-- `pump_thread` from stdin to the connection, from stdout to the client, and the end of `main`. -/
inductive Step [Abi] : Bridge → Act → Bridge → Prop where
  | upRead {s body r} (hu : s.up = .reading) (hr : s.reader.next = (some body, r)) :
      Step s .upRead { s with reader := r, got := s.got ++ [body], up := .latching body }
  | upEnd {s r} (hu : s.up = .reading) (hr : s.reader.next = (none, r)) :
      Step s .upRead { s with reader := r, up := .ended }
  | upLatch {s body} (hu : s.up = .latching body) :
      Step s .upLatch { s.setLatch s.reader.framing with up := .header body }
  | upHeader {s body} (hu : s.up = .header body) :
      Step s (.upHeader true) { s with sent := s.sent ++ header body.length, up := .body body }
  | upHeaderFailed {s body} (hu : s.up = .header body) :
      Step s (.upHeader false) { s with up := .ended }
  | upBody {s body} (hu : s.up = .body body) :
      Step s (.upBody true) { s with sent := s.sent ++ body, up := .reading }
  | upBodyFailed {s body} (hu : s.up = .body body) :
      Step s (.upBody false) { s with up := .ended }
  | downRead {s body src} (hd : s.down = .reading) (hr : connReadFrame s.src = some (body, src)) :
      Step s .downRead { s with src := src, down := .waiting body }
  | downEnd {s} (hd : s.down = .reading) (hr : connReadFrame s.src = none) :
      Step s .downRead { s with down := .ended }
  /-- `dxr_stdio_framing_latch_wait` returns. -/
  | downWait {s body} (hd : s.down = .waiting body) (hl : s.latch ≠ .unknown) :
      Step s .downWait { s with down := .writing s.latch body }
  | downWrite {s framing body} (hd : s.down = .writing framing body) :
      Step s (.downWrite true)
        { s with stdout := s.stdout ++ encode framing body, down := .reading }
  | downWriteFailed {s framing body} (hd : s.down = .writing framing body) :
      Step s (.downWrite false) { s with down := .ended }
  | mainJoinUp {s} (hm : s.main = .joinUp) (hu : s.up = .ended) :
      Step s .mainJoinUp { s with main := .latch }
  | mainLatch {s} (hm : s.main = .latch) :
      Step s .mainLatch { s.setLatch .ndjson with main := .abort }
  | mainAbort {s arrived} (hm : s.main = .abort) :
      Step s (.mainAbort arrived)
        { s with src := { s.src with rest := s.src.rest.take arrived }, main := .joinDown }
  | mainJoinDown {s} (hm : s.main = .joinDown) (hd : s.down = .ended) :
      Step s .mainJoinDown { s with main := .done }

/-- The step that a label names, where it is possible. -/
def next [Abi] (s : Bridge) : Act → Option Bridge
  | .upRead =>
      if s.up = .reading then
        match s.reader.next with
        | (some body, r) => some { s with reader := r, got := s.got ++ [body], up := .latching body }
        | (none, r) => some { s with reader := r, up := .ended }
      else none
  | .upLatch =>
      match s.up with
      | .latching body => some { s.setLatch s.reader.framing with up := .header body }
      | _ => none
  | .upHeader ok =>
      match s.up with
      | .header body =>
          if ok then some { s with sent := s.sent ++ header body.length, up := .body body }
          else some { s with up := .ended }
      | _ => none
  | .upBody ok =>
      match s.up with
      | .body body =>
          if ok then some { s with sent := s.sent ++ body, up := .reading }
          else some { s with up := .ended }
      | _ => none
  | .downRead =>
      if s.down = .reading then
        match connReadFrame s.src with
        | some (body, src) => some { s with src := src, down := .waiting body }
        | none => some { s with down := .ended }
      else none
  | .downWait =>
      match s.down with
      | .waiting body =>
          if s.latch ≠ .unknown then some { s with down := .writing s.latch body } else none
      | _ => none
  | .downWrite ok =>
      match s.down with
      | .writing framing body =>
          if ok then some { s with stdout := s.stdout ++ encode framing body, down := .reading }
          else some { s with down := .ended }
      | _ => none
  | .mainJoinUp =>
      if s.main = .joinUp ∧ s.up = .ended then some { s with main := .latch } else none
  | .mainLatch => if s.main = .latch then some { s.setLatch .ndjson with main := .abort } else none
  | .mainAbort arrived =>
      if s.main = .abort then
        some { s with src := { s.src with rest := s.src.rest.take arrived }, main := .joinDown }
      else none
  | .mainJoinDown =>
      if s.main = .joinDown ∧ s.down = .ended then some { s with main := .done } else none

theorem next_step [Abi] {s s' : Bridge} {a : Act} (h : s.next a = some s') : Step s a s' := by
  cases a with
  | upRead =>
      simp only [next] at h
      split at h
      · next hu =>
          split at h
          · next hr =>
              cases h
              exact .upRead hu hr
          · next hr =>
              cases h
              exact .upEnd hu hr
      · cases h
  | upLatch =>
      simp only [next] at h
      split at h
      · next hu =>
          cases h
          exact .upLatch hu
      · cases h
  | upHeader ok =>
      simp only [next] at h
      split at h
      · next hu =>
          cases ok <;> cases h
          · exact .upHeaderFailed hu
          · exact .upHeader hu
      · cases h
  | upBody ok =>
      simp only [next] at h
      split at h
      · next hu =>
          cases ok <;> cases h
          · exact .upBodyFailed hu
          · exact .upBody hu
      · cases h
  | downRead =>
      simp only [next] at h
      split at h
      · next hd =>
          split at h
          · next hr =>
              cases h
              exact .downRead hd hr
          · next hr =>
              cases h
              exact .downEnd hd hr
      · cases h
  | downWait =>
      simp only [next] at h
      split at h
      · next hd =>
          split at h
          · next hl =>
              cases h
              exact .downWait hd hl
          · cases h
      · cases h
  | downWrite ok =>
      simp only [next] at h
      split at h
      · next hd =>
          cases ok <;> cases h
          · exact .downWriteFailed hd
          · exact .downWrite hd
      · cases h
  | mainJoinUp =>
      simp only [next] at h
      split at h
      · next hm =>
          cases h
          exact .mainJoinUp hm.1 hm.2
      · cases h
  | mainLatch =>
      simp only [next] at h
      split at h
      · next hm =>
          cases h
          exact .mainLatch hm
      · cases h
  | mainAbort arrived =>
      simp only [next] at h
      split at h
      · next hm =>
          cases h
          exact .mainAbort hm
      · cases h
  | mainJoinDown =>
      simp only [next] at h
      split at h
      · next hm =>
          cases h
          exact .mainJoinDown hm.1 hm.2
      · cases h

/-- The pumps start on the agent's stream and the server's. -/
def start (agent server : Source UInt8) (behind : Nat → Nat → Bytes) : Bridge :=
  ⟨init agent behind, [], .reading, [], .unknown, server, .reading, [], .joinUp⟩

end Bridge

/-- The bridge between an agent's stream and a server that sends the frames of `bodies`, cut off
    anywhere. -/
def bridge [Abi] (agent server : Source UInt8) (behind : Nat → Nat → Bytes) :
    System Bridge Bridge.Act where
  init s := s = .start agent server behind
  step := Bridge.Step

/-! ## The reader, call by call -/

namespace Reader

/-- The calls so far returned messages, and the next one returns another. -/
theorem messages_succ [Abi] {r : Reader} {n : Nat} {body : Bytes} {r' : Reader}
    (hn : (r.messages n).length = n) (h : (r.after n).next = (some body, r')) :
    r.messages (n + 1) = r.messages n ++ [body] ∧ r.after (n + 1) = r' := by
  induction n generalizing r with
  | zero =>
      have h' : r.next = (some body, r') := h
      exact ⟨by simp only [messages, h', List.nil_append], by simp only [after, h']⟩
  | succ n ih =>
      cases hnext : r.next with
      | mk m r₁ =>
          cases m with
          | none =>
              rw [messages, hnext] at hn
              cases hn
          | some b =>
              have hn' : (r₁.messages n).length = n := by
                rw [messages, hnext] at hn
                exact Nat.succ.inj hn
              have hafter : r.after (n + 1) = r₁.after n := by rw [after, hnext]
              rw [hafter] at h
              obtain ⟨hm, ha⟩ := ih hn' h
              refine ⟨?_, by rw [after, hnext]; exact ha⟩
              rw [messages, hnext, messages, hnext]
              dsimp only
              rw [hm]
              rfl

end Reader

/-! ## The stdin side -/

namespace Bridge

variable {agent server : Source UInt8} {behind : Nat → Nat → Bytes} {bodies : List Bytes}

/-- What stands on the connection in the end: whole frames, and perhaps the header of the next. -/
def Sent (got : List Bytes) (sent : Bytes) : Prop :=
  ∃ ms rest, got = ms ++ rest ∧
    (sent = frameBytes ms ∨ ∃ b rest', rest = b :: rest' ∧ sent = frameBytes ms ++ header b.length)

/-- What stands there while the pump is at work. -/
def Standing : Up → List Bytes → Bytes → Prop
  | .reading, got, sent => sent = frameBytes got
  | .latching b, got, sent => ∃ ms, got = ms ++ [b] ∧ sent = frameBytes ms
  | .header b, got, sent => ∃ ms, got = ms ++ [b] ∧ sent = frameBytes ms
  | .body b, got, sent => ∃ ms, got = ms ++ [b] ∧ sent = frameBytes ms ++ header b.length
  | .ended, got, sent => Sent got sent

theorem Standing.sent {up : Up} {got : List Bytes} {sent : Bytes} (h : Standing up got sent) :
    Sent got sent := by
  cases up with
  | reading => exact ⟨got, [], (List.append_nil got).symm, Or.inl h⟩
  | latching b =>
      obtain ⟨ms, hg, hs⟩ := h
      exact ⟨ms, [b], hg, Or.inl hs⟩
  | header b =>
      obtain ⟨ms, hg, hs⟩ := h
      exact ⟨ms, [b], hg, Or.inl hs⟩
  | body b =>
      obtain ⟨ms, hg, hs⟩ := h
      exact ⟨ms, [b], hg, Or.inr ⟨b, [], rfl, hs⟩⟩
  | ended => exact h

/-- The stdin pump and the latch. -/
structure UpInv [Abi] (agent : Source UInt8) (behind : Nat → Nat → Bytes) (s : Bridge) : Prop where
  got : s.got = (init agent behind).messages s.got.length
  reader : s.up ≠ .ended → s.reader = (init agent behind).after s.got.length
  standing : Standing s.up s.got s.sent
  silent : s.up = .ended → s.got = [] → (init agent behind).messages 1 = []
  latch : s.latch = .unknown ∨ (s.got ≠ [] ∧ s.latch = ((init agent behind).after 1).framing) ∨
    (s.got = [] ∧ s.up = .ended ∧ s.latch = .ndjson)
  latched : s.got ≠ [] → s.latch ≠ .unknown ∨ ∃ b, s.up = .latching b
  main : s.main ≠ .joinUp → s.up = .ended

theorem upInv_start [Abi] : UpInv agent behind (start agent server behind) :=
  ⟨rfl, fun _ => rfl, rfl, fun h => (by cases h), Or.inl rfl, fun h => absurd rfl h,
    fun h => absurd rfl h⟩

/-- Behind the first message the framing is that of the first. -/
theorem after_framing_eq [Abi] {n : Nat} (hn : (init agent behind).messages (n + 1) ≠ []) :
    ((init agent behind).after (n + 1)).framing = ((init agent behind).after 1).framing ∧
      ((init agent behind).after 1).framing ≠ .unknown := by
  have hne : stripLeading agent.rest ≠ [] := fun hnil =>
    hn (calls_nil (at_init agent behind) hnil (n + 1)).1
  have hfirst := after_known (at_init agent behind) hne 0
  rw [after_known (at_init agent behind) hne n, hfirst]
  refine ⟨rfl, ?_⟩
  unfold framingOf
  split <;> decide

theorem frameBytes_concat (ms : List Bytes) (b : Bytes) :
    frameBytes (ms ++ [b]) = frameBytes ms ++ header b.length ++ b := by
  unfold frameBytes connWriteFrame
  rw [List.map_append, List.flatten_append, List.append_assoc]
  simp

/-- The pump goes on with a body it holds; the latch has been set for it. -/
theorem UpInv.move [Abi] {s : Bridge} (h : UpInv agent behind s) {up up' : Up} {ms : List Bytes}
    {b sent' : Bytes} (hu : s.up = up) (hl : ∀ b, up ≠ .latching b) (hend : up ≠ .ended)
    (hgot : s.got = ms ++ [b]) (hst : Standing up' s.got sent') :
    UpInv agent behind { s with sent := sent', up := up' } := by
  have hne : s.got ≠ [] := by
    rw [hgot]
    exact List.append_ne_nil_of_right_ne_nil _ (List.cons_ne_nil _ _)
  refine ⟨h.got, fun _ => h.reader (hu ▸ hend), hst, fun _ hnil => absurd hnil hne, ?_, ?_, ?_⟩
  · rcases h.latch with hl | hl | ⟨hnil, -, -⟩
    · exact Or.inl hl
    · exact Or.inr (Or.inl hl)
    · exact absurd hnil hne
  · intro _
    rcases h.latched hne with hk | ⟨c, hc⟩
    · exact Or.inl hk
    · exact absurd (hu.symm.trans hc) (hl c)
  · intro hm
    exact absurd (hu.symm.trans (h.main hm)) hend

theorem upInv_step [Abi] {s s' : Bridge} {a : Act} (hst : Step s a s') (h : UpInv agent behind s) :
    UpInv agent behind s' := by
  have hstand := h.standing
  cases hst with
  | @upRead body r hu hr =>
      rw [hu] at hstand
      have hreader := h.reader (by rw [hu]; exact Up.noConfusion)
      rw [hreader] at hr
      have hlen : ((init agent behind).messages s.got.length).length = s.got.length := by
        rw [← h.got]
      obtain ⟨hm, ha⟩ := messages_succ hlen hr
      refine ⟨?_, fun _ => ?_, ⟨s.got, rfl, hstand⟩, fun hend => (by cases hend), ?_,
        fun _ => Or.inr ⟨body, rfl⟩, fun hm => ?_⟩
      · show s.got ++ [body] = _
        rw [List.length_append, List.length_singleton, hm, ← h.got]
      · show r = _
        rw [List.length_append, List.length_singleton, ha]
      · rcases h.latch with hl | ⟨hne, hl⟩ | ⟨-, hend, -⟩
        · exact Or.inl hl
        · exact Or.inr (Or.inl ⟨by simp, hl⟩)
        · rw [hu] at hend
          cases hend
      · have hend := h.main hm
        rw [hu] at hend
        cases hend
  | @upEnd r hu hr =>
      rw [hu] at hstand
      have hreader := h.reader (by rw [hu]; exact Up.noConfusion)
      refine ⟨h.got, fun hne => absurd rfl hne, Standing.sent hstand, fun _ hnil => ?_, ?_, ?_,
        fun _ => rfl⟩
      · have hnil' : s.got = [] := hnil
        rw [hnil'] at hreader
        rw [hreader] at hr
        have hfirst : (init agent behind).next = (none, r) := hr
        rw [messages, hfirst]
      · rcases h.latch with hl | hl | ⟨hnil, -, hl⟩
        · exact Or.inl hl
        · exact Or.inr (Or.inl hl)
        · exact Or.inr (Or.inr ⟨hnil, rfl, hl⟩)
      · intro hne
        rcases h.latched hne with hl | ⟨b, hb⟩
        · exact Or.inl hl
        · rw [hu] at hb
          cases hb
  | @upLatch body hu =>
      rw [hu] at hstand
      obtain ⟨ms, hg, hs⟩ := hstand
      have hne : s.got ≠ [] := by
        rw [hg]
        exact List.append_ne_nil_of_right_ne_nil _ (List.cons_ne_nil _ _)
      obtain ⟨n, hn⟩ := Nat.exists_eq_succ_of_ne_zero (Nat.ne_of_gt (List.length_pos_of_ne_nil hne))
      have hreader := h.reader (by rw [hu]; exact Up.noConfusion)
      obtain ⟨hf, hknown⟩ := @after_framing_eq agent behind _ n (by
        have hgot := h.got
        rw [hn] at hgot
        rwa [← hgot])
      have hframing : s.reader.framing = ((init agent behind).after 1).framing := by
        rw [hreader, hn]
        exact hf
      have hlatch : (s.setLatch s.reader.framing).latch = ((init agent behind).after 1).framing := by
        unfold setLatch
        dsimp only
        rw [hframing]
        rcases h.latch with hl | ⟨-, hl⟩ | ⟨hnil, -, -⟩
        · rw [if_pos hl]
        · rw [hl, if_neg hknown]
        · exact absurd hnil hne
      refine ⟨h.got, fun _ => hreader, ⟨ms, hg, hs⟩, fun hend => (by cases hend),
        Or.inr (Or.inl ⟨hne, hlatch⟩), fun _ => Or.inl ?_, fun hm => ?_⟩
      · show (s.setLatch s.reader.framing).latch ≠ .unknown
        rw [hlatch]
        exact hknown
      · have hend := h.main hm
        rw [hu] at hend
        cases hend
  | @upHeader body hu =>
      rw [hu] at hstand
      obtain ⟨ms, hg, hs⟩ := hstand
      exact h.move hu (fun b => Up.noConfusion) Up.noConfusion hg ⟨ms, hg, by rw [hs]⟩
  | @upHeaderFailed body hu =>
      rw [hu] at hstand
      obtain ⟨ms, hg, hs⟩ := hstand
      exact h.move hu (fun b => Up.noConfusion) Up.noConfusion hg ⟨ms, [body], hg, Or.inl hs⟩
  | @upBody body hu =>
      rw [hu] at hstand
      obtain ⟨ms, hg, hs⟩ := hstand
      refine h.move hu (fun b => Up.noConfusion) Up.noConfusion hg ?_
      show s.sent ++ body = frameBytes s.got
      rw [hs, hg, frameBytes_concat]
  | @upBodyFailed body hu =>
      rw [hu] at hstand
      obtain ⟨ms, hg, hs⟩ := hstand
      exact h.move hu (fun b => Up.noConfusion) Up.noConfusion hg
        ⟨ms, [body], hg, Or.inr ⟨body, [], rfl, hs⟩⟩
  | downRead hd hr => exact ⟨h.got, h.reader, h.standing, h.silent, h.latch, h.latched, h.main⟩
  | downEnd hd hr => exact ⟨h.got, h.reader, h.standing, h.silent, h.latch, h.latched, h.main⟩
  | downWait hd hl => exact ⟨h.got, h.reader, h.standing, h.silent, h.latch, h.latched, h.main⟩
  | downWrite hd => exact ⟨h.got, h.reader, h.standing, h.silent, h.latch, h.latched, h.main⟩
  | downWriteFailed hd =>
      exact ⟨h.got, h.reader, h.standing, h.silent, h.latch, h.latched, h.main⟩
  | mainJoinUp hm hu =>
      exact ⟨h.got, h.reader, h.standing, h.silent, h.latch, h.latched, fun _ => hu⟩
  | mainLatch hm =>
      have hend : s.up = .ended := h.main (by rw [hm]; exact Main.noConfusion)
      have hknown : (s.setLatch .ndjson).latch ≠ .unknown := by
        unfold setLatch
        dsimp only
        split
        · decide
        · next hne => exact hne
      refine ⟨h.got, h.reader, h.standing, h.silent, ?_, fun _ => Or.inl hknown, fun _ => hend⟩
      show (s.setLatch .ndjson).latch = .unknown ∨ _ ∨ _
      unfold setLatch
      dsimp only
      rcases h.latch with hl | ⟨hne, hl⟩ | ⟨hnil, -, hl⟩
      · rw [if_pos hl]
        have hnil : s.got = [] := by
          by_contra hne
          rcases h.latched hne with hk | ⟨b, hb⟩
          · exact hk hl
          · rw [hend] at hb
            cases hb
        exact Or.inr (Or.inr ⟨hnil, hend, rfl⟩)
      · by_cases hu : s.latch = .unknown
        · rcases h.latched hne with hk | ⟨b, hb⟩
          · exact absurd hu hk
          · rw [hend] at hb
            cases hb
        · rw [if_neg hu]
          exact Or.inr (Or.inl ⟨hne, hl⟩)
      · rw [hl, if_neg (by decide)]
        exact Or.inr (Or.inr ⟨hnil, hend, rfl⟩)
  | mainAbort hm =>
      have hend : s.up = .ended := h.main (by rw [hm]; exact Main.noConfusion)
      exact ⟨h.got, h.reader, h.standing, h.silent, h.latch, h.latched, fun _ => hend⟩
  | mainJoinDown hm hd =>
      have hend : s.up = .ended := h.main (by rw [hm]; exact Main.noConfusion)
      exact ⟨h.got, h.reader, h.standing, h.silent, h.latch, h.latched, fun _ => hend⟩

/-! ## The stdout side -/

/-- What the stdout pump holds and what is still to come: the bodies `rest`. -/
def Coming (latch : Framing) : Down → Bytes → List Bytes → Prop
  | .reading, src, rest => src <+: frameBytes rest
  | .waiting b, src, rest => ∃ rest', rest = b :: rest' ∧ src <+: frameBytes rest'
  | .writing f b, src, rest =>
      f = latch ∧ latch ≠ .unknown ∧ ∃ rest', rest = b :: rest' ∧ src <+: frameBytes rest'
  | .ended, _, _ => True

/-- Whole replies in one framing stand on stdout, and the next ones are to come. -/
def DownInv (bodies : List Bytes) (s : Bridge) : Prop :=
  ∃ ts rest, bodies = ts ++ rest ∧ s.stdout = encodeAll s.latch ts ∧
    (s.latch = .unknown → ts = []) ∧ Coming s.latch s.down s.src.rest rest

theorem downInv_start (hsrc : server.rest <+: frameBytes bodies) :
    DownInv bodies (start agent server behind) :=
  ⟨[], bodies, rfl, rfl, fun _ => rfl, hsrc⟩

theorem encodeAll_concat (f : Framing) (ts : List Bytes) (b : Bytes) :
    encodeAll f (ts ++ [b]) = encodeAll f ts ++ encode f b := by
  unfold encodeAll
  rw [List.map_append, List.flatten_append]
  simp

/-- Setting the latch changes nothing once something was written. -/
theorem DownInv.latched {s : Bridge} (h : DownInv bodies s) {f : Framing} :
    DownInv bodies (s.setLatch f) := by
  obtain ⟨ts, rest, hb, hout, hnil, hcome⟩ := h
  by_cases hl : s.latch = .unknown
  · have hts := hnil hl
    subst hts
    refine ⟨[], rest, hb, hout, fun _ => rfl, ?_⟩
    show Coming _ s.down s.src.rest rest
    revert hcome
    cases s.down with
    | reading => exact id
    | waiting b => exact id
    | writing g b => exact fun hcome => absurd hl hcome.2.1
    | ended => exact id
  · have hsame : s.setLatch f = s := by
      unfold setLatch
      rw [if_neg hl]
    rw [hsame]
    exact ⟨ts, rest, hb, hout, hnil, hcome⟩

theorem downInv_step [Abi] {s s' : Bridge} {a : Act}
    (hmax : ∀ b ∈ bodies, b.length ≤ maxMessageBytes) (hst : Step s a s') (h : DownInv bodies s) :
    DownInv bodies s' := by
  cases hst with
  | upRead hu hr => exact h
  | upEnd hu hr => exact h
  | upLatch hu => exact h.latched
  | upHeader hu => exact h
  | upHeaderFailed hu => exact h
  | upBody hu => exact h
  | upBodyFailed hu => exact h
  | @downRead body src hd hr =>
      obtain ⟨ts, rest, hb, hout, hnil, hcome⟩ := h
      rw [hd] at hcome
      obtain ⟨rest', rfl, hpre⟩ := connReadFrame_prefix
        (fun b hmem => hmax b (hb ▸ List.mem_append_right _ hmem)) hcome hr
      exact ⟨ts, body :: rest', hb, hout, hnil, rest', rfl, hpre⟩
  | downEnd hd hr =>
      obtain ⟨ts, rest, hb, hout, hnil, -⟩ := h
      exact ⟨ts, rest, hb, hout, hnil, trivial⟩
  | downWait hd hl =>
      obtain ⟨ts, rest, hb, hout, hnil, hcome⟩ := h
      rw [hd] at hcome
      exact ⟨ts, rest, hb, hout, hnil, rfl, hl, hcome⟩
  | @downWrite framing body hd =>
      obtain ⟨ts, rest, hb, hout, hnil, hcome⟩ := h
      rw [hd] at hcome
      obtain ⟨rfl, hl, rest', rfl, hpre⟩ := hcome
      refine ⟨ts ++ [body], rest', by rw [hb]; simp, ?_, fun hu => absurd hu hl, hpre⟩
      show s.stdout ++ encode s.latch body = encodeAll s.latch (ts ++ [body])
      rw [encodeAll_concat, hout]
  | downWriteFailed hd =>
      obtain ⟨ts, rest, hb, hout, hnil, -⟩ := h
      exact ⟨ts, rest, hb, hout, hnil, trivial⟩
  | mainJoinUp hm hu => exact h
  | mainLatch hm => exact h.latched
  | @mainAbort arrived hm =>
      obtain ⟨ts, rest, hb, hout, hnil, hcome⟩ := h
      refine ⟨ts, rest, hb, hout, hnil, ?_⟩
      show Coming s.latch s.down (s.src.rest.take arrived) rest
      have hcut := List.take_prefix arrived s.src.rest
      revert hcome
      cases s.down with
      | reading => exact fun hcome => hcut.trans hcome
      | waiting b => exact fun ⟨rest', he, hpre⟩ => ⟨rest', he, hcut.trans hpre⟩
      | writing g b => exact fun ⟨hg, hl, rest', he, hpre⟩ => ⟨hg, hl, rest', he, hcut.trans hpre⟩
      | ended => exact id
  | mainJoinDown hm hd => exact h

end Bridge

open Bridge in
/-- What stands on the connection is whole frames of the agent's bodies in order, then perhaps a
    header; what stands on stdout encodes the server's bodies in order, in the framing of the agent's
    first message, and not before it was read or stdin ended. -/
theorem bridge_fifo [Abi] {agent server : Source UInt8} {behind : Nat → Nat → Bytes}
    {bodies : List Bytes} (hmax : ∀ b ∈ bodies, b.length ≤ maxMessageBytes)
    (hsrc : server.rest <+: frameBytes bodies)
    {s : Bridge} (hs : Reach (bridge agent server behind) s) :
    (s.got = (init agent behind).messages s.got.length ∧ Sent s.got s.sent) ∧
      (∃ ts, ts <+: bodies ∧ s.stdout = encodeAll s.latch ts) ∧
      ((init agent behind).messages 1 ≠ [] →
        s.latch = .unknown ∨ s.latch = ((init agent behind).after 1).framing) ∧
      (s.stdout ≠ [] → s.latch ≠ .unknown ∧ (s.got ≠ [] ∨ s.up = .ended)) := by
  have hup : UpInv agent behind s := hs.invariant (fun s hi => hi ▸ upInv_start)
    fun s a s' _ h hst => upInv_step (show Bridge.Step s a s' from hst) h
  have hdown : DownInv bodies s := hs.invariant (fun s hi => hi ▸ downInv_start hsrc)
    fun s a s' _ h hst => downInv_step hmax (show Bridge.Step s a s' from hst) h
  obtain ⟨ts, rest, hb, hout, hnil, -⟩ := hdown
  refine ⟨⟨hup.got, hup.standing.sent⟩, ⟨ts, ⟨rest, hb.symm⟩, hout⟩, fun hfirst => ?_,
    fun hne => ?_⟩
  · rcases hup.latch with hl | ⟨-, hl⟩ | ⟨hgot, hend, -⟩
    · exact Or.inl hl
    · exact Or.inr hl
    · exact absurd (hup.silent hend hgot) hfirst
  · have hknown : s.latch ≠ .unknown := by
      intro hl
      rw [hnil hl] at hout
      exact hne hout
    refine ⟨hknown, ?_⟩
    rcases hup.latch with hl | ⟨hgot, -⟩ | ⟨-, hend, -⟩
    · exact absurd hl hknown
    · exact Or.inl hgot
    · exact Or.inr hend

open Bridge in
open Lp64 in
/-- The agent's line `{}` goes to the server, its reply `[]` comes back as a line. -/
theorem bridge_fifo_reply : ∃ s, Reach (bridge ⟨ascii "{}\n", fun _ => 1⟩
      ⟨frameBytes [ascii "[]"], fun _ => 1⟩ fun _ _ => []) s ∧
    s.sent = frameBytes [ascii "{}"] ∧ s.stdout = ascii "[]\n" ∧
    ∃ ts, ts <+: [ascii "[]"] ∧ s.stdout = encodeAll s.latch ts := by
  have hrun : ((follow next
      (start ⟨ascii "{}\n", fun _ => 1⟩ ⟨frameBytes [ascii "[]"], fun _ => 1⟩ fun _ _ => [])
      [.upRead, .upLatch, .upHeader true, .upBody true, .downRead, .downWait, .downWrite true]).map
        fun s => decide (s.sent = frameBytes [ascii "{}"] ∧ s.stdout = ascii "[]\n")) =
      some true := by
    decide +kernel
  obtain ⟨s, hs, hd⟩ := Option.map_eq_some_iff.mp hrun
  obtain ⟨hsent, hout⟩ := of_decide_eq_true hd
  have hreach : Reach (bridge ⟨ascii "{}\n", fun _ => 1⟩ ⟨frameBytes [ascii "[]"], fun _ => 1⟩
      fun _ _ => []) s :=
    ⟨_, _, rfl, run_of_follow (fun _ _ _ => Bridge.next_step) _ hs, fun _ _ => trivial⟩
  have hmax : ∀ b ∈ [ascii "[]"], b.length ≤ maxMessageBytes := by decide
  have hfifo := bridge_fifo hmax List.prefix_rfl hreach
  exact ⟨s, hreach, hsent, hout, hfifo.2.1⟩

end DisplayxrMcp.Stdio
