/-
  The struct and the loops of the byte-by-byte reader.

  `Coherent` is about the struct: the three numbers, and that the buffer holds the
  end of what was received. `Placed` is about the loops: how far a local index may
  be. Every step keeps both, whatever the byte is that it reads.
-/
import DisplayxrMcp.Stdio.Buffer
import DisplayxrMcp.Stdio.Bytewise

namespace DisplayxrMcp.Stdio.Bytewise

open Lib Lib.Cells

/-! ## The struct -/

/-- The stream is what was moved out of the buffer, the buffer, and what is still to come. -/
structure Coherent (U : Bytes) (s : State) : Prop where
  posLe : s.r.pos ≤ s.r.len
  lenLe : s.r.len ≤ s.r.cap
  capShape : s.r.cap = 0 ∨ ∃ k, k ≤ 12 ∧ s.r.cap = 4096 * 2 ^ k
  stream : ∃ gone, gone ++ slice s.r.buf 0 s.r.len ++ s.src.rest = U ∧
    gone.length + s.r.pos = s.consumed
  since : s.since ≤ s.consumed

variable {U : Bytes} {heap : Heap} {s : State}

theorem coherent_start (src : Source UInt8) : Coherent src.rest (start src) :=
  ⟨Nat.le_refl _, Nat.le_refl _, Or.inl rfl, ⟨[], rfl, rfl⟩, Nat.le_refl _⟩

theorem Coherent.goto (h : Coherent U s) (pc : Pc) : Coherent U (s.goto pc) :=
  ⟨h.posLe, h.lenLe, h.capShape, h.stream, h.since⟩

theorem Coherent.setFraming (h : Coherent U s) (f : Framing) : Coherent U (s.setFraming f) :=
  ⟨h.posLe, h.lenLe, h.capShape, h.stream, h.since⟩

theorem Coherent.tick (h : Coherent U s) (t : Nat) : Coherent U { s with now := t } :=
  ⟨h.posLe, h.lenLe, h.capShape, h.stream, h.since⟩

/-- A call begins. -/
theorem Coherent.call (h : Coherent U s) : Coherent U { s with since := s.consumed } :=
  ⟨h.posLe, h.lenLe, h.capShape, h.stream, Nat.le_refl _⟩

theorem Coherent.advance (h : Coherent U s) {n : Nat} (hn : n ≤ s.avail) :
    Coherent U (s.advance n) := by
  obtain ⟨gone, hU, hlen⟩ := h.stream
  have hpos := h.posLe
  unfold State.avail at hn
  refine ⟨?_, h.lenLe, h.capShape, ⟨gone, hU, ?_⟩, Nat.le_trans h.since (Nat.le_add_right _ _)⟩
  · show s.r.pos + n ≤ s.r.len
    omega
  · show gone.length + (s.r.pos + n) = s.consumed + n
    omega

/-! ### fill -/

/-- Compaction moves the bytes to the front; the stream position of each stays. -/
theorem Coherent.compact (h : Coherent U s) :
    Coherent U s.compact ∧ s.compact.r.pos = 0 ∧ s.compact.r.len = s.avail := by
  obtain ⟨gone, hU, hlen⟩ := h.stream
  have hpos := h.posLe
  have hcap := h.lenLe
  unfold State.compact
  by_cases h0 : 0 < s.r.pos
  · rw [if_pos h0]
    refine ⟨⟨Nat.zero_le _, ?_, h.capShape, ⟨gone ++ slice s.r.buf 0 s.r.pos, ?_, ?_⟩, h.since⟩,
      rfl, rfl⟩
    · show s.r.len - s.r.pos ≤ s.r.cap
      omega
    · -- the part in front of `pos` joins what is gone
      show gone ++ slice s.r.buf 0 s.r.pos ++ slice (Cells.memmove s.r.buf 0 s.r.pos
        (s.r.len - s.r.pos)) 0 (s.r.len - s.r.pos) ++ s.src.rest = U
      rw [slice_memmove, ← hU, List.append_assoc gone]
      have hsplit := slice_add s.r.buf 0 s.r.pos (s.r.len - s.r.pos)
      rw [Nat.add_sub_of_le hpos, Nat.zero_add] at hsplit
      rw [hsplit]
    · show (gone ++ slice s.r.buf 0 s.r.pos).length + 0 = s.consumed
      rw [List.length_append, length_slice]
      omega
  · rw [if_neg h0]
    exact ⟨h, by omega, by unfold State.avail; omega⟩

/-- A buffer that is grown keeps its bytes and has room. -/
theorem Coherent.grow (h : Coherent U s) {s' : State} (hg : s.grow heap = some s') :
    Coherent U s' ∧ s'.r.pos = s.r.pos ∧ s'.r.len = s.r.len := by
  obtain ⟨gone, hU, hlen⟩ := h.stream
  have hpos := h.posLe
  have hcap := h.lenLe
  unfold State.grow at hg
  by_cases hfull : s.r.len = s.r.cap
  · rw [if_pos hfull] at hg
    dsimp only at hg
    generalize hn : (if s.r.cap = 0 then 4096 else s.r.cap * 2) = ncap at hg
    by_cases hbig : ncap > maxMessageBytes + 4096
    · rw [if_pos hbig] at hg
      cases hg
    · rw [if_neg hbig] at hg
      by_cases hgrant : heap.grants s.now = true
      · rw [if_pos hgrant] at hg
        cases hg
        have hbuf : slice (fun i => if i < s.r.cap then s.r.buf i else heap.debris s.now i) 0
            s.r.len = slice s.r.buf 0 s.r.len := by
          refine slice_congr fun j _ hj => if_pos ?_
          omega
        obtain ⟨k, hk, hshape, hlt, -⟩ := doubled_shape h.capShape (by
          unfold maxMessageBytes at hbig ⊢
          split at hn <;> omega)
        rw [hn] at hshape hlt
        refine ⟨⟨hpos, ?_, Or.inr ⟨k, hk, hshape⟩, ⟨gone, ?_, hlen⟩, h.since⟩, rfl, rfl⟩
        · show s.r.len ≤ ncap
          omega
        · show gone ++ slice _ 0 s.r.len ++ s.src.rest = U
          rw [hbuf]
          exact hU
      · rw [if_neg hgrant] at hg
        cases hg
  · rw [if_neg hfull] at hg
    cases hg
    exact ⟨h, rfl, rfl⟩

/-- Reading puts the next bytes of the stream behind the others. -/
theorem Coherent.pull (h : Coherent U s) :
    Coherent U s.pull.2 ∧ s.pull.2.r.pos = s.r.pos ∧ s.r.len ≤ s.pull.2.r.len := by
  obtain ⟨gone, hU, hlen⟩ := h.stream
  have hpos := h.posLe
  have hcap := h.lenLe
  have happ := s.src.read_append (s.r.cap - s.r.len)
  have hle := s.src.read_length_le (s.r.cap - s.r.len)
  unfold State.pull
  dsimp only
  generalize hgot : s.src.read (s.r.cap - s.r.len) = got at happ hle
  by_cases hnil : got.1 = []
  · rw [if_pos hnil]
    rw [hnil, List.nil_append] at happ
    refine ⟨⟨hpos, hcap, h.capShape, ⟨gone, ?_, hlen⟩, h.since⟩, rfl, Nat.le_refl _⟩
    rw [← hU, ← happ]
  · rw [if_neg hnil]
    refine ⟨⟨Nat.le_trans hpos (Nat.le_add_right _ _), ?_, h.capShape, ⟨gone, ?_, hlen⟩, h.since⟩,
      rfl, Nat.le_add_right _ _⟩
    · show s.r.len + got.1.length ≤ s.r.cap
      omega
    · show gone ++ slice (Cells.write s.r.buf s.r.len got.1) 0 (s.r.len + got.1.length) ++
        got.2.rest = U
      have hslice := slice_write_append s.r.buf 0 s.r.len got.1
      rw [Nat.zero_add] at hslice
      rw [hslice, ← hU, ← happ]
      simp only [List.append_assoc]

/-- All of `fill` keeps the struct coherent and loses no byte, whether it succeeds or not. -/
theorem Coherent.fill (h : Coherent U s) (heap : Heap) :
    Coherent U (s.fill heap).2 ∧ s.avail ≤ (s.fill heap).2.avail := by
  unfold State.fill
  by_cases heof : s.r.eof = true
  · rw [if_pos heof]
    exact ⟨h, Nat.le_refl _⟩
  · rw [if_neg heof]
    obtain ⟨hc, hpos, hlen⟩ := h.compact
    cases hg : s.compact.grow heap with
    | none =>
        refine ⟨hc, ?_⟩
        show s.avail ≤ s.compact.r.len - s.compact.r.pos
        omega
    | some s' =>
        obtain ⟨hc', hpos', hlen'⟩ := hc.grow hg
        obtain ⟨hp, hpos'', hle⟩ := hc'.pull
        refine ⟨hp, ?_⟩
        show s.avail ≤ s'.pull.2.r.len - s'.pull.2.r.pos
        omega

/-! ## The loops -/

/-- The stretch from `start` to `stop` is in the buffer and belongs to this call. -/
def Within (s : State) (start stop : Nat) : Prop :=
  start ≤ stop ∧ stop ≤ s.r.len ∧ s.since + s.r.pos ≤ s.consumed + start

/-- How far the local indices may be. -/
def Placed (s : State) : Prop :=
  match s.pc with
  | .bomByte k => k < 3
  | .memcmp k _ => k < s.avail
  | .memchr i => s.r.pos ≤ i
  | .trimStart start stop _ => Within s start stop
  | .trimStop start stop _ => Within s start stop
  | .trimmed start stop _ => Within s start stop
  | .headerByte _ i => s.r.pos ≤ i
  | .blank _ n => 1 ≤ n ∧ n ≤ s.avail
  | .lineByte _ n _ => clKeyLen < n ∧ n ≤ s.avail
  | .strtoul _ n => clKeyLen < n ∧ n ≤ s.avail
  | .space _ n i => n ≤ s.avail ∧ s.r.pos ≤ i
  | .digits _ n _ _ i => n ≤ s.avail ∧ s.r.pos ≤ i
  | .take start len after => Within s start (start + len) ∧ after ≤ s.avail
  | .memcpy i stop _ after => Within s i stop ∧ after ≤ s.avail
  | _ => True

structure Inv (U : Bytes) (s : State) : Prop where
  coherent : Coherent U s
  placed : Placed s

theorem inv_start (src : Source UInt8) : Inv src.rest (start src) := ⟨coherent_start src, trivial⟩

theorem Coherent.within (h : Coherent U s) : Within s s.r.pos s.r.len :=
  ⟨h.posLe, Nat.le_refl _, Nat.add_le_add_right h.since _⟩

/-- A stretch stays this call's when `pos` moves on. -/
theorem Within.advance {start stop : Nat} (h : Within s start stop) (n : Nat) :
    Within (s.advance n) start stop := by
  obtain ⟨hle, hvalid, hlater⟩ := h
  refine ⟨hle, hvalid, ?_⟩
  show s.since + (s.r.pos + n) ≤ s.consumed + n + start
  omega

theorem Coherent.enter (h : Coherent U s) : Inv U s.enter := by
  unfold State.enter
  split
  · exact ⟨h.goto _, Nat.le_refl _⟩
  · exact ⟨h.goto _, Nat.le_refl _⟩

theorem Coherent.nextHeader (h : Coherent U s) (hs : Reader.Headers) {n : Nat}
    (hn : n ≤ s.avail) : Inv U (s.nextHeader hs n) :=
  ⟨(h.advance hn).goto _, Nat.le_refl _⟩

theorem Coherent.blankLine (h : Coherent U s) (hs : Reader.Headers) {n : Nat}
    (hn : n ≤ s.avail) : Inv U (s.blankLine hs n) := by
  unfold State.blankLine
  split
  · exact ⟨(h.advance hn).goto _, trivial⟩
  · exact h.nextHeader hs hn

theorem Coherent.headerText (h : Coherent U s) (hs : Reader.Headers) {n : Nat}
    (hn : n ≤ s.avail) : Inv U (s.headerText hs n) := by
  unfold State.headerText
  split
  · next hlong => exact ⟨h.goto _, hlong, hn⟩
  · exact h.nextHeader _ hn

/-- Whatever byte is examined, the loops stay where they belong. -/
theorem Inv.onByte [Abi] (h : Inv U s) {i : Nat} (ha : s.address = some i) (c : UInt8) :
    Inv U (s.onByte c) := by
  obtain ⟨hc, hp⟩ := h
  unfold State.address at ha
  unfold Placed at hp
  unfold State.onByte
  cases hpc : s.pc with
  | skipWs =>
      simp only [hpc] at ha hp ⊢
      split
      · refine ⟨hc.advance ?_, ?_⟩
        · unfold State.avail
          split at ha
          · omega
          · cases ha
        · show Placed (s.advance 1)
          unfold Placed State.advance
          rw [hpc]
          trivial
      · exact ⟨hc.goto _, show 0 < 3 by decide⟩
  | bomByte k =>
      simp only [hpc] at ha hp ⊢
      split
      · split
        · refine ⟨(hc.advance ?_).goto _, trivial⟩
          split at ha
          · next h3 => exact h3
          · cases ha
        · exact ⟨hc.goto _, show k + 1 < 3 by omega⟩
      · exact ⟨hc.goto _, trivial⟩
  | memcmp k same =>
      simp only [hpc] at ha hp ⊢
      split
      · next hlt => exact ⟨hc.goto _, hlt⟩
      · split
        · exact ⟨hc.goto _, trivial⟩
        · exact ⟨hc.goto _, trivial⟩
  | keyByte i =>
      simp only [hpc] at ha hp ⊢
      split
      · exact ⟨hc.goto _, trivial⟩
      · exact (hc.setFraming _).enter
  | memchr i =>
      simp only [hpc] at ha hp ⊢
      split at ha
      · next hlt =>
          split
          · have hadv : i + 1 - s.r.pos ≤ s.avail := by
              unfold State.avail
              omega
            refine ⟨(hc.advance hadv).goto _, ?_⟩
            have hwithin : Within s s.r.pos i := ⟨hp, Nat.le_of_lt hlt, hc.within.2.2⟩
            exact hwithin.advance _
          · exact ⟨hc.goto _, Nat.le_succ_of_le hp⟩
      · cases ha
  | trimStart start stop last =>
      simp only [hpc] at ha hp ⊢
      split at ha
      · next hlt =>
          split
          · exact ⟨hc.goto _, hlt, hp.2.1, Nat.le_succ_of_le hp.2.2⟩
          · exact ⟨hc.goto _, hp⟩
      · cases ha
  | trimStop start stop last =>
      simp only [hpc] at ha hp ⊢
      split at ha
      · next hlt =>
          split
          · refine ⟨hc.goto _, ?_, Nat.le_trans (Nat.sub_le _ _) hp.2.1, hp.2.2⟩
            omega
          · exact ⟨hc.goto _, hp⟩
      · cases ha
  | headerByte hs i =>
      simp only [hpc] at ha hp ⊢
      split at ha
      · next hlt =>
          split
          · refine ⟨hc.goto _, Nat.succ_le_succ (Nat.zero_le _), ?_⟩
            show i - s.r.pos + 1 ≤ s.r.len - s.r.pos
            omega
          · exact ⟨hc.goto _, Nat.le_succ_of_le hp⟩
      · cases ha
  | blank hs n =>
      simp only [hpc] at ha hp ⊢
      split
      · exact hc.blankLine hs hp.2
      · exact hc.headerText hs hp.2
  | lineByte hs n i =>
      simp only [hpc] at ha hp ⊢
      split
      · exact ⟨hc.goto _, hp⟩
      · exact hc.nextHeader hs hp.2
  | space hs n i =>
      simp only [hpc] at ha hp ⊢
      split
      · exact ⟨hc.goto _, hp.1, Nat.le_succ_of_le hp.2⟩
      · split
        · exact ⟨hc.goto _, hp.1, Nat.le_succ_of_le hp.2⟩
        · split
          · exact ⟨hc.goto _, hp.1, Nat.le_succ_of_le hp.2⟩
          · exact ⟨hc.goto _, hp⟩
  | digits hs n negative ds i =>
      simp only [hpc] at ha hp ⊢
      split
      · exact ⟨hc.goto _, hp.1, Nat.le_succ_of_le hp.2⟩
      · exact hc.nextHeader _ hp.1
  | memcpy i stop out after =>
      simp only [hpc] at ha hp ⊢
      split at ha
      · next hlt => exact ⟨hc.goto _, ⟨hlt, hp.1.2.1, Nat.le_succ_of_le hp.1.2.2⟩, hp.2⟩
      · cases ha
  | _ =>
      simp only [hpc] at ha
      cases ha

/-- A step between two bytes, with or without a fill. -/
theorem Inv.move (h : Inv U s) (ha : s.address = none) : Inv U (s.move heap) := by
  obtain ⟨hc, hp⟩ := h
  obtain ⟨hfill, hmore⟩ := hc.fill heap
  unfold State.address at ha
  unfold Placed at hp
  unfold State.move
  cases hpc : s.pc with
  | returned out =>
      simp only [hpc] at ha hp ⊢
      split
      · exact ⟨hc.call.goto _, trivial⟩
      · exact hc.call.enter
  | skipWs => exact ⟨hc.goto _, show 0 < 3 by decide⟩
  | bomByte k => exact ⟨hc.goto _, trivial⟩
  | checkBom =>
      dsimp only
      split
      · next hfew => exact ⟨hc.goto _, hfew.1⟩
      · split
        · exact ⟨hc.goto _, trivial⟩
        · exact ⟨hc.goto _, trivial⟩
  | keyByte i =>
      dsimp only
      split
      · exact (hc.setFraming _).enter
      · exact ⟨hc.goto _, trivial⟩
  | fillDetect =>
      dsimp only
      split
      · exact ⟨hfill.goto _, trivial⟩
      · split
        · exact (hfill.setFraming _).enter
        · exact ⟨hfill.goto _, trivial⟩
  | memchr i => exact ⟨hc.goto _, trivial⟩
  | fillNdjson =>
      dsimp only
      split
      · exact ⟨hfill.goto _, Nat.le_add_right _ _⟩
      · exact ⟨hfill.goto _, hfill.within⟩
  | trimStart start stop last =>
      simp only [hpc] at hp ⊢
      exact ⟨hc.goto _, hp⟩
  | trimStop start stop last =>
      simp only [hpc] at hp ⊢
      exact ⟨hc.goto _, hp⟩
  | trimmed start stop last =>
      simp only [hpc] at hp
      -- what is taken is the stretch that was trimmed
      have hwhole : start + (stop - start) = stop := Nat.add_sub_of_le hp.1
      cases last with
      | false =>
          dsimp only
          split
          · exact ⟨hc.goto _, Nat.le_refl _⟩
          · split
            · exact ⟨hc.goto _, trivial⟩
            · exact ⟨hc.goto _, hwhole.symm ▸ hp, Nat.zero_le _⟩
      | true =>
          have hadv : Coherent U (s.advance s.avail) := hc.advance (Nat.le_refl _)
          dsimp only
          split
          · exact ⟨hadv.goto _, trivial⟩
          · exact ⟨hadv.goto _, hwhole.symm ▸ hp.advance _, Nat.zero_le _⟩
  | headerByte hs i =>
      dsimp only
      split
      · exact ⟨hc.goto _, trivial⟩
      · exact ⟨hc.goto _, trivial⟩
  | fillHeader hs =>
      dsimp only
      split
      · exact ⟨hfill.goto _, Nat.le_refl _⟩
      · exact ⟨hfill.goto _, trivial⟩
  | blank hs n =>
      simp only [hpc] at hp ⊢
      split
      · exact hc.blankLine hs hp.2
      · exact hc.headerText hs hp.2
  | lineByte hs n i =>
      simp only [hpc] at hp ⊢
      exact ⟨hc.goto _, hp⟩
  | strtoul hs n =>
      simp only [hpc] at hp ⊢
      exact ⟨hc.goto _, hp.2, Nat.le_add_right _ _⟩
  | checkLength hs =>
      dsimp only
      split
      · exact ⟨hc.goto _, trivial⟩
      · exact ⟨hc.goto _, trivial⟩
  | body n =>
      dsimp only
      split
      · split
        · exact ⟨hfill.goto _, trivial⟩
        · exact ⟨hfill.goto _, trivial⟩
      · next henough =>
          have hn : n ≤ s.avail := Nat.not_lt.mp henough
          have hpos := hc.posLe
          unfold State.avail at hn
          refine ⟨hc.goto _, ⟨Nat.le_add_right _ _, ?_, hc.within.2.2⟩, hn⟩
          show s.r.pos + n ≤ s.r.len
          omega
  | take start len after =>
      simp only [hpc] at hp ⊢
      split
      · exact ⟨hc.goto _, hp.1, hp.2⟩
      · exact ⟨(hc.advance hp.2).goto _, trivial⟩
  | memcpy i stop out after =>
      simp only [hpc] at hp ⊢
      exact ⟨(hc.advance hp.2).goto _, trivial⟩
  | memcmp k same =>
      simp only [hpc] at ha
      cases ha
  | space hs n i =>
      simp only [hpc] at ha
      cases ha
  | digits hs n negative ds i =>
      simp only [hpc] at ha
      cases ha

theorem Inv.tick (h : Inv U s) (t : Nat) : Inv U { s with now := t } := by
  obtain ⟨hc, hp⟩ := h
  exact ⟨hc.tick t, hp⟩

theorem Inv.step [Abi] (h : Inv U s) : Inv U (s.step heap) := by
  unfold State.step
  cases ha : s.address with
  | some i => exact (h.onByte ha _).tick _
  | none => exact (h.move ha).tick _

theorem inv_run [Abi] (heap : Heap) (src : Source UInt8) (n : Nat) :
    Inv src.rest (run heap src n) := by
  induction n with
  | zero => exact inv_start src
  | succ n ih =>
      rw [run, Function.iterate_succ_apply']
      exact ih.step

/-! ## What was received -/

/-- What the source has delivered of the stream `U`. -/
def received (U : Bytes) (s : State) : Bytes := U.take (U.length - s.src.rest.length)

/-- What was received is what is gone from the buffer and what is in it. -/
theorem Coherent.received (h : Coherent U s) :
    ∃ gone, received U s = gone ++ slice s.r.buf 0 s.r.len ∧
      gone.length + s.r.pos = s.consumed := by
  obtain ⟨gone, hU, hlen⟩ := h.stream
  refine ⟨gone, ?_, hlen⟩
  have hall := congrArg List.length hU
  rw [List.length_append] at hall
  unfold Bytewise.received
  rw [← hall, Nat.add_sub_cancel, ← hU]
  exact List.take_left' (by rw [List.length_append])

end DisplayxrMcp.Stdio.Bytewise
