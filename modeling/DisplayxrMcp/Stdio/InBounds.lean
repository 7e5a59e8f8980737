/-
  The reader stays within the bytes it has received.

  All indices are below `len` by what `Placed` says, but those of `strtoul`: it is
  called on a buffer without a NUL and stops only at a byte that ends the number.
  `Scanning` is that such a byte is still to come among the valid ones. It holds in
  `strtoul` if it holds at the call (`ParsesInside`), so always when the value is not
  white space only (`parsesInside_run`); if it does not, the reader examines `buf[len]`
  (`Inv.runsOut`).
-/
import DisplayxrMcp.Stdio.Coherent

namespace DisplayxrMcp.Stdio.Bytewise

open Lib Lib.Cells

/-! ## What is stated -/

/-- The struct as a reader of `U`. -/
structure Sound (U : Bytes) (s : State) : Prop where
  posLe : s.r.pos ≤ s.r.len
  lenLe : s.r.len ≤ s.r.cap
  capLe : s.r.cap ≤ maxMessageBytes
  unconsumed : slice s.r.buf s.r.pos (s.r.len - s.r.pos) = (received U s).drop s.consumed

/-- The byte at index `i` was received, and no earlier call has consumed it. -/
structure Current (U : Bytes) (heap : Heap) (s : State) (i : Nat) : Prop where
  below : i < s.r.len
  later : s.since + s.r.pos ≤ s.consumed + i
  byte : (received U s)[s.consumed + i - s.r.pos]? = some (s.load heap i)

/-- The struct is sound, and the byte the next step examines or copies is one of this message. -/
structure Disciplined (U : Bytes) (heap : Heap) (s : State) : Prop where
  sound : Sound U s
  reads : ∀ i ∈ s.address, Current U heap s i

/-- If `strtoul` is called now, the number ends among the bytes that were received. -/
def ParsesInside (s : State) : Prop :=
  ∀ h n, s.pc = .strtoul h n →
    NumberEnds (slice s.r.buf (s.r.pos + clKeyLen) (s.r.len - (s.r.pos + clKeyLen)))

variable {U : Bytes} {heap : Heap} {s : State}

/-! ## One state -/

theorem Coherent.sound (h : Coherent U s) : Sound U s := by
  obtain ⟨gone, hgot, hlen⟩ := h.received
  refine ⟨h.posLe, h.lenLe, capLe_of_shape h.capShape, ?_⟩
  rw [hgot, ← hlen, ← List.drop_drop, List.drop_left' rfl, drop_slice _ h.posLe, Nat.zero_add]

/-- A byte below `len` is one of the stream; behind the first byte of the call it is current. -/
theorem Coherent.current (h : Coherent U s) {i : Nat} (hi : i < s.r.len)
    (hlater : s.since + s.r.pos ≤ s.consumed + i) : Current U heap s i := by
  obtain ⟨gone, hgot, hlen⟩ := h.received
  have hcap := h.lenLe
  refine ⟨hi, hlater, ?_⟩
  rw [hgot, List.getElem?_append_right (by omega), show s.consumed + i - s.r.pos - gone.length = i
    by omega, getElem?_slice _ hi, Nat.zero_add, State.load, if_pos (by omega)]

theorem Coherent.current_of_le (h : Coherent U s) {i : Nat} (hi : i < s.r.len)
    (hpos : s.r.pos ≤ i) : Current U heap s i := by
  have hsince := h.since
  exact h.current hi (by omega)

/-- A header line ends with a line feed, and within `strtoul` the number is still to end among
    the valid bytes. -/
def Scanning (s : State) : Prop :=
  match s.pc with
  | .blank _ n => s.r.buf (s.r.pos + n - 1) = 10
  | .lineByte _ n _ => s.r.buf (s.r.pos + n - 1) = 10
  | .strtoul _ n => s.r.buf (s.r.pos + n - 1) = 10
  | .space _ _ i => i ≤ s.r.len ∧ NumberEnds (slice s.r.buf i (s.r.len - i))
  | .digits _ _ _ _ i => i ≤ s.r.len ∧ (slice s.r.buf i (s.r.len - i)).dropWhile isDigit ≠ []
  | _ => True

theorem numberEnds_lt {i : Nat} (hi : i ≤ s.r.len)
    (h : NumberEnds (slice s.r.buf i (s.r.len - i))) : i < s.r.len := by
  by_contra hge
  rw [show s.r.len - i = 0 by omega, slice_zero] at h
  exact numberEnds_nil h

theorem digitsEnd_lt {i : Nat} (hi : i ≤ s.r.len)
    (h : (slice s.r.buf i (s.r.len - i)).dropWhile isDigit ≠ []) : i < s.r.len := by
  by_contra hge
  rw [show s.r.len - i = 0 by omega, slice_zero] at h
  exact h rfl

/-- Every index that is examined or copied is one of a current byte. -/
theorem Inv.reads (h : Inv U s) (hscan : Scanning s) : ∀ i ∈ s.address, Current U heap s i := by
  intro j hj
  obtain ⟨hc, hp⟩ := h
  have havail : s.avail = s.r.len - s.r.pos := rfl
  unfold Placed at hp
  unfold Scanning at hscan
  unfold State.address at hj
  cases hpc : s.pc with
  | skipWs =>
      simp only [hpc] at hj
      split at hj
      · next hlt =>
          cases hj
          exact hc.current_of_le hlt (Nat.le_refl _)
      · cases hj
  | bomByte k =>
      simp only [hpc] at hj hp
      split at hj
      · cases hj
        exact hc.current_of_le (by omega) (Nat.le_add_right _ _)
      · cases hj
  | memcmp k same =>
      simp only [hpc] at hj hp
      cases hj
      exact hc.current_of_le (by omega) (Nat.le_add_right _ _)
  | keyByte i =>
      simp only [hpc] at hj hp
      split at hj
      · cases hj
        exact hc.current_of_le (by omega) (Nat.le_add_right _ _)
      · cases hj
  | memchr i =>
      simp only [hpc] at hj hp
      split at hj
      · next hlt =>
          cases hj
          exact hc.current_of_le hlt hp
      · cases hj
  | trimStart start stop last =>
      simp only [hpc] at hj hp
      obtain ⟨-, hvalid, hlater⟩ := hp
      split at hj
      · cases hj
        exact hc.current (by omega) hlater
      · cases hj
  | trimStop start stop last =>
      simp only [hpc] at hj hp
      obtain ⟨-, hvalid, hlater⟩ := hp
      split at hj
      · cases hj
        exact hc.current (by omega) (by omega)
      · cases hj
  | headerByte hs i =>
      simp only [hpc] at hj hp
      split at hj
      · next hlt =>
          cases hj
          exact hc.current_of_le hlt hp
      · cases hj
  | blank hs n =>
      simp only [hpc] at hj hp
      split at hj
      · cases hj
        exact hc.current_of_le (by omega) (Nat.le_refl _)
      · cases hj
  | lineByte hs n i =>
      simp only [hpc] at hj hp
      split at hj
      · cases hj
        exact hc.current_of_le (by omega) (Nat.le_add_right _ _)
      · cases hj
  | space hs n i =>
      simp only [hpc] at hj hp hscan
      cases hj
      exact hc.current_of_le (numberEnds_lt hscan.1 hscan.2) hp.2
  | digits hs n negative ds i =>
      simp only [hpc] at hj hp hscan
      cases hj
      exact hc.current_of_le (digitsEnd_lt hscan.1 hscan.2) hp.2
  | memcpy i stop out after =>
      simp only [hpc] at hj hp
      obtain ⟨⟨-, hvalid, hlater⟩, -⟩ := hp
      split at hj
      · cases hj
        exact hc.current (by omega) hlater
      · cases hj
  | _ =>
      simp only [hpc] at hj
      cases hj

/-! ## strtoul -/

theorem slice_head {i : Nat} (hi : i < s.r.len) :
    slice s.r.buf i (s.r.len - i) = s.r.buf i :: slice s.r.buf (i + 1) (s.r.len - (i + 1)) := by
  rw [← slice_succ, show s.r.len - (i + 1) + 1 = s.r.len - i by omega]

theorem load_eq (h : Coherent U s) {i : Nat} (hi : i < s.r.len) : s.load heap i = s.r.buf i := by
  have hcap := h.lenLe
  exact if_pos (by omega)

theorem scanning_enter (s : State) : Scanning s.enter := by
  unfold State.enter
  split <;> trivial

theorem scanning_blankLine (s : State) (h : Reader.Headers) (n : Nat) :
    Scanning (s.blankLine h n) := by
  unfold State.blankLine
  split <;> trivial

theorem scanning_headerText (h : Reader.Headers) {n : Nat}
    (hlf : s.r.buf (s.r.pos + n - 1) = 10) : Scanning (s.headerText h n) := by
  unfold State.headerText
  split
  · exact hlf
  · trivial

/-- A byte of the number is read: the rest still ends. -/
theorem Inv.scanning_onByte [Abi] (h : Inv U s) (hscan : Scanning s) {i : Nat}
    (ha : s.address = some i) : Scanning (s.onByte (s.load heap i)) := by
  have hp := h.placed
  unfold Placed at hp
  unfold Scanning at hscan
  unfold State.address at ha
  unfold State.onByte
  cases hpc : s.pc with
  | space hs n j =>
      simp only [hpc] at ha hscan ⊢
      cases ha
      obtain ⟨hle, hends⟩ := hscan
      have hlt := numberEnds_lt hle hends
      rw [load_eq h.coherent hlt]
      rw [slice_head hlt] at hends
      split
      · next hspace => exact ⟨hlt, (numberEnds_space hspace _).mp hends⟩
      · next hspace =>
          split
          · next hminus => exact ⟨hlt, (numberEnds_sign (Or.inl hminus) _).mp hends⟩
          · next hminus =>
              split
              · next hplus => exact ⟨hlt, (numberEnds_sign (Or.inr hplus) _).mp hends⟩
              · next hplus =>
                  refine ⟨hle, ?_⟩
                  show (slice s.r.buf i (s.r.len - i)).dropWhile isDigit ≠ []
                  rw [slice_head hlt]
                  exact (numberEnds_digits hspace hminus hplus _).mp hends
  | digits hs n negative ds j =>
      simp only [hpc] at ha hscan ⊢
      cases ha
      obtain ⟨hle, hends⟩ := hscan
      have hlt := digitsEnd_lt hle hends
      rw [load_eq h.coherent hlt]
      split
      · next hdigit =>
          refine ⟨hlt, ?_⟩
          rwa [slice_head hlt, List.dropWhile_cons, if_pos hdigit] at hends
      · exact trivial
  | skipWs =>
      dsimp only
      split
      · show Scanning (s.advance 1)
        unfold Scanning State.advance
        rw [hpc]
        trivial
      · trivial
  | bomByte k =>
      dsimp only
      split
      · split <;> trivial
      · trivial
  | memcmp k same =>
      dsimp only
      split
      · trivial
      · split <;> trivial
  | keyByte k =>
      dsimp only
      split
      · trivial
      · exact scanning_enter _
  | headerByte hs k =>
      simp only [hpc] at ha hp ⊢
      split at ha
      · next hlt =>
          cases ha
          rw [load_eq h.coherent hlt]
          split
          · next hlf =>
              show s.r.buf (s.r.pos + (i - s.r.pos + 1) - 1) = 10
              rw [show s.r.pos + (i - s.r.pos + 1) - 1 = i by omega]
              exact hlf
          · trivial
      · cases ha
  | blank hs n =>
      simp only [hpc] at hscan ⊢
      split
      · exact scanning_blankLine _ _ _
      · exact scanning_headerText hs hscan
  | lineByte hs n k =>
      simp only [hpc] at hscan ⊢
      split
      · exact hscan
      · trivial
  | memchr k => dsimp only; split <;> trivial
  | trimStart start stop last => dsimp only; split <;> trivial
  | trimStop start stop last => dsimp only; split <;> trivial
  | memcpy k stop out after => trivial
  | _ =>
      simp only [hpc] at ha
      cases ha

/-- `strtoul` is called. -/
theorem Inv.scanning_move (h : Inv U s) (hscan : Scanning s) (hin : ParsesInside s)
    (ha : s.address = none) : Scanning (s.move heap) := by
  have hp := h.placed
  unfold Placed at hp
  unfold Scanning at hscan
  unfold State.address at ha
  unfold State.move
  cases hpc : s.pc with
  | strtoul hs n =>
      simp only [hpc] at hp ⊢
      have hlen : s.avail = s.r.len - s.r.pos := rfl
      exact ⟨show s.r.pos + clKeyLen ≤ s.r.len by omega, hin hs n hpc⟩
  | returned out =>
      dsimp only
      split
      · trivial
      · exact scanning_enter _
  | checkBom =>
      dsimp only
      split
      · trivial
      · split <;> trivial
  | keyByte k =>
      dsimp only
      split
      · exact scanning_enter _
      · trivial
  | fillDetect =>
      dsimp only
      split
      · trivial
      · split
        · exact scanning_enter _
        · trivial
  | fillNdjson => dsimp only; split <;> trivial
  | trimmed start stop last =>
      cases last with
      | false =>
          dsimp only
          split
          · trivial
          · split <;> trivial
      | true => dsimp only; split <;> trivial
  | headerByte hs k => dsimp only; split <;> trivial
  | fillHeader hs => dsimp only; split <;> trivial
  | blank hs n =>
      simp only [hpc] at hscan ⊢
      split
      · exact scanning_blankLine _ _ _
      · exact scanning_headerText hs hscan
  | lineByte hs n k =>
      simp only [hpc] at hscan ⊢
      exact hscan
  | checkLength hs => dsimp only; split <;> trivial
  | body n =>
      dsimp only
      split
      · split <;> trivial
      · trivial
  | take start len after => dsimp only; split <;> trivial
  | space hs n k =>
      simp only [hpc] at ha
      cases ha
  | digits hs n negative ds k =>
      simp only [hpc] at ha
      cases ha
  | memcmp k same =>
      simp only [hpc] at ha
      cases ha
  | _ => trivial

theorem Inv.scanning_step [Abi] (h : Inv U s) (hscan : Scanning s) (hin : ParsesInside s) :
    Scanning (s.step heap) := by
  unfold State.step
  cases ha : s.address with
  | some i => exact h.scanning_onByte hscan ha
  | none => exact h.scanning_move hscan hin ha

/-- If `strtoul` is called now, the value of the header line is not white space only. -/
def Valued (s : State) : Prop :=
  ∀ h n, s.pc = .strtoul h n →
    (slice s.r.buf (s.r.pos + clKeyLen) (n - (clKeyLen + 1))).all isSpace = false

/-- A value that is not white space only ends at the line feed, if not before. -/
theorem Inv.parsesInside (h : Inv U s) (hscan : Scanning s) (hval : Valued s) :
    ParsesInside s := by
  intro v n hpc
  have hp := h.placed
  unfold Placed at hp
  unfold Scanning at hscan
  simp only [hpc] at hp hscan
  have havail : s.avail = s.r.len - s.r.pos := rfl
  have hlen : s.r.len - (s.r.pos + clKeyLen) = n - (clKeyLen + 1) + (s.avail - n + 1) := by omega
  have hlf : s.r.pos + clKeyLen + (n - (clKeyLen + 1)) = s.r.pos + n - 1 := by omega
  rw [hlen, slice_add, slice_succ, hlf, hscan]
  exact numberEnds_line (hval v n hpc) _

/-! ### Where it runs out -/

/-- With the struct as it is, the reader comes to examine the byte at `len`. -/
def RunsOut [Abi] (heap : Heap) (s : State) : Prop :=
  ∃ m, ((State.step heap)^[m] s).r = s.r ∧ ((State.step heap)^[m] s).address = some s.r.len

theorem RunsOut.later [Abi] {s' : State} (h : RunsOut heap s') (hst : s.step heap = s')
    (hr : s'.r = s.r) : RunsOut heap s := by
  obtain ⟨m, hm, ha⟩ := h
  subst hst
  refine ⟨m + 1, ?_, ?_⟩
  · rw [Function.iterate_succ_apply, hm, hr]
  · rw [Function.iterate_succ_apply, ha, hr]

theorem step_onByte [Abi] (heap : Heap) {i : Nat} (ha : s.address = some i) (hi : i < s.r.cap) :
    s.step heap = { s.onByte (s.r.buf i) with now := s.now + 1 } := by
  unfold State.step
  rw [ha]
  dsimp only
  rw [State.load, if_pos hi]

/-- The digits go on to the end of the valid bytes. -/
theorem digits_runsOut [Abi] {hs : Reader.Headers} {n i d : Nat} {negative : Bool} {ds : Bytes}
    (hpc : s.pc = .digits hs n negative ds i) (hcap : s.r.len ≤ s.r.cap) (hd : i + d = s.r.len)
    (hall : (slice s.r.buf i d).dropWhile isDigit = []) : RunsOut heap s := by
  have ha : s.address = some i := by
    unfold State.address
    rw [hpc]
  induction d generalizing s i ds with
  | zero => exact ⟨0, rfl, by rw [← hd]; exact ha⟩
  | succ d ih =>
      rw [slice_succ, List.dropWhile_cons] at hall
      split at hall
      · next hdigit =>
          have hst := step_onByte heap ha (by omega)
          unfold State.onByte at hst
          simp only [hpc, hdigit, if_true] at hst
          have hout : RunsOut heap (s.step heap) := by
            rw [hst]
            exact ih rfl hcap (show i + 1 + d = s.r.len by omega) hall rfl
          exact hout.later rfl (by rw [hst]; rfl)
      · cases hall

/-- A number that does not end among the valid bytes is looked for behind them. -/
theorem space_runsOut [Abi] {hs : Reader.Headers} {n i d : Nat} (hpc : s.pc = .space hs n i)
    (hcap : s.r.len ≤ s.r.cap) (hd : i + d = s.r.len) (hno : ¬ NumberEnds (slice s.r.buf i d)) :
    RunsOut heap s := by
  have ha : s.address = some i := by
    unfold State.address
    rw [hpc]
  induction d generalizing s i with
  | zero => exact ⟨0, rfl, by rw [← hd]; exact ha⟩
  | succ d ih =>
      have hst := step_onByte heap ha (by omega)
      unfold State.onByte at hst
      rw [slice_succ] at hno
      by_cases hspace : isSpace (s.r.buf i) = true
      · simp only [hpc, hspace, if_true] at hst
        have hrest := mt (numberEnds_space hspace _).mpr hno
        have hout : RunsOut heap (s.step heap) := by
          rw [hst]
          exact ih rfl hcap (show i + 1 + d = s.r.len by omega) hrest rfl
        exact hout.later rfl (by rw [hst]; rfl)
      · by_cases hminus : s.r.buf i = 45
        · simp only [hpc, hminus, if_true] at hst
          have hrest := mt (numberEnds_sign (Or.inl hminus) _).mpr hno
          have hout : RunsOut heap (s.step heap) := by
            rw [hst]
            exact digits_runsOut rfl hcap (show i + 1 + d = s.r.len by omega)
              (not_not.mp hrest)
          exact hout.later rfl (by rw [hst]; rfl)
        · by_cases hplus : s.r.buf i = 43
          · simp only [hpc, hplus, if_true] at hst
            have hrest := mt (numberEnds_sign (Or.inr hplus) _).mpr hno
            have hout : RunsOut heap (s.step heap) := by
              rw [hst]
              exact digits_runsOut rfl hcap (show i + 1 + d = s.r.len by omega)
                (not_not.mp hrest)
            exact hout.later rfl (by rw [hst]; rfl)
          · simp only [hpc, hspace, hminus, hplus, if_false] at hst
            have hrest := mt (numberEnds_digits hspace hminus hplus _).mpr hno
            have hout : RunsOut heap (s.step heap) := by
              rw [hst]
              exact digits_runsOut rfl hcap hd (by rw [slice_succ]; exact not_not.mp hrest)
            exact hout.later rfl (by rw [hst]; rfl)

/-- A call of `strtoul` whose number does not end there leads out of the valid bytes. -/
theorem Inv.runsOut [Abi] (h : Inv U s) (hin : ¬ ParsesInside s) (heap : Heap) :
    RunsOut heap s := by
  unfold ParsesInside at hin
  push Not at hin
  obtain ⟨hs, n, hpc, hno⟩ := hin
  have hp := h.placed
  unfold Placed at hp
  simp only [hpc] at hp
  have hlen : s.avail = s.r.len - s.r.pos := rfl
  have hst : s.step heap =
      { s with now := s.now + 1, pc := .space hs n (s.r.pos + clKeyLen) } := by
    unfold State.step State.address State.move
    simp only [hpc]
    rfl
  have hout : RunsOut heap (s.step heap) := by
    rw [hst]
    refine space_runsOut rfl h.coherent.lenLe ?_ hno
    show s.r.pos + clKeyLen + (s.r.len - (s.r.pos + clKeyLen)) = s.r.len
    omega
  exact hout.later rfl (by rw [hst])

/-! ## Every run -/

theorem run_add [Abi] (heap : Heap) (src : Source UInt8) (m n : Nat) :
    (State.step heap)^[m] (run heap src n) = run heap src (m + n) := by
  unfold run
  rw [← Function.iterate_add_apply]

theorem scanning_run [Abi] {src : Source UInt8} (hin : ∀ n, ParsesInside (run heap src n))
    (n : Nat) :
    Scanning (run heap src n) := by
  induction n with
  | zero => exact trivial
  | succ n ih =>
      rw [run, Function.iterate_succ_apply']
      exact (inv_run heap src n).scanning_step ih (hin n)

/-- Content-Length lines that have a value never lead `strtoul` out of the bytes received. -/
theorem parsesInside_run [Abi] {src : Source UInt8} (hval : ∀ n, Valued (run heap src n))
    (n : Nat) :
    ParsesInside (run heap src n) := by
  have hscan : Scanning (run heap src n) := by
    induction n with
    | zero => exact trivial
    | succ n ih =>
        have hinv := inv_run heap src n
        rw [run, Function.iterate_succ_apply']
        exact hinv.scanning_step ih (hinv.parsesInside ih (hval n))
  exact (inv_run heap src n).parsesInside hscan (hval n)

/-- The struct is sound in every state. Each byte that is examined or copied is one of the
    current message, in every state, exactly when every call of `strtoul` finds the end of its
    number among the bytes received; Content-Length lines that have a value see to that. -/
theorem buffer_discipline [Abi] (heap : Heap) (src : Source UInt8) :
    ((∀ n, Disciplined src.rest heap (run heap src n)) ↔ ∀ n, ParsesInside (run heap src n)) ∧
      ((∀ n, Valued (run heap src n)) → ∀ n, ParsesInside (run heap src n)) := by
  refine ⟨⟨?_, ?_⟩, parsesInside_run⟩
  · intro hall n
    by_contra hin
    obtain ⟨m, hr, ha⟩ := (inv_run heap src n).runsOut hin heap
    rw [run_add] at hr ha
    have hread := (hall (m + n)).reads (run heap src n).r.len ha
    have hbelow := hread.below
    rw [hr] at hbelow
    exact absurd hbelow (Nat.lt_irrefl _)
  · intro hin n
    have hinv := inv_run heap src n
    exact ⟨hinv.coherent.sound, hinv.reads (scanning_run hin n)⟩

open Lp64 in
/-- A header line with an empty value, and nothing behind it yet: `strtoul` goes on to `buf[17]`. -/
theorem buffer_discipline_blank :
    ¬ ∀ (heap : Heap) (src : Source UInt8) (n : Nat),
      Disciplined src.rest heap (run heap src n) := by
  intro hall
  have hread := (hall ⟨fun _ => true, fun _ _ => 0⟩
    ⟨ascii "Content-Length: \n", fun _ => 17⟩ 61).reads 17 (by decide +kernel)
  have hbelow := hread.below
  revert hbelow
  decide +kernel

end DisplayxrMcp.Stdio.Bytewise
