/-
  The byte-by-byte reader in terms of Reader.lean: the struct, `detect` and `take`.

  `State.reader` forgets the cells behind `len`; `fill` on the memory is `fill` on the
  bytes (`reader_fill`). `At` is a point of a run at which allocations succeed and
  `strtoul` stays inside from there on. A call is followed loop by loop: each `_leads`
  lemma says where a loop comes to (`Leads`) by what Reader.lean has for it, and so
  also that it ends.
-/
import DisplayxrMcp.Lib.Until
import DisplayxrMcp.Stdio.InBounds

namespace DisplayxrMcp.Stdio

open Lib

theorem Reader.advance_advance (r : Reader) (m n : Nat) :
    (r.advance m).advance n = r.advance (m + n) := by
  unfold advance
  rw [Nat.add_assoc]

namespace Bytewise

open Lib.Cells

/-! ## The struct without its memory -/

section

variable {U : Bytes} {heap : Heap} {s : State} (behind : Nat → Nat → Bytes)

/-- The struct as Reader.lean has it. -/
def State.reader (s : State) : Reader :=
  ⟨slice s.r.buf 0 s.r.len, s.r.pos, s.r.cap, s.r.eof, s.r.framing, s.src, behind⟩

/-- The bytes at hand. -/
def State.window (s : State) : Bytes := slice s.r.buf s.r.pos s.avail

@[simp] theorem length_window (s : State) : s.window.length = s.avail := length_slice _ _ _

theorem reader_window (h : Coherent U s) : (s.reader behind).window = s.window := by
  unfold Reader.window State.reader
  dsimp only
  rw [drop_slice _ h.posLe, Nat.zero_add]
  rfl

@[simp] theorem reader_goto (s : State) (pc : Pc) : (s.goto pc).reader behind = s.reader behind :=
  rfl

@[simp] theorem reader_advance (s : State) (n : Nat) :
    (s.advance n).reader behind = (s.reader behind).advance n := rfl

@[simp] theorem reader_nextHeader (s : State) (h : Reader.Headers) (n : Nat) :
    (s.nextHeader h n).reader behind = (s.reader behind).advance n := rfl

theorem reader_compact (h : Coherent U s) :
    s.compact.reader behind = (s.reader behind).compact := by
  have hw := reader_window behind h
  unfold State.compact
  split
  · unfold State.reader Reader.compact
    dsimp only
    rw [slice_memmove]
    unfold State.reader at hw
    rw [hw]
    rfl
  · next h0 =>
      have hpos : s.r.pos = 0 := by omega
      unfold State.reader Reader.compact Reader.window
      dsimp only
      rw [hpos, List.drop_zero]

theorem reader_grow (h : Coherent U s) (hgrant : ∀ t, heap.grants t = true) :
    (s.grow heap).map (State.reader behind) = (s.reader behind).grow := by
  have hcap := h.lenLe
  unfold State.grow Reader.grow State.reader Reader.ncap
  dsimp only
  rw [length_slice]
  by_cases hfull : s.r.len = s.r.cap
  · rw [if_pos hfull, if_pos hfull]
    generalize (if s.r.cap = 0 then 4096 else s.r.cap * 2) = ncap
    by_cases hbig : ncap > maxMessageBytes + 4096
    · rw [if_pos hbig, if_pos hbig]
      rfl
    · rw [if_neg hbig, if_neg hbig, if_pos (hgrant _), Option.map_some]
      have hbuf : slice (fun i => if i < s.r.cap then s.r.buf i else heap.debris s.now i) 0
          s.r.len = slice s.r.buf 0 s.r.len := by
        refine slice_congr fun j _ hj => if_pos ?_
        omega
      dsimp only
      rw [hbuf]
  · rw [if_neg hfull, if_neg hfull]
    rfl

theorem reader_pull (s : State) :
    s.pull.1 = (s.reader behind).pull.1 ∧ s.pull.2.reader behind = (s.reader behind).pull.2 := by
  unfold State.pull Reader.pull State.reader
  dsimp only
  rw [length_slice]
  split
  · exact ⟨rfl, rfl⟩
  · refine ⟨rfl, ?_⟩
    dsimp only
    have hslice := slice_write_append s.r.buf 0 s.r.len (s.src.read (s.r.cap - s.r.len)).1
    rw [Nat.zero_add] at hslice
    rw [hslice]

/-- `fill` on the memory is `fill` on the bytes. -/
theorem reader_fill (h : Coherent U s) (hgrant : ∀ t, heap.grants t = true) :
    (s.fill heap).1 = (s.reader behind).fill.1 ∧
      (s.fill heap).2.reader behind = (s.reader behind).fill.2 := by
  have hcompact := reader_compact behind h
  have hgrow := reader_grow behind h.compact.1 hgrant
  unfold State.fill Reader.fill
  have heof : (s.reader behind).eof = s.r.eof := rfl
  rw [heof]
  split
  · exact ⟨rfl, rfl⟩
  · rw [← hcompact, ← hgrow]
    cases hg : s.compact.grow heap with
    | none => exact ⟨rfl, rfl⟩
    | some s' => exact reader_pull behind s'

end

/-! ## Where a call stands -/

def Pc.isReturned : Pc → Bool
  | .returned _ => true
  | _ => false

/-- From here on allocations succeed and `strtoul` stays inside. -/
structure Clean [Abi] (U : Bytes) (heap : Heap) (s : State) : Prop where
  inv : Inv U s
  grants : ∀ t, heap.grants t = true
  inside : ∀ n, ParsesInside ((State.step heap)^[n] s)

/-- The struct is `R`, and the reader stands at `pc`. -/
structure At [Abi] (U : Bytes) (heap : Heap) (behind : Nat → Nat → Bytes) (R : Reader) (pc : Pc)
    (s : State) : Prop where
  clean : Clean U heap s
  reader : s.reader behind = R
  pc : s.pc = pc

/-- The call in progress comes to a state with `P`. -/
abbrev Leads [Abi] (heap : Heap) (P : State → Prop) (s : State) : Prop :=
  Until (State.step heap) (fun t => t.pc.isReturned = false) P s

variable {U : Bytes} {heap : Heap} {behind : Nat → Nat → Bytes} {s : State} {R R' : Reader}
  {pc pc' : Pc}

theorem Clean.step [Abi] (h : Clean U heap s) : Clean U heap (s.step heap) :=
  ⟨h.inv.step, h.grants, fun n => h.inside (n + 1)⟩

namespace At

theorem pos [Abi] (h : At U heap behind R pc s) : s.r.pos = R.pos := by rw [← h.reader]; rfl

theorem len [Abi] (h : At U heap behind R pc s) : s.r.len = R.buf.length := by
  rw [← h.reader]
  exact (length_slice _ _ _).symm

theorem avail [Abi] (h : At U heap behind R pc s) : s.avail = R.window.length := by
  rw [← h.reader, reader_window behind h.clean.inv.coherent, length_window]

theorem posLe [Abi] (h : At U heap behind R pc s) : R.pos ≤ R.buf.length := by
  rw [← h.pos, ← h.len]
  exact h.clean.inv.coherent.posLe

theorem framing [Abi] (h : At U heap behind R pc s) : s.r.framing = R.framing := by
  rw [← h.reader]
  rfl

/-- A step that examines the byte `c`. -/
theorem read [Abi] (h : At U heap behind R pc s) {i : Nat} {c : UInt8} {t : State}
    (ha : s.address = some i) (hc : R.buf[i]? = some c) (hs : s.onByte c = t)
    (hr : t.reader behind = R') (hpc : t.pc = pc') : At U heap behind R' pc' (s.step heap) := by
  have hi : i < s.r.len := by
    rw [h.len]
    exact (List.getElem?_eq_some_iff.mp hc).1
  have hbyte : s.r.buf i = c := by
    rw [← h.reader] at hc
    have hget : (slice s.r.buf 0 s.r.len)[i]? = some c := hc
    rw [getElem?_slice _ hi, Nat.zero_add] at hget
    exact Option.some.inj hget
  have hst := step_onByte heap ha (Nat.lt_of_lt_of_le hi h.clean.inv.coherent.lenLe)
  rw [hbyte, hs] at hst
  refine ⟨h.clean.step, ?_, ?_⟩
  · rw [hst]
    exact hr
  · rw [hst]
    exact hpc

/-- A step that examines no byte. -/
theorem move [Abi] (h : At U heap behind R pc s) {t : State} (ha : s.address = none)
    (hs : s.move heap = t) (hr : t.reader behind = R') (hpc : t.pc = pc') :
    At U heap behind R' pc' (s.step heap) := by
  have hst : s.step heap = { t with now := s.now + 1 } := by
    unfold State.step
    rw [ha, ← hs]
  refine ⟨h.clean.step, ?_, ?_⟩
  · rw [hst]
    exact hr
  · rw [hst]
    exact hpc

/-- A step of the call in progress. -/
theorem leads [Abi] (h : At U heap behind R pc s) {P : State → Prop} (hpc : pc.isReturned = false)
    (hnext : Leads heap P (s.step heap)) : Leads heap P s := by
  refine .next ?_ hnext
  rw [h.pc]
  exact hpc

end At

/-! ## detect -/

theorem buf_of_window {j : Nat} {c : UInt8} (hc : R.window[j]? = some c) :
    R.buf[R.pos + j]? = some c := by
  rw [← hc, Reader.window, List.getElem?_drop]

theorem getElem?_of_drop {w t : Bytes} {j : Nat} {c : UInt8} (hw : w.drop j = c :: t) :
    w[j]? = some c := by
  have hget : (w.drop j)[0]? = some c := by
    rw [hw]
    rfl
  rwa [List.getElem?_drop] at hget

theorem take_eq_take_iff {w v : Bytes} {n : Nat} :
    w.take n = v.take n ↔ ∀ j < n, w[j]? = v[j]? := by
  constructor
  · intro h j hj
    have hget := congrArg (·[j]?) h
    simpa only [List.getElem?_take, if_pos hj] using hget
  · intro h
    refine List.ext_getElem? fun j => ?_
    rw [List.getElem?_take, List.getElem?_take]
    split
    · next hj => exact h j hj
    · rfl

theorem skipWs_leads [Abi] (h : At U heap behind R .skipWs s) :
    Leads heap (At U heap behind R.skipWs (.bomByte 0)) s := by
  have havail := h.avail
  induction hw : R.window generalizing R s with
  | nil =>
      have hskip : R.skipWs = R := by
        unfold Reader.skipWs
        rw [hw]
        rfl
      have ha : s.address = none := by
        rw [hw] at havail
        unfold State.avail at havail
        simp only [State.address, h.pc]
        exact if_neg (Nat.not_lt.mpr (Nat.le_of_sub_eq_zero havail))
      have hs : s.move heap = s.goto (.bomByte 0) := by simp only [State.move, h.pc]
      rw [hskip]
      exact h.leads rfl (.here (h.move ha hs h.reader rfl))
  | cons c t ih =>
      have hc : R.buf[R.pos + 0]? = some c := buf_of_window (by rw [hw]; rfl)
      have ha : s.address = some (R.pos + 0) := by
        rw [hw, List.length_cons] at havail
        unfold State.avail at havail
        simp only [State.address, h.pc]
        rw [if_pos (by omega), h.pos]
        rfl
      by_cases hws : isWs c = true
      · have hskip : R.skipWs = (R.advance 1).skipWs := by
          have hw' : (R.advance 1).window = t := by rw [Reader.window_advance, hw]; rfl
          unfold Reader.skipWs
          rw [hw', hw, List.takeWhile_cons, if_pos hws, Reader.advance_advance, List.length_cons,
            Nat.add_comm]
        have hs : s.onByte c = s.advance 1 := by
          simp only [State.onByte, h.pc]
          exact if_pos hws
        have hnext : At U heap behind (R.advance 1) .skipWs (s.step heap) :=
          h.read ha hc hs (by rw [reader_advance, h.reader]) h.pc
        rw [hskip]
        exact h.leads rfl (ih hnext hnext.avail (by rw [Reader.window_advance, hw]; rfl))
      · have hskip : R.skipWs = R := by
          unfold Reader.skipWs
          rw [hw, List.takeWhile_cons, if_neg hws]
          rfl
        have hs : s.onByte c = s.goto (.bomByte 0) := by
          simp only [State.onByte, h.pc]
          exact if_neg hws
        rw [hskip]
        exact h.leads rfl (.here (h.read ha hc hs h.reader rfl))

theorem atBom_iff : R.atBom = true ↔ ∀ j < 3, R.window[j]? = bom[j]? := by
  rw [← take_eq_take_iff]
  exact beq_iff_eq

/-- The three bytes are compared one after the other. -/
theorem bomByte_leads [Abi] {k : Nat} (hk : k < 3) (hsame : ∀ j < k, R.window[j]? = bom[j]?)
    (h : At U heap behind R (.bomByte k) s) :
    Leads heap (At U heap behind (if R.atBom = true then R.advance 3 else R)
      (if R.atBom = true then .skipWs else .checkBom)) s := by
  have havail := h.avail
  induction hd : 3 - k generalizing k s with
  | zero => omega
  | succ d ih =>
      by_cases hfew : R.window.length < 3
      · have hno : ¬ R.atBom = true := by
          intro hbom
          have h2 := atBom_iff.mp hbom 2 (by decide)
          rw [List.getElem?_eq_none (by omega)] at h2
          exact absurd h2 (by decide)
        have ha : s.address = none := by
          simp only [State.address, h.pc]
          exact if_neg (by omega)
        have hs : s.move heap = s.goto .checkBom := by simp only [State.move, h.pc]
        rw [if_neg hno, if_neg hno]
        exact h.leads rfl (.here (h.move ha hs h.reader rfl))
      · obtain ⟨c, hc⟩ : ∃ c, R.window[k]? = some c := ⟨_, List.getElem?_eq_getElem (by omega)⟩
        have ha : s.address = some (R.pos + k) := by
          simp only [State.address, h.pc]
          rw [if_pos (by omega), h.pos]
        by_cases hmatch : bom[k]? = some c
        · have hsame' : ∀ j < k + 1, R.window[j]? = bom[j]? :=
            Nat.forall_lt_succ_right.mpr ⟨hsame, hc.trans hmatch.symm⟩
          by_cases hlast : k = 2
          · subst hlast
            have hbom : R.atBom = true := atBom_iff.mpr hsame'
            have hs : s.onByte c = (s.advance 3).goto .skipWs := by
              simp only [State.onByte, h.pc, if_pos hmatch, if_true]
            rw [if_pos hbom, if_pos hbom]
            exact h.leads rfl (.here (h.read ha (buf_of_window hc) hs
              (by rw [reader_goto, reader_advance, h.reader]) rfl))
          · have hs : s.onByte c = s.goto (.bomByte (k + 1)) := by
              simp only [State.onByte, h.pc, if_pos hmatch, if_neg hlast]
            have hnext := h.read ha (buf_of_window hc) hs h.reader rfl
            exact h.leads rfl (ih (by omega) hsame' hnext hnext.avail (by omega))
        · have hno : ¬ R.atBom = true := by
            intro hbom
            exact hmatch ((atBom_iff.mp hbom k hk).symm.trans hc)
          have hs : s.onByte c = s.goto .checkBom := by
            simp only [State.onByte, h.pc, if_neg hmatch]
          rw [if_neg hno, if_neg hno]
          exact h.leads rfl (.here (h.read ha (buf_of_window hc) hs h.reader rfl))

/-- `memcmp` with the beginning of a BOM looks at all bytes at hand. -/
theorem memcmp_leads [Abi] {k : Nat} {same : Bool} (hk : k < R.window.length)
    (hsame : same = true ↔ ∀ j < k, R.window[j]? = bom[j]?)
    (h : At U heap behind R (.memcmp k same) s) :
    Leads heap (At U heap behind R
      (if ∀ j < R.window.length, R.window[j]? = bom[j]? then .fillDetect else .keyByte 0)) s := by
  have havail := h.avail
  induction hd : R.window.length - k generalizing k same s with
  | zero => omega
  | succ d ih =>
      obtain ⟨c, hc⟩ : ∃ c, R.window[k]? = some c := ⟨_, List.getElem?_eq_getElem hk⟩
      have ha : s.address = some (R.pos + k) := by
        simp only [State.address, h.pc]
        rw [h.pos]
      have hsame' : (same && decide (bom[k]? = some c)) = true ↔
          ∀ j < k + 1, R.window[j]? = bom[j]? := by
        rw [Bool.and_eq_true, decide_eq_true_eq, hsame, Nat.forall_lt_succ_right, hc,
          eq_comm (a := some c)]
      by_cases hmore : k + 1 < R.window.length
      · have hs : s.onByte c = s.goto (.memcmp (k + 1) (same && decide (bom[k]? = some c))) := by
          simp only [State.onByte, h.pc]
          exact if_pos (by omega)
        have hnext := h.read ha (buf_of_window hc) hs h.reader rfl
        exact h.leads rfl (ih hmore hsame' hnext hnext.avail (by omega))
      · have hlen : R.window.length = k + 1 := by omega
        have hs : s.onByte c = s.goto (if ∀ j < R.window.length, R.window[j]? = bom[j]? then
            .fillDetect else .keyByte 0) := by
          simp only [State.onByte, h.pc]
          rw [if_neg (by omega), hlen, if_congr hsame' rfl rfl]
          split <;> rfl
        exact h.leads rfl (.here (h.read ha (buf_of_window hc) hs h.reader rfl))

theorem judge_eq (w : Bytes) :
    Reader.judge w =
      if 0 < w.length ∧ ¬ (w.length < 3 ∧ ∀ j < w.length, w[j]? = bom[j]?) then
        if ∀ j < min w.length clKeyLen, (w.map lower)[j]? = clKey[j]? then
          if min w.length clKeyLen = clKeyLen then some .contentLength else none
        else some .ndjson
      else none := by
  have hbom : (w == bom.take w.length) = true ↔ ∀ j < w.length, w[j]? = bom[j]? := by
    rw [beq_iff_eq, ← take_eq_take_iff, List.take_length]
  unfold Reader.judge
  dsimp only
  rw [List.map_take]
  refine if_congr ?_ (if_congr take_eq_take_iff rfl rfl) rfl
  rw [Bool.and_eq_true, Bool.not_eq_true', ← Bool.not_eq_true]
  simp only [Bool.and_eq_true, decide_eq_true_eq, hbom]
  tauto

/-- Where `next` goes on when the framing is known. -/
def entry (R : Reader) : Pc :=
  if R.framing = .contentLength then .headerByte ⟨0, false, false⟩ R.pos else .memchr R.pos

theorem reader_enter (s : State) : s.enter.reader behind = s.reader behind := by
  unfold State.enter
  split <;> rfl

theorem pc_enter (s : State) : s.enter.pc = entry (s.reader behind) := by
  unfold State.enter entry
  split
  · next hcl => rw [if_pos (show (s.reader behind).framing = .contentLength from hcl)]; rfl
  · next hcl => rw [if_neg (show ¬ (s.reader behind).framing = .contentLength from hcl)]; rfl

/-- The framing is set and `next` goes on. -/
theorem At.framed [Abi] (h : At U heap behind R pc s) (f : Framing) :
    (s.setFraming f).enter.reader behind = { R with framing := f } ∧
      (s.setFraming f).enter.pc = entry { R with framing := f } := by
  have hr : (s.setFraming f).reader behind = { R with framing := f } := by
    rw [← h.reader]
    rfl
  exact ⟨by rw [reader_enter, hr], by rw [pc_enter, hr]⟩

/-- `detect` has made something of the bytes at hand, or wants more. -/
def Judged [Abi] (U : Bytes) (heap : Heap) (behind : Nat → Nat → Bytes) (R : Reader) (t : State) :
    Prop :=
  match Reader.judge R.window with
  | some f => At U heap behind { R with framing := f } (entry { R with framing := f }) t
  | none => At U heap behind R .fillDetect t

/-- A loop that compares the bytes at hand with the header key, `n` of them at most. It ends
    behind the last one or at the first that differs. -/
theorem key_leads [Abi] (loop : Nat → Pc) {n i : Nat} (hn : n ≤ R.window.length)
    (hbusy : ∀ i, (loop i).isReturned = false)
    (haddr : ∀ {t : State} {i}, t.pc = loop i → n ≤ t.avail → i < n →
      t.address = some (t.r.pos + i))
    (hstep : ∀ {t : State} {i c}, t.pc = loop i → clKey[i]? = some (lower c) →
      t.onByte c = t.goto (loop (i + 1)))
    (hi : i ≤ n) (hsame : ∀ j < i, (R.window.map lower)[j]? = clKey[j]?)
    (h : At U heap behind R (loop i) s) :
    Leads heap (fun t => ∃ i ≤ n, At U heap behind R (loop i) t ∧
      (∀ j < i, (R.window.map lower)[j]? = clKey[j]?) ∧
      (i < n → ∃ c, R.window[i]? = some c ∧ (R.window.map lower)[i]? = some (lower c) ∧
        clKey[i]? ≠ some (lower c))) s := by
  have havail := h.avail
  induction hd : n - i generalizing i s with
  | zero => exact .here ⟨i, hi, h, hsame, fun hlt => by omega⟩
  | succ d ih =>
      obtain ⟨c, hc⟩ : ∃ c, R.window[i]? = some c := ⟨_, List.getElem?_eq_getElem (by omega)⟩
      have hlower : (R.window.map lower)[i]? = some (lower c) := by
        rw [List.getElem?_map, hc]
        rfl
      by_cases hmatch : clKey[i]? = some (lower c)
      · have ha : s.address = some (R.pos + i) := by
          rw [← h.pos]
          exact haddr h.pc (by omega) (by omega)
        have hnext := h.read ha (buf_of_window hc) (hstep h.pc hmatch) h.reader rfl
        exact h.leads (hbusy i) (ih (by omega)
          (Nat.forall_lt_succ_right.mpr ⟨hsame, hlower.trans hmatch.symm⟩) hnext hnext.avail
          (by omega))
      · exact .here ⟨i, hi, h, hsame, fun _ => ⟨c, hc, hlower, hmatch⟩⟩

/-- The header key decides. -/
theorem keyByte_leads [Abi]
    (hjudge : Reader.judge R.window =
      if ∀ j < min R.window.length clKeyLen, (R.window.map lower)[j]? = clKey[j]? then
        if min R.window.length clKeyLen = clKeyLen then some .contentLength else none
      else some .ndjson)
    (h : At U heap behind R (.keyByte 0) s) : Leads heap (Judged U heap behind R) s := by
  refine (key_leads .keyByte (n := min R.window.length clKeyLen) (Nat.min_le_left _ _)
    (fun _ => rfl) ?_ ?_ (Nat.zero_le _) (fun j hj => absurd hj (Nat.not_lt_zero j)) h).trans
    fun t ht => ?_
  · intro t i hpc hn hi
    simp only [State.address, hpc]
    exact if_pos (by omega)
  · intro t i c hpc hmatch
    simp only [State.onByte, hpc, if_pos hmatch]
  · obtain ⟨i, hi, hat, hsame, hdiffer⟩ := ht
    have havail := hat.avail
    unfold Judged
    by_cases hend : i = min R.window.length clKeyLen
    · have ha : t.address = none := by
        simp only [State.address, hat.pc, havail]
        exact if_neg (by omega)
      rw [hjudge, if_pos (hend ▸ hsame)]
      by_cases hfull : min R.window.length clKeyLen = clKeyLen
      · have hs : t.move heap = (t.setFraming .contentLength).enter := by
          simp only [State.move, hat.pc, havail, if_pos hfull]
        obtain ⟨hr, hpc⟩ := hat.framed .contentLength
        rw [if_pos hfull]
        exact hat.leads rfl (.here (hat.move ha hs hr hpc))
      · have hs : t.move heap = t.goto .fillDetect := by
          simp only [State.move, hat.pc, havail, if_neg hfull]
        rw [if_neg hfull]
        exact hat.leads rfl (.here (hat.move ha hs hat.reader rfl))
    · obtain ⟨c, hc, hlower, hmatch⟩ := hdiffer (by omega)
      have hno : ¬ ∀ j < min R.window.length clKeyLen,
          (R.window.map lower)[j]? = clKey[j]? := by
        intro hall
        exact hmatch ((hall i (by omega)).symm.trans hlower)
      have ha : t.address = some (R.pos + i) := by
        simp only [State.address, hat.pc, havail]
        rw [if_pos (by omega), hat.pos]
      have hs : t.onByte c = (t.setFraming .ndjson).enter := by
        simp only [State.onByte, hat.pc, if_neg hmatch]
      obtain ⟨hr, hpc⟩ := hat.framed .ndjson
      rw [hjudge, if_neg hno]
      exact hat.leads rfl (.here (hat.read ha (buf_of_window hc) hs hr hpc))

theorem checkBom_leads [Abi] (h : At U heap behind R .checkBom s) :
    Leads heap (Judged U heap behind R) s := by
  have havail := h.avail
  have hjudge := judge_eq R.window
  have ha : s.address = none := by simp only [State.address, h.pc]
  by_cases h0 : 0 < R.window.length
  · by_cases h3 : R.window.length < 3
    · have hs : s.move heap = s.goto (.memcmp 0 true) := by
        simp only [State.move, h.pc, havail]
        exact if_pos ⟨h0, h3⟩
      have hnext := h.move ha hs h.reader rfl
      refine h.leads rfl ((memcmp_leads h0 (by simp) hnext).trans fun t ht => ?_)
      split at ht
      · next hall =>
          rw [if_neg fun hc => hc.2 ⟨h3, hall⟩] at hjudge
          refine .here ?_
          unfold Judged
          rw [hjudge]
          exact ht
      · next hall =>
          rw [if_pos ⟨h0, fun hc => hall hc.2⟩] at hjudge
          exact keyByte_leads hjudge ht
    · have hs : s.move heap = s.goto (.keyByte 0) := by
        simp only [State.move, h.pc, havail]
        rw [if_neg fun hc => h3 hc.2, if_pos h0]
      have hnext := h.move ha hs h.reader rfl
      rw [if_pos ⟨h0, fun hc => h3 hc.1⟩] at hjudge
      exact h.leads rfl (keyByte_leads hjudge hnext)
  · have hs : s.move heap = s.goto .fillDetect := by
      simp only [State.move, h.pc, havail]
      rw [if_neg fun hc => h0 hc.1, if_neg h0]
    rw [if_neg fun hc => h0 hc.1] at hjudge
    refine h.leads rfl (.here ?_)
    unfold Judged
    rw [hjudge]
    exact h.move ha hs h.reader rfl

/-- What a fill of the struct gives. -/
theorem At.fill [Abi] (h : At U heap behind R pc s) :
    (s.fill heap).1 = R.fill.1 ∧ (s.fill heap).2.reader behind = R.fill.2 := by
  have hfill := reader_fill behind h.clean.inv.coherent h.clean.grants
  rw [h.reader] at hfill
  exact hfill

/-- `detect` wants more bytes. -/
theorem fillDetect_leads [Abi] (h : At U heap behind R .fillDetect s) :
    Leads heap (fun t =>
      if R.fill.1 = true then At U heap behind R.fill.2 .skipWs t
      else if R.fill.2.window ≠ [] then
        At U heap behind { R.fill.2 with framing := .ndjson }
          (entry { R.fill.2 with framing := .ndjson }) t
      else At U heap behind R.fill.2 (.returned none) t) s := by
  obtain ⟨hok, hr⟩ := h.fill
  have hinv := h.clean.inv.coherent.fill heap
  have ha : s.address = none := by simp only [State.address, h.pc]
  by_cases hf : R.fill.1 = true
  · have hs : s.move heap = (s.fill heap).2.goto .skipWs := by
      simp only [State.move, h.pc, hok, if_pos hf]
    refine h.leads rfl (.here ?_)
    rw [if_pos hf]
    exact h.move ha hs hr rfl
  · have hleft : (s.fill heap).2.r.pos < (s.fill heap).2.r.len ↔ R.fill.2.window ≠ [] := by
      rw [← hr, reader_window behind hinv.1, ← List.length_pos_iff, length_window]
      exact Nat.sub_pos_iff_lt.symm
    by_cases hw : R.fill.2.window ≠ []
    · have hs : s.move heap = ((s.fill heap).2.setFraming .ndjson).enter := by
        simp only [State.move, h.pc, hok, if_neg hf, if_pos (hleft.mpr hw)]
      have hr' : ((s.fill heap).2.setFraming .ndjson).reader behind =
          { R.fill.2 with framing := .ndjson } := by
        rw [← hr]
        rfl
      refine h.leads rfl (.here ?_)
      rw [if_neg hf, if_pos hw]
      exact h.move ha hs (by rw [reader_enter, hr']) (by rw [pc_enter, hr'])
    · have hs : s.move heap = (s.fill heap).2.goto (.returned none) := by
        simp only [State.move, h.pc, hok, if_neg hf, if_neg (mt hleft.mp hw)]
      refine h.leads rfl (.here ?_)
      rw [if_neg hf, if_neg hw]
      exact h.move ha hs hr rfl

/-- One round of `detect`, from the BOM on. -/
theorem round_leads [Abi] (h : At U heap behind R .skipWs s) :
    Leads heap (fun t =>
      if R.skipWs.atBom = true then At U heap behind (R.skipWs.advance 3) .skipWs t
      else Judged U heap behind R.skipWs t) s := by
  refine (skipWs_leads h).trans fun t ht => ?_
  refine (bomByte_leads (by decide) (fun j hj => absurd hj (Nat.not_lt_zero j)) ht).trans
    fun u hu => ?_
  by_cases hb : R.skipWs.atBom = true
  · rw [if_pos hb, if_pos hb] at hu
    refine .here ?_
    rw [if_pos hb]
    exact hu
  · rw [if_neg hb, if_neg hb] at hu
    refine (checkBom_leads hu).mono fun v hv => ?_
    rw [if_neg hb]
    exact hv

/-- `detect` as a whole. -/
theorem detect_leads [Abi] (h : At U heap behind R .skipWs s) :
    Leads heap (At U heap behind R.detect.2
      (if R.detect.1 = true then entry R.detect.2 else .returned none)) s := by
  fun_induction Reader.detect R generalizing s with
  | case1 R hb ih =>
      refine (round_leads h).trans fun t ht => ?_
      rw [if_pos hb] at ht
      exact ih ht
  | case2 R hb f hj =>
      refine (round_leads h).mono fun t ht => ?_
      rw [if_neg hb, Judged, hj] at ht
      exact ht
  | case3 R hb hj hf ih =>
      refine (round_leads h).trans fun t ht => ?_
      rw [if_neg hb, Judged, hj] at ht
      refine (fillDetect_leads ht).trans fun u hu => ?_
      rw [if_pos hf] at hu
      exact ih hu
  | case4 R hb hj hf hw =>
      refine (round_leads h).trans fun t ht => ?_
      rw [if_neg hb, Judged, hj] at ht
      refine (fillDetect_leads ht).mono fun u hu => ?_
      rw [if_neg hf, if_pos hw] at hu
      exact hu
  | case5 R hb hj hf hw =>
      refine (round_leads h).trans fun t ht => ?_
      rw [if_neg hb, Judged, hj] at ht
      refine (fillDetect_leads ht).mono fun u hu => ?_
      rw [if_neg hf, if_neg hw] at hu
      exact hu

/-! ## take -/

/-- The bytes from `start` to `stop`. -/
def cut (R : Reader) (start stop : Nat) : Bytes := (R.buf.take stop).drop start

theorem cut_succ (R : Reader) (start : Nat) {stop : Nat} (hlt : start < stop)
    (hstop : stop ≤ R.buf.length) :
    ∃ c, R.buf[start]? = some c ∧ cut R start stop = c :: cut R (start + 1) stop := by
  have hc : R.buf[start]? = some R.buf[start] := List.getElem?_eq_getElem (by omega)
  refine ⟨_, hc, ?_⟩
  unfold cut
  rw [List.drop_eq_getElem_cons (by rw [List.length_take]; omega), List.getElem_take]

theorem cut_self {start stop : Nat} (h : stop ≤ start) : cut R start stop = [] :=
  List.drop_eq_nil_of_le (Nat.le_trans (List.length_take_le _ _) h)

theorem length_cut {start stop : Nat} (hstop : stop ≤ R.buf.length) :
    (cut R start stop).length = stop - start := by
  unfold cut
  rw [List.length_drop, List.length_take, Nat.min_eq_left hstop]

theorem cut_eq_nil_iff {start stop : Nat} (hle : start ≤ stop) (hstop : stop ≤ R.buf.length) :
    cut R start stop = [] ↔ stop = start := by
  rw [← List.length_eq_zero_iff, length_cut hstop]
  omega

theorem cut_window (j : Nat) : cut R R.pos (R.pos + j) = R.window.take j := by
  unfold cut Reader.window
  rw [List.drop_take, Nat.add_sub_cancel_left]

theorem memcpy_leads [Abi] {i stop after : Nat} {out : Bytes} (hi : i ≤ stop)
    (hstop : stop ≤ R.buf.length) (h : At U heap behind R (.memcpy i stop out after) s) :
    Leads heap (At U heap behind (R.advance after) (.returned (some (out ++ cut R i stop)))) s := by
  induction hd : stop - i generalizing i out s with
  | zero =>
      have ha : s.address = none := by
        simp only [State.address, h.pc]
        exact if_neg (by omega)
      have hs : s.move heap = (s.advance after).goto (.returned (some out)) := by
        simp only [State.move, h.pc]
      rw [cut_self (by omega), List.append_nil]
      exact h.leads rfl (.here (h.move ha hs (by rw [reader_goto, reader_advance, h.reader]) rfl))
  | succ d ih =>
      obtain ⟨c, hc, hcut⟩ := cut_succ R i (by omega) hstop
      have ha : s.address = some i := by
        simp only [State.address, h.pc]
        exact if_pos (by omega)
      have hs : s.onByte c = s.goto (.memcpy (i + 1) stop (out ++ [c]) after) := by
        simp only [State.onByte, h.pc]
      have hrest := ih (by omega) (h.read ha hc hs h.reader rfl) (by omega)
      rw [List.append_assoc, List.singleton_append, ← hcut] at hrest
      exact h.leads rfl hrest

/-- `take` copies the bytes and the call returns them. -/
theorem take_leads [Abi] {start len after : Nat} (hstop : start + len ≤ R.buf.length)
    (h : At U heap behind R (.take start len after) s) :
    Leads heap (At U heap behind (R.advance after)
      (.returned (some (cut R start (start + len))))) s := by
  have ha : s.address = none := by simp only [State.address, h.pc]
  have hs : s.move heap = s.goto (.memcpy start (start + len) [] after) := by
    simp only [State.move, h.pc]
    exact if_pos (h.clean.grants _)
  exact h.leads rfl (memcpy_leads (Nat.le_add_right _ _) hstop (h.move ha hs h.reader rfl))

end Bytewise

end DisplayxrMcp.Stdio
