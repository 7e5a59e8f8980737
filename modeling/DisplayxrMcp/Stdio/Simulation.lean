/-
  The byte-by-byte reader computes what Reader.lean says.

  `next_ndjson` and `next_content_length` are followed as `detect` is in
  Abstraction.lean; `call_leads` puts the parts together. In a run whose calls of
  `strtoul` stay inside, and with enough memory, every call returns, and returns what
  `Reader.next` returns on the bytes (`run_after`).
-/
import DisplayxrMcp.Stdio.Abstraction

namespace DisplayxrMcp.Stdio

open Lib

/-! ## One round of a loop of the reader -/

namespace Reader

variable {r : Reader}

theorem nextNdjson_of_some {scanned k : Nat} (hk : memchrLf (r.window.drop scanned) = some k) :
    r.nextNdjson scanned =
      if trim (r.window.take (scanned + k)) = [] then
        (r.advance (scanned + k + 1)).nextNdjson 0
      else if (trim (r.window.take (scanned + k))).length > maxMessageBytes then
        (none, r.advance (scanned + k + 1))
      else (some (trim (r.window.take (scanned + k))), r.advance (scanned + k + 1)) := by
  conv_lhs => unfold nextNdjson
  split
  · next k' hk' =>
      rw [hk] at hk'
      cases hk'
      rfl
  · next hk' =>
      rw [hk] at hk'
      cases hk'

theorem nextNdjson_of_none {scanned : Nat} (hk : memchrLf (r.window.drop scanned) = none) :
    r.nextNdjson scanned =
      if r.fill.1 = true then r.fill.2.nextNdjson r.window.length
      else if trim r.fill.2.window = [] || !r.fill.2.eof then
        (none, r.fill.2.advance r.fill.2.window.length)
      else (some (trim r.fill.2.window), r.fill.2.advance r.fill.2.window.length) := by
  conv_lhs => unfold nextNdjson
  split
  · next k' hk' =>
      rw [hk] at hk'
      cases hk'
  · rfl

theorem memchrLf_cons_ne {c : UInt8} (hc : c ≠ 10) (t : Bytes) :
    memchrLf (c :: t) = (memchrLf t).map (· + 1) := by
  unfold memchrLf
  rw [List.findIdx?_cons, if_neg (by rw [beq_iff_eq]; exact hc)]

theorem nextContentLength_of_some [Abi] {k : Nat} (hk : memchrLf r.window = some k) (h : Headers) :
    r.nextContentLength h =
      if blankLine (r.window.take (k + 1)) then
        if h.anyHeader then (r.advance (k + 1)).body h
        else (r.advance (k + 1)).nextContentLength h
      else (r.advance (k + 1)).nextContentLength (h.add (r.window.take (k + 1)) r.memory) := by
  conv_lhs => unfold nextContentLength
  simp only [pastLine, line, headerLine_of_some hk]
  rfl

theorem nextContentLength_long [Abi] (hk : memchrLf r.window = none)
    (hlong : r.window.length > 1024) (h : Headers) : r.nextContentLength h = (none, r) := by
  have hl := headerLine_of_none hk
  rw [if_pos hlong] at hl
  conv_lhs => unfold nextContentLength
  simp only [hl]
  rfl

theorem nextContentLength_fill [Abi] (hk : memchrLf r.window = none) (hle : r.window.length ≤ 1024)
    (h : Headers) :
    r.nextContentLength h =
      if r.fill.1 = true then r.fill.2.nextContentLength h else (none, r.fill.2) := by
  have hl := headerLine_of_none hk
  rw [if_neg (Nat.not_lt.mpr hle)] at hl
  by_cases hf : r.fill.1 = true
  · rw [dif_pos hf] at hl
    rw [if_pos hf]
    conv_lhs => unfold nextContentLength
    conv_rhs => unfold nextContentLength
    simp only [pastLine, line, hl]
    rfl
  · rw [dif_neg hf] at hl
    rw [if_neg hf]
    conv_lhs => unfold nextContentLength
    simp only [hl]
    rfl

end Reader

namespace Bytewise

open Lib.Cells

variable {U : Bytes} {heap : Heap} {behind : Nat → Nat → Bytes} {s : State} {R : Reader} {pc : Pc}

/-! ## next_ndjson -/

theorem getElem?_memchrLf {w : Bytes} {j k : Nat} (hk : memchrLf (w.drop j) = some k) :
    w[j + k]? = some 10 := by
  obtain ⟨hlt, hlf, -⟩ := List.findIdx?_eq_some_iff_getElem.mp hk
  rw [← List.getElem?_drop, List.getElem?_eq_getElem hlt, eq_of_beq hlf]

/-- A loop that looks for a line feed. It ends there, or behind the bytes at hand. -/
theorem scan_leads [Abi] (loop : Nat → Pc) {j : Nat} (hbusy : ∀ i, (loop i).isReturned = false)
    (haddr : ∀ {t : State} {i}, t.pc = loop i → i < t.r.len → t.address = some i)
    (hstep : ∀ {t : State} {i c}, t.pc = loop i → c ≠ 10 → t.onByte c = t.goto (loop (i + 1)))
    (hj : R.pos + j ≤ R.buf.length) (h : At U heap behind R (loop (R.pos + j)) s) :
    Leads heap (At U heap behind R (loop (match memchrLf (R.window.drop j) with
      | some k => R.pos + (j + k)
      | none => R.buf.length))) s := by
  have hlen := h.len
  have hwindow : R.window.length = R.buf.length - R.pos := List.length_drop
  induction hw : R.window.drop j generalizing j s with
  | nil =>
      have hend : R.window.length ≤ j := List.drop_eq_nil_iff.mp hw
      rw [show R.pos + j = R.buf.length by omega] at h
      exact .here h
  | cons c t ih =>
      have hc : R.window[j]? = some c := getElem?_of_drop hw
      have hlt : R.pos + j < R.buf.length :=
        (List.getElem?_eq_some_iff.mp (buf_of_window hc)).1
      by_cases hlf : c = 10
      · have hfound : memchrLf (c :: t) = some 0 := by
          subst hlf
          rfl
        rw [hfound]
        exact .here h
      · have hw' : R.window.drop (j + 1) = t := by
          rw [← List.drop_drop, hw]
          rfl
        have hnext : At U heap behind R (loop (R.pos + (j + 1))) (s.step heap) :=
          h.read (haddr h.pc (by omega)) (buf_of_window hc) (hstep h.pc hlf) h.reader rfl
        have hrest := ih hlt hnext hnext.len hw'
        rw [Reader.memchrLf_cons_ne hlf]
        cases hk : memchrLf t with
        | none =>
            rw [hk] at hrest
            exact h.leads (hbusy _) hrest
        | some k =>
            rw [hk] at hrest
            simp only [Option.map_some]
            rw [show j + (k + 1) = j + 1 + k by omega]
            exact h.leads (hbusy _) hrest

/-- `memchr` finds a line feed, or there is none and more is read. -/
theorem memchr_leads [Abi] {j : Nat} (hj : R.pos + j ≤ R.buf.length)
    (h : At U heap behind R (.memchr (R.pos + j)) s) :
    Leads heap (fun t => match memchrLf (R.window.drop j) with
      | some k => At U heap behind (R.advance (j + k + 1))
          (.trimStart R.pos (R.pos + (j + k)) false) t
      | none => At U heap behind R .fillNdjson t) s := by
  refine (scan_leads .memchr (fun _ => rfl) ?_ ?_ hj h).trans fun t ht => ?_
  · intro t i hpc hi
    simp only [State.address, hpc, if_pos hi]
  · intro t i c hpc hc
    simp only [State.onByte, hpc, if_neg hc]
  · have hlen := ht.len
    cases hk : memchrLf (R.window.drop j) with
    | none =>
        simp only [hk] at ht
        have ha : t.address = none := by
          simp only [State.address, ht.pc]
          exact if_neg (by omega)
        have hs : t.move heap = t.goto .fillNdjson := by simp only [State.move, ht.pc]
        exact ht.leads rfl (.here (ht.move ha hs ht.reader rfl))
    | some k =>
        simp only [hk] at ht
        have hc := buf_of_window (getElem?_memchrLf hk)
        have hlt := (List.getElem?_eq_some_iff.mp hc).1
        have ha : t.address = some (R.pos + (j + k)) := by
          simp only [State.address, ht.pc]
          exact if_pos (by omega)
        have hs : t.onByte 10 =
            (t.advance (j + k + 1)).goto (.trimStart R.pos (R.pos + (j + k)) false) := by
          simp only [State.onByte, ht.pc, if_true, ht.pos]
          rw [show R.pos + (j + k) + 1 - R.pos = j + k + 1 by omega]
        exact ht.leads rfl (.here (ht.read ha hc hs
          (by rw [reader_goto, reader_advance, ht.reader]) rfl))

theorem trimStart_leads [Abi] {start stop : Nat} {last : Bool} (hle : start ≤ stop)
    (hstop : stop ≤ R.buf.length) (h : At U heap behind R (.trimStart start stop last) s) :
    Leads heap (fun t => ∃ a, a ≤ stop ∧ cut R a stop = (cut R start stop).dropWhile isWs ∧
      At U heap behind R (.trimStop a stop last) t) s := by
  induction hd : stop - start generalizing start s with
  | zero =>
      have ha : s.address = none := by
        simp only [State.address, h.pc]
        exact if_neg (by omega)
      have hs : s.move heap = s.goto (.trimStop start stop last) := by simp only [State.move, h.pc]
      refine h.leads rfl (.here ⟨start, hle, ?_, h.move ha hs h.reader rfl⟩)
      rw [cut_self (by omega)]
      rfl
  | succ d ih =>
      obtain ⟨c, hc, hcut⟩ := cut_succ R start (by omega) hstop
      have ha : s.address = some start := by
        simp only [State.address, h.pc]
        exact if_pos (by omega)
      by_cases hws : isWs c = true
      · have hs : s.onByte c = s.goto (.trimStart (start + 1) stop last) := by
          simp only [State.onByte, h.pc, if_pos hws]
        rw [hcut, List.dropWhile_cons, if_pos hws]
        exact h.leads rfl (ih (by omega) (h.read ha hc hs h.reader rfl) (by omega))
      · have hs : s.onByte c = s.goto (.trimStop start stop last) := by
          simp only [State.onByte, h.pc, if_neg hws]
        refine h.leads rfl (.here ⟨start, hle, ?_, h.read ha hc hs h.reader rfl⟩)
        rw [hcut, List.dropWhile_cons, if_neg hws]

theorem cut_pred (R : Reader) (start : Nat) {stop : Nat} (hlt : start < stop)
    (hstop : stop ≤ R.buf.length) :
    ∃ c, R.buf[stop - 1]? = some c ∧ cut R start stop = cut R start (stop - 1) ++ [c] := by
  obtain ⟨n, rfl⟩ : ∃ n, stop = n + 1 := ⟨stop - 1, by omega⟩
  have hc : R.buf[n]? = some R.buf[n] := List.getElem?_eq_getElem hstop
  refine ⟨_, hc, ?_⟩
  unfold cut
  rw [Nat.add_sub_cancel, List.take_add_one, hc, Option.toList_some,
    List.drop_append_of_le_length (by rw [List.length_take]; omega)]

theorem trimStop_leads [Abi] {start stop : Nat} {last : Bool} (hle : start ≤ stop)
    (hstop : stop ≤ R.buf.length) (h : At U heap behind R (.trimStop start stop last) s) :
    Leads heap (fun t => ∃ b, start ≤ b ∧ b ≤ stop ∧
      cut R start b = (cut R start stop).rdropWhile isWs ∧
      At U heap behind R (.trimmed start b last) t) s := by
  induction hd : stop - start generalizing stop s with
  | zero =>
      have ha : s.address = none := by
        simp only [State.address, h.pc]
        exact if_neg (by omega)
      have hs : s.move heap = s.goto (.trimmed start stop last) := by simp only [State.move, h.pc]
      refine h.leads rfl (.here ⟨stop, hle, Nat.le_refl _, ?_, h.move ha hs h.reader rfl⟩)
      rw [cut_self (by omega)]
      rfl
  | succ d ih =>
      obtain ⟨c, hc, hcut⟩ := cut_pred R start (by omega) hstop
      have ha : s.address = some (stop - 1) := by
        simp only [State.address, h.pc]
        exact if_pos (by omega)
      by_cases hws : isWs c = true
      · have hs : s.onByte c = s.goto (.trimStop start (stop - 1) last) := by
          simp only [State.onByte, h.pc, if_pos hws]
        rw [hcut, List.rdropWhile_concat_pos _ _ _ hws]
        refine h.leads rfl ((ih (by omega) (by omega) (h.read ha hc hs h.reader rfl)
          (by omega)).mono fun t ht => ?_)
        obtain ⟨b, hb, hbs, hrest⟩ := ht
        exact ⟨b, hb, Nat.le_trans hbs (Nat.sub_le _ _), hrest⟩
      · have hs : s.onByte c = s.goto (.trimmed start stop last) := by
          simp only [State.onByte, h.pc, if_neg hws]
        refine h.leads rfl (.here ⟨stop, hle, Nat.le_refl _, ?_, h.read ha hc hs h.reader rfl⟩)
        rw [hcut, List.rdropWhile_concat_neg _ _ _ hws]

/-- The two loops that trim a line. -/
theorem trim_leads [Abi] {start stop : Nat} {last : Bool} (hle : start ≤ stop)
    (hstop : stop ≤ R.buf.length) (h : At U heap behind R (.trimStart start stop last) s) :
    Leads heap (fun t => ∃ a b, a ≤ b ∧ b ≤ R.buf.length ∧ cut R a b = trim (cut R start stop) ∧
      At U heap behind R (.trimmed a b last) t) s := by
  refine (trimStart_leads hle hstop h).trans fun t ht => ?_
  obtain ⟨a, ha, hcut, hat⟩ := ht
  refine (trimStop_leads ha hstop hat).mono fun u hu => ?_
  obtain ⟨b, hb, hbs, hcut', hau⟩ := hu
  refine ⟨a, b, hb, Nat.le_trans hbs hstop, ?_, hau⟩
  rw [hcut', hcut]
  rfl

/-- A line is trimmed and taken, or the next one is looked at, or it is too long. -/
theorem line_leads [Abi] {start stop : Nat} (hle : start ≤ stop) (hstop : stop ≤ R.buf.length)
    (h : At U heap behind R (.trimStart start stop false) s) :
    Leads heap (At U heap behind R
      (if trim (cut R start stop) = [] then .memchr R.pos
      else if (trim (cut R start stop)).length > maxMessageBytes then .returned none
      else .returned (some (trim (cut R start stop))))) s := by
  refine (trim_leads hle hstop h).trans fun t ht => ?_
  obtain ⟨a, b, hab, hb, hcut, hat⟩ := ht
  have hlen : (trim (cut R start stop)).length = b - a := by rw [← hcut, length_cut hb]
  have ha : t.address = none := by simp only [State.address, hat.pc]
  have hnil : trim (cut R start stop) = [] ↔ b = a := by rw [← hcut, cut_eq_nil_iff hab hb]
  by_cases hempty : b = a
  · have hs : t.move heap = t.goto (.memchr R.pos) := by
      simp only [State.move, hat.pc, if_pos hempty, hat.pos]
    rw [if_pos (hnil.mpr hempty)]
    exact hat.leads rfl (.here (hat.move ha hs hat.reader rfl))
  · rw [if_neg (mt hnil.mp hempty), hlen]
    by_cases hbig : b - a > maxMessageBytes
    · have hs : t.move heap = t.goto (.returned none) := by
        simp only [State.move, hat.pc, if_neg hempty, if_pos hbig]
      rw [if_pos hbig]
      exact hat.leads rfl (.here (hat.move ha hs hat.reader rfl))
    · have hs : t.move heap = t.goto (.take a (b - a) 0) := by
        simp only [State.move, hat.pc, if_neg hempty, if_neg hbig]
      have htake := take_leads (by omega) (hat.move ha hs hat.reader rfl)
      rw [Nat.add_sub_of_le hab, hcut] at htake
      rw [if_neg hbig]
      exact hat.leads rfl htake

/-- The last line, without a line feed, is taken at the end of the stream. -/
theorem last_leads [Abi] (h : At U heap behind R (.trimStart R.pos R.buf.length true) s) :
    Leads heap (At U heap behind (R.advance R.window.length)
      (.returned (if trim R.window = [] || !R.eof then none else some (trim R.window)))) s := by
  have hpos := h.posLe
  have hwhole : cut R R.pos R.buf.length = R.window := by
    have hlen : R.window.length = R.buf.length - R.pos := List.length_drop
    rw [← Nat.add_sub_of_le hpos, ← hlen, cut_window, List.take_length]
  refine (trim_leads hpos (Nat.le_refl _) h).trans fun t ht => ?_
  obtain ⟨a, b, hab, hb, hcut, hat⟩ := ht
  rw [hwhole] at hcut
  have ha : t.address = none := by simp only [State.address, hat.pc]
  have heof : t.r.eof = R.eof := by rw [← hat.reader]; rfl
  have hr : (t.advance t.avail).reader behind = R.advance R.window.length := by
    rw [reader_advance, hat.reader, hat.avail]
  have hcond : (trim R.window = [] || !R.eof) = true ↔ b = a ∨ t.r.eof = false := by
    rw [Bool.or_eq_true, decide_eq_true_eq, Bool.not_eq_true', heof, ← hcut, cut_eq_nil_iff hab hb]
  by_cases hnone : b = a ∨ t.r.eof = false
  · have hs : t.move heap = (t.advance t.avail).goto (.returned none) := by
      simp only [State.move, hat.pc]
      exact if_pos hnone
    rw [if_pos (hcond.mpr hnone)]
    exact hat.leads rfl (.here (hat.move ha hs hr rfl))
  · have hs : t.move heap = (t.advance t.avail).goto (.take a (b - a) 0) := by
      simp only [State.move, hat.pc]
      exact if_neg hnone
    have htake := take_leads (by
      show a + (b - a) ≤ R.buf.length
      omega) (hat.move ha hs hr rfl)
    rw [Nat.add_sub_of_le hab] at htake
    have hcut' : cut (R.advance R.window.length) a b = trim R.window := hcut
    rw [hcut'] at htake
    rw [if_neg (mt hcond.mp hnone)]
    exact hat.leads rfl htake

theorem fillNdjson_leads [Abi] (h : At U heap behind R .fillNdjson s) :
    Leads heap (At U heap behind R.fill.2
      (if R.fill.1 = true then .memchr (R.fill.2.pos + R.window.length)
      else .trimStart R.fill.2.pos R.fill.2.buf.length true)) s := by
  obtain ⟨hok, hr⟩ := h.fill
  have hpos : (s.fill heap).2.r.pos = R.fill.2.pos := by
    rw [← hr]
    rfl
  have hlen : (s.fill heap).2.r.len = R.fill.2.buf.length := by
    rw [← hr]
    exact (length_slice _ _ _).symm
  have ha : s.address = none := by simp only [State.address, h.pc]
  by_cases hf : R.fill.1 = true
  · have hs : s.move heap =
        (s.fill heap).2.goto (.memchr (R.fill.2.pos + R.window.length)) := by
      simp only [State.move, h.pc, hok, if_pos hf, hpos, h.avail]
    rw [if_pos hf]
    exact h.leads rfl (.here (h.move ha hs hr rfl))
  · have hs : s.move heap =
        (s.fill heap).2.goto (.trimStart R.fill.2.pos R.fill.2.buf.length true) := by
      simp only [State.move, h.pc, hok, if_neg hf, hpos, hlen]
    rw [if_neg hf]
    exact h.leads rfl (.here (h.move ha hs hr rfl))

/-- A fill keeps the bytes at hand. -/
theorem At.fill_room [Abi] (h : At U heap behind R pc s) :
    R.fill.2.pos + R.window.length ≤ R.fill.2.buf.length := by
  obtain ⟨hc, hmore⟩ := h.clean.inv.coherent.fill heap
  have hw := reader_window behind hc
  have hpos := hc.posLe
  rw [h.fill.2] at hw
  have hlen : R.fill.2.window.length = R.fill.2.buf.length - R.fill.2.pos := List.length_drop
  have hlen' : R.fill.2.buf.length = (s.fill heap).2.r.len := by
    rw [← h.fill.2]
    exact length_slice _ _ _
  have hpos' : R.fill.2.pos = (s.fill heap).2.r.pos := by
    rw [← h.fill.2]
    rfl
  rw [hw, length_window] at hlen
  rw [h.avail] at hmore
  omega

/-- `next_ndjson` as a whole. -/
theorem nextNdjson_leads [Abi] {scanned : Nat} (hscanned : R.pos + scanned ≤ R.buf.length)
    (h : At U heap behind R (.memchr (R.pos + scanned)) s) :
    Leads heap (At U heap behind (R.nextNdjson scanned).2
      (.returned (R.nextNdjson scanned).1)) s := by
  induction hl : R.left using Nat.strong_induction_on generalizing R s scanned with
  | h l ih =>
      subst hl
      refine (memchr_leads hscanned h).trans fun t ht => ?_
      cases hk : memchrLf (R.window.drop scanned) with
      | some k =>
          rw [hk] at ht
          have hwindow : R.window.length = R.buf.length - R.pos := List.length_drop
          have hlt := Reader.memchrLf_lt hk
          rw [List.length_drop] at hlt
          rw [Reader.nextNdjson_of_some hk]
          have hcut : cut (R.advance (scanned + k + 1)) R.pos (R.pos + (scanned + k)) =
              R.window.take (scanned + k) := cut_window _
          have hline := line_leads (R := R.advance (scanned + k + 1)) (Nat.le_add_right _ _)
            (show R.pos + (scanned + k) ≤ R.buf.length by omega) ht
          rw [hcut] at hline
          refine hline.trans fun u hu => ?_
          by_cases hblank : trim (R.window.take (scanned + k)) = []
          · rw [if_pos hblank] at hu ⊢
            have hless : (R.advance (scanned + k + 1)).left < R.left :=
              Reader.left_advance (Nat.succ_pos _) (by omega)
            exact ih _ hless (show R.pos + (scanned + k + 1) + 0 ≤ R.buf.length by omega) hu rfl
          · rw [if_neg hblank] at hu ⊢
            split at hu
            · next hbig =>
                rw [if_pos hbig]
                exact .here hu
            · next hbig =>
                rw [if_neg hbig]
                exact .here hu
      | none =>
          rw [hk] at ht
          have hroom := ht.fill_room
          rw [Reader.nextNdjson_of_none hk]
          refine (fillNdjson_leads ht).trans fun u hu => ?_
          by_cases hf : R.fill.1 = true
          · rw [if_pos hf] at hu ⊢
            exact ih _ (Reader.left_fill hf) hroom hu rfl
          · rw [if_neg hf] at hu ⊢
            have hlast := last_leads hu
            split at hlast
            · next hnone =>
                rw [if_pos hnone]
                exact hlast
            · next hsome =>
                rw [if_neg hsome]
                exact hlast

/-! ## next_content_length -/

/-- `header_line` finds a line feed among the bytes at hand, or there is none. -/
theorem headerByte_leads [Abi] {v : Reader.Headers}
    (h : At U heap behind R (.headerByte v R.pos) s) :
    Leads heap (At U heap behind R (match memchrLf R.window with
      | some k => .blank v (k + 1)
      | none => .headerByte v R.buf.length)) s := by
  have h0 : At U heap behind R (.headerByte v (R.pos + 0)) s := h
  refine (scan_leads (.headerByte v) (fun _ => rfl) ?_ ?_ (show R.pos + 0 ≤ _ from h.posLe)
    h0).trans fun t ht => ?_
  · intro t i hpc hi
    simp only [State.address, hpc, if_pos hi]
  · intro t i c hpc hc
    simp only [State.onByte, hpc, if_neg hc]
  · have hlen := ht.len
    rw [List.drop_zero] at ht
    cases hk : memchrLf R.window with
    | none =>
        simp only [hk] at ht
        exact .here ht
    | some k =>
        simp only [hk, Nat.zero_add] at ht
        have hlf : R.window[0 + k]? = some 10 := getElem?_memchrLf hk
        rw [Nat.zero_add] at hlf
        have hc := buf_of_window hlf
        have hlt := (List.getElem?_eq_some_iff.mp hc).1
        have ha : t.address = some (R.pos + k) := by
          simp only [State.address, ht.pc]
          exact if_pos (by omega)
        have hs : t.onByte 10 = t.goto (.blank v (k + 1)) := by
          simp only [State.onByte, ht.pc, if_true, ht.pos]
          rw [Nat.add_sub_cancel_left]
        exact ht.leads rfl (.here (ht.read ha hc hs ht.reader rfl))

/-- No line feed in the bytes at hand. -/
theorem noLine_leads [Abi] {v : Reader.Headers}
    (h : At U heap behind R (.headerByte v R.buf.length) s) :
    Leads heap (fun t =>
      if R.window.length > 1024 then At U heap behind R (.returned none) t
      else At U heap behind R.fill.2
        (if R.fill.1 = true then .headerByte v R.fill.2.pos else .returned none) t) s := by
  have havail := h.avail
  have hlen := h.len
  have ha : s.address = none := by
    simp only [State.address, h.pc]
    exact if_neg (by omega)
  by_cases hlong : R.window.length > 1024
  · have hs : s.move heap = s.goto (.returned none) := by
      simp only [State.move, h.pc, havail, if_pos hlong]
    refine h.leads rfl (.here ?_)
    rw [if_pos hlong]
    exact h.move ha hs h.reader rfl
  · have hs : s.move heap = s.goto (.fillHeader v) := by
      simp only [State.move, h.pc, havail, if_neg hlong]
    have hfill : At U heap behind R (.fillHeader v) (s.step heap) := h.move ha hs h.reader rfl
    refine h.leads rfl ?_
    obtain ⟨hok, hr⟩ := hfill.fill
    have ha' : (s.step heap).address = none := by simp only [State.address, hfill.pc]
    have hpos : ((s.step heap).fill heap).2.r.pos = R.fill.2.pos := by
      rw [← hr]
      rfl
    have hs' : (s.step heap).move heap = ((s.step heap).fill heap).2.goto
        (if R.fill.1 = true then .headerByte v R.fill.2.pos else .returned none) := by
      simp only [State.move, hfill.pc, hok, hpos]
      split <;> rfl
    refine hfill.leads rfl (.here ?_)
    rw [if_neg hlong]
    exact hfill.move ha' hs' hr rfl

/-- The line is passed. -/
theorem At.nextHeader [Abi] (h : At U heap behind R pc s) (v : Reader.Headers) (n : Nat) :
    (s.nextHeader v n).reader behind = R.advance n ∧
      (s.nextHeader v n).pc = .headerByte v (R.pos + n) := by
  rw [reader_nextHeader, h.reader, ← h.pos]
  exact ⟨rfl, rfl⟩

theorem digits_leads [Abi] {v : Reader.Headers} {n i : Nat} {negative : Bool} {ds : Bytes}
    (hends : (R.buf.drop i).dropWhile isDigit ≠ [])
    (h : At U heap behind R (.digits v n negative ds i) s) :
    Leads heap (At U heap behind (R.advance n)
      (.headerByte ⟨toulong negative (ds ++ (R.buf.drop i).takeWhile isDigit), true, v.anyHeader⟩
        (R.pos + n))) s := by
  induction hb : R.buf.drop i generalizing i ds s with
  | nil =>
      rw [hb] at hends
      exact absurd rfl hends
  | cons c t ih =>
      have hc : R.buf[i]? = some c := getElem?_of_drop hb
      have ha : s.address = some i := by simp only [State.address, h.pc]
      have hb' : R.buf.drop (i + 1) = t := by
        rw [← List.drop_drop, hb]
        rfl
      by_cases hdigit : isDigit c = true
      · have hs : s.onByte c = s.goto (.digits v n negative (ds ++ [c]) (i + 1)) := by
          simp only [State.onByte, h.pc, if_pos hdigit]
        rw [hb, List.dropWhile_cons, if_pos hdigit, ← hb'] at hends
        have hrest := ih hends (h.read ha hc hs h.reader rfl) hb'
        rw [List.append_assoc, List.singleton_append] at hrest
        rw [List.takeWhile_cons, if_pos hdigit]
        exact h.leads rfl hrest
      · have hs : s.onByte c =
            s.nextHeader ⟨toulong negative ds, true, v.anyHeader⟩ n := by
          simp only [State.onByte, h.pc, if_neg hdigit]
        obtain ⟨hr, hpc⟩ := h.nextHeader ⟨toulong negative ds, true, v.anyHeader⟩ n
        rw [List.takeWhile_cons, if_neg hdigit, List.append_nil]
        exact h.leads rfl (.here (h.read ha hc hs hr hpc))

theorem strtoul_eq [Abi] (t : Bytes) :
    strtoul t = toulong (takeSign (t.dropWhile isSpace)).1
      ((takeSign (t.dropWhile isSpace)).2.takeWhile isDigit) := rfl

/-- `strtoul` reads the number from the bytes of the buffer. -/
theorem space_leads [Abi] {v : Reader.Headers} {n i : Nat} (hends : NumberEnds (R.buf.drop i))
    (h : At U heap behind R (.space v n i) s) :
    Leads heap (At U heap behind (R.advance n)
      (.headerByte ⟨strtoul (R.buf.drop i), true, v.anyHeader⟩ (R.pos + n))) s := by
  induction hb : R.buf.drop i generalizing i s with
  | nil =>
      rw [hb] at hends
      exact absurd hends numberEnds_nil
  | cons c t ih =>
      have hc : R.buf[i]? = some c := getElem?_of_drop hb
      have ha : s.address = some i := by simp only [State.address, h.pc]
      have hb' : R.buf.drop (i + 1) = t := by
        rw [← List.drop_drop, hb]
        rfl
      rw [hb] at hends
      by_cases hspace : isSpace c = true
      · have hs : s.onByte c = s.goto (.space v n (i + 1)) := by
          simp only [State.onByte, h.pc, if_pos hspace]
        rw [numberEnds_space hspace, ← hb'] at hends
        have hrest := ih hends (h.read ha hc hs h.reader rfl) hb'
        rw [strtoul_space hspace]
        exact h.leads rfl hrest
      · by_cases hminus : c = 45
        · have hs : s.onByte c = s.goto (.digits v n true [] (i + 1)) := by
            simp only [State.onByte, h.pc, if_neg hspace, if_pos hminus]
          rw [numberEnds_sign (Or.inl hminus), ← hb'] at hends
          have hrest := digits_leads hends (h.read ha hc hs h.reader rfl)
          rw [List.nil_append, hb'] at hrest
          rw [strtoul_eq, List.dropWhile_cons, if_neg hspace, hminus]
          exact h.leads rfl hrest
        · by_cases hplus : c = 43
          · have hs : s.onByte c = s.goto (.digits v n false [] (i + 1)) := by
              simp only [State.onByte, h.pc, if_neg hspace, if_neg hminus, if_pos hplus]
            rw [numberEnds_sign (Or.inr hplus), ← hb'] at hends
            have hrest := digits_leads hends (h.read ha hc hs h.reader rfl)
            rw [List.nil_append, hb'] at hrest
            rw [strtoul_eq, List.dropWhile_cons, if_neg hspace, hplus]
            exact h.leads rfl hrest
          · have hs : s.onByte c = s.goto (.digits v n false [] i) := by
              simp only [State.onByte, h.pc, if_neg hspace, if_neg hminus, if_neg hplus]
            rw [numberEnds_digits hspace hminus hplus, ← hb] at hends
            have hrest := digits_leads hends (h.read ha hc hs h.reader rfl)
            rw [List.nil_append, hb] at hrest
            rw [strtoul_eq, List.dropWhile_cons, if_neg hspace, takeSign_unsigned hminus hplus]
            exact h.leads rfl hrest

/-- The run is clean: the number `strtoul` is called for ends in the buffer. -/
theorem At.numberEnds [Abi] {v : Reader.Headers} {n : Nat}
    (h : At U heap behind R (.strtoul v n) s) :
    NumberEnds (R.buf.drop (R.pos + clKeyLen)) := by
  obtain ⟨hn, hle⟩ : clKeyLen < n ∧ n ≤ s.avail := by
    have hp := h.clean.inv.placed
    unfold Placed at hp
    rw [h.pc] at hp
    exact hp
  have hends := h.clean.inside 0 v n h.pc
  have havail : s.avail = s.r.len - s.r.pos := rfl
  have hdrop := drop_slice s.r.buf (i := 0) (show s.r.pos + clKeyLen ≤ s.r.len by omega)
  rw [Nat.zero_add] at hdrop
  rw [← h.reader]
  show NumberEnds ((slice s.r.buf 0 s.r.len).drop (s.r.pos + clKeyLen))
  rw [hdrop]
  exact hends

theorem isLengthLine_iff {n : Nat} (hn : clKeyLen < n) (hw : n ≤ R.window.length) :
    Reader.isLengthLine (R.window.take n) = true ↔
      ∀ j < clKeyLen, (R.window.map lower)[j]? = clKey[j]? := by
  have hlen : (R.window.take n).length = n := List.length_take_of_le hw
  unfold Reader.isLengthLine
  rw [hlen, decide_eq_true hn, Bool.true_and, beq_iff_eq, List.take_take,
    Nat.min_eq_left (Nat.le_of_lt hn), List.map_take, ← take_eq_take_iff]
  rfl

/-- `strtoul` on a header line. -/
theorem strtoul_leads [Abi] {v : Reader.Headers} {n : Nat} (hany : v.anyHeader = true)
    (hlength : Reader.isLengthLine (R.window.take n) = true)
    (h : At U heap behind R (.strtoul v n) s) :
    Leads heap (At U heap behind (R.advance n)
      (.headerByte (v.add (R.window.take n) R.memory) (R.pos + n))) s := by
  have ha : s.address = none := by simp only [State.address, h.pc]
  have hs : s.move heap = s.goto (.space v n (R.pos + clKeyLen)) := by
    simp only [State.move, h.pc, h.pos]
  have hends := h.numberEnds
  have hmemory : R.memory = R.buf.drop (R.pos + clKeyLen) ++
      R.behind R.src.rest.length R.unread.length := by
    rw [Reader.memory, Reader.window, List.drop_drop]
  have hadd : v.add (R.window.take n) R.memory =
      ⟨strtoul (R.buf.drop (R.pos + clKeyLen)), true, v.anyHeader⟩ := by
    unfold Reader.Headers.add
    rw [if_pos hlength, hmemory, strtoul_append hends, hany]
  rw [hadd]
  exact h.leads rfl (space_leads hends (h.move ha hs h.reader rfl))

/-- A header line is compared with the key. -/
theorem lineByte_leads [Abi] {v : Reader.Headers} {n : Nat} (hn : clKeyLen < n)
    (hw : n ≤ R.window.length) (hany : v.anyHeader = true)
    (h : At U heap behind R (.lineByte v n 0) s) :
    Leads heap (At U heap behind (R.advance n)
      (.headerByte (v.add (R.window.take n) R.memory) (R.pos + n))) s := by
  have hkey := isLengthLine_iff hn hw
  refine (key_leads (.lineByte v n) (n := clKeyLen) (by omega) (fun _ => rfl) ?_ ?_ (Nat.zero_le _)
    (fun j hj => absurd hj (Nat.not_lt_zero j)) h).trans fun t ht => ?_
  · intro t i hpc _ hi
    simp only [State.address, hpc, if_pos hi]
  · intro t i c hpc hmatch
    simp only [State.onByte, hpc, if_pos hmatch]
  · obtain ⟨i, hi, hat, hsame, hdiffer⟩ := ht
    by_cases hend : i = clKeyLen
    · subst hend
      have ha : t.address = none := by
        simp only [State.address, hat.pc]
        exact if_neg (Nat.lt_irrefl _)
      have hs : t.move heap = t.goto (.strtoul v n) := by simp only [State.move, hat.pc]
      exact hat.leads rfl (strtoul_leads hany (hkey.mpr hsame) (hat.move ha hs hat.reader rfl))
    · obtain ⟨c, hc, hlower, hmatch⟩ := hdiffer (by omega)
      have hno : ¬ Reader.isLengthLine (R.window.take n) = true := by
        intro hl
        exact hmatch ((hkey.mp hl i (by omega)).symm.trans hlower)
      have ha : t.address = some (R.pos + i) := by
        simp only [State.address, hat.pc]
        rw [if_pos (by omega), hat.pos]
      have hs : t.onByte c = t.nextHeader v n := by
        simp only [State.onByte, hat.pc, if_neg hmatch]
      have hadd : v.add (R.window.take n) R.memory = v := by
        unfold Reader.Headers.add
        rw [if_neg hno, ← hany]
      obtain ⟨hr, hpc⟩ := hat.nextHeader v n
      rw [hadd]
      exact hat.leads rfl (.here (hat.read ha (buf_of_window hc) hs hr hpc))

/-- Behind the header line of `n` bytes at hand. -/
def lineEnd [Abi] (R : Reader) (v : Reader.Headers) (n : Nat) : Pc :=
  if Reader.blankLine (R.window.take n) = true then
    if v.anyHeader = true then .checkLength v else .headerByte v (R.pos + n)
  else .headerByte (v.add (R.window.take n) R.memory) (R.pos + n)

/-- What becomes of a blank line. -/
theorem At.blankLine [Abi] (h : At U heap behind R pc s) (v : Reader.Headers) (n : Nat) :
    (s.blankLine v n).reader behind = R.advance n ∧
      (s.blankLine v n).pc =
        if v.anyHeader = true then .checkLength v else .headerByte v (R.pos + n) := by
  unfold State.blankLine
  split
  · exact ⟨by rw [reader_goto, reader_advance, h.reader], rfl⟩
  · exact h.nextHeader v n

/-- A header line that is not blank, from the step that says so. -/
theorem headerText_leads [Abi] {v : Reader.Headers} {n : Nat} (hw : n ≤ R.window.length)
    (h : At U heap behind R pc s)
    (hstep : ∀ R' pc', (s.headerText v n).reader behind = R' → (s.headerText v n).pc = pc' →
      At U heap behind R' pc' (s.step heap)) :
    Leads heap (At U heap behind (R.advance n)
      (.headerByte (v.add (R.window.take n) R.memory) (R.pos + n))) (s.step heap) := by
  unfold State.headerText at hstep
  by_cases hn : n > clKeyLen
  · rw [if_pos hn] at hstep
    have hadd : v.add (R.window.take n) R.memory =
        Reader.Headers.add { v with anyHeader := true } (R.window.take n) R.memory := rfl
    rw [hadd]
    exact lineByte_leads hn hw rfl (hstep _ _ h.reader rfl)
  · rw [if_neg hn] at hstep
    have hno : ¬ Reader.isLengthLine (R.window.take n) = true := by
      unfold Reader.isLengthLine
      rw [List.length_take_of_le hw, decide_eq_false hn, Bool.false_and]
      exact Bool.false_ne_true
    have hadd : v.add (R.window.take n) R.memory = { v with anyHeader := true } := by
      unfold Reader.Headers.add
      rw [if_neg hno]
    obtain ⟨hr, hpc⟩ := h.nextHeader { v with anyHeader := true } n
    rw [hadd]
    exact .here (hstep _ _ hr hpc)

theorem blank_leads [Abi] {v : Reader.Headers} {n : Nat} (hw : n ≤ R.window.length)
    (h : At U heap behind R (.blank v n) s) :
    Leads heap (At U heap behind (R.advance n) (lineEnd R v n)) s := by
  have hlen : (R.window.take n).length = n := List.length_take_of_le hw
  refine h.leads rfl ?_
  unfold lineEnd
  by_cases h2 : n = 2
  · obtain ⟨c, hc⟩ : ∃ c, R.window[0]? = some c := ⟨_, List.getElem?_eq_getElem (by omega)⟩
    have ha : s.address = some (R.pos + 0) := by
      simp only [State.address, h.pc, if_pos h2, h.pos]
      rfl
    have hhead : (R.window.take n).head? = some c := by
      rw [List.head?_take, if_neg (by omega), ← hc, List.head?_eq_getElem?]
    by_cases hcr : c = 13
    · have hblank : Reader.blankLine (R.window.take n) = true := by
        unfold Reader.blankLine
        rw [hlen, hhead, h2, hcr]
        rfl
      have hs : s.onByte c = s.blankLine v n := by
        simp only [State.onByte, h.pc, if_pos hcr]
      obtain ⟨hr, hpc⟩ := h.blankLine v n
      rw [if_pos hblank]
      exact .here (h.read ha (buf_of_window hc) hs hr hpc)
    · have hblank : ¬ Reader.blankLine (R.window.take n) = true := by
        unfold Reader.blankLine
        rw [hlen, hhead, h2]
        simpa using hcr
      have hs : s.onByte c = s.headerText v n := by
        simp only [State.onByte, h.pc, if_neg hcr]
      rw [if_neg hblank]
      exact headerText_leads hw h fun R' pc' hr hpc => h.read ha (buf_of_window hc) hs hr hpc
  · have ha : s.address = none := by
      simp only [State.address, h.pc]
      exact if_neg h2
    have hblank : Reader.blankLine (R.window.take n) = true ↔ n = 1 := by
      unfold Reader.blankLine
      rw [hlen]
      simp [h2]
    by_cases hone : n = 1
    · have hs : s.move heap = s.blankLine v n := by simp only [State.move, h.pc, if_pos hone]
      obtain ⟨hr, hpc⟩ := h.blankLine v n
      rw [if_pos (hblank.mpr hone)]
      exact .here (h.move ha hs hr hpc)
    · have hs : s.move heap = s.headerText v n := by simp only [State.move, h.pc, if_neg hone]
      rw [if_neg (mt hblank.mp hone)]
      exact headerText_leads hw h fun R' pc' hr hpc => h.move ha hs hr hpc

/-- The body is read until it is there. -/
theorem body_leads [Abi] {n : Nat} (h : At U heap behind R (.body n) s) :
    Leads heap (At U heap behind (R.assemble n).2 (.returned (R.assemble n).1)) s := by
  have havail := h.avail
  have ha : s.address = none := by simp only [State.address, h.pc]
  obtain ⟨hok, hr⟩ := h.fill
  fun_induction Reader.assemble R n generalizing s with
  | case1 R hfew hf ih =>
      have hs : s.move heap = (s.fill heap).2.goto (.body n) := by
        simp only [State.move, h.pc, havail, if_pos hfew, hok, if_pos hf]
      have hnext : At U heap behind R.fill.2 (.body n) (s.step heap) := h.move ha hs hr rfl
      obtain ⟨hok', hr'⟩ := hnext.fill
      exact h.leads rfl
        (ih hnext hnext.avail (by simp only [State.address, hnext.pc]) hok' hr')
  | case2 R hfew hf =>
      have hs : s.move heap = (s.fill heap).2.goto (.returned none) := by
        simp only [State.move, h.pc, havail, if_pos hfew, hok, if_neg hf]
      exact h.leads rfl (.here (h.move ha hs hr rfl))
  | case3 R hfew =>
      have hs : s.move heap = s.goto (.take R.pos n n) := by
        simp only [State.move, h.pc, havail, if_neg hfew, h.pos]
      have hwindow : R.window.length = R.buf.length - R.pos := List.length_drop
      have hpos := h.posLe
      have htake := take_leads (show R.pos + n ≤ R.buf.length by omega)
        (h.move ha hs h.reader rfl)
      rw [cut_window] at htake
      exact h.leads rfl htake

theorem checkLength_leads [Abi] {v : Reader.Headers} (h : At U heap behind R (.checkLength v) s) :
    Leads heap (At U heap behind (R.body v).2 (.returned (R.body v).1)) s := by
  have ha : s.address = none := by simp only [State.address, h.pc]
  unfold Reader.body
  by_cases hbad : (!v.haveLength || v.contentLength = 0 || v.contentLength > maxMessageBytes) = true
  · have hs : s.move heap = s.goto (.returned none) := by
      simp only [State.move, h.pc]
      exact if_pos hbad
    rw [if_pos hbad]
    exact h.leads rfl (.here (h.move ha hs h.reader rfl))
  · have hs : s.move heap = s.goto (.body v.contentLength) := by
      simp only [State.move, h.pc]
      exact if_neg hbad
    rw [if_neg hbad]
    exact h.leads rfl (body_leads (h.move ha hs h.reader rfl))

/-- `next_content_length` as a whole. -/
theorem nextContentLength_leads [Abi] {v : Reader.Headers}
    (h : At U heap behind R (.headerByte v R.pos) s) :
    Leads heap (At U heap behind (R.nextContentLength v).2
      (.returned (R.nextContentLength v).1)) s := by
  induction hl : R.left using Nat.strong_induction_on generalizing R s v with
  | h l ih =>
      subst hl
      refine (headerByte_leads h).trans fun t ht => ?_
      cases hk : memchrLf R.window with
      | some k =>
          rw [hk] at ht
          have hlt := Reader.memchrLf_lt hk
          have hless : (R.advance (k + 1)).left < R.left :=
            Reader.left_advance (Nat.succ_pos _) hlt
          refine (blank_leads hlt ht).trans fun u hu => ?_
          rw [Reader.nextContentLength_of_some hk]
          unfold lineEnd at hu
          by_cases hblank : Reader.blankLine (R.window.take (k + 1)) = true
          · rw [if_pos hblank] at hu ⊢
            by_cases hany : v.anyHeader = true
            · rw [if_pos hany] at hu ⊢
              exact checkLength_leads hu
            · rw [if_neg hany] at hu ⊢
              exact ih _ hless hu rfl
          · rw [if_neg hblank] at hu ⊢
            exact ih _ hless hu rfl
      | none =>
          rw [hk] at ht
          refine (noLine_leads ht).trans fun u hu => ?_
          by_cases hlong : R.window.length > 1024
          · rw [if_pos hlong] at hu
            rw [Reader.nextContentLength_long hk hlong]
            exact .here hu
          · rw [if_neg hlong] at hu
            rw [Reader.nextContentLength_fill hk (Nat.not_lt.mp hlong)]
            by_cases hf : R.fill.1 = true
            · rw [if_pos hf] at hu ⊢
              exact ih _ (Reader.left_fill hf) hu rfl
            · rw [if_neg hf] at hu ⊢
              exact .here hu

/-! ## dxr_stdio_reader_next -/

theorem entry_leads [Abi] (h : At U heap behind R (entry R) s) :
    Leads heap (fun t =>
      if R.framing = .contentLength then
        At U heap behind (R.nextContentLength ⟨0, false, false⟩).2
          (.returned (R.nextContentLength ⟨0, false, false⟩).1) t
      else At U heap behind (R.nextNdjson 0).2 (.returned (R.nextNdjson 0).1) t) s := by
  unfold entry at h
  by_cases hcl : R.framing = .contentLength
  · rw [if_pos hcl] at h
    refine (nextContentLength_leads h).mono fun t ht => ?_
    rw [if_pos hcl]
    exact ht
  · rw [if_neg hcl] at h
    have h0 : At U heap behind R (.memchr (R.pos + 0)) s := h
    refine (nextNdjson_leads (show R.pos + 0 ≤ R.buf.length from h.posLe) h0).mono fun t ht => ?_
    rw [if_neg hcl]
    exact ht

/-- A call returns, and what it returns is `next`. -/
theorem call_leads [Abi] {out : Option Bytes} (h : At U heap behind R (.returned out) s) :
    Leads heap (At U heap behind R.next.2 (.returned R.next.1)) (s.step heap) := by
  have ha : s.address = none := by simp only [State.address, h.pc]
  unfold Reader.next
  by_cases hun : R.framing = .unknown
  · have hs : s.move heap = { s with since := s.consumed }.goto .skipWs := by
      simp only [State.move, h.pc]
      exact if_pos (h.framing.trans hun)
    refine (detect_leads (h.move ha hs h.reader rfl)).trans fun t ht => ?_
    simp only [if_pos hun]
    by_cases hd : R.detect.1 = true
    · rw [if_pos hd] at ht
      rw [if_neg (by rw [hd]; decide)]
      refine (entry_leads ht).mono fun u hu => ?_
      split at hu
      · next hcl => rwa [if_pos hcl]
      · next hcl => rwa [if_neg hcl]
    · rw [if_neg hd] at ht
      rw [if_pos (Bool.eq_false_iff.mpr hd)]
      exact .here ht
  · have hs : s.move heap = State.enter { s with since := s.consumed } := by
      simp only [State.move, h.pc]
      exact if_neg (by rw [h.framing]; exact hun)
    have hr : State.reader behind { s with since := s.consumed } = R := h.reader
    have hentry : At U heap behind R (entry R) (s.step heap) :=
      h.move ha hs (by rw [reader_enter, hr]) (by rw [pc_enter, hr])
    simp only [if_neg hun]
    rw [if_neg (by decide)]
    refine (entry_leads hentry).mono fun u hu => ?_
    split at hu
    · next hcl => rwa [if_pos hcl]
    · next hcl => rwa [if_neg hcl]

/-! ## Every call -/

/-- The number of calls made in the first `n` steps. -/
def calls [Abi] (heap : Heap) (src : Source UInt8) (n : Nat) : Nat :=
  ((List.range n).filter fun m => (run heap src m).pc.isReturned).length

theorem calls_add_one [Abi] (heap : Heap) (src : Source UInt8) (n : Nat) :
    calls heap src (n + 1) =
      calls heap src n + if (run heap src n).pc.isReturned = true then 1 else 0 := by
  unfold calls
  rw [List.range_succ, List.filter_append, List.length_append, List.filter_singleton]
  cases (run heap src n).pc.isReturned <;> rfl

/-- While a call goes on no other begins. -/
theorem calls_busy [Abi] {src : Source UInt8} {n m : Nat}
    (hbusy : ∀ k < m, (run heap src (n + k)).pc.isReturned = false) :
    calls heap src (n + m) = calls heap src n := by
  induction m with
  | zero => rfl
  | succ m ih =>
      have hm := hbusy m (Nat.lt_succ_self m)
      rw [← Nat.add_assoc, calls_add_one, ih fun k hk => hbusy k (Nat.lt_succ_of_lt hk), if_neg]
      · rfl
      · rw [hm]
        exact Bool.false_ne_true

theorem after_add_one [Abi] (r : Reader) (k : Nat) : r.after (k + 1) = (r.after k).next.2 := by
  induction k generalizing r with
  | zero => rfl
  | succ k ih => exact ih r.next.2

/-- What the `k`-th call returns. -/
def returnedBy [Abi] (r : Reader) : Nat → Option Bytes
  | 0 => none
  | k + 1 => (r.after k).next.1

/-- Every call returns, and returns what Reader.lean says, as long as `strtoul` stays inside. -/
theorem run_after [Abi] {src : Source UInt8} (hgrants : ∀ t, heap.grants t = true)
    (hinside : ∀ n, ParsesInside (run heap src n)) (behind : Nat → Nat → Bytes) (k : Nat) :
    ∃ n, calls heap src n = k ∧
      At src.rest heap behind ((Reader.init src behind).after k)
        (.returned (returnedBy (Reader.init src behind) k)) (run heap src n) := by
  induction k with
  | zero =>
      have hclean : Clean src.rest heap (run heap src 0) :=
        ⟨inv_run heap src 0, hgrants, fun n => hinside n⟩
      exact ⟨0, rfl, hclean, rfl, rfl⟩
  | succ k ih =>
      obtain ⟨n, hcalls, hat⟩ := ih
      obtain ⟨m, hbusy, hm⟩ := (call_leads hat).exists_iterate
      have hstep : (run heap src n).step heap = run heap src (n + 1) := by
        unfold run
        rw [Function.iterate_succ_apply']
      have hrun : ∀ j, (State.step heap)^[j] ((run heap src n).step heap) =
          run heap src (n + 1 + j) := by
        intro j
        rw [hstep, run_add, Nat.add_comm]
      rw [hrun] at hm
      refine ⟨n + 1 + m, ?_, ?_⟩
      · rw [calls_busy fun j hj => ?_, calls_add_one, hcalls, hat.pc]
        · rfl
        · rw [← hrun]
          exact hbusy j hj
      · rw [after_add_one]
        exact hm

end Bytewise

end DisplayxrMcp.Stdio
