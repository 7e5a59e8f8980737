/-
  Content-Length reading depends on the cut exactly where there is `Trouble`.

  Two cuts tell: `paced U 0` delivers the stream `U` byte by byte, `paced U L` does
  so until `L` bytes are left and then delivers a line at a time. Up to the frame in
  question both give the same bodies. There the first refuses a line of more than
  1024 bytes, where the second accepts it; and where `strtoul` goes on behind its
  line, both show it what lies in memory, and not the stream.
-/
import DisplayxrMcp.Stdio.ContentLength

namespace DisplayxrMcp.Stdio

open Lib Reader

/-- Reads of one byte while more than `L` bytes of `u` are left, then of one line. -/
def paced (u : Bytes) (L k : Nat) : Nat :=
  if L < k then 1 else ((memchrLf (u.drop (u.length - k))).map (· + 1)).getD 1

namespace Reader

variable {r : Reader} {f : Framing} {u U : Bytes} {L : Nat}

/-- The source is what is left of `U`, delivered by `paced U L`. -/
structure Paced (U : Bytes) (L : Nat) (r : Reader) : Prop where
  sizes : r.src.sizes = paced U L
  rest : r.src.rest <:+ U

theorem Paced.size (h : r.Paced U L) :
    r.src.sizes r.src.rest.length =
      if L < r.src.rest.length then 1 else ((memchrLf r.src.rest).map (· + 1)).getD 1 := by
  rw [h.sizes, paced, ← List.suffix_iff_eq_drop.mp h.rest]

/-- A fill of a given size that fits. -/
theorem fill_take (h : r.Wf) (hroom : r.window.length < maxMessageBytes) {j : Nat}
    (hj : r.src.sizes r.src.rest.length = j) (h1 : 1 ≤ j)
    (hfit : j = 1 ∨ r.window.length + j ≤ r.cap) (hrest : r.src.rest ≠ []) :
    r.fill.1 = true ∧ r.fill.2.window = r.window ++ r.src.rest.take j ∧
      r.fill.2.src.rest = r.src.rest.drop j ∧ r.fill.2.src.sizes = r.src.sizes := by
  have htrue := (fill_eq_true_iff h hroom).mpr hrest
  refine ⟨htrue, ?_⟩
  rcases fill_cases h with ⟨-, he⟩ | ⟨hlen, -⟩ | ⟨cap, hlt, hle, -, he⟩
  · rw [he] at htrue
    cases htrue
  · omega
  · have hn : min (max 1 j) (cap - r.window.length) = j := by omega
    have hread : r.src.read (cap - r.window.length) =
        (r.src.rest.take j, { r.src with rest := r.src.rest.drop j }) := by
      unfold Source.read
      rw [hj, hn]
    rw [he, hread]
    exact ⟨rfl, rfl, rfl⟩

/-- What a fill leaves of the rest of the reader. -/
theorem fill_frame (r : Reader) :
    r.fill.2.src.sizes = r.src.sizes ∧ r.fill.2.src.rest <:+ r.src.rest ∧
      r.fill.2.behind = r.behind := by
  have hpull : ∀ r : Reader, r.pull.2.src.sizes = r.src.sizes ∧
      r.pull.2.src.rest <:+ r.src.rest ∧ r.pull.2.behind = r.behind := by
    intro r
    unfold pull
    dsimp only
    split <;> exact ⟨rfl, List.drop_suffix _ _, rfl⟩
  unfold fill
  split
  · exact ⟨rfl, List.suffix_rfl, rfl⟩
  · split
    · exact ⟨rfl, List.suffix_rfl, rfl⟩
    · next r' hg =>
        obtain ⟨cap, rfl⟩ := grow_some hg
        exact hpull _

theorem Paced.fill (h : r.Paced U L) : r.fill.2.Paced U L :=
  ⟨(fill_frame r).1.trans h.sizes, (fill_frame r).2.1.trans h.rest⟩

theorem Paced.advance (h : r.Paced U L) (n : Nat) : (r.advance n).Paced U L :=
  ⟨h.sizes, h.rest⟩

theorem At.rest_length (h : r.At f u) : r.window.length + r.src.rest.length = u.length := by
  rw [← h.unread, Reader.unread, List.length_append]

/-- One byte more. -/
theorem Paced.fill_one (hp : r.Paced U L) (h : r.At f u) (hL : L < r.src.rest.length)
    (hroom : r.window.length < maxMessageBytes) :
    r.fill.1 = true ∧ r.fill.2.window.length = r.window.length + 1 := by
  have hsize := hp.size
  rw [if_pos hL] at hsize
  have hne : r.src.rest ≠ [] := List.ne_nil_of_length_pos (by omega)
  obtain ⟨htrue, hw, -, -⟩ := fill_take h.wf hroom hsize (Nat.le_refl 1) (Or.inl rfl) hne
  refine ⟨htrue, ?_⟩
  rw [hw, List.length_append, List.length_take]
  omega

/-! ## A line -/

/-- Without a line feed at hand, the first one is in the rest. -/
theorem memchrLf_rest (h : r.At f u) {k : Nat} (hk : memchrLf u = some k) (hno : 10 ∉ r.window) :
    memchrLf r.src.rest = some (k - r.window.length) := by
  have hwk := le_of_memchrLf_none h.window_prefix (memchrLf_eq_none.mpr hno) hk
  obtain ⟨hno', heq⟩ := memchrLf_some hk
  have hlt := memchrLf_lt hk
  have hrest : r.src.rest = (u.take k).drop r.window.length ++ 10 :: u.drop (k + 1) := by
    have hdrop : r.src.rest = u.drop r.window.length := by
      rw [← h.unread, unread, List.drop_left]
    rw [hdrop]
    conv_lhs => rw [heq]
    rw [List.drop_append_of_le_length (by rw [List.length_take]; omega)]
  have hline := memchrLf_line (fun hm => hno' (List.mem_of_mem_drop hm)) (u.drop (k + 1))
    (l := (u.take k).drop r.window.length)
  rw [← hrest, List.length_drop, List.length_take, Nat.min_eq_left (by omega)] at hline
  exact hline

/-- Where the line feed is the last byte at hand, nothing is left behind the line. -/
theorem pastLine_window {k : Nat} (h1 : r.headerLine.1 = k + 1)
    (hlen : r.headerLine.2.window.length ≤ k + 1) : r.pastLine.window = [] := by
  rw [pastLine, window_advance, h1]
  exact List.drop_eq_nil_of_le hlen

/-- Byte by byte, a line of at most 1024 bytes is taken and nothing beyond it. -/
theorem headerLine_bytewise (hp : r.Paced U L) (h : r.At f u) {k : Nat}
    (hk : memchrLf u = some k) (hL : L + (k + 1) ≤ u.length)
    (hlen : r.window.length ≤ k + 1) :
    r.headerLine.2.window.length ≤ k + 1 ∧ r.headerLine.2.Paced U L := by
  fun_induction headerLine r with
  | case1 r k' hk' => exact ⟨hlen, hp⟩
  | case2 r _ _ => exact ⟨hlen, hp⟩
  | case3 r hnone hshort hf ih =>
      have hwk := le_of_memchrLf_none h.window_prefix hnone hk
      have hrest := h.rest_length
      have hone := (hp.fill_one h (by omega) (by unfold maxMessageBytes; omega)).2
      exact ih hp.fill h.fill (by omega)
  | case4 r hnone hshort hf =>
      have hwk := le_of_memchrLf_none h.window_prefix hnone hk
      have hrest := h.rest_length
      have htrue := (hp.fill_one h (by omega) (by unfold maxMessageBytes; omega)).1
      exact absurd htrue hf

/-- A line at a time, a line that fits the buffer is taken and nothing beyond it. -/
theorem headerLine_linewise (hp : r.Paced U L) (h : r.At f u) {k : Nat}
    (hk : memchrLf u = some k) (hkc : k < r.cap) (hno : 10 ∉ r.window)
    (hshort : r.window.length ≤ 1024) (hL : r.src.rest.length ≤ L) :
    r.headerLine.1 = k + 1 ∧ r.headerLine.2.window.length ≤ k + 1 ∧
      r.headerLine.2.Paced U L := by
  have hnone : memchrLf r.window = none := memchrLf_eq_none.mpr hno
  have hwk := le_of_memchrLf_none h.window_prefix hnone hk
  have hrest : memchrLf r.src.rest = some (k - r.window.length) := memchrLf_rest h hk hno
  have hlt := memchrLf_lt hrest
  have hsize := hp.size
  rw [if_neg (by omega), hrest] at hsize
  obtain ⟨htrue, hw, -, -⟩ := fill_take h.wf (by unfold maxMessageBytes; omega) hsize (by simp)
    (Or.inr (by simp; omega)) (List.ne_nil_of_length_pos (by omega))
  have hlen : r.fill.2.window.length = k + 1 := by
    rw [hw, List.length_append, List.length_take]
    simp only [Option.map_some, Option.getD_some]
    omega
  have hfound : memchrLf r.fill.2.window = some k := by
    have hpre := List.prefix_iff_eq_take.mp h.fill.window_prefix
    rw [hlen] at hpre
    rw [hpre, take_succ_of_memchrLf hk]
    obtain ⟨hno', -⟩ := memchrLf_some hk
    have hline := memchrLf_line hno' []
    rwa [List.length_take, Nat.min_eq_left (by have := memchrLf_lt hk; omega)] at hline
  rw [headerLine_of_none hnone, if_neg (by omega), dif_pos htrue, headerLine_of_some hfound]
  exact ⟨rfl, Nat.le_of_eq hlen, hp.fill⟩

/-- Byte by byte, a line of more than 1024 bytes is refused. -/
theorem headerLine_refused (hp : r.Paced U L) (h : r.At f u) {k : Nat}
    (hk : memchrLf u = some k) (hlong : 1024 < k) (hL : L + (k + 1) ≤ u.length)
    (hlen : r.window.length ≤ 1025) : r.headerLine.1 = 0 := by
  fun_induction headerLine r with
  | case1 r k' hk' =>
      have hlt := memchrLf_lt hk'
      rw [memchrLf_mono h.window_prefix hk'] at hk
      have he := Option.some.inj hk
      omega
  | case2 r _ _ => rfl
  | case3 r hnone hshort hf ih =>
      have hrest := h.rest_length
      have hone := (hp.fill_one h (by omega) (by unfold maxMessageBytes; omega)).2
      exact ih hp.fill h.fill (by omega)
  | case4 r hnone hshort hf => rfl

theorem headerLine_behind (r : Reader) : r.headerLine.2.behind = r.behind := by
  fun_induction headerLine r with
  | case1 => rfl
  | case2 => rfl
  | case3 r _ _ _ ih => rw [ih, (fill_frame r).2.2]
  | case4 r => exact (fill_frame r).2.2

/-- At the start of a line, with at most the key of it at hand. What lies behind the valid
    bytes of the buffer is always `m`. -/
structure Poised (U : Bytes) (L : Nat) (m u : Bytes) (c : Nat) (r : Reader) : Prop where
  paced : r.Paced U L
  stands : r.At .contentLength u
  cap : r.cap = c
  noLf : 10 ∉ r.window
  short : r.window.length ≤ clKeyLen
  behind : r.behind = fun _ _ => m

variable {m : Bytes} {c : Nat}

/-- One line, byte by byte or at once. -/
theorem Poised.line (h : r.Poised U L m u c) (hc : 4096 ≤ c) {k : Nat}
    (hk : memchrLf u = some k) (hkc : k < c)
    (hcase : (k ≤ 1024 ∧ L + (k + 1) ≤ u.length) ∨ r.src.rest.length ≤ L) :
    r.headerLine.1 = k + 1 ∧ r.line = u.take (k + 1) ∧
      r.headerLine.2.window = u.take k ++ [10] ∧
      r.pastLine.Poised U L m (u.drop (k + 1)) c ∧ r.pastLine.window = [] ∧
      r.pastLine.src.rest.length ≤ r.src.rest.length := by
  have hat := h.stands
  have hcap := h.cap
  have hshort := h.short
  have hwk := le_of_memchrLf_none hat.window_prefix (memchrLf_eq_none.mpr h.noLf) hk
  have hfound : r.headerLine.1 = k + 1 ∧ r.headerLine.2.window.length ≤ k + 1 ∧
      r.headerLine.2.Paced U L := by
    rcases hcase with ⟨hle, hL⟩ | hL
    · exact ⟨headerLine_short hat hk hle, headerLine_bytewise h.paced hat hk hL (by omega)⟩
    · exact headerLine_linewise h.paced hat hk (by omega) h.noLf
        (Nat.le_trans hshort (by decide)) hL
  obtain ⟨h1, hlen, hp⟩ := hfound
  obtain ⟨hat', hcap', hmem⟩ := headerLine_at hat (by omega)
  obtain ⟨k', hk', -, hline, -, -, hpast, hpcap⟩ := pastLine_at hat (by omega) (by omega)
  rw [hk] at hk'
  cases hk'
  have hnil := pastLine_window h1 hlen
  have hwin : r.headerLine.2.window = u.take (k + 1) := by
    have hlt := memchrLf_lt (hmem k h1)
    have hpre := List.prefix_iff_eq_take.mp hat'.window_prefix
    rwa [show r.headerLine.2.window.length = k + 1 by omega] at hpre
  refine ⟨h1, hline, hwin.trans (take_succ_of_memchrLf hk),
    ⟨hp.advance _, hpast, hpcap.trans hcap, ?_, ?_, ?_⟩, hnil, ?_⟩
  · rw [hnil]
    exact List.not_mem_nil
  · rw [hnil]
    exact Nat.zero_le _
  · exact (headerLine_behind r).trans h.behind
  · have h2 := hpast.rest_length
    have h3 := hat.rest_length
    rw [hnil, List.length_drop, List.length_nil] at h2
    omega

/-- Where a line is at hand to its line feed, a blank value is read from what lies behind. -/
theorem memory_blank [Abi] {l : Bytes} (hw : r.window = l ++ [10]) (hm : r.behind = fun _ _ => m)
    (hlen : isLengthLine (l ++ [10]) = true) (hblank : (l.drop clKeyLen).all isSpace = true) :
    strtoul r.memory = strtoul m := by
  have hkey : clKeyLen ≤ l.length := by
    unfold isLengthLine at hlen
    rw [Bool.and_eq_true, decide_eq_true_eq, List.length_append, List.length_singleton] at hlen
    omega
  unfold memory
  rw [hw, hm, List.drop_append_of_le_length hkey, List.append_assoc]
  exact strtoul_blank hblank m

/-- The local variables, with every blank value read from `m`. -/
structure AgreesOn [Abi] (m : Bytes) (hs : Headers) (h : HeaderText) : Prop where
  agrees : Agrees hs h
  blank : ∀ text, h.value = some text → text.all isSpace = true → hs.contentLength = strtoul m

theorem agreesOn_start [Abi] : AgreesOn m ⟨0, false, false⟩ .start :=
  ⟨agrees_start, fun _ h => by cases h⟩

theorem AgreesOn.add [Abi] {hs : Headers} {h : HeaderText} (hag : AgreesOn m hs h) {l : Bytes}
    (hl : 10 ∉ l) (hw : r.window = l ++ [10]) (hm : r.behind = fun _ _ => m) :
    AgreesOn m (hs.add (l ++ [10]) r.memory) (h.add l) := by
  have hk : memchrLf r.window = some l.length := by
    rw [hw]
    exact memchrLf_line hl []
  have htake : r.window.take l.length = l := by rw [hw, List.take_left]
  refine ⟨?_, fun text ht hblank => ?_⟩
  · have hadd := hag.agrees.add hk
    rwa [htake] at hadd
  · unfold HeaderText.add at ht
    unfold Headers.add
    by_cases hlen : isLengthLine (l ++ [10]) = true
    · rw [if_pos hlen] at ht ⊢
      cases ht
      exact memory_blank hw hm hlen hblank
    · rw [if_neg hlen] at ht ⊢
      exact hag.blank text ht hblank

/-! ## A header -/

theorem splitHeader_length {h h' : HeaderText} {t : Bytes}
    (hs : splitHeader c h u = some (h', t)) : t.length ≤ u.length := by
  fun_induction splitHeader c h u with
  | case1 => cases hs
  | case2 => cases hs
  | case3 h u k =>
      cases hs
      rw [List.length_drop]
      omega
  | case4 h u k _ _ _ _ ih =>
      have hle := ih hs
      rw [List.length_drop] at hle
      omega
  | case5 h u k _ _ _ ih =>
      have hle := ih hs
      rw [List.length_drop] at hle
      omega

/-- The first line of a header that is there. -/
theorem splitHeader_step {h h' : HeaderText} {t : Bytes} (hs : splitHeader c h u = some (h', t)) :
    ∃ k, memchrLf u = some k ∧ k < c ∧ t.length + (k + 1) ≤ u.length ∧
      (h'.long = false → k ≤ 1024) ∧
      if blankLine (u.take (k + 1)) then
        if h.any then h' = h ∧ t = u.drop (k + 1)
        else splitHeader c h (u.drop (k + 1)) = some (h', t)
      else splitHeader c (h.add (u.take k)) (u.drop (k + 1)) = some (h', t) := by
  cases hk : memchrLf u with
  | none =>
      rw [splitHeader_of_none hk] at hs
      cases hs
  | some k =>
      have hlt := memchrLf_lt hk
      have hlen : (u.take k).length = k := by
        rw [List.length_take]
        omega
      rw [splitHeader_of_some hk] at hs
      split at hs
      · cases hs
      · next hkc =>
          refine ⟨k, rfl, by omega, ?_⟩
          split at hs
          · next hb =>
              have hk1 := blankLine_short hb
              rw [List.length_take] at hk1
              rw [if_pos hb]
              split at hs
              · next hany =>
                  cases hs
                  rw [if_pos hany]
                  exact ⟨by rw [List.length_drop]; omega, fun _ => by omega, rfl, rfl⟩
              · next hany =>
                  have hle := splitHeader_length hs
                  rw [List.length_drop] at hle
                  rw [if_neg hany]
                  exact ⟨by omega, fun _ => by omega, hs⟩
          · next hb =>
              have hle := splitHeader_length hs
              rw [List.length_drop] at hle
              rw [if_neg hb]
              refine ⟨by omega, fun hshort => ?_, hs⟩
              by_contra hgt
              rw [splitHeader_long hs (by simp [HeaderText.add, hlen]; omega)] at hshort
              cases hshort

/-- A header whose lines are short, or come a line at a time, is taken, and nothing beyond. -/
theorem Poised.header [Abi] (h : r.Poised U L m u c) (hc : 4096 ≤ c) {hs : Headers}
    {hd hd' : HeaderText} {t : Bytes} (hag : AgreesOn m hs hd)
    (hsplit : splitHeader c hd u = some (hd', t))
    (hcase : (hd'.long = false ∧ L ≤ t.length) ∨ r.src.rest.length ≤ L) :
    ∃ (r' : Reader) (hs' : Headers), r.nextContentLength hs = r'.body hs' ∧
      r'.Poised U L m t c ∧ r'.window = [] ∧ AgreesOn m hs' hd' := by
  fun_induction nextContentLength r hs generalizing u hd with
  | case1 r hs h0 =>
      obtain ⟨k, hk, hkc, hlen, hlong, -⟩ := splitHeader_step hsplit
      have h1 := (h.line hc hk hkc (hcase.imp (fun hs => ⟨hlong hs.1, by omega⟩) id)).1
      omega
  | case2 r hs h0 hb hany =>
      obtain ⟨k, hk, hkc, hlen, hlong, hstep⟩ := splitHeader_step hsplit
      obtain ⟨-, hline, -, hpast, hnil, -⟩ :=
        h.line hc hk hkc (hcase.imp (fun hs => ⟨hlong hs.1, by omega⟩) id)
      have hany' : hd.any = true := hag.agrees.any ▸ hany
      rw [hline] at hb
      rw [if_pos hb, if_pos hany'] at hstep
      obtain ⟨rfl, rfl⟩ := hstep
      exact ⟨r.pastLine, hs, rfl, hpast, hnil, hag⟩
  | case3 r hs h0 hb hany ih =>
      obtain ⟨k, hk, hkc, hlen, hlong, hstep⟩ := splitHeader_step hsplit
      obtain ⟨-, hline, -, hpast, -, hrest⟩ :=
        h.line hc hk hkc (hcase.imp (fun hs => ⟨hlong hs.1, by omega⟩) id)
      have hany' : ¬ hd.any = true := hag.agrees.any ▸ hany
      rw [hline] at hb
      rw [if_pos hb, if_neg hany'] at hstep
      exact ih hpast hag hstep (hcase.imp id fun hL => by omega)
  | case4 r hs h0 hb ih =>
      obtain ⟨k, hk, hkc, hlen, hlong, hstep⟩ := splitHeader_step hsplit
      obtain ⟨-, hline, hwin, hpast, -, hrest⟩ :=
        h.line hc hk hkc (hcase.imp (fun hs => ⟨hlong hs.1, by omega⟩) id)
      rw [hline] at hb
      rw [if_neg hb] at hstep
      refine ih hpast ?_ hstep (hcase.imp id fun hL => by omega)
      rw [hline, take_succ_of_memchrLf hk]
      exact hag.add (memchrLf_some hk).1 hwin ((headerLine_behind r).trans h.behind)

/-- Byte by byte, a line that is taken has at most 1024 bytes. -/
theorem Poised.taken (h : r.Poised U 0 m u c) (h0 : r.headerLine.1 ≠ 0) {k : Nat}
    (hk : memchrLf u = some k) : k ≤ 1024 := by
  by_contra hlong
  have hlt := memchrLf_lt hk
  exact h0 (headerLine_refused h.paced h.stands hk (by omega) (by omega)
    (Nat.le_trans h.short (by decide)))

/-- Byte by byte, a header with a line of more than 1024 bytes is refused. -/
theorem Poised.header_refused [Abi] (h : r.Poised U 0 m u c) (hc : 4096 ≤ c) {hs : Headers}
    {hd hd' : HeaderText} {t : Bytes} (hag : AgreesOn m hs hd)
    (hsplit : splitHeader c hd u = some (hd', t)) (hshort : hd.long = false)
    (hlong : hd'.long = true) : (r.nextContentLength hs).1 = none := by
  fun_induction nextContentLength r hs generalizing u hd with
  | case1 r hs h0 => rfl
  | case2 r hs h0 hb hany =>
      obtain ⟨k, hk, hkc, hlen, -, hstep⟩ := splitHeader_step hsplit
      have hle := h.taken h0 hk
      obtain ⟨-, hline, -⟩ := h.line hc hk hkc (Or.inl ⟨hle, by omega⟩)
      have hany' : hd.any = true := hag.agrees.any ▸ hany
      rw [hline] at hb
      rw [if_pos hb, if_pos hany'] at hstep
      rw [hstep.1, hshort] at hlong
      cases hlong
  | case3 r hs h0 hb hany ih =>
      obtain ⟨k, hk, hkc, hlen, -, hstep⟩ := splitHeader_step hsplit
      have hle := h.taken h0 hk
      obtain ⟨-, hline, -, hpast, -⟩ := h.line hc hk hkc (Or.inl ⟨hle, by omega⟩)
      have hany' : ¬ hd.any = true := hag.agrees.any ▸ hany
      rw [hline] at hb
      rw [if_pos hb, if_neg hany'] at hstep
      exact ih hpast hag hstep hshort
  | case4 r hs h0 hb ih =>
      obtain ⟨k, hk, hkc, hlen, -, hstep⟩ := splitHeader_step hsplit
      have hle := h.taken h0 hk
      obtain ⟨-, hline, hwin, hpast, -⟩ := h.line hc hk hkc (Or.inl ⟨hle, by omega⟩)
      rw [hline] at hb
      rw [if_neg hb] at hstep
      refine ih hpast ?_ hstep ?_
      · rw [hline, take_succ_of_memchrLf hk]
        exact hag.add (memchrLf_some hk).1 hwin ((headerLine_behind r).trans h.behind)
      · simp only [HeaderText.add, hshort, Bool.false_or, decide_eq_false_iff_not,
          List.length_take]
        omega

/-! ## A frame -/

theorem assemble_behind (r : Reader) (n : Nat) : (r.assemble n).2.behind = r.behind := by
  fun_induction assemble r n with
  | case1 r _ _ ih => rw [ih, (fill_frame r).2.2]
  | case2 r => exact (fill_frame r).2.2
  | case3 => rfl

/-- Byte by byte, a body is taken and nothing beyond it. -/
theorem assemble_bytewise (hp : r.Paced U L) (h : r.At f u) {n : Nat} (hL : L + n ≤ u.length)
    (hmax : n ≤ maxMessageBytes) (hlen : r.window.length ≤ n) :
    (r.assemble n).2.window = [] ∧ (r.assemble n).2.Paced U L := by
  fun_induction assemble r n with
  | case1 r hlt hf ih =>
      have hrest := h.rest_length
      have hone := (hp.fill_one h (by omega) (by omega)).2
      exact ih hp.fill h.fill (by omega)
  | case2 r hlt hf =>
      have hrest := h.rest_length
      exact absurd (hp.fill_one h (by omega) (by omega)).1 hf
  | case3 r hge =>
      refine ⟨?_, hp.advance n⟩
      rw [window_advance]
      exact List.drop_eq_nil_of_le hlen

/-- A frame that is not ambiguous, byte by byte. -/
theorem Poised.frame [Abi] (h : r.Poised U L m u c) (hc : 4096 ≤ c) (hamb : ¬ Ambiguous c u)
    {body t : Bytes} {c' : Nat} (hf : frameAt c u = some (body, t, c')) (hL : L ≤ t.length) :
    ∃ r' : Reader, r.next = (some body, r') ∧ r'.Poised U L m t c' ∧ r'.window = [] := by
  obtain ⟨hd, t₀, text, hsplit, hval, hns, hb⟩ := frameAt_some hf
  have hshort : hd.long = false := by
    rw [Bool.eq_false_iff]
    intro hlong
    refine hamb ⟨hd, t₀, text, hsplit, hval, ?_⟩
    rw [hns, if_neg (by decide), hb]
    exact ⟨rfl, hlong⟩
  obtain ⟨hpos, hmax, hlen, rfl, rfl, rfl⟩ := bodyAt_some hb
  rw [List.length_drop] at hL
  obtain ⟨r₁, hs, he, h₁, hnil, hag⟩ :=
    h.header hc agreesOn_start hsplit (Or.inl ⟨hshort, by omega⟩)
  have hvalue : hs.contentLength = strtoul text := hag.agrees.value text hval hns
  have hhave : hs.haveLength = true := by
    rw [hag.agrees.have', hval]
    rfl
  obtain ⟨r', hr', hat⟩ := (assemble_spec h₁.stands hmax).1 hlen
  have hcap := assemble_cap h₁.stands (by have := h₁.cap; omega) hlen hmax
  obtain ⟨hw, hp⟩ := assemble_bytewise h₁.paced h₁.stands (n := strtoul text) (by omega) hmax
    (by rw [hnil]; exact Nat.zero_le _)
  have hbehind := assemble_behind r₁ (strtoul text)
  rw [hr'] at hcap hw hp hbehind
  refine ⟨r', ?_, ⟨hp, hat, by rw [hcap, h₁.cap], ?_, ?_, hbehind.trans h₁.behind⟩, hw⟩
  · rw [next_contentLength h.stands, he, body_eq hhave (by omega) (by omega), hvalue, hr']
  · rw [hw]
    exact List.not_mem_nil
  · rw [hw]
    exact Nat.zero_le _

/-- An ambiguous frame is refused byte by byte with nothing in memory behind the stream. -/
theorem Poised.ambiguous_refused [Abi] (h : r.Poised U 0 [] u c) (hc : 4096 ≤ c)
    (hamb : Ambiguous c u) : r.next.1 = none := by
  obtain ⟨hd, t, text, hsplit, hval, hkind⟩ := hamb
  rw [next_contentLength h.stands]
  cases hlong : hd.long with
  | true => exact h.header_refused hc agreesOn_start hsplit rfl hlong
  | false =>
      cases hblank : text.all isSpace with
      | false =>
          rw [hblank, if_neg (by decide), hlong] at hkind
          cases hkind.2
      | true =>
          obtain ⟨r₁, hs, he, h₁, -, hag⟩ :=
            h.header hc agreesOn_start hsplit (Or.inl ⟨hlong, Nat.zero_le _⟩)
          have hzero : hs.contentLength = 0 := (hag.blank text hval hblank).trans strtoul_nil
          rw [he]
          refine body_none h₁.stands (Or.inr ?_)
          rw [hzero]
          rfl

/-- It is taken a line at a time with a digit in memory behind the stream. -/
theorem Poised.ambiguous_taken [Abi] (h : r.Poised U L (ascii "1") u c) (hc : 4096 ≤ c)
    (hamb : Ambiguous c u) (hL : r.src.rest.length ≤ L) : r.next.1 ≠ none := by
  obtain ⟨hd, t, text, hsplit, hval, hkind⟩ := hamb
  obtain ⟨r₁, hs, he, h₁, -, hag⟩ := h.header hc agreesOn_start hsplit (Or.inr hL)
  have hhave : hs.haveLength = true := by
    rw [hag.agrees.have', hval]
    rfl
  have hbody : ∃ x, bodyAt r₁.cap hs.contentLength t = some x := by
    cases hblank : text.all isSpace with
    | false =>
        rw [hblank, if_neg (by decide)] at hkind
        rw [hag.agrees.value text hval hblank, h₁.cap]
        exact Option.isSome_iff_exists.mp hkind.1
    | true =>
        rw [hblank, if_pos rfl] at hkind
        have hone : hs.contentLength = 1 :=
          (hag.blank text hval hblank).trans (strtoul_digit (by decide))
        have hpos := List.length_pos_of_ne_nil hkind
        rw [hone]
        unfold bodyAt
        rw [if_neg]
        · exact ⟨_, rfl⟩
        · simp only [Bool.or_eq_true, decide_eq_true_eq]
          unfold maxMessageBytes
          omega
  obtain ⟨⟨body, t', c'⟩, hb⟩ := hbody
  have hcap := h₁.cap
  obtain ⟨r', hr', -⟩ := body_some h₁.stands (by omega) hhave hb
  rw [next_contentLength h.stands, he, hr']
  exact Option.some_ne_none body

end Reader

/-! ## Two cuts -/

/-- A frame is longer than what of its first line is at hand. -/
theorem frameAt_length [Abi] {c c' w : Nat} {u body t : Bytes}
    (hf : frameAt c u = some (body, t, c')) (hno : 10 ∉ u.take w) : t.length + w ≤ u.length := by
  obtain ⟨hd, t₀, text, hsplit, -, -, hb⟩ := frameAt_some hf
  obtain ⟨-, -, -, -, rfl, -⟩ := bodyAt_some hb
  obtain ⟨k, hk, -, hlen, -⟩ := splitHeader_step hsplit
  have hwk := le_of_memchrLf_none (List.take_prefix w u) (memchrLf_eq_none.mpr hno) hk
  rw [List.length_take] at hwk
  rw [List.length_drop]
  omega

/-- Two readers at one place of the stream, the one byte by byte and the other paced, are told
    apart by a frame in trouble. -/
theorem trouble_tells [Abi] {c : Nat} {u : Bytes} (h : Trouble c u) (hc : 4096 ≤ c) {w : Nat}
    (hw : w ≤ u.length) (hno : 10 ∉ u.take w) :
    ∃ L n, L + w ≤ u.length ∧ ∀ (U : Bytes) (r₁ r₂ : Reader), r₁.Poised U 0 [] u c →
      r₂.Poised U L (ascii "1") u c → r₂.window.length = w → r₁.messages n ≠ r₂.messages n := by
  have hnow : ∀ {c u w}, 4096 ≤ c → Ambiguous c u → w ≤ u.length →
      ∃ L n, L + w ≤ u.length ∧ ∀ (U : Bytes) (r₁ r₂ : Reader), r₁.Poised U 0 [] u c →
        r₂.Poised U L (ascii "1") u c → r₂.window.length = w →
          r₁.messages n ≠ r₂.messages n := by
    intro c u w hc hamb hw
    refine ⟨u.length - w, 1, by omega, fun U r₁ r₂ h₁ h₂ hlen => ?_⟩
    have hrest := h₂.stands.rest_length
    have hno := h₁.ambiguous_refused hc hamb
    have hyes := h₂.ambiguous_taken hc hamb (by omega)
    obtain ⟨body, hbody⟩ := Option.ne_none_iff_exists'.mp hyes
    rw [messages, messages, show r₁.next = (none, r₁.next.2) from Prod.ext hno rfl,
      show r₂.next = (some body, r₂.next.2) from Prod.ext hbody rfl]
    exact (List.cons_ne_nil _ _).symm
  induction h generalizing w with
  | here hamb => exact hnow hc hamb hw
  | @later c u body t c' hf ht ih =>
      by_cases hamb : Ambiguous c u
      · exact hnow hc hamb hw
      · have hc' := frameAt_cap hf
        have hlen := frameAt_length hf hno
        obtain ⟨L, n, hL, htell⟩ := ih (Nat.le_trans hc hc') (Nat.zero_le _) (by simp)
        refine ⟨L, n + 1, by omega, fun U r₁ r₂ h₁ h₂ _ => ?_⟩
        obtain ⟨s₁, he₁, hs₁, -⟩ := h₁.frame hc hamb hf (Nat.zero_le _)
        obtain ⟨s₂, he₂, hs₂, hnil⟩ := h₂.frame hc hamb hf (by omega)
        have hne := htell U s₁ s₂ hs₁ hs₂ (by rw [hnil]; rfl)
        rw [messages, messages, he₁, he₂]
        exact fun he => hne (List.cons.inj he).2

namespace Reader

/-! ## Detection -/

variable {r : Reader} {u U : Bytes} {L : Nat} {m : Bytes}

theorem detect_behind (r : Reader) : r.detect.2.behind = r.behind := by
  fun_induction detect r with
  | case1 r _ ih => exact ih
  | case2 => rfl
  | case3 r _ _ _ ih => rw [ih, (fill_frame _).2.2]; rfl
  | case4 r => exact (fill_frame _).2.2
  | case5 r => exact (fill_frame _).2.2

theorem stripLeading_length_le (u : Bytes) : (stripLeading u).length ≤ u.length := by
  fun_induction stripLeading u with
  | case1 t ih =>
      simp only [List.length_cons]
      omega
  | case2 c t _ _ ih =>
      rw [List.length_cons]
      omega
  | case3 => exact Nat.le_refl _
  | case4 => exact Nat.le_refl _

theorem judge_key {w : Bytes} (hj : judge w = some .contentLength) : clKeyLen ≤ w.length := by
  unfold judge at hj
  dsimp only at hj
  split at hj
  · split at hj
    · split at hj
      · omega
      · cases hj
    · cases hj
  · cases hj

/-- Where the bytes at hand decide nothing there is one more to read. -/
theorem Paced.fill_skipped (hp : r.Paced U L) (h : r.At .unknown u)
    (hL : L + clKeyLen ≤ (stripLeading u).length) (hj : judge r.skipWs.window = none) :
    r.skipWs.fill.1 = true ∧
      r.skipWs.fill.2.window.length = r.skipWs.window.length + 1 := by
  obtain ⟨u', h', hstrip, -⟩ := h.skipWs
  have hshort := (judge_none hj).1
  have hle := stripLeading_length_le u'
  have hrest := h'.rest_length
  rw [← hstrip] at hL
  have hps : r.skipWs.Paced U L := hp.advance _
  exact hps.fill_one h' (by omega) (Nat.lt_trans hshort (by decide))

/-- Byte by byte, detection holds no more than the key. -/
theorem detect_bytewise (hp : r.Paced U L) (h : r.At .unknown u)
    (hL : L + clKeyLen ≤ (stripLeading u).length) (hlen : r.window.length ≤ clKeyLen) :
    r.detect.2.window.length ≤ clKeyLen ∧ r.detect.2.Paced U L ∧
      (r.detect.2.framing = .contentLength → clKeyLen ≤ r.detect.2.window.length) := by
  have hskip : ∀ r : Reader, r.window.length ≤ clKeyLen → r.skipWs.window.length ≤ clKeyLen := by
    intro r hr
    rw [skipWs, window_advance, List.length_drop]
    omega
  fun_induction detect r generalizing u with
  | case1 r hb ih =>
      obtain ⟨u', h', hstrip, -⟩ := h.skipWs
      obtain ⟨t, ht⟩ := (atBom_iff _).mp hb
      have h3 : 3 ≤ r.skipWs.window.length := by
        rw [← ht, List.length_append]
        exact Nat.le_add_right 3 _
      have hbom : stripLeading (u'.drop 3) = stripLeading u := by
        rw [← hstrip, ← h'.unread, unread, ← ht, List.append_assoc, stripLeading_bom]
        rfl
      have hle := hskip r hlen
      refine ih ((hp.advance _).advance 3) (h'.advance h3) (hbom ▸ hL) ?_
      rw [window_advance, List.length_drop]
      omega
  | case2 r hb f hj =>
      refine ⟨hskip r hlen, ⟨hp.sizes, hp.rest⟩, fun hf => ?_⟩
      have hf' : f = .contentLength := hf
      exact judge_key (hf' ▸ hj)
  | case3 r hb hj hf ih =>
      obtain ⟨u', h', hstrip, -⟩ := h.skipWs
      have hone := (hp.fill_skipped h hL hj).2
      have hps : r.skipWs.Paced U L := hp.advance _
      exact ih hps.fill h'.fill (hstrip.symm ▸ hL) (by rw [hone]; exact (judge_none hj).1)
  | case4 r hb hj hf =>
      exact absurd (hp.fill_skipped h hL hj).1 hf
  | case5 r hb hj hf =>
      exact absurd (hp.fill_skipped h hL hj).1 hf

/-- The key has no line feed. -/
theorem key_noLf {u : Bytes} (hkey : framingOf u = .contentLength) : 10 ∉ u.take clKeyLen := by
  unfold framingOf at hkey
  split at hkey
  · next hstart =>
      intro hmem
      have hkeys := eq_of_beq hstart
      have hlow : lower 10 ∈ clKey := hkeys ▸ List.mem_map_of_mem hmem
      exact absurd hlow (by decide)
  · cases hkey

theorem key_length {u : Bytes} (hkey : framingOf u = .contentLength) : clKeyLen ≤ u.length := by
  unfold framingOf at hkey
  split at hkey
  · next hstart =>
      have hlen := congrArg List.length (eq_of_beq hstart)
      rw [List.length_map, List.length_take] at hlen
      have hkl : clKey.length = clKeyLen := by decide
      omega
  · cases hkey

/-- Behind the detection the first header line starts, with its key at hand. -/
theorem detect_poised (hkey : framingOf (stripLeading U) = .contentLength)
    (hL : L + clKeyLen ≤ (stripLeading U).length) :
    (init ⟨U, paced U L⟩ fun _ _ => m).detect.2.Poised U L m (stripLeading U) 4096 ∧
      (init ⟨U, paced U L⟩ fun _ _ => m).detect.2.window.length = clKeyLen := by
  have hinit := at_init ⟨U, paced U L⟩ fun _ _ => m
  have hp : (init ⟨U, paced U L⟩ fun _ _ => m).Paced U L := ⟨rfl, List.suffix_rfl⟩
  have hne : stripLeading U ≠ [] := by
    intro hnil
    rw [hnil] at hkey
    cases hkey
  obtain ⟨hok, hat⟩ := (detect_spec hinit).2 hne
  have hcap := detect_cap hinit.wf (Or.inl rfl) hok
  obtain ⟨hle, hp', hge⟩ := detect_bytewise hp hinit hL (Nat.zero_le _)
  rw [hkey] at hat
  have hlen := Nat.le_antisymm hle (hge hat.framing)
  refine ⟨⟨hp', hat, hcap, ?_, hle, detect_behind _⟩, hlen⟩
  have hwin := List.prefix_iff_eq_take.mp hat.window_prefix
  rw [hwin, hlen]
  exact key_noLf hkey

end Reader

/-! ## The property -/

/-- The bodies of a stream are the same for every two cuts. -/
def ChunkingIndependent [Abi] (U : Bytes) : Prop :=
  ∀ (sizes sizes' : Nat → Nat) (behind behind' : Nat → Nat → Bytes) (n : Nat),
    (init ⟨U, sizes⟩ behind).messages n = (init ⟨U, sizes'⟩ behind').messages n

/-- Content-Length reading is independent of chunking exactly where no frame that is reached is
    ambiguous. -/
theorem chunking_independent [Abi] (U : Bytes)
    (hkey : framingOf (stripLeading U) = .contentLength) :
    ChunkingIndependent U ↔ ¬ Trouble 4096 (stripLeading U) := by
  have hne : stripLeading U ≠ [] := by
    intro hnil
    rw [hnil] at hkey
    cases hkey
  constructor
  · intro hind htr
    obtain ⟨L, n, hL, htell⟩ := trouble_tells htr (Nat.le_refl _) (key_length hkey) (key_noLf hkey)
    obtain ⟨h₁, -⟩ := detect_poised (m := []) hkey (L := 0)
      (by rw [Nat.zero_add]; exact key_length hkey)
    obtain ⟨h₂, hlen⟩ := detect_poised (m := ascii "1") hkey hL
    refine htell U _ _ h₁ h₂ hlen ?_
    have hn₁ := (next_unknown (at_init ⟨U, paced U 0⟩ fun _ _ => []) hne).2
    have hn₂ := (next_unknown (at_init ⟨U, paced U L⟩ fun _ _ => ascii "1") hne).2
    rw [← messages_congr hn₁, ← messages_congr hn₂]
    exact hind _ _ _ _ n
  · intro hno sizes sizes' behind behind' n
    rw [messages_init hkey hno, messages_init hkey hno]

open Lp64 in
/-- One frame with a second header line. -/
theorem chunking_independent_oneFrame :
    ChunkingIndependent (ascii "Content-Length: 2\r\nX: 1\r\n\r\nok") := by
  refine (chunking_independent _ (by decide +kernel)).mpr fun htr => ?_
  have hsplit : splitHeader 4096 .start
      (stripLeading (ascii "Content-Length: 2\r\nX: 1\r\n\r\nok")) =
        some (⟨some (ascii " 2\r"), true, false⟩, ascii "ok") := by
    decide +kernel
  have hframe : frameAt 4096 (stripLeading (ascii "Content-Length: 2\r\nX: 1\r\n\r\nok")) =
      some (ascii "ok", [], 4096) := by
    decide +kernel
  cases htr with
  | here hamb =>
      obtain ⟨h, t, text, hs, hval, hkind⟩ := hamb
      rw [hsplit] at hs
      cases hs
      cases hval
      rw [if_neg (by decide)] at hkind
      cases hkind.2
  | later hf ht =>
      rw [hframe] at hf
      cases hf
      exact not_trouble_nil 4096 ht

open Lp64 in
/-- A header line of 1101 bytes: read at once it is taken, cut behind 1060 bytes it is refused. -/
theorem chunking_independent_longLine :
    framingOf (stripLeading (ascii "Content-Length: 2\r\n" ++ List.replicate 1100 88 ++
      ascii "\r\n\r\nok")) = .contentLength ∧
    ¬ ChunkingIndependent (ascii "Content-Length: 2\r\n" ++ List.replicate 1100 88 ++
      ascii "\r\n\r\nok") := by
  refine ⟨by decide +kernel, fun hind => ?_⟩
  have hsame := hind (fun _ => 4096) (fun _ => 1060) (fun _ _ => []) (fun _ _ => []) 1
  have hfirst : (init ⟨ascii "Content-Length: 2\r\n" ++ List.replicate 1100 88 ++
      ascii "\r\n\r\nok", fun _ => 4096⟩ fun _ _ => []).messages 1 = [ascii "ok"] := by
    decide +kernel
  have hsecond : (init ⟨ascii "Content-Length: 2\r\n" ++ List.replicate 1100 88 ++
      ascii "\r\n\r\nok", fun _ => 1060⟩ fun _ _ => []).messages 1 = [] := by
    decide +kernel
  rw [hfirst, hsecond] at hsame
  cases hsame

end DisplayxrMcp.Stdio
