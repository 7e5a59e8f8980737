/-
  Content-Length reading, whole stream against cut stream.

  `splitHeader c` reads a header off a whole stream, with fewer than `c` bytes
  before each line feed. A line of at most 1024 bytes is accepted however it
  arrives; a longer one only if its line feed comes into the buffer of `c` bytes
  before the next look (`long` records it). `strtoul` stays within its line only if
  the value has a byte that is not white space. `Trouble` says that a frame of one of
  the two kinds is reached; where it is not, `frames` is what every cut gives.
-/
import DisplayxrMcp.Stdio.Detect

namespace DisplayxrMcp.Stdio

open Lib Reader

/-! ## Frames of a whole stream -/

/-- What the lines of a header say: the text behind the key of the last Content-Length line,
    and whether a line has more than 1024 bytes before its line feed. -/
structure HeaderText where
  value : Option Bytes
  any : Bool
  long : Bool
  deriving DecidableEq

/-- Before the first line. -/
def HeaderText.start : HeaderText := ⟨none, false, false⟩

/-- A line `l` that is not blank, without its line feed. -/
def HeaderText.add (h : HeaderText) (l : Bytes) : HeaderText where
  value := if isLengthLine (l ++ [10]) then some (l.drop clKeyLen) else h.value
  any := true
  long := h.long || decide (1024 < l.length)

/-- The rest of a header, and what follows it. -/
def splitHeader (c : Nat) (h : HeaderText) (u : Bytes) : Option (HeaderText × Bytes) :=
  match _hk : memchrLf u with
  | none => none
  | some k =>
      if c ≤ k then none
      else if blankLine (u.take (k + 1)) then
        if h.any then some (h, u.drop (k + 1)) else splitHeader c h (u.drop (k + 1))
      else splitHeader c (h.add (u.take k)) (u.drop (k + 1))
termination_by u.length
decreasing_by
  all_goals
    have hlt := memchrLf_lt _hk
    rw [List.length_drop]
    omega

/-- The capacity of the buffer once it has held a body of `n` bytes. -/
def capFor (c n : Nat) : Nat := if 0 < c ∧ c < n then capFor (2 * c) n else c
termination_by n - c

/-- A body of `n` bytes at the front: the body, what follows, and the capacity after it. -/
def bodyAt (c n : Nat) (t : Bytes) : Option (Bytes × Bytes × Nat) :=
  if n = 0 || n > maxMessageBytes || t.length < n then none
  else some (t.take n, t.drop n, capFor c n)

/-- The frame at the front, likewise. -/
def frameAt [Abi] (c : Nat) (u : Bytes) : Option (Bytes × Bytes × Nat) :=
  (splitHeader c .start u).bind fun p =>
    p.1.value.bind fun text =>
      if text.all isSpace then none else bodyAt c (strtoul text) p.2

/-- The bodies of the first `n` frames, up to the first that is not complete and legal. -/
def frames [Abi] : Nat → Nat → Bytes → List Bytes
  | 0, _, _ => []
  | n + 1, c, u =>
      match frameAt c u with
      | none => []
      | some (body, t, c') => body :: frames n c' t

/-- The frame at the front is read in one way or another by how it arrives: a value without a
    byte that is not white space, with something behind the header; or a complete legal frame
    with a line of more than 1024 bytes. -/
def Ambiguous [Abi] (c : Nat) (u : Bytes) : Prop :=
  ∃ h t text, splitHeader c .start u = some (h, t) ∧ h.value = some text ∧
    if text.all isSpace then t ≠ [] else (bodyAt c (strtoul text) t).isSome ∧ h.long = true

/-- An ambiguous frame is reached. -/
inductive Trouble [Abi] : Nat → Bytes → Prop where
  | here {c u} : Ambiguous c u → Trouble c u
  | later {c u body t c'} : frameAt c u = some (body, t, c') → Trouble c' t → Trouble c u

/-! ## One header line -/

theorem memchrLf_mono {w u : Bytes} {k : Nat} (hw : w <+: u) (hk : memchrLf w = some k) :
    memchrLf u = some k := by
  obtain ⟨hno, heq⟩ := memchrLf_some hk
  obtain ⟨t, rfl⟩ := hw
  have hlen : (w.take k).length = k := by
    have hlt := memchrLf_lt hk
    rw [List.length_take]
    omega
  have hline := memchrLf_line hno (w.drop (k + 1) ++ t)
  rw [hlen] at hline
  rw [← hline, ← List.cons_append, ← List.append_assoc, ← heq]

theorem le_of_memchrLf_none {w u : Bytes} {k : Nat} (hw : w <+: u) (hnone : memchrLf w = none)
    (hk : memchrLf u = some k) : w.length ≤ k := by
  by_contra hgt
  obtain ⟨hlt, h10, -⟩ := List.findIdx?_eq_some_iff_getElem.mp hk
  have hget := hw.getElem (i := k) (by omega)
  rw [eq_of_beq h10] at hget
  exact memchrLf_eq_none.mp hnone (hget ▸ List.getElem_mem _)

namespace Reader

variable {r : Reader} {f : Framing} {u : Bytes}

/-- `header_line` consumes nothing and, from 4096 bytes on, leaves the capacity alone. -/
theorem headerLine_at (h : r.At f u) (hc : 4096 ≤ r.cap) :
    r.headerLine.2.At f u ∧ r.headerLine.2.cap = r.cap ∧
      ∀ k, r.headerLine.1 = k + 1 → memchrLf r.headerLine.2.window = some k := by
  fun_induction headerLine r with
  | case1 r k hk =>
      refine ⟨h, rfl, fun k' he => ?_⟩
      rw [← Nat.succ.inj he]
      exact hk
  | case2 r _ _ => exact ⟨h, rfl, fun k he => by cases he⟩
  | case3 r _ hle hf ih =>
      have hcap : r.fill.2.cap = r.cap := by
        rcases fill_cap r with he | ⟨he, -⟩
        · exact he
        · omega
      rw [← hcap] at hc ⊢
      exact ih h.fill hc
  | case4 r _ hle hf =>
      have hcap : r.fill.2.cap = r.cap := by
        rcases fill_cap r with he | ⟨he, -⟩
        · exact he
        · omega
      exact ⟨h.fill, hcap, fun k he => by cases he⟩

/-- A line of at most 1024 bytes is found however it arrives. -/
theorem headerLine_short (h : r.At f u) {k : Nat} (hk : memchrLf u = some k) (hle : k ≤ 1024) :
    r.headerLine.1 = k + 1 := by
  fun_induction headerLine r with
  | case1 r k' hk' =>
      have he := memchrLf_mono h.window_prefix hk'
      rw [hk] at he
      rw [Option.some.inj he]
  | case2 r hnone hlong =>
      have hlen := le_of_memchrLf_none h.window_prefix hnone hk
      omega
  | case3 r _ _ _ ih => exact ih h.fill
  | case4 r hnone hle' hf =>
      have hroom : r.window.length < maxMessageBytes := by
        unfold maxMessageBytes
        omega
      obtain ⟨-, hwu⟩ := h.fill_end hroom (Bool.eq_false_iff.mpr hf)
      rw [hwu, hk] at hnone
      cases hnone

/-! ## The header -/

/-- The local variables say what the lines so far say, where that does not depend on what came
    behind a line. -/
structure Agrees [Abi] (hs : Headers) (h : HeaderText) : Prop where
  any : hs.anyHeader = h.any
  have' : hs.haveLength = h.value.isSome
  value : ∀ text, h.value = some text → text.all isSpace = false → hs.contentLength = strtoul text

theorem agrees_start [Abi] : Agrees ⟨0, false, false⟩ .start :=
  ⟨rfl, rfl, fun _ h => by cases h⟩

/-- `strtoul` gets the line's value, its line feed and whatever follows. -/
theorem memory_eq {k : Nat} (hk : memchrLf r.window = some k)
    (hlen : isLengthLine (r.window.take k ++ [10]) = true) :
    ∃ m, r.memory = (r.window.take k).drop clKeyLen ++ 10 :: m := by
  obtain ⟨-, heq⟩ := memchrLf_some hk
  have hkey : clKeyLen ≤ (r.window.take k).length := by
    unfold isLengthLine at hlen
    rw [Bool.and_eq_true, decide_eq_true_eq, List.length_append, List.length_singleton] at hlen
    omega
  refine ⟨r.window.drop (k + 1) ++ r.behind r.src.rest.length r.unread.length, ?_⟩
  unfold memory
  conv_lhs => rw [heq]
  rw [List.drop_append_of_le_length hkey, List.append_assoc, List.cons_append]

theorem take_succ_of_memchrLf {s : Bytes} {k : Nat} (hk : memchrLf s = some k) :
    s.take (k + 1) = s.take k ++ [10] := by
  obtain ⟨-, heq⟩ := memchrLf_some hk
  have hlt := memchrLf_lt hk
  have hlen : (s.take k).length = k := by
    rw [List.length_take]
    omega
  conv_lhs => rw [heq]
  rw [List.take_append, hlen, List.take_of_length_le (by omega), show k + 1 - k = 1 by omega]
  rfl

theorem Agrees.add [Abi] {hs : Headers} {h : HeaderText} (hag : Agrees hs h) {k : Nat}
    (hk : memchrLf r.window = some k) :
    Agrees (hs.add (r.window.take k ++ [10]) r.memory) (h.add (r.window.take k)) := by
  unfold Headers.add HeaderText.add
  by_cases hlen : isLengthLine (r.window.take k ++ [10]) = true
  · obtain ⟨m, hm⟩ := memory_eq hk hlen
    rw [if_pos hlen, if_pos hlen]
    refine ⟨rfl, rfl, fun text ht hns => ?_⟩
    cases ht
    show strtoul r.memory = _
    rw [hm, strtoul_line hns]
  · rw [if_neg hlen, if_neg hlen]
    exact ⟨rfl, hag.have', hag.value⟩

theorem splitHeader_of_none {c : Nat} {h : HeaderText} (hk : memchrLf u = none) :
    splitHeader c h u = none := by
  unfold splitHeader
  split
  · rfl
  · next k hk' =>
      rw [hk] at hk'
      cases hk'

theorem splitHeader_of_some {c k : Nat} {h : HeaderText} (hk : memchrLf u = some k) :
    splitHeader c h u =
      if c ≤ k then none
      else if blankLine (u.take (k + 1)) then
        if h.any then some (h, u.drop (k + 1)) else splitHeader c h (u.drop (k + 1))
      else splitHeader c (h.add (u.take k)) (u.drop (k + 1)) := by
  conv_lhs => unfold splitHeader
  split
  · next hk' =>
      rw [hk] at hk'
      cases hk'
  · next k' hk' =>
      rw [hk] at hk'
      cases hk'
      rfl

theorem splitHeader_long {c : Nat} {h h' : HeaderText} {t : Bytes}
    (hs : splitHeader c h u = some (h', t)) (hlong : h.long = true) : h'.long = true := by
  fun_induction splitHeader c h u with
  | case1 => cases hs
  | case2 => cases hs
  | case3 =>
      cases hs
      exact hlong
  | case4 h u k hk hle hb hany ih => exact ih hs hlong
  | case5 h u k hk hle hb ih => exact ih hs (by simp [HeaderText.add, hlong])

theorem blankLine_short {s : Bytes} (h : blankLine s = true) : s.length ≤ 2 := by
  unfold blankLine at h
  simp only [Bool.or_eq_true, beq_iff_eq, Bool.and_eq_true] at h
  omega

/-- One header line: at the end of a line the reader is behind it, and it fits the buffer. -/
theorem pastLine_at (h : r.At f u) (hc : 4096 ≤ r.cap) (h0 : r.headerLine.1 ≠ 0) :
    ∃ k, memchrLf u = some k ∧ k < r.cap ∧ r.line = u.take (k + 1) ∧
      memchrLf r.headerLine.2.window = some k ∧ r.headerLine.2.window.take k = u.take k ∧
      r.pastLine.At f (u.drop (k + 1)) ∧ r.pastLine.cap = r.cap := by
  obtain ⟨k, hk⟩ := Nat.exists_eq_succ_of_ne_zero h0
  obtain ⟨hat, hcap, hfound⟩ := headerLine_at h hc
  have hmem := hfound k hk
  have hlt := memchrLf_lt hmem
  have hroom : r.headerLine.2.window.length ≤ r.headerLine.2.cap := by
    have hle := hat.wf.lenLe
    rw [window, List.length_drop]
    omega
  have htake : ∀ n, n ≤ r.headerLine.2.window.length → r.headerLine.2.window.take n = u.take n := by
    intro n hn
    rw [← hat.unread, unread, List.take_append_of_le_length hn]
  refine ⟨k, memchrLf_mono hat.window_prefix hmem, by omega, ?_, hmem, htake k (by omega), ?_, hcap⟩
  · rw [line, hk]
    exact htake _ hlt
  · have hadv := hat.advance (n := k + 1) hlt
    rw [pastLine, hk]
    exact hadv

/-- The header of a cut stream against that of the whole one. -/
theorem nextContentLength_spec [Abi] (h : r.At f u) (hc : 4096 ≤ r.cap) {hs : Headers}
    {hd : HeaderText} (hag : Agrees hs hd) :
    (splitHeader r.cap hd u = none → (r.nextContentLength hs).1 = none) ∧
      ∀ hd' t, splitHeader r.cap hd u = some (hd', t) →
        ((r.nextContentLength hs).1 = none ∧ hd'.long = true) ∨
          ∃ (r' : Reader) (hs' : Headers), r.nextContentLength hs = r'.body hs' ∧
            r'.At f t ∧ r'.cap = r.cap ∧ Agrees hs' hd' := by
  fun_induction nextContentLength r hs generalizing u hd with
  | case1 r hs h0 =>
      refine ⟨fun _ => rfl, fun hd' t hsplit => Or.inl ⟨rfl, ?_⟩⟩
      cases hk : memchrLf u with
      | none =>
          rw [splitHeader_of_none hk] at hsplit
          cases hsplit
      | some k =>
          -- a line that was refused has more than 1024 bytes
          have hlong : 1024 < k := by
            by_contra hle
            have hshort := headerLine_short h hk (Nat.not_lt.mp hle)
            omega
          have hlt := memchrLf_lt hk
          have hnb : ¬ blankLine (u.take (k + 1)) = true := by
            intro hb
            have hle := blankLine_short hb
            rw [List.length_take] at hle
            omega
          rw [splitHeader_of_some hk, if_neg hnb] at hsplit
          split at hsplit
          · cases hsplit
          · refine splitHeader_long hsplit ?_
            have hlen : (u.take k).length = k := by
              rw [List.length_take]
              omega
            simp [HeaderText.add, hlen, hlong]
  | case2 r hs h0 hb hany =>
      obtain ⟨k, hk, hkc, hline, -, -, hat, hcap⟩ := pastLine_at h hc h0
      rw [hline] at hb
      have hany' : hd.any = true := hag.any ▸ hany
      rw [splitHeader_of_some hk, if_neg (by omega), if_pos hb, if_pos hany']
      refine ⟨fun hn => (by cases hn), fun hd' t hsplit => ?_⟩
      cases hsplit
      exact Or.inr ⟨r.pastLine, hs, rfl, hat, hcap, hag⟩
  | case3 r hs h0 hb hany ih =>
      obtain ⟨k, hk, hkc, hline, -, -, hat, hcap⟩ := pastLine_at h hc h0
      rw [hline] at hb
      have hany' : ¬ hd.any = true := hag.any ▸ hany
      rw [splitHeader_of_some hk, if_neg (by omega), if_pos hb, if_neg hany', ← hcap]
      exact ih hat (by omega) hag
  | case4 r hs h0 hb ih =>
      obtain ⟨k, hk, hkc, hline, hmem, htake, hat, hcap⟩ := pastLine_at h hc h0
      rw [hline] at hb
      rw [splitHeader_of_some hk, if_neg (by omega), if_neg hb, ← hcap]
      refine ih hat (by omega) ?_
      rw [hline, take_succ_of_memchrLf hk, ← htake]
      exact hag.add hmem

/-! ## The body -/

theorem capFor_eq {c n : Nat} (h : n ≤ c) : capFor c n = c := by
  unfold capFor
  rw [if_neg (by omega)]

/-- The body loop doubles the buffer exactly as often as the body needs. -/
theorem assemble_cap (h : r.At f u) (hc : 0 < r.cap) {n : Nat} (hn : n ≤ u.length)
    (hmax : n ≤ maxMessageBytes) : (r.assemble n).2.cap = capFor r.cap n := by
  fun_induction assemble r n with
  | case1 r hlt hf ih =>
      rcases fill_cap r with he | ⟨hfull, he⟩
      · rw [ih h.fill (by omega), he]
      · have hdouble : r.ncap = 2 * r.cap := by
          unfold ncap
          rw [if_neg (by omega)]
          omega
        rw [ih h.fill (by omega), he, hdouble]
        conv_rhs => unfold capFor
        rw [if_pos ⟨hc, by omega⟩]
  | case2 r hlt hf =>
      obtain ⟨-, hwu⟩ := h.fill_end (by omega) (Bool.eq_false_iff.mpr hf)
      rw [hwu] at hlt
      omega
  | case3 r hge =>
      have hlen := h.wf.lenLe
      rw [window, List.length_drop] at hge
      have hfits : n ≤ r.cap := by omega
      exact (capFor_eq hfits).symm

theorem body_none (h : r.At f u) {hs : Headers}
    (hno : hs.haveLength = false ∨ bodyAt r.cap hs.contentLength u = none) :
    (r.body hs).1 = none := by
  unfold body
  split
  · rfl
  · next hcond =>
      simp only [Bool.or_eq_true, Bool.not_eq_true', decide_eq_true_eq, not_or] at hcond
      obtain ⟨⟨hhave, hne⟩, hle⟩ := hcond
      refine (assemble_spec h (Nat.not_lt.mp hle)).2 ?_
      rcases hno with hno | hno
      · exact absurd hno hhave
      · unfold bodyAt at hno
        split at hno
        · next hcond =>
            simp only [Bool.or_eq_true, decide_eq_true_eq] at hcond
            omega
        · cases hno

theorem bodyAt_some {c c' n : Nat} {m t : Bytes} (hb : bodyAt c n u = some (m, t, c')) :
    0 < n ∧ n ≤ maxMessageBytes ∧ n ≤ u.length ∧ m = u.take n ∧ t = u.drop n ∧
      c' = capFor c n := by
  unfold bodyAt at hb
  split at hb
  · cases hb
  · next hcond =>
      simp only [Bool.or_eq_true, decide_eq_true_eq, not_or, Nat.not_lt] at hcond
      cases hb
      exact ⟨by omega, hcond.1.2, hcond.2, rfl, rfl, rfl⟩

theorem body_eq {hs : Headers} (hhave : hs.haveLength = true) (hpos : 0 < hs.contentLength)
    (hmax : hs.contentLength ≤ maxMessageBytes) : r.body hs = r.assemble hs.contentLength := by
  unfold body
  rw [hhave, if_neg]
  simp only [Bool.not_true, Bool.false_or, Bool.or_eq_true, decide_eq_true_eq]
  omega

theorem body_some (h : r.At f u) (hc : 0 < r.cap) {hs : Headers} {m t : Bytes} {c : Nat}
    (hhave : hs.haveLength = true) (hb : bodyAt r.cap hs.contentLength u = some (m, t, c)) :
    ∃ r', r.body hs = (some m, r') ∧ r'.At f t ∧ r'.cap = c := by
  obtain ⟨hpos, hmax, hlen, rfl, rfl, rfl⟩ := bodyAt_some hb
  obtain ⟨r', he, hat⟩ := (assemble_spec h hmax).1 hlen
  have hcap := assemble_cap h hc hlen hmax
  rw [he] at hcap
  exact ⟨r', (body_eq hhave hpos hmax).trans he, hat, hcap⟩

/-! ## One frame -/

theorem next_contentLength [Abi] (h : r.At .contentLength u) :
    r.next = r.nextContentLength ⟨0, false, false⟩ := by
  have hne : r.framing ≠ .unknown := by rw [h.framing]; decide
  unfold next
  rw [if_neg hne]
  dsimp only
  rw [if_neg (by decide), h.framing, if_pos rfl]

/-- An unambiguous frame is read in one way: it is the frame of the whole stream, or NULL. -/
theorem next_frame [Abi] (h : r.At .contentLength u) (hc : 4096 ≤ r.cap)
    (hamb : ¬ Ambiguous r.cap u) :
    (frameAt r.cap u = none → r.next.1 = none) ∧
      ∀ m t c, frameAt r.cap u = some (m, t, c) →
        ∃ r', r.next = (some m, r') ∧ r'.At .contentLength t ∧ r'.cap = c := by
  obtain ⟨hnone, hsome⟩ := nextContentLength_spec h hc agrees_start
  rw [next_contentLength h]
  unfold frameAt
  cases hsplit : splitHeader r.cap .start u with
  | none => exact ⟨fun _ => hnone hsplit, fun m t c he => by cases he⟩
  | some p =>
      obtain ⟨hd, t⟩ := p
      -- `hno`: no body to be had is NULL, whichever way the header went
      have hno : (∀ hs' : Headers, Agrees hs' hd →
            hs'.haveLength = false ∨ bodyAt r.cap hs'.contentLength t = none) →
          (r.nextContentLength ⟨0, false, false⟩).1 = none := by
        intro hall
        rcases hsome hd t hsplit with ⟨hn, -⟩ | ⟨r', hs', he, hat, hcap, hag⟩
        · exact hn
        · rw [he]
          exact body_none hat (hcap ▸ hall hs' hag)
      rw [Option.bind_some]
      cases hval : hd.value with
      | none =>
          refine ⟨fun _ => hno fun hs' hag => Or.inl ?_, fun m t' c he => by cases he⟩
          rw [hag.have', hval]
          rfl
      | some text =>
          rw [Option.bind_some]
          cases hblank : text.all isSpace with
          | true =>
              rw [if_pos rfl]
              refine ⟨fun _ => hno fun hs' _ => Or.inr ?_, fun m t' c he => by cases he⟩
              have hnil : t = [] := by
                by_contra hne
                exact hamb ⟨hd, t, text, hsplit, hval, by rw [hblank, if_pos rfl]; exact hne⟩
              subst hnil
              unfold bodyAt
              rw [if_pos]
              simp only [Bool.or_eq_true, decide_eq_true_eq, List.length_nil]
              omega
          | false =>
              rw [if_neg (by decide)]
              have hvalue : ∀ hs' : Headers, Agrees hs' hd → hs'.contentLength = strtoul text :=
                fun hs' hag => hag.value text hval hblank
              refine ⟨fun hb => hno fun hs' hag => Or.inr (by rw [hvalue hs' hag, hb]),
                fun m t' c hb => ?_⟩
              rcases hsome hd t hsplit with ⟨-, hlong⟩ | ⟨r', hs', he, hat, hcap, hag⟩
              · refine absurd ⟨hd, t, text, hsplit, hval, ?_⟩ hamb
                rw [hblank, if_neg (by decide), hb]
                exact ⟨rfl, hlong⟩
              · rw [he]
                refine body_some hat (by omega) ?_ (by rw [hcap, hvalue hs' hag, hb])
                rw [hag.have', hval]
                rfl

/-! ## Frame after frame -/

theorem le_capFor (c n : Nat) : c ≤ capFor c n := by
  fun_induction capFor c n with
  | case1 c h ih => omega
  | case2 c h => exact Nat.le_refl _

theorem frameAt_some [Abi] {c : Nat} {x : Bytes × Bytes × Nat} (h : frameAt c u = some x) :
    ∃ hd t text, splitHeader c .start u = some (hd, t) ∧ hd.value = some text ∧
      text.all isSpace = false ∧ bodyAt c (strtoul text) t = some x := by
  obtain ⟨p, hsplit, h⟩ := Option.bind_eq_some_iff.mp h
  obtain ⟨text, hval, h⟩ := Option.bind_eq_some_iff.mp h
  split at h
  · cases h
  · next hns => exact ⟨p.1, p.2, text, hsplit, hval, Bool.eq_false_iff.mpr hns, h⟩

theorem frameAt_cap [Abi] {c c' : Nat} {m t : Bytes} (h : frameAt c u = some (m, t, c')) :
    c ≤ c' := by
  obtain ⟨hd, t', text, -, -, -, hb⟩ := frameAt_some h
  obtain ⟨-, -, -, -, -, rfl⟩ := bodyAt_some hb
  exact le_capFor _ _

theorem messages_frames [Abi] (h : r.At .contentLength u) (hc : 4096 ≤ r.cap)
    (hno : ¬ Trouble r.cap u) (n : Nat) : r.messages n = frames n r.cap u := by
  induction n generalizing r u with
  | zero => rfl
  | succ n ih =>
      obtain ⟨hnone, hsome⟩ := next_frame h hc fun hamb => hno (.here hamb)
      unfold messages frames
      cases hf : frameAt r.cap u with
      | none =>
          have hn := hnone hf
          rw [show r.next = (none, r.next.2) from Prod.ext hn rfl]
      | some p =>
          obtain ⟨m, t, c⟩ := p
          obtain ⟨r', he, hat, hcap⟩ := hsome m t c hf
          have hle := frameAt_cap hf
          rw [he]
          dsimp only
          rw [ih hat (by omega) (by rw [hcap]; exact fun ht => hno (.later hf ht)), hcap]

/-- From the start of a Content-Length stream without trouble. -/
theorem messages_init [Abi] {U : Bytes} (hkey : framingOf (stripLeading U) = .contentLength)
    (hno : ¬ Trouble 4096 (stripLeading U)) (sizes : Nat → Nat) (behind : Nat → Nat → Bytes)
    (n : Nat) : (init ⟨U, sizes⟩ behind).messages n = frames n 4096 (stripLeading U) := by
  have hne : stripLeading U ≠ [] := by
    intro hnil
    rw [hnil] at hkey
    cases hkey
  have hinit := at_init ⟨U, sizes⟩ behind
  obtain ⟨hat, hnext⟩ := next_unknown hinit hne
  have hcap := detect_cap hinit.wf (Or.inl rfl) ((detect_spec hinit).2 hne).1
  rw [messages_congr hnext, messages_frames (hkey ▸ hat) (Nat.le_of_eq hcap.symm) (hcap ▸ hno),
    hcap]

end Reader

theorem frameAt_nil [Abi] (c : Nat) : frameAt c [] = none := by
  unfold frameAt
  rw [splitHeader_of_none rfl]
  rfl

/-- Nothing is left to be read in two ways. -/
theorem not_trouble_nil [Abi] (c : Nat) : ¬ Trouble c [] := by
  intro h
  cases h with
  | here hamb =>
      obtain ⟨h, t, text, hs, -⟩ := hamb
      rw [splitHeader_of_none rfl] at hs
      cases hs
  | later hf _ =>
      rw [frameAt_nil] at hf
      cases hf

end DisplayxrMcp.Stdio
