/-
  The ndjson transport, for every cut of the stream.

  `lines` is what the transport says the messages of a stream are: its lines,
  trimmed, the empty ones dropped. `nextNdjson_spec` reads one of them: the loop
  keeps that no line feed is among the bytes already searched, so the line feed it
  finds ends the first line, and a fill refused for space means that line has 16
  MiB. `ndjson_transport` puts detection in front and lets calls follow each other.
-/
import DisplayxrMcp.Stdio.Detect

namespace DisplayxrMcp.Stdio

open Lib Reader

/-- The messages of an ndjson stream. -/
def lines (u : Bytes) : List Bytes := ((u.splitOn 10).map trim).filter (· ≠ [])

/-- Every line is shorter than 16 MiB. -/
def ShortLines (u : Bytes) : Prop := ∀ l ∈ u.splitOn 10, l.length < maxMessageBytes

theorem trim_length_le (l : Bytes) : (trim l).length ≤ l.length :=
  Nat.le_trans (List.rdropWhile_prefix isWs _).length_le (List.dropWhile_sublist isWs).length_le

/-! ## One line -/

theorem splitOn_line {l : Bytes} (hl : 10 ∉ l) (t : Bytes) :
    (l ++ 10 :: t).splitOn 10 = l :: t.splitOn 10 := by
  rw [List.splitOn_append_cons_self, List.splitOn_eq_singleton hl, List.singleton_append]

theorem lines_line {l : Bytes} (hl : 10 ∉ l) (t : Bytes) :
    lines (l ++ 10 :: t) = if trim l = [] then lines t else trim l :: lines t := by
  unfold lines
  rw [splitOn_line hl, List.map_cons, List.filter_cons]
  by_cases h : trim l = [] <;> simp [h]

theorem lines_last {l : Bytes} (hl : 10 ∉ l) :
    lines l = if trim l = [] then [] else [trim l] := by
  unfold lines
  rw [List.splitOn_eq_singleton hl, List.map_singleton, List.filter_cons]
  by_cases h : trim l = [] <;> simp [h]

theorem ShortLines.tail {l t : Bytes} (hl : 10 ∉ l) (h : ShortLines (l ++ 10 :: t)) :
    l.length < maxMessageBytes ∧ ShortLines t := by
  unfold ShortLines at *
  rw [splitOn_line hl] at h
  exact ⟨h l List.mem_cons_self, fun m hm => h m (List.mem_cons_of_mem _ hm)⟩

theorem shortLines_nil : ShortLines [] := by
  intro l hl
  rw [List.splitOn_nil, List.mem_singleton] at hl
  rw [hl]
  decide

/-- Bytes without a line feed at the start are part of the first line. -/
theorem ShortLines.start {w t : Bytes} (hw : 10 ∉ w) (h : ShortLines (w ++ t)) :
    w.length < maxMessageBytes := by
  have hmem : ∃ l ∈ (w ++ t).splitOn 10, w.length ≤ l.length := by
    by_cases ht : 10 ∈ t
    · obtain ⟨l, m, rfl, hl⟩ := List.eq_append_cons_of_mem ht
      refine ⟨w ++ l, ?_, by simp⟩
      rw [← List.append_assoc, splitOn_line (by simp [hw, hl])]
      exact List.mem_cons_self
    · refine ⟨w ++ t, ?_, by simp⟩
      rw [List.splitOn_eq_singleton (by simp [hw, ht])]
      exact List.mem_singleton.mpr rfl
  obtain ⟨l, hl, hle⟩ := hmem
  exact Nat.lt_of_le_of_lt hle (h l hl)

/-! ## One message -/

namespace Reader

variable {r : Reader} {f : Framing} {u : Bytes}

/-- A fill that succeeds leaves the window in front. -/
theorem fill_window (h : r.fill.1 = true) : r.window <+: r.fill.2.window := by
  obtain ⟨hu, hlt⟩ := fill_true h
  have hlen := congrArg List.length hu
  simp only [unread, List.length_append] at hlen
  refine @List.prefix_of_prefix_length_le _ _ _ r.unread (List.prefix_append _ _) ?_ (by omega)
  rw [← hu]
  exact List.prefix_append _ _

/-- No line feed is at hand. -/
theorem no_lf {m : Nat} (hno : 10 ∉ r.window.take m) (hk : memchrLf (r.window.drop m) = none) :
    10 ∉ r.window := by
  have hd := memchrLf_eq_none.mp hk
  rw [← List.take_append_drop m r.window, List.mem_append]
  exact fun hmem => hmem.elim hno hd

/-- The line feed found ends the first line, which is consumed with it. -/
theorem At.line {m k : Nat} (h : r.At f u) (hno : 10 ∉ r.window.take m)
    (hk : memchrLf (r.window.drop m) = some k) :
    10 ∉ r.window.take (m + k) ∧ ∃ t, u = r.window.take (m + k) ++ 10 :: t ∧
      (r.advance (m + k + 1)).At f t := by
  obtain ⟨hno', heq⟩ := memchrLf_drop hno hk
  have hu : r.window ++ r.src.rest = u := h.unread
  have hlen : m + k + 1 ≤ r.window.length := by
    have hlt := memchrLf_lt hk
    rw [List.length_drop] at hlt
    omega
  refine ⟨hno', r.window.drop (m + k + 1) ++ r.src.rest, ?_, ?_⟩
  · rw [← hu, ← List.cons_append, ← List.append_assoc, ← heq]
  · rw [← List.drop_append_of_le_length hlen, hu]
    exact h.advance hlen

/-- Without a line feed at hand a fill is refused only when the last line is complete. -/
theorem At.last {m : Nat} (h : r.At f u) (hno : 10 ∉ r.window.take m)
    (hk : memchrLf (r.window.drop m) = none) (hshort : ShortLines u) (hf : r.fill.1 = false) :
    r.fill.2.window = r.window ∧ r.window = u ∧ r.fill.2.eof = true := by
  have hu : r.window ++ r.src.rest = u := h.unread
  have hroom : r.window.length < maxMessageBytes :=
    ShortLines.start (t := r.src.rest) (no_lf hno hk) (hu ▸ hshort)
  obtain ⟨hw, hwu⟩ := h.fill_end hroom hf
  exact ⟨hw, hwu, (fill_eof h.wf hroom hf).1⟩

/-- `next_ndjson` returns the first of the lines to come, and NULL if there is none. -/
theorem nextNdjson_spec {scanned : Nat} (h : r.At .ndjson u)
    (hno : 10 ∉ r.window.take scanned) (hshort : ShortLines u) :
    (lines u = [] → (r.nextNdjson scanned).1 = none) ∧
      ∀ l ls, lines u = l :: ls → ∃ r' u', r.nextNdjson scanned = (some l, r') ∧
        r'.At .ndjson u' ∧ lines u' = ls ∧ ShortLines u' := by
  fun_induction nextNdjson r scanned generalizing u with
  | case1 r scanned k hk hnil ih =>
      obtain ⟨hl, t, rfl, h'⟩ := h.line hno hk
      rw [lines_line hl, if_pos hnil]
      exact ih h' (by simp) (hshort.tail hl).2
  | case2 r scanned k hk hnil hbig =>
      obtain ⟨hl, t, rfl, -⟩ := h.line hno hk
      have hlt := (hshort.tail hl).1
      have hle := trim_length_le (r.window.take (scanned + k))
      omega
  | case3 r scanned k hk hnil hbig =>
      obtain ⟨hl, t, rfl, h'⟩ := h.line hno hk
      rw [lines_line hl, if_neg hnil]
      refine ⟨fun hn => (by cases hn), fun l ls he => ?_⟩
      obtain ⟨rfl, rfl⟩ := List.cons.inj he
      exact ⟨_, t, rfl, h', rfl, (hshort.tail hl).2⟩
  | case4 r scanned hk hf ih =>
      have hw := no_lf hno hk
      obtain ⟨c, hc⟩ := fill_window hf
      refine ih h.fill ?_ hshort
      rwa [← hc, List.take_left]
  | case5 r scanned hk hf hnone =>
      obtain ⟨hw, hwu, heof⟩ := h.last hno hk hshort (Bool.eq_false_iff.mpr hf)
      rw [heof, hw, hwu, Bool.not_true, Bool.or_false, decide_eq_true_eq] at hnone
      rw [lines_last (hwu ▸ no_lf hno hk), if_pos hnone]
      exact ⟨fun _ => rfl, fun l ls he => by cases he⟩
  | case6 r scanned hk hf hsome =>
      obtain ⟨hw, hwu, heof⟩ := h.last hno hk hshort (Bool.eq_false_iff.mpr hf)
      rw [heof, hw, hwu, Bool.not_true, Bool.or_false, decide_eq_true_eq] at hsome
      rw [lines_last (hwu ▸ no_lf hno hk), if_neg hsome]
      refine ⟨fun hn => (by cases hn), fun l ls he => ?_⟩
      obtain ⟨rfl, rfl⟩ := List.cons.inj he
      refine ⟨_, u.drop u.length, by rw [hw, hwu], ?_, ?_, ?_⟩
      · have hadv := h.fill.advance (Nat.le_refl r.fill.2.window.length)
        rwa [hw, hwu] at hadv
      · rw [List.drop_length]
        rfl
      · rw [List.drop_length]
        exact shortLines_nil

/-! ## Call after call -/

theorem next_ndjson [Abi] (h : r.At .ndjson u) : r.next = r.nextNdjson 0 := by
  have hne : r.framing ≠ .unknown := by rw [h.framing]; decide
  unfold next
  rw [if_neg hne]
  dsimp only
  rw [if_neg (by decide), h.framing, if_neg (by decide)]

theorem messages_ndjson [Abi] (h : r.At .ndjson u) (hshort : ShortLines u) (n : Nat) :
    r.messages n = (lines u).take n := by
  induction n generalizing r u with
  | zero => rfl
  | succ n ih =>
      have hno : 10 ∉ r.window.take 0 := List.not_mem_nil
      obtain ⟨hnil, hcons⟩ := nextNdjson_spec h hno hshort
      unfold messages
      rw [next_ndjson h]
      cases hl : lines u with
      | nil =>
          have hnone := hnil hl
          rw [show r.nextNdjson 0 = (none, (r.nextNdjson 0).2) from Prod.ext hnone rfl]
          rfl
      | cons l ls =>
          obtain ⟨r', u', he, h', hls, hs'⟩ := hcons l ls hl
          rw [he, List.take_succ_cons, ← hls]
          exact congrArg (l :: ·) (ih h' hs')

/-- From the start of an ndjson stream. -/
theorem messages_init_ndjson [Abi] {src : Source UInt8} (hne : stripLeading src.rest ≠ [])
    (hnd : framingOf (stripLeading src.rest) = .ndjson) (hshort : ShortLines (stripLeading src.rest))
    (behind : Nat → Nat → Bytes) (n : Nat) :
    (init src behind).messages n = (lines (stripLeading src.rest)).take n := by
  obtain ⟨hat, hnext⟩ := next_unknown (at_init src behind) hne
  rw [messages_congr hnext n]
  exact messages_ndjson (hnd ▸ hat) hshort n

end Reader

/-- The stdio reader implements the ndjson transport: on every stream, cut in any way, the
    framing is the one of the stripped stream, or stays unknown if that is empty, and the messages
    up to the first NULL are the trimmed lines that are not empty. -/
theorem ndjson_transport [Abi] (src : Source UInt8) (behind : Nat → Nat → Bytes) :
    (stripLeading src.rest = [] → ∀ n, (init src behind).messages n = [] ∧
        ((init src behind).after n).framing = .unknown) ∧
      (stripLeading src.rest ≠ [] →
        (∀ n, ((init src behind).after (n + 1)).framing = framingOf (stripLeading src.rest)) ∧
          (framingOf (stripLeading src.rest) = .ndjson → ShortLines (stripLeading src.rest) →
            ∀ n, (init src behind).messages n = (lines (stripLeading src.rest)).take n)) := by
  have hinit := at_init src behind
  exact ⟨fun hnil => calls_nil hinit hnil, fun hne =>
    ⟨after_known hinit hne, fun hnd hshort => messages_init_ndjson hne hnd hshort behind⟩⟩

open Lp64 in
/-- Two messages and a blank line between them, one byte at a time. -/
theorem ndjson_transport_twoLines :
    (init ⟨ascii " [1]\r\n \n{2}", fun _ => 1⟩ fun _ _ => []).messages 5 =
      [ascii "[1]", ascii "{2}"] := by
  have hall := (ndjson_transport ⟨ascii " [1]\r\n \n{2}", fun _ => 1⟩ fun _ _ => []).2
    (by decide)
  exact (hall.2 (by decide) (by unfold ShortLines; decide) 5).trans (by decide)

end DisplayxrMcp.Stdio
