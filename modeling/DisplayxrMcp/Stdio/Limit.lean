/-
  The size limit in both framings.

  A Content-Length body needs room for itself, an ndjson line also for its line
  feed, and the buffer is 16 MiB at most: the reader returns bodies of up to 16 MiB
  but only lines below it. One lemma a message (`next_sent`, `next_refused`), for
  every cut; `messages_sent` is their run.
-/
import DisplayxrMcp.Stdio.RoundTrip

namespace DisplayxrMcp.Stdio

open Lib Reader

/-- A message on stdin: a line, or a Content-Length frame. -/
def sent (f : Framing) (b : Bytes) : Bytes :=
  if f = .contentLength then header b.length ++ b else b ++ [10]

def sentAll (f : Framing) (bodies : List Bytes) : Bytes := (bodies.map (sent f)).flatten

/-- It begins as a JSON value does and ends with no white space. -/
structure Message (b : Bytes) : Prop where
  head : ∃ c ∈ valueStarts, b.head? = some c
  last : ∀ c ∈ b.getLast?, isWs c = false

/-- What can be sent as one message: on a line, a JSON message without a line feed; in a
    Content-Length frame, any bytes. -/
def Sendable (f : Framing) (b : Bytes) : Prop := f ≠ .contentLength → Message b ∧ 10 ∉ b

/-- The reader has returned the earlier messages and then this one, without a NULL before it. -/
def Returned [Abi] (r : Reader) (earlier : List Bytes) (b : Bytes) : Prop :=
  r.messages (earlier.length + 1) = earlier ++ [b]

/-- What fits the reader's buffer: on a line, with its line feed. -/
def InBuffer (f : Framing) (b : Bytes) : Prop :=
  1 ≤ b.length ∧ b.length ≤ maxMessageBytes ∧ (f ≠ .contentLength → b.length ≠ maxMessageBytes)

theorem sentAll_cons (f : Framing) (b : Bytes) (bodies : List Bytes) :
    sentAll f (b :: bodies) = sent f b ++ sentAll f bodies := by
  unfold sentAll
  rw [List.map_cons, List.flatten_cons]

theorem Message.ne_nil {b : Bytes} (h : Message b) : b ≠ [] := by
  rintro rfl
  obtain ⟨c, -, hc⟩ := h.head
  cases hc

/-- A message begins with no white space. -/
theorem Message.dropWhile_append {b : Bytes} (h : Message b) (c : Bytes) :
    (b ++ c).dropWhile isWs = b ++ c := by
  obtain ⟨d, hd, hhead⟩ := h.head
  cases b with
  | nil => cases hhead
  | cons e b =>
      cases hhead
      rw [List.cons_append, List.dropWhile_cons, (valueStarts_spec d hd).1, if_neg (by decide)]

/-- It ends with none. -/
theorem Message.rdropWhile_eq {b : Bytes} (h : Message b) : b.rdropWhile isWs = b := by
  rw [List.rdropWhile_eq_self_iff]
  intro hne
  rw [h.last _ (List.getLast?_eq_some_getLast hne)]
  decide

/-- Trimming takes off the white space around a message, and no more. -/
theorem Message.trim_around {a b c : Bytes} (hb : Message b) (ha : ∀ x ∈ a, isWs x = true)
    (hc : ∀ x ∈ c, isWs x = true) : trim (a ++ b ++ c) = b := by
  have hlast : (b ++ c).rdropWhile isWs = b.rdropWhile isWs := by
    unfold List.rdropWhile
    rw [List.reverse_append, List.dropWhile_append_of_pos fun x hx => hc x (List.mem_reverse.mp hx)]
  rw [trim, List.append_assoc, List.dropWhile_append_of_pos ha, hb.dropWhile_append, hlast,
    hb.rdropWhile_eq]

/-- Trimming leaves a message alone. -/
theorem Message.trim {b : Bytes} (h : Message b) : trim b = b := by
  have hself := h.trim_around (List.forall_mem_nil _) (List.forall_mem_nil _)
  rwa [List.nil_append, List.append_nil] at hself

/-! ## Lines -/

namespace Reader

variable {r : Reader} {f : Framing} {l t : Bytes}

/-- Bytes at hand without a line feed are a part of the first line. -/
theorem window_le_line (h : r.At f (l ++ 10 :: t)) (hl : 10 ∉ l) (hno : 10 ∉ r.window) :
    r.window.length ≤ l.length :=
  le_of_memchrLf_none h.window_prefix (memchrLf_eq_none.mpr hno) (memchrLf_line hl t)

/-- A line below the limit is found, however it arrives. -/
theorem nextNdjson_line {scanned : Nat} (h : r.At f (l ++ 10 :: t))
    (hno : 10 ∉ r.window.take scanned) (hl : 10 ∉ l) (hlen : l.length < maxMessageBytes)
    (htrim : trim l = l) (hne : l ≠ []) :
    ∃ r', r.nextNdjson scanned = (some l, r') ∧ r'.At f t := by
  fun_induction nextNdjson r scanned with
  | case1 r scanned k hk hnil ih =>
      obtain ⟨hl', t', he, -⟩ := h.line hno hk
      rw [← (line_inj hl hl' he).1, htrim] at hnil
      exact absurd hnil hne
  | case2 r scanned k hk hnil hbig =>
      obtain ⟨hl', t', he, -⟩ := h.line hno hk
      rw [← (line_inj hl hl' he).1, htrim] at hbig
      omega
  | case3 r scanned k hk hnil hbig =>
      obtain ⟨hl', t', he, h'⟩ := h.line hno hk
      obtain ⟨hline, rfl⟩ := line_inj hl hl' he
      rw [← hline, htrim]
      exact ⟨_, rfl, h'⟩
  | case4 r scanned hk hf ih =>
      obtain ⟨c, hc⟩ := fill_window hf
      refine ih h.fill ?_
      rw [← hc, List.take_left]
      exact no_lf hno hk
  | case5 r scanned hk hf hnone =>
      have hle := window_le_line h hl (no_lf hno hk)
      obtain ⟨-, hwu⟩ := h.fill_end (by omega) (Bool.eq_false_iff.mpr hf)
      exact absurd (by rw [hwu]; simp) (no_lf hno hk)
  | case6 r scanned hk hf hsome =>
      have hle := window_le_line h hl (no_lf hno hk)
      obtain ⟨-, hwu⟩ := h.fill_end (by omega) (Bool.eq_false_iff.mpr hf)
      exact absurd (by rw [hwu]; simp) (no_lf hno hk)

/-- A line of 16 MiB and its line feed never stand in the buffer together. -/
theorem nextNdjson_long {scanned : Nat} (h : r.At f (l ++ 10 :: t))
    (hno : 10 ∉ r.window.take scanned) (hl : 10 ∉ l) (hlen : maxMessageBytes ≤ l.length) :
    (r.nextNdjson scanned).1 = none := by
  have hbuf : ∀ {r : Reader} {scanned k : Nat}, r.At f (l ++ 10 :: t) →
      10 ∉ r.window.take scanned → memchrLf (r.window.drop scanned) = some k → False := by
    intro r scanned k h hno hk
    obtain ⟨hl', t', he, -⟩ := h.line hno hk
    have hline := congrArg List.length (line_inj hl hl' he).1
    have hlt := memchrLf_lt hk
    have hcap := capLe_of_shape h.wf.capShape
    have hfit := h.wf.lenLe
    rw [List.length_take] at hline
    rw [List.length_drop] at hlt
    rw [window, List.length_drop] at hline hlt
    omega
  fun_induction nextNdjson r scanned with
  | case1 r scanned k hk => exact (hbuf h hno hk).elim
  | case2 r scanned k hk => rfl
  | case3 r scanned k hk => exact (hbuf h hno hk).elim
  | case4 r scanned hk hf ih =>
      obtain ⟨c, hc⟩ := fill_window hf
      refine ih h.fill ?_
      rw [← hc, List.take_left]
      exact no_lf hno hk
  | case5 => rfl
  | case6 r scanned hk hf hsome =>
      -- at the end of the input the line feed would be at hand
      have heof : r.fill.2.eof = true := by
        simp only [Bool.or_eq_true, Bool.not_eq_true', not_or, Bool.not_eq_false] at hsome
        exact hsome.2
      have hwu := h.fill.window_eq (h.fill.wf.atEof heof)
      rw [(fill_false (Bool.eq_false_iff.mpr hf)).1] at hwu
      exact absurd (by rw [hwu]; simp) (no_lf hno hk)

/-! ## One message -/

theorem nextNdjson_ne_nil (r : Reader) (scanned : Nat) : (r.nextNdjson scanned).1 ≠ some [] := by
  fun_induction nextNdjson r scanned with
  | case1 r scanned k hk hnil ih => exact ih
  | case2 => exact fun h => by cases h
  | case3 r scanned k hk hnil hbig => exact fun h => hnil (Option.some.inj h)
  | case4 r scanned hk hf ih => exact ih
  | case5 => exact fun h => by cases h
  | case6 r scanned hk hf hsome =>
      intro h
      rw [Option.some.inj h] at hsome
      exact hsome rfl

theorem assemble_ne_nil (r : Reader) {n : Nat} (hn : n ≠ 0) : (r.assemble n).1 ≠ some [] := by
  fun_induction assemble r n with
  | case1 r hlt hf ih => exact ih
  | case2 => exact fun h => by cases h
  | case3 r hge =>
      intro h
      have hlen := congrArg List.length (Option.some.inj h)
      rw [List.length_take, List.length_nil] at hlen
      omega

theorem nextContentLength_ne_nil [Abi] (r : Reader) (hs : Headers) :
    (r.nextContentLength hs).1 ≠ some [] := by
  fun_induction nextContentLength r hs with
  | case1 => exact fun h => by cases h
  | case2 r hs h0 hb hany =>
      unfold body
      split
      · exact fun h => by cases h
      · next hcond =>
          simp only [Bool.or_eq_true, decide_eq_true_eq, not_or] at hcond
          exact assemble_ne_nil _ hcond.1.2
  | case3 r hs h0 hb hany ih => exact ih
  | case4 r hs h0 hb ih => exact ih

/-- No call returns an empty message. -/
theorem next_ne_nil [Abi] (r : Reader) : r.next.1 ≠ some [] := by
  unfold next
  generalize (if r.framing = .unknown then r.detect else (true, r)) = d
  dsimp only
  split
  · exact fun h => by cases h
  · split
    · exact nextContentLength_ne_nil _ _
    · exact nextNdjson_ne_nil _ _

end Reader

/-! ## A written header -/

theorem strtoul_written [abi : Abi] (n : Nat) :
    strtoul (32 :: (decimal n ++ [13])) = if 2 ^ abi.long ≤ n then 2 ^ abi.long - 1 else n := by
  have hsp : ∀ c ∈ ([32] : Bytes), isSpace c = true := List.forall_mem_singleton.mpr rfl
  have hcr : ∀ c ∈ ([13] : Bytes).head?, isDigit c = false := by
    rintro c ⟨⟩
    rfl
  have hread := strtoul_digits hsp (decimal_ne_nil n) (decimal_isDigit n) hcr
  rw [digitsValue_decimal] at hread
  exact hread

/-- A body that is empty or too long is no frame, and in one way. -/
theorem frameAt_refused [abi : Abi] {c : Nat} (hc : 4096 ≤ c) {b : Bytes}
    (hb : b.length = 0 ∨ maxMessageBytes < b.length) (t : Bytes) :
    frameAt c (header b.length ++ (b ++ t)) = none ∧
      ¬ Ambiguous c (header b.length ++ (b ++ t)) := by
  have hbody : bodyAt c (strtoul (32 :: (decimal b.length ++ [13]))) (b ++ t) = none := by
    rw [strtoul_written]
    unfold bodyAt
    rw [if_pos]
    simp only [Bool.or_eq_true, decide_eq_true_eq]
    unfold maxMessageBytes at hb ⊢
    have hlong := abi.pow_le
    split <;> omega
  have hsplit := splitHeader_written (n := b.length) (by omega : 2 ≤ c) (b ++ t)
  refine ⟨?_, ?_⟩
  · unfold frameAt
    rw [hsplit]
    split
    · rfl
    · rw [Option.bind_some, Option.bind_some, value_notBlank, if_neg (by decide), hbody]
  · rintro ⟨h, t', text, he, hval, hkind⟩
    rw [hsplit] at he
    split at he
    · cases he
    · cases he
      cases hval
      rw [value_notBlank, if_neg (by decide), hbody] at hkind
      cases hkind.1

/-! ## One message sent -/

theorem ndjson_of_ne {f : Framing} (hf : f ≠ .unknown) (hc : f ≠ .contentLength) : f = .ndjson := by
  cases f with
  | unknown => exact absurd rfl hf
  | contentLength => exact absurd rfl hc
  | ndjson => rfl

/-- A message that fits the buffer is returned. -/
theorem next_sent [Abi] {f : Framing} {b t : Bytes} {r : Reader} (hf : f ≠ .unknown)
    (h : r.At f (sent f b ++ t)) (hcap : f = .contentLength → 4096 ≤ r.cap) (hb : Sendable f b)
    (hfit : InBuffer f b) :
    ∃ r', r.next = (some b, r') ∧ r'.At f t ∧ (f = .contentLength → 4096 ≤ r'.cap) := by
  obtain ⟨h1, hmax, hline⟩ := hfit
  by_cases hc : f = .contentLength
  · subst hc
    have hcap := hcap rfl
    have hframe := frameAt_encode hcap h1 hmax t
    obtain ⟨r', he, hat, hcap'⟩ :=
      (next_frame h hcap (not_ambiguous_encode hcap hmax t)).2 _ _ _ hframe
    have hle := le_capFor r.cap b.length
    exact ⟨r', he, hat, fun _ => by omega⟩
  · obtain ⟨hmsg, hno⟩ := hb hc
    have hne := hline hc
    unfold sent at h
    rw [if_neg hc, List.append_assoc] at h
    have hstart : 10 ∉ r.window.take 0 := List.not_mem_nil
    obtain ⟨r', he, hat⟩ := nextNdjson_line h hstart hno (by omega) hmsg.trim hmsg.ne_nil
    cases ndjson_of_ne hf hc
    exact ⟨r', (next_ndjson h).trans he, hat, fun hcl => absurd hcl hc⟩

/-- A message that does not is refused. -/
theorem next_refused [Abi] {f : Framing} {b t : Bytes} {r : Reader} (hf : f ≠ .unknown)
    (h : r.At f (sent f b ++ t)) (hcap : f = .contentLength → 4096 ≤ r.cap) (hb : Sendable f b)
    (hfit : ¬ InBuffer f b) : r.next.1 = none := by
  by_cases hc : f = .contentLength
  · subst hc
    have hcap := hcap rfl
    have hlen : b.length = 0 ∨ maxMessageBytes < b.length := by
      by_contra hnot
      exact hfit ⟨by omega, by omega, fun hne => absurd rfl hne⟩
    unfold sent at h
    rw [if_pos rfl, List.append_assoc] at h
    obtain ⟨hnone, hamb⟩ := frameAt_refused hcap hlen t
    exact (next_frame h hcap hamb).1 hnone
  · obtain ⟨hmsg, hno⟩ := hb hc
    have hpos := List.length_pos_of_ne_nil hmsg.ne_nil
    have hlen : maxMessageBytes ≤ b.length := by
      by_contra hlt
      exact hfit ⟨hpos, by omega, fun _ => by omega⟩
    unfold sent at h
    rw [if_neg hc, List.append_assoc] at h
    cases ndjson_of_ne hf hc
    rw [next_ndjson h]
    have hstart : 10 ∉ r.window.take 0 := List.not_mem_nil
    exact nextNdjson_long h hstart hno hlen

/-- The messages up to the first that does not fit arrive. -/
theorem returned_iff [Abi] {f : Framing} (hf : f ≠ .unknown) {earlier : List Bytes} {b rest : Bytes}
    {r : Reader} (h : r.At f (sentAll f earlier ++ sent f b ++ rest))
    (hcap : f = .contentLength → 4096 ≤ r.cap) (hall : ∀ d ∈ earlier, Sendable f d)
    (hb : b = [] ∨ Sendable f b) :
    Returned r earlier b ↔ ∀ d ∈ earlier ++ [b], InBuffer f d := by
  induction earlier generalizing r with
  | nil =>
      rw [List.nil_append, List.forall_mem_singleton]
      unfold Returned
      rw [List.length_nil, List.nil_append, messages]
      rw [show sentAll f [] = [] from rfl, List.nil_append] at h
      constructor
      · intro he
        by_contra hfit
        have hnext : r.next.1 ≠ some b := by
          rcases hb with rfl | hb
          · exact next_ne_nil r
          · rw [next_refused hf h hcap hb hfit]
            exact fun hn => by cases hn
        split at he
        · cases he
        · next body r' hn =>
            rw [hn] at hnext
            cases he
            exact hnext rfl
      · intro hfit
        have hsend : Sendable f b := by
          rcases hb with rfl | hb
          · exact absurd hfit.1 (by decide)
          · exact hb
        obtain ⟨r', he, -⟩ := next_sent hf h hcap hsend hfit
        rw [he]
        rfl
  | cons d earlier ih =>
      rw [sentAll_cons, List.append_assoc, List.append_assoc,
        ← List.append_assoc (sentAll f earlier)] at h
      have hd := hall d List.mem_cons_self
      unfold Returned
      rw [List.length_cons, List.cons_append, messages, List.forall_mem_cons]
      by_cases hfit : InBuffer f d
      · obtain ⟨r', he, hat, hcap'⟩ := next_sent hf h hcap hd hfit
        rw [he]
        dsimp only
        rw [List.cons.injEq, and_iff_right rfl, and_iff_right hfit]
        exact ih hat hcap' fun e he => hall e (List.mem_cons_of_mem _ he)
      · have hnone := next_refused hf h hcap hd hfit
        rw [show r.next = (none, r.next.2) from Prod.ext hnone rfl]
        exact ⟨fun he => (by cases he), fun hand => absurd hand.1 hfit⟩

/-! ## From the start of the stream -/

/-- The framing of a stream is that of the first message sent. -/
theorem strip_sent {f : Framing} (hf : f ≠ .unknown) {b : Bytes} (hb : Sendable f b) (t : Bytes) :
    stripLeading (sent f b ++ t) = sent f b ++ t ∧ framingOf (sent f b ++ t) = f ∧
      sent f b ++ t ≠ [] := by
  unfold sent
  by_cases hc : f = .contentLength
  · rw [if_pos hc, hc, List.append_assoc]
    exact strip_header b.length (b ++ t)
  · obtain ⟨hmsg, -⟩ := hb hc
    obtain ⟨c, hmem, hhead⟩ := hmsg.head
    rw [if_neg hc, ndjson_of_ne hf hc, List.append_assoc]
    exact strip_message hmem (by rw [List.head?_append_of_ne_nil _ hmsg.ne_nil, hhead])

/-- From the start of the stream the messages up to the first that does not fit arrive. -/
theorem returned_init [Abi] {f : Framing} (hf : f ≠ .unknown) {earlier : List Bytes} {b : Bytes}
    (hall : ∀ d ∈ earlier, Sendable f d) (hb : b = [] ∨ Sendable f b) (rest : Bytes)
    (sizes : Nat → Nat) (behind : Nat → Nat → Bytes) :
    Returned (init ⟨sentAll f earlier ++ sent f b ++ rest, sizes⟩ behind) earlier b ↔
      ∀ d ∈ earlier ++ [b], InBuffer f d := by
  have hfirst : (∃ d t, sentAll f earlier ++ sent f b ++ rest = sent f d ++ t ∧ Sendable f d) ∨
      (earlier = [] ∧ b = []) := by
    cases earlier with
    | nil =>
        rcases hb with rfl | hb
        · exact Or.inr ⟨rfl, rfl⟩
        · exact Or.inl ⟨b, rest, rfl, hb⟩
    | cons d earlier =>
        refine Or.inl ⟨d, sentAll f earlier ++ sent f b ++ rest, ?_, hall d List.mem_cons_self⟩
        rw [sentAll_cons, List.append_assoc, List.append_assoc, List.append_assoc]
  have hinit := at_init ⟨sentAll f earlier ++ sent f b ++ rest, sizes⟩ behind
  rcases hfirst with ⟨d, t, hu, hd⟩ | ⟨rfl, rfl⟩
  · obtain ⟨hstrip, hframing, hne⟩ := strip_sent hf hd t
    rw [← hu] at hstrip hframing hne
    have hne' : stripLeading (sentAll f earlier ++ sent f b ++ rest) ≠ [] := by rwa [hstrip]
    obtain ⟨hat, hnext⟩ := next_unknown hinit hne'
    have hcap := detect_cap hinit.wf (Or.inl rfl) ((detect_spec hinit).2 hne').1
    rw [hstrip, hframing] at hat
    unfold Returned
    rw [messages_congr hnext]
    exact returned_iff hf hat (fun _ => Nat.le_of_eq hcap.symm) hall hb
  · rw [List.nil_append, List.forall_mem_singleton]
    refine ⟨fun he => ?_, fun hfit => absurd hfit.1 (by decide)⟩
    have hnext := next_ne_nil (init ⟨sentAll f [] ++ sent f [] ++ rest, sizes⟩ behind)
    unfold Returned at he
    rw [List.length_nil, messages] at he
    split at he
    · cases he
    · next body r' hn =>
        rw [hn] at hnext
        cases he
        exact absurd rfl hnext

/-- The limit is the documented one, unless an earlier message was none to begin with, or a line of
    the stream so far has exactly 16 MiB. -/
theorem size_limit [Abi] {f : Framing} (hf : f ≠ .unknown) {earlier : List Bytes} {b : Bytes}
    (hall : ∀ d ∈ earlier, Sendable f d) (hb : b = [] ∨ Sendable f b) (rest : Bytes)
    (sizes : Nat → Nat) (behind : Nat → Nat → Bytes) :
    (Returned (init ⟨sentAll f earlier ++ sent f b ++ rest, sizes⟩ behind) earlier b ↔
        1 ≤ b.length ∧ b.length ≤ maxMessageBytes) ↔
      (1 ≤ b.length ∧ b.length ≤ maxMessageBytes →
        (∀ d ∈ earlier, 1 ≤ d.length ∧ d.length ≤ maxMessageBytes) ∧
          (f ≠ .contentLength → ∀ d ∈ earlier ++ [b], d.length ≠ maxMessageBytes)) := by
  rw [returned_init hf hall hb rest sizes behind]
  constructor
  · intro h hlen
    have hin := h.mpr hlen
    refine ⟨fun d hd => ?_, fun hc d hd => (hin d hd).2.2 hc⟩
    obtain ⟨hone, hmax, -⟩ := hin d (List.mem_append_left _ hd)
    exact ⟨hone, hmax⟩
  · intro h
    refine ⟨fun hin => ?_, fun hlen d hd => ?_⟩
    · obtain ⟨h1, hmax, -⟩ := hin b (by simp)
      exact ⟨h1, hmax⟩
    · obtain ⟨hearlier, hline⟩ := h hlen
      rcases List.mem_append.mp hd with hmem | hmem
      · exact ⟨(hearlier d hmem).1, (hearlier d hmem).2, fun hc => hline hc d hd⟩
      · cases List.mem_singleton.mp hmem
        exact ⟨hlen.1, hlen.2, fun hc => hline hc b hd⟩

open Lp64 in
/-- A number after an empty object, on lines, one byte at a time. -/
theorem size_limit_number :
    Returned (init ⟨sentAll .ndjson [ascii "\x7b\x7d"] ++ sent .ndjson (ascii "7") ++ [],
        fun _ => 1⟩ fun _ _ => []) [ascii "\x7b\x7d"] (ascii "7") ↔
      1 ≤ (ascii "7").length ∧ (ascii "7").length ≤ maxMessageBytes := by
  have hobj : Sendable .ndjson (ascii "\x7b\x7d") := by
    refine fun _ => ⟨⟨⟨123, by decide, rfl⟩, ?_⟩, by decide⟩
    rintro c ⟨⟩
    rfl
  have hnum : Sendable .ndjson (ascii "7") := by
    refine fun _ => ⟨⟨⟨55, by decide, rfl⟩, ?_⟩, by decide⟩
    rintro c ⟨⟩
    rfl
  refine (size_limit (by decide) (List.forall_mem_singleton.mpr hobj) (Or.inr hnum) [] (fun _ => 1)
    fun _ _ => []).mpr fun _ => ⟨by decide, fun _ => by decide⟩

open Lp64 in
/-- A number of 16 Mi digits is within the limit, and refused on a line. -/
theorem size_limit_boundary :
    ¬ (Returned (init ⟨sentAll .ndjson [] ++ sent .ndjson (List.replicate maxMessageBytes 49) ++ [],
        fun _ => 1⟩ fun _ _ => []) [] (List.replicate maxMessageBytes 49) ↔
      1 ≤ (List.replicate maxMessageBytes (49 : UInt8)).length ∧
        (List.replicate maxMessageBytes (49 : UInt8)).length ≤ maxMessageBytes) := by
  intro h
  have hdigit : ∀ c ∈ List.replicate maxMessageBytes (49 : UInt8), c = 49 := fun c hc =>
    List.eq_of_mem_replicate hc
  have hlen : (List.replicate maxMessageBytes (49 : UInt8)).length = maxMessageBytes :=
    List.length_replicate
  have hsend : Sendable .ndjson (List.replicate maxMessageBytes 49) := by
    intro _
    refine ⟨⟨⟨49, by decide, rfl⟩, fun c hc => ?_⟩, fun hmem => ?_⟩
    · rw [hdigit c (List.mem_of_getLast? hc)]
      decide
    · exact absurd (hdigit 10 hmem) (by decide)
  have hret := h.mpr ⟨by rw [hlen]; decide, hlen.le⟩
  rw [returned_init (by decide) (List.forall_mem_nil _) (Or.inr hsend)] at hret
  exact (hret _ (List.mem_singleton.mpr rfl)).2.2 (by decide) hlen

end DisplayxrMcp.Stdio
