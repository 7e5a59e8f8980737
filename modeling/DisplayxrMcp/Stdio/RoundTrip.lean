/-
  What `dxr_stdio_encode` writes, the reader reads, for every cut.

  Content-Length: the header written is a header of the whole stream whose value is
  the length (`splitHeader_header`), so the stream of encoded bodies has no ambiguous
  frame and its frames are the bodies. ndjson: an encoded body is a line that
  trimming leaves alone.
-/
import DisplayxrMcp.Stdio.ContentLength
import DisplayxrMcp.Stdio.Ndjson

namespace DisplayxrMcp.Stdio

open Lib Reader

/-- The bytes written for a list of bodies. -/
def encodeAll (f : Framing) (bodies : List Bytes) : Bytes := (bodies.map (encode f)).flatten

theorem encodeAll_cons (f : Framing) (b : Bytes) (bodies : List Bytes) :
    encodeAll f (b :: bodies) = encode f b ++ encodeAll f bodies := by
  unfold encodeAll
  rw [List.map_cons, List.flatten_cons]

/-! ## Content-Length -/

/-- The line of a header that carries the length, without its line feed. -/
def lengthLine (n : Nat) : Bytes := ascii "Content-Length: " ++ decimal n ++ [13]

theorem header_eq (n : Nat) : header n = lengthLine n ++ 10 :: [13, 10] := by
  unfold header lengthLine
  rw [List.append_assoc (ascii "Content-Length: " ++ decimal n)]
  rfl

theorem not_mem_decimal {n : Nat} {c : UInt8} (hc : isDigit c = false) : c ∉ decimal n := by
  intro hmem
  rw [decimal_isDigit n c hmem] at hc
  cases hc

theorem decimal_length_le {n : Nat} (hn : n ≤ maxMessageBytes) : (decimal n).length ≤ 8 := by
  unfold decimal
  rw [List.length_map, Nat.length_toDigits_le_iff (by decide) (by decide)]
  unfold maxMessageBytes at hn
  omega

theorem lengthLine_noLf (n : Nat) : 10 ∉ lengthLine n := by
  unfold lengthLine
  rw [List.mem_append, List.mem_append]
  rintro ((h | h) | h)
  · exact absurd h (by decide)
  · exact not_mem_decimal (by decide) h
  · exact absurd h (by decide)

theorem lengthLine_drop (n : Nat) :
    (lengthLine n).drop clKeyLen = 32 :: (decimal n ++ [13]) := by
  unfold lengthLine
  rw [List.append_assoc]
  rfl

theorem lengthLine_length (n : Nat) : (lengthLine n).length = (decimal n).length + 17 := by
  unfold lengthLine
  rw [List.length_append, List.length_append, show (ascii "Content-Length: ").length = 16 by decide,
    List.length_singleton]
  omega

theorem isLengthLine_lengthLine (n : Nat) : isLengthLine (lengthLine n ++ [10]) = true := by
  have hlen := lengthLine_length n
  have htake : (lengthLine n ++ [10]).take clKeyLen = ascii "Content-Length:" := by
    have hle : clKeyLen ≤ (lengthLine n).length := Nat.le_trans (by decide : clKeyLen ≤ 17) (by omega)
    rw [List.take_append_of_le_length hle]
    unfold lengthLine
    rw [List.append_assoc]
    rfl
  unfold isLengthLine
  rw [htake, List.length_append, hlen, Bool.and_eq_true, decide_eq_true_eq]
  exact ⟨Nat.lt_of_lt_of_le (by decide : clKeyLen < 18) (by simp), by decide⟩

theorem strtoul_value [Abi] {n : Nat} (hn : n < 2 ^ 32) : strtoul (32 :: (decimal n ++ [13])) = n :=
  strtoul_decimal hn (by decide) []

theorem value_notBlank (n : Nat) : (32 :: (decimal n ++ [13])).all isSpace = false := by
  obtain ⟨d, hd⟩ := List.exists_mem_of_ne_nil _ (decimal_ne_nil n)
  rw [List.all_eq_false]
  refine ⟨d, List.mem_cons_of_mem _ (List.mem_append_left _ hd), ?_⟩
  rw [(not_isSpace_of_isDigit (decimal_isDigit n d hd)).1]
  decide

/-- The header that is written is one, with the length for its value, if its line fits. -/
theorem splitHeader_written {c n : Nat} (hc : 2 ≤ c) (u : Bytes) :
    splitHeader c .start (header n ++ u) =
      if c ≤ (lengthLine n).length then none
      else some (⟨some (32 :: (decimal n ++ [13])), true,
        decide (1024 < (lengthLine n).length)⟩, u) := by
  have hlen := lengthLine_length n
  have heq : header n ++ u = lengthLine n ++ 10 :: 13 :: 10 :: u := by
    rw [header_eq, List.append_assoc]
    rfl
  have hk : memchrLf (header n ++ u) = some (lengthLine n).length := by
    rw [heq]
    exact memchrLf_line (lengthLine_noLf n) _
  have hline := take_succ_of_memchrLf hk
  have htake : (header n ++ u).take (lengthLine n).length = lengthLine n := by
    rw [heq, List.take_left]
  have hdrop : (header n ++ u).drop ((lengthLine n).length + 1) = 13 :: 10 :: u := by
    rw [heq, ← List.drop_drop, List.drop_left]
    rfl
  have hnb : ¬ blankLine (lengthLine n ++ [10]) = true := by
    intro hb
    have hle := blankLine_short hb
    rw [List.length_append, hlen, List.length_singleton] at hle
    omega
  have hadd : HeaderText.start.add (lengthLine n) =
      ⟨some (32 :: (decimal n ++ [13])), true, decide (1024 < (lengthLine n).length)⟩ := by
    unfold HeaderText.add
    rw [if_pos (isLengthLine_lengthLine n), lengthLine_drop]
    rfl
  have hblank : memchrLf (13 :: 10 :: u) = some 1 := memchrLf_line (l := [13]) (by decide) u
  rw [splitHeader_of_some hk, hline, htake, if_neg hnb, hdrop, hadd,
    splitHeader_of_some hblank, if_neg (by omega : ¬ c ≤ 1)]
  rfl

theorem splitHeader_header {c n : Nat} (hc : 4096 ≤ c) (hn : n ≤ maxMessageBytes) (u : Bytes) :
    splitHeader c .start (header n ++ u) =
      some (⟨some (32 :: (decimal n ++ [13])), true, false⟩, u) := by
  have hlen := lengthLine_length n
  have hdec := decimal_length_le hn
  rw [splitHeader_written (by omega), if_neg (by omega), decide_eq_false (by omega)]

theorem frameAt_encode [Abi] {c : Nat} (hc : 4096 ≤ c) {b : Bytes} (h1 : 1 ≤ b.length)
    (hmax : b.length ≤ maxMessageBytes) (t : Bytes) :
    frameAt c (encode .contentLength b ++ t) = some (b, t, capFor c b.length) := by
  have hn : b.length < 2 ^ 32 := by
    unfold maxMessageBytes at hmax
    omega
  unfold encode frameAt
  rw [if_pos rfl, List.append_assoc, splitHeader_header hc hmax, Option.bind_some,
    Option.bind_some, value_notBlank, if_neg (by decide), strtoul_value hn]
  unfold bodyAt
  rw [if_neg]
  · rw [List.take_left, List.drop_left]
  · simp only [Bool.or_eq_true, decide_eq_true_eq, List.length_append]
    omega

theorem not_ambiguous_encode [Abi] {c : Nat} (hc : 4096 ≤ c) {b : Bytes}
    (hmax : b.length ≤ maxMessageBytes) (t : Bytes) :
    ¬ Ambiguous c (encode .contentLength b ++ t) := by
  rintro ⟨h, t', text, hsplit, hval, hkind⟩
  unfold encode at hsplit
  rw [if_pos rfl, List.append_assoc, splitHeader_header hc hmax] at hsplit
  cases hsplit
  cases hval
  rw [value_notBlank, if_neg (by decide)] at hkind
  cases hkind.2

/-- The bodies are of the sizes the format can carry. -/
def Sized (bodies : List Bytes) : Prop := ∀ b ∈ bodies, 1 ≤ b.length ∧ b.length ≤ maxMessageBytes

theorem Sized.tail {b : Bytes} {bodies : List Bytes} (h : Sized (b :: bodies)) : Sized bodies :=
  fun d hd => h d (List.mem_cons_of_mem _ hd)

theorem not_trouble_encodeAll [Abi] {bodies : List Bytes} (hb : Sized bodies) {c : Nat}
    (hc : 4096 ≤ c) :
    ¬ Trouble c (encodeAll .contentLength bodies) := by
  induction bodies generalizing c with
  | nil => exact not_trouble_nil c
  | cons b bodies ih =>
      obtain ⟨h1, hmax⟩ := hb b List.mem_cons_self
      rw [encodeAll_cons]
      intro htr
      cases htr with
      | here hamb => exact not_ambiguous_encode hc hmax _ hamb
      | later hf ht =>
          rw [frameAt_encode hc h1 hmax] at hf
          cases hf
          exact ih hb.tail (Nat.le_trans hc (le_capFor c _)) ht

theorem frames_encodeAll [Abi] {bodies : List Bytes} (hb : Sized bodies) {c : Nat} (hc : 4096 ≤ c)
    (n : Nat) : frames n c (encodeAll .contentLength bodies) = bodies.take n := by
  induction n generalizing bodies c with
  | zero => rfl
  | succ n ih =>
      unfold frames
      cases bodies with
      | nil =>
          rw [show encodeAll .contentLength [] = [] from rfl, frameAt_nil]
          rfl
      | cons b bodies =>
          obtain ⟨h1, hmax⟩ := hb b List.mem_cons_self
          rw [encodeAll_cons, frameAt_encode hc h1 hmax]
          dsimp only
          rw [ih hb.tail (Nat.le_trans hc (le_capFor c _)), List.take_succ_cons]

/-- A stream that starts with a written header is one of Content-Length from its first byte. -/
theorem strip_header (n : Nat) (t : Bytes) :
    stripLeading (header n ++ t) = header n ++ t ∧ framingOf (header n ++ t) = .contentLength ∧
      header n ++ t ≠ [] := by
  rw [header, List.append_assoc, List.append_assoc]
  exact ⟨rfl, rfl, List.cons_ne_nil _ _⟩

theorem strip_contentLength (b : Bytes) (bodies : List Bytes) :
    stripLeading (encodeAll .contentLength (b :: bodies)) =
        encodeAll .contentLength (b :: bodies) ∧
      framingOf (encodeAll .contentLength (b :: bodies)) = .contentLength ∧
      encodeAll .contentLength (b :: bodies) ≠ [] := by
  rw [encodeAll_cons, encode, if_pos rfl, List.append_assoc]
  exact strip_header b.length (b ++ encodeAll .contentLength bodies)

/-! ## ndjson -/

/-- A body as ndjson carries it. -/
def flat (b : Bytes) : Bytes := b.map flatByte

/-- It begins with `{` or `[`, ends with `}` or `]`, and is shorter than the limit. -/
def JsonShaped (b : Bytes) : Prop :=
  (b.head? = some 123 ∨ b.head? = some 91) ∧ (b.getLast? = some 125 ∨ b.getLast? = some 93) ∧
    b.length < maxMessageBytes

theorem flat_notMem {c : UInt8} (hc : c = 10 ∨ c = 13) (b : Bytes) : c ∉ flat b := by
  intro h
  obtain ⟨d, -, hd⟩ := List.mem_map.mp h
  unfold flatByte at hd
  split at hd
  · subst hd
    rcases hc with hc | hc <;> cases hc
  · next hne =>
      rw [hd] at hne
      rcases hc with rfl | rfl <;> exact hne rfl

theorem flat_noLf (b : Bytes) : 10 ∉ flat b := flat_notMem (Or.inl rfl) b

theorem trim_flat {b : Bytes} (hb : JsonShaped b) : trim (flat b) = flat b ∧ flat b ≠ [] := by
  obtain ⟨hhead, hlast, -⟩ := hb
  cases b with
  | nil => rcases hhead with h | h <;> cases h
  | cons c t =>
      have hne : flat (c :: t) ≠ [] := List.cons_ne_nil _ _
      have hc : isWs (flatByte c) = false := by
        rcases hhead with h | h <;> cases h <;> decide
      have hdrop : (flat (c :: t)).dropWhile isWs = flat (c :: t) := by
        unfold flat
        rw [List.map_cons, List.dropWhile_cons, hc, if_neg (by decide)]
      refine ⟨?_, hne⟩
      rw [trim, hdrop, List.rdropWhile_eq_self_iff]
      intro hl
      have hmap : (flat (c :: t)).getLast? = ((c :: t).getLast?).map flatByte := List.getLast?_map
      rw [List.getLast?_eq_some_getLast hl] at hmap
      rcases hlast with h | h <;> rw [h] at hmap <;> rw [Option.some.inj hmap] <;> decide

theorem encode_ndjson (b : Bytes) (t : Bytes) : encode .ndjson b ++ t = flat b ++ 10 :: t := by
  unfold encode
  rw [if_neg (by decide), List.append_assoc]
  rfl

theorem lines_encodeAll {bodies : List Bytes} (hb : ∀ b ∈ bodies, JsonShaped b) :
    lines (encodeAll .ndjson bodies) = bodies.map flat ∧
      ShortLines (encodeAll .ndjson bodies) := by
  induction bodies with
  | nil => exact ⟨rfl, shortLines_nil⟩
  | cons b bodies ih =>
      have hbody := hb b List.mem_cons_self
      obtain ⟨hl, hs⟩ := ih fun d hd => hb d (List.mem_cons_of_mem _ hd)
      obtain ⟨htrim, hne⟩ := trim_flat hbody
      rw [encodeAll_cons, encode_ndjson]
      refine ⟨?_, ?_⟩
      · rw [lines_line (flat_noLf b), htrim, if_neg hne, hl, List.map_cons]
      · unfold ShortLines
        rw [splitOn_line (flat_noLf b)]
        intro l hmem
        rcases List.mem_cons.mp hmem with rfl | hmem
        · unfold flat
          rw [List.length_map]
          exact hbody.2.2
        · exact hs l hmem

/-- A stream that starts with a brace or bracket is ndjson from its first byte on. -/
theorem strip_encodeAll {b : Bytes} (bodies : List Bytes) (hb : JsonShaped b) :
    stripLeading (encodeAll .ndjson (b :: bodies)) = encodeAll .ndjson (b :: bodies) ∧
      framingOf (encodeAll .ndjson (b :: bodies)) = .ndjson ∧
      encodeAll .ndjson (b :: bodies) ≠ [] := by
  obtain ⟨hhead, -⟩ := hb
  have hc : ∃ c ∈ valueStarts, b.head?.map flatByte = some c := by
    rcases hhead with h | h
    · exact ⟨123, by decide, congrArg (Option.map flatByte) h⟩
    · exact ⟨91, by decide, congrArg (Option.map flatByte) h⟩
  obtain ⟨c, hmem, hc⟩ := hc
  refine strip_message hmem ?_
  rw [encodeAll_cons, encode_ndjson, flat, List.head?_append, List.head?_map, hc]
  rfl

/-! ## Round trips -/

/-- Encoding and reading are inverse, for every cut: Content-Length on all bodies of 1 byte to
    16 MiB, ndjson on bodies in braces or brackets, with line ends flattened. Behind the first
    message the framing is the one encoded. -/
theorem encode_roundTrip [Abi] (bodies : List Bytes) (sizes : Nat → Nat)
    (behind : Nat → Nat → Bytes) :
    (Sized bodies →
      (∀ n, (init ⟨encodeAll .contentLength bodies, sizes⟩ behind).messages n = bodies.take n) ∧
        (bodies ≠ [] → ∀ n, ((init ⟨encodeAll .contentLength bodies, sizes⟩ behind).after
          (n + 1)).framing = .contentLength)) ∧
      ((∀ b ∈ bodies, JsonShaped b) →
        (∀ n, (init ⟨encodeAll .ndjson bodies, sizes⟩ behind).messages n =
            (bodies.map flat).take n) ∧
          (bodies ≠ [] → ∀ n, ((init ⟨encodeAll .ndjson bodies, sizes⟩ behind).after
            (n + 1)).framing = .ndjson)) := by
  refine ⟨fun hb => ?_, fun hb => ?_⟩
  · cases bodies with
    | nil => exact ⟨fun n => (calls_nil (at_init _ _) rfl n).1.trans List.take_nil.symm, by simp⟩
    | cons b bodies =>
        obtain ⟨hstrip, hkey, hne⟩ := strip_contentLength b bodies
        rw [← hstrip] at hkey hne
        refine ⟨fun n => ?_, fun _ n => (after_known (at_init _ _) hne n).trans hkey⟩
        rw [messages_init hkey (hstrip ▸ not_trouble_encodeAll hb (Nat.le_refl _)), hstrip,
          frames_encodeAll hb (Nat.le_refl _)]
  · cases bodies with
    | nil => exact ⟨fun n => (calls_nil (at_init _ _) rfl n).1.trans List.take_nil.symm, by simp⟩
    | cons b bodies =>
        obtain ⟨hstrip, hnd, hne⟩ := strip_encodeAll bodies (hb b List.mem_cons_self)
        obtain ⟨hlines, hshort⟩ := lines_encodeAll hb
        rw [← hstrip] at hnd hne hshort hlines
        exact ⟨fun n => hlines ▸ messages_init_ndjson hne hnd hshort behind n,
          fun _ n => (after_known (at_init _ _) hne n).trans hnd⟩

open Lp64 in
/-- Two bodies in each framing, delivered three bytes at a time. -/
theorem encode_roundTrip_twoBodies :
    (init ⟨encodeAll .contentLength [ascii "\r\n", ascii "[]"], fun _ => 3⟩
        fun _ _ => []).messages 3 = [ascii "\r\n", ascii "[]"] ∧
      (init ⟨encodeAll .ndjson [ascii "\x7b\n\x7d", ascii "[]"], fun _ => 3⟩
        fun _ _ => []).messages 3 = [ascii "{ }", ascii "[]"] :=
  ⟨((encode_roundTrip [ascii "\r\n", ascii "[]"] (fun _ => 3) fun _ _ => []).1
      (by unfold Sized; decide)).1 3,
    ((encode_roundTrip [ascii "\x7b\n\x7d", ascii "[]"] (fun _ => 3) fun _ _ => []).2
      (by unfold JsonShaped; decide)).1 3⟩

open Lp64 in
/-- No message, no framing. -/
theorem encode_roundTrip_empty :
    ((init ⟨encodeAll .contentLength [], fun _ => 1⟩ fun _ _ => []).after 1).framing ≠
      .contentLength := by
  decide +kernel

end DisplayxrMcp.Stdio
