/-
  The text of a log line, in the ring and in the reply of `tail_log`
  (src/mcp_log_ring.c; `tool_tail_log` in src/mcp_server.c).

  An entry holds the first 511 bytes of its line, as the header says. The cut does not
  look at characters: of a valid UTF-8 line it leaves valid UTF-8 exactly when byte 511
  starts a character, or is not there (`Stored`). `tail_log` hands the text on as it is.
-/
import DisplayxrMcp.Log.Cursor
import DisplayxrMcp.Lib.Utf8
import DisplayxrMcp.Rpc

namespace DisplayxrMcp.LogRing

open Lib Cjson

/-- `mcp_log_ring_append`: `formatted` is the line `vsnprintf` formats, `none` when it fails. -/
def appendFormatted (r : Ring) (level : Level) (formatted : Option CStr) (now : ℤ) : Ring :=
  match formatted with
  | some line => append r level (snprintf maxText line) now
  | none => r

/-! ## tail_log -/

/-- `level_names`; `unknown` is for numbers that are no level. -/
def levelName : Level → CStr
  | .trace => ascii "trace"
  | .debug => ascii "debug"
  | .info => ascii "info"
  | .warn => ascii "warn"
  | .error => ascii "error"
  | .raw => ascii "raw"

/-- `since` of the arguments, or 0. -/
def tailSince (ub : Dbl → Nat) (params : Option Json) : Nat :=
  match Json.number? (params.bind (·.getObjectItemCaseSensitive (ascii "since"))) with
  | some d => castU64 ub d
  | none => 0

/-- `max` of the arguments when it is in range, or 128. -/
def tailMax (params : Option Json) : Nat :=
  match Json.number? (params.bind (·.getObjectItemCaseSensitive (ascii "max"))) with
  | some (.fin q) => if 0 < q ∧ q ≤ 1024 then q.floor.toNat else 128
  | some (.inf _) => 128
  | none => 128

/-- One element of `entries`. -/
def tailEntry (e : Entry) : Json :=
  fields [("seq", .ofNat e.seq), ("ts_ns", .num (toDouble e.timestampNs)),
    ("level", .str (levelName e.level)), ("text", .str e.text)]

/-- `tool_tail_log`. -/
def toolTailLog (ub : Dbl → Nat) (r : Ring) (params : Option Json) : Json :=
  let out := read r (tailSince ub params) (tailMax params)
  fields [("cursor", .ofNat out.nextCursor), ("dropped", .ofNat out.dropped),
    ("entries", .arr (out.entries.map tailEntry))]

/-- The entries of a reply. -/
def repliedEntries (reply : Json) : List Json :=
  (Json.items? (reply.getObjectItemCaseSensitive (ascii "entries"))).getD []

theorem repliedEntries_toolTailLog (ub : Dbl → Nat) (r : Ring) (params : Option Json) :
    repliedEntries (toolTailLog ub r params) =
      (read r (tailSince ub params) (tailMax params)).entries.map tailEntry := by
  have hcursor : ascii "cursor" ≠ ascii "entries" := by decide
  have hdropped : ascii "dropped" ≠ ascii "entries" := by decide
  simp [repliedEntries, toolTailLog, fields, Json.getObjectItem_obj_cons, hcursor, hdropped,
    Json.items?]

theorem tailEntry_seq (e : Entry) :
    (tailEntry e).getObjectItemCaseSensitive (ascii "seq") = some (.ofNat e.seq) := by
  simp [tailEntry, fields, Json.getObjectItem_obj_cons]

theorem tailEntry_text (e : Entry) :
    (tailEntry e).getObjectItemCaseSensitive (ascii "text") = some (.str e.text) := by
  have hseq : ascii "seq" ≠ ascii "text" := by decide
  have hts : ascii "ts_ns" ≠ ascii "text" := by decide
  have hlevel : ascii "level" ≠ ascii "text" := by decide
  simp [tailEntry, fields, Json.getObjectItem_obj_cons, hseq, hts, hlevel]

/-- From any cursor at all a read returns consecutive entries that the ring still holds. -/
theorem read_entries {r : Ring} {lines : List Line} (h : Holds r lines)
    (hlt : lines.length < 2 ^ 64 - 1) (since maxEntries : Nat) :
    ∃ first n, 1 ≤ first ∧ lines.length + 1 ≤ first + ringSize ∧
      (0 < n → first + n ≤ lines.length + 1) ∧
      (read r since maxEntries).entries = (List.range' first n).map (entryOf lines) := by
  have hnext := h.next
  have hold : 1 ≤ oldestInRing r ∧ lines.length + 1 ≤ oldestInRing r + ringSize := by
    unfold oldestInRing
    split <;> omega
  have hcopy : ∀ start, oldestInRing r ≤ start → ∃ n, (0 < n → start + n ≤ lines.length + 1) ∧
      (copyOut r maxEntries start).1 = (List.range' start n).map (entryOf lines) := by
    intro start hs
    exact ⟨_, by omega, congrArg Prod.fst (copyOut_eq h hlt maxEntries start hs)⟩
  unfold read
  dsimp only
  split
  · obtain ⟨n, hn, he⟩ := hcopy _ (Nat.le_refl _)
    exact ⟨oldestInRing r, n, hold.1, hold.2, hn, he⟩
  · next hs =>
      obtain ⟨n, hn, he⟩ := hcopy (wrap (since + 1)) (by omega)
      exact ⟨wrap (since + 1), n, by omega, by omega, hn, he⟩

/-! ## The cut -/

/-- Byte 511, the first that is cut off, starts a character. -/
def CutsBetween (whole : CStr) : Prop := ∀ c ∈ whole[maxText - 1]?, c.IsUTF8FirstByte

/-- What an entry keeps of a line. -/
structure Stored (line kept : CStr) : Prop where
  cut : kept = line.take (maxText - 1)
  isPrefix : kept <+: line
  utf8 : ValidUtf8 kept ↔ CutsBetween line

theorem copyText_eq (line : CStr) : copyText line = line.take (maxText - 1) := by
  unfold copyText
  split
  · rw [List.take_length, List.take_of_length_le (by omega)]
  · rfl

/-- A formatted line is cut where a ready one is. -/
theorem append_formatted (r : Ring) (level : Level) (line : CStr) (now : ℤ) :
    appendFormatted r level (some line) now = append r level line now := by
  have hcut : copyText (snprintf maxText line) = copyText line := by
    rw [copyText_eq, copyText_eq, snprintf, List.take_take, Nat.min_self]
  simp only [appendFormatted, append, hcut]

theorem stored_copyText {line : CStr} (h : ValidUtf8 line) : Stored line (copyText line) := by
  rw [copyText_eq]
  exact ⟨rfl, List.take_prefix _ _, h.take_iff _⟩

/-- Of valid UTF-8 lines, the ring and every reply of `tail_log` hold the first 511 bytes, which
    are valid UTF-8 for the lines that are not cut inside a character and for no others. A line that
    is formatted first is stored as it would be without. -/
theorem log_text_stored (ub : Dbl → Nat) {lines : List Line} (hlt : lines.length < 2 ^ 64 - 1)
    (hv : ∀ l ∈ lines, ValidUtf8 l.text) :
    (∀ (n : Nat) (l : Line), lines[n]? = some l → lines.length ≤ n + ringSize →
      Stored l.text ((appendAll lines).ring (slotOf (n + 1))).text) ∧
    (∀ params, ∀ j ∈ repliedEntries (toolTailLog ub (appendAll lines) params),
      ∃ n l kept, lines[n]? = some l ∧
        j.getObjectItemCaseSensitive (ascii "seq") = some (.ofNat (n + 1)) ∧
        j.getObjectItemCaseSensitive (ascii "text") = some (.str kept) ∧ Stored l.text kept) ∧
    ∀ r level line now, appendFormatted r level (some line) now = append r level line now := by
  have h := holds_appendAll lines hlt
  refine ⟨?_, ?_, append_formatted⟩
  · intro n l hl hkept
    have hn : n < lines.length := (List.getElem?_eq_some_iff.mp hl).1
    have hentry : (appendAll lines).ring (slotOf (n + 1)) = entryOf lines (n + 1) := by
      refine h.window (n + 1) (by omega) ?_ ?_ <;> rw [h.next] <;> omega
    rw [hentry, entryOf_eq hl]
    exact stored_copyText (hv l (List.mem_of_getElem? hl))
  · intro params j hj
    rw [repliedEntries_toolTailLog] at hj
    obtain ⟨e, he, rfl⟩ := List.mem_map.mp hj
    obtain ⟨first, count, hfirst, -, hroom, hread⟩ := read_entries h hlt (tailSince ub params)
      (tailMax params)
    rw [hread] at he
    obtain ⟨seq, hseq, rfl⟩ := List.mem_map.mp he
    obtain ⟨hlo, hhi⟩ := List.mem_range'_1.mp hseq
    have hlen := hroom (by omega)
    obtain ⟨l, hl⟩ : ∃ l, lines[seq - 1]? = some l :=
      ⟨_, List.getElem?_eq_getElem (by omega)⟩
    refine ⟨seq - 1, l, copyText l.text, hl, ?_, ?_, stored_copyText (hv l (List.mem_of_getElem? hl))⟩
    · rw [tailEntry_seq, entryOf_seq, show seq - 1 + 1 = seq by omega]
    · rw [tailEntry_text, entryOf_eq hl]

/-- 509 letters, a character of two bytes and two letters more. -/
def wholeLine : CStr := List.replicate 509 0x61 ++ [0xC3, 0xA9] ++ ascii "bc"

/-- Of that line the entry ends with the whole character. -/
theorem log_text_stored_cut :
    Stored wholeLine ((appendAll [⟨.info, wholeLine, 5⟩]).ring (slotOf 1)).text ∧
      ValidUtf8 ((appendAll [⟨.info, wholeLine, 5⟩]).ring (slotOf 1)).text ∧
      ((appendAll [⟨.info, wholeLine, 5⟩]).ring (slotOf 1)).text.getLast? = some 0xA9 := by
  have hv : ∀ l ∈ [(⟨.info, wholeLine, 5⟩ : Line)], ValidUtf8 l.text :=
    List.forall_mem_singleton.mpr
      ⟨List.replicate 509 'a' ++ ['é', 'b', 'c'], by decide +kernel⟩
  have hst := (log_text_stored (fun _ => 0) (by decide) hv).1 0 _ rfl (by decide)
  refine ⟨hst, hst.utf8.mpr ?_, ?_⟩
  · intro c hc
    have hb : wholeLine[maxText - 1]? = some 0x62 := by decide +kernel
    cases hb.symm.trans (Option.mem_def.mp hc)
    decide
  · rw [hst.cut]
    decide +kernel

/-- 510 letters and a character of two bytes. -/
def splitLine : CStr := List.replicate 510 0x61 ++ [0xC3, 0xA9]

/-- Of that line the entry ends with the first of the two bytes. -/
theorem log_text_cut_inside : ValidUtf8 splitLine ∧
    ¬ ValidUtf8 ((appendAll [⟨.info, splitLine, 5⟩]).ring (slotOf 1)).text := by
  have hv : ValidUtf8 splitLine := ⟨List.replicate 510 'a' ++ ['é'], by decide +kernel⟩
  have hkept : ((appendAll [⟨.info, splitLine, 5⟩]).ring (slotOf 1)).text =
      splitLine.take (maxText - 1) := by decide +kernel
  refine ⟨hv, ?_⟩
  rw [hkept, hv.take_iff]
  intro hfirst
  exact absurd (hfirst 0xA9 (by decide +kernel)) (by decide)

end DisplayxrMcp.LogRing
