/-
  Printed messages on stdio.

  What cJSON prints has no line feed in it, begins as a value does and ends with no
  white space, whatever the tree. So every tree can be sent as a line or as a
  Content-Length frame, flattening leaves it alone, and what was printed is what the
  reader returns and cJSON parses (`printed_arrive`).
-/
import DisplayxrMcp.Cjson.Printed
import DisplayxrMcp.Stdio.Flatten

namespace DisplayxrMcp.Stdio

open Lib Cjson Reader

theorem message_delimited {o c : UInt8} (t : Bytes) (ho : o ∈ valueStarts) (hc : isWs c = false) :
    Message (o :: t ++ [c]) := by
  refine ⟨⟨o, ho, rfl⟩, fun d hd => ?_⟩
  rw [List.getLast?_concat] at hd
  cases hd
  exact hc

/-- Every tree is printed as a message. -/
theorem text_message (j : Json) : Message j.text := by
  cases j with
  | null =>
      rw [Json.text_null]
      exact message_delimited (ascii "ul") (by decide) (by decide)
  | bool b =>
      rw [Json.text_bool]
      cases b with
      | false => exact message_delimited (ascii "als") (by decide) (by decide)
      | true => exact message_delimited (ascii "ru") (by decide) (by decide)
  | num d =>
      rw [Json.text_num]
      cases d with
      | inf neg => exact message_delimited (ascii "ul") (by decide) (by decide)
      | fin q =>
          obtain ⟨cs, hcs, hnum⟩ := numberBuffer_number q
          rw [hcs, ← number_utf8 hnum]
          exact number_message hnum
  | str s =>
      rw [Json.text_str]
      exact message_delimited _ (by decide) (by decide)
  | arr l =>
      rw [Json.text_arr]
      exact message_delimited _ (by decide) (by decide)
  | obj ms =>
      rw [Json.text_obj]
      exact message_delimited _ (by decide) (by decide)

theorem text_sendable (f : Framing) (j : Json) : Sendable f j.text :=
  fun _ => ⟨text_message j, fun h => absurd (text_printable j 10 h) (by decide)⟩

/-- Flattening leaves alone what has no control character. -/
theorem encode_printable {f : Framing} {b : Bytes} (h : ∀ c ∈ b, 32 ≤ c) :
    encode f b = sent f b := by
  have hflat : b.map flatByte = b := by
    refine (List.map_congr_left fun c hc => ?_).trans (List.map_id b)
    have hle := UInt8.le_iff_toNat_le.mp (h c hc)
    unfold flatByte
    rw [if_neg]
    · rfl
    · rw [Bool.or_eq_true, decide_eq_true_eq, decide_eq_true_eq]
      rintro (rfl | rfl)
      · exact absurd hle (by decide)
      · exact absurd hle (by decide)
  unfold encode sent
  rw [hflat]

theorem sentAll_concat (f : Framing) (bodies : List Bytes) (b : Bytes) :
    sentAll f (bodies ++ [b]) = sentAll f bodies ++ sent f b := by
  unfold sentAll
  rw [List.map_append, List.flatten_append, List.map_singleton, List.flatten_singleton]

theorem encodeAll_text (f : Framing) (js : List Json) :
    encodeAll f (js.map Json.text) = sentAll f (js.map Json.text) := by
  unfold encodeAll sentAll
  rw [List.map_map, List.map_map]
  exact congrArg List.flatten
    (List.map_congr_left fun j _ => encode_printable (text_printable j))

/-- Messages printed by cJSON and written in one framing are read back, for every cut, if and only
    if each fits the reader's buffer; and they parse as the trees with their numbers as printed. -/
theorem printed_arrive [Abi] {f : Framing} (hf : f ≠ .unknown) {js : List Json}
    (hj : ∀ j ∈ js, Carried nestingLimit j) (sizes : Nat → Nat) (behind : Nat → Nat → Bytes) :
    ((init ⟨encodeAll f (js.map Json.text), sizes⟩ behind).messages js.length =
        js.map Json.text ↔ ∀ j ∈ js, InBuffer f j.text) ∧
      (js.map Json.text).map parse = js.map fun j => .ok j.reparse := by
  constructor
  · rw [encodeAll_text]
    rcases List.eq_nil_or_concat js with rfl | ⟨earlier, j, rfl⟩
    · exact ⟨fun _ => List.forall_mem_nil _, fun _ => rfl⟩
    · have hall : ∀ d ∈ earlier.map Json.text, Sendable f d := by
        intro d hd
        obtain ⟨k, -, rfl⟩ := List.mem_map.mp hd
        exact text_sendable f k
      have hback := returned_init hf hall (Or.inr (text_sendable f j)) [] sizes behind
      unfold Returned at hback
      rw [List.concat_eq_append, List.map_append, List.map_singleton, sentAll_concat,
        List.length_append, List.length_singleton, ← List.length_map Json.text,
        ← List.forall_mem_map, List.map_append, List.map_singleton]
      rw [List.append_nil] at hback
      exact hback
  · rw [List.map_map]
    exact List.map_congr_left fun j hmem => (parse_text (hj j hmem)).2

open Lp64 in
/-- A line feed in a string, on a line. -/
theorem printed_arrive_newline :
    (init ⟨encodeAll .ndjson ([.null, .str [10]].map Json.text), fun _ => 1⟩
        fun _ _ => []).messages 2 = [.null, .str [10]].map Json.text ∧
      ([.null, .str [10]].map Json.text).map parse = [.ok .null, .ok (.str [10])] := by
  have hcarried : ∀ j ∈ [.null, .str [10]], Carried nestingLimit j :=
    List.forall_mem_cons.mpr ⟨.null, List.forall_mem_singleton.mpr (.str (by decide))⟩
  obtain ⟨harrive, hparse⟩ :=
    printed_arrive (f := .ndjson) (by decide) hcarried (fun _ => 1) fun _ _ => []
  refine ⟨harrive.mpr (List.forall_mem_cons.mpr ⟨?_, List.forall_mem_singleton.mpr ?_⟩), ?_⟩
  · rw [Json.text_null]
    exact ⟨by decide, by decide, fun _ => by decide⟩
  · rw [Json.text_str]
    exact ⟨by decide, by decide, fun _ => by decide⟩
  · rw [hparse]
    rfl

end DisplayxrMcp.Stdio
