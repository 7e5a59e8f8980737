/-
  cJSON's printer, `cJSON_PrintUnformatted`, with its `printbuffer`.

  The printer writes behind `offset` into memory that `ensure` makes long enough, and
  leaves `offset` where it was or behind what it wrote; `update_offset` looks for the NUL.
  `Ready` and `Pending` are the two states between its steps, and `Prints` is what each
  function does: no write or read outside the buffer, and `text` in it if it returns.
  `printUnformatted_spec`: with memory it returns the text, unless that is longer than an
  `int` counts.
-/
import DisplayxrMcp.Lib.Cells
import DisplayxrMcp.Cjson.Text

namespace Cjson

open Lib Json

/-- `INT_MAX`. -/
def intMax : Nat := 2147483647

/-- What the allocator gives for a size: a block with whatever is in it, or nothing. -/
abbrev Heap := Nat → Option (Nat → UInt8)

/-- `printbuffer`. -/
structure PrintBuffer where
  buffer : Nat → UInt8
  length : Nat
  offset : Nat

namespace PrintBuffer

/-- `reallocate`: what was there stays. -/
def reallocate (heap : Heap) (p : PrintBuffer) (newsize : Nat) : Returns PrintBuffer :=
  match heap newsize with
  | none => throw .fail
  | some block =>
      pure { p with
        buffer := fun i => if i < p.length then p.buffer i else block i
        length := newsize }

/-- `ensure`. -/
def ensure (heap : Heap) (p : PrintBuffer) (needed : Nat) : Returns PrintBuffer :=
  if 0 < p.length ∧ p.length ≤ p.offset then throw .fail
  else if intMax < needed then throw .fail
  else if needed + p.offset + 1 ≤ p.length then pure p
  else if intMax / 2 < needed + p.offset + 1 then
    if needed + p.offset + 1 ≤ intMax then p.reallocate heap intMax else throw .fail
  else p.reallocate heap ((needed + p.offset + 1) * 2)

/-- `xs` is written from cell `i` on. -/
def store (p : PrintBuffer) (i : Nat) (xs : CStr) : Returns PrintBuffer :=
  if i + xs.length ≤ p.length then pure { p with buffer := Cells.write p.buffer i xs }
  else throw .fault

/-- `offset += n`. -/
def advance (p : PrintBuffer) (n : Nat) : PrintBuffer := { p with offset := p.offset + n }

/-- `update_offset`: `strlen` from `offset` on. -/
def updateOffset (p : PrintBuffer) : Returns PrintBuffer :=
  match (List.range (p.length - p.offset)).find? fun k => p.buffer (p.offset + k) = 0 with
  | some k => pure (p.advance k)
  | none => throw .fault

/-- `print_number`. `sprintf` would write behind `number_buffer` from the 26th byte on. -/
def printNumber (heap : Heap) (d : Dbl) (p : PrintBuffer) : Returns PrintBuffer := do
  let number := numberBuffer d
  if 26 ≤ number.length then throw .fault
  let p ← p.ensure heap (number.length + 1)
  let p ← p.store p.offset (number ++ [0])
  pure (p.advance number.length)

/-- `print_string_ptr`. -/
def printStringPtr (heap : Heap) (input : CStr) (p : PrintBuffer) : Returns PrintBuffer := do
  let outputLength := input.length + escapeCharacters input
  let p ← p.ensure heap (outputLength + 3)
  if escapeCharacters input = 0 then p.store p.offset (34 :: input ++ [34, 0])
  else
    let q ← p.store p.offset (34 :: input.flatMap escapeByte)
    q.store (p.offset + outputLength + 1) [34, 0]

mutual

/-- `print_value`, unformatted. -/
def printValue (heap : Heap) : Json → PrintBuffer → Returns PrintBuffer
  | .null, p => do
      let p ← p.ensure heap 5
      p.store p.offset (ascii "null" ++ [0])
  | .bool false, p => do
      let p ← p.ensure heap 6
      p.store p.offset (ascii "false" ++ [0])
  | .bool true, p => do
      let p ← p.ensure heap 5
      p.store p.offset (ascii "true" ++ [0])
  | .num d, p => p.printNumber heap d
  | .str s, p => p.printStringPtr heap s
  -- `print_array`
  | .arr l, p => do
      let p ← p.ensure heap 1
      let p ← p.store p.offset [91]
      let p ← printElements heap l (p.advance 1)
      let p ← p.ensure heap 2
      p.store p.offset [93, 0]
  -- `print_object`
  | .obj ms, p => do
      let p ← p.ensure heap 2
      let p ← p.store p.offset [123]
      let p ← printMembers heap ms (p.advance 1)
      let p ← p.ensure heap 2
      p.store p.offset [125, 0]

/-- The loop in `print_array`. -/
def printElements (heap : Heap) : List Json → PrintBuffer → Returns PrintBuffer
  | [], p => pure p
  | j :: l, p => do
      let p ← printValue heap j p
      let p ← p.updateOffset
      if l.isEmpty then pure p
      else
        let p ← p.ensure heap 2
        let p ← p.store p.offset [44, 0]
        printElements heap l (p.advance 1)

/-- The loop in `print_object`. -/
def printMembers (heap : Heap) : List (CStr × Json) → PrintBuffer → Returns PrintBuffer
  | [], p => pure p
  | (name, j) :: ms, p => do
      let p ← p.printStringPtr heap name
      let p ← p.updateOffset
      let p ← p.ensure heap 1
      let p ← p.store p.offset [58]
      let p ← printValue heap j (p.advance 1)
      let p ← p.updateOffset
      let comma : CStr := if ms.isEmpty then [] else [44]
      let p ← p.ensure heap (comma.length + 1)
      let p ← p.store p.offset (comma ++ [0])
      printMembers heap ms (p.advance comma.length)

end

end PrintBuffer

/-- `cJSON_PrintUnformatted`: the string that is returned. -/
def printUnformatted (heap : Heap) (j : Json) : Returns CStr :=
  match heap 256 with
  | none => throw .fail
  | some block => do
      let p ← PrintBuffer.printValue heap j ⟨block, 256, 0⟩
      let p ← p.updateOffset
      match heap (p.offset + 1) with
      | none => throw .fail
      | some _ => pure (Cells.slice p.buffer 0 p.offset)

namespace PrintBuffer

/-! ## Between the steps -/

/-- `t` is written and `offset` stands behind it. -/
structure Ready (p : PrintBuffer) (t : CStr) : Prop where
  text : Cells.slice p.buffer 0 t.length = t
  offset : p.offset = t.length
  inside : t.length < p.length
  size : p.length ≤ intMax

/-- `t` and a NUL are written, and `offset` stands somewhere in it. -/
structure Pending (p : PrintBuffer) (t : CStr) : Prop where
  text : Cells.slice p.buffer 0 t.length = t
  nul : p.buffer t.length = 0
  offset : p.offset ≤ t.length
  noNul : 0 ∉ t.drop p.offset
  inside : t.length + 2 ≤ p.length
  size : p.length ≤ intMax

/-- What a call does that is to append `u` to `t`. It fails only without memory, or when the
    text is too long. -/
structure Does (heap : Heap) (post : PrintBuffer → Prop) (limit : Nat)
    (r : Returns PrintBuffer) : Prop where
  safe : r ≠ .error .fault
  done : ∀ p, r = .ok p → post p
  fails : r = .error .fail → (∀ n, heap n ≠ none) → intMax < limit

variable {heap : Heap} {p : PrintBuffer} {t : CStr}

theorem Does.bind {mid post : PrintBuffer → Prop} {limit limit' : Nat} {r : Returns PrintBuffer}
    {f : PrintBuffer → Returns PrintBuffer} (h : Does heap mid limit r) (hle : limit ≤ limit')
    (hf : ∀ p, mid p → Does heap post limit' (f p)) : Does heap post limit' (r >>= f) := by
  cases r with
  | error e =>
      refine ⟨?_, fun p hp => (nomatch hp), fun hp hheap => ?_⟩
      · intro hp
        cases hp
        exact h.safe rfl
      · cases hp
        exact Nat.lt_of_lt_of_le (h.fails rfl hheap) hle
  | ok p => exact hf p (h.done p rfl)

theorem Does.mono {post : PrintBuffer → Prop} {limit limit' : Nat} {r : Returns PrintBuffer}
    (h : Does heap post limit r) (hle : limit ≤ limit') : Does heap post limit' r :=
  ⟨h.safe, h.done, fun hr hheap => Nat.lt_of_lt_of_le (h.fails hr hheap) hle⟩

theorem Does.ok {post : PrintBuffer → Prop} (hp : post p) (limit : Nat) :
    Does heap post limit (.ok p) :=
  ⟨fun h => (nomatch h), fun q hq => (by cases hq; exact hp), fun h => (nomatch h)⟩

/-- There is room for `needed` bytes and one more. -/
theorem ensure_does (h : p.Ready t) (needed : Nat) :
    Does heap (fun p => p.Ready t ∧ t.length + needed + 1 ≤ p.length) (t.length + needed + 1)
      (p.ensure heap needed) := by
  have hkeep : ∀ {newsize : Nat}, t.length + needed + 1 ≤ newsize → newsize ≤ intMax →
      Does heap (fun p => p.Ready t ∧ t.length + needed + 1 ≤ p.length) (t.length + needed + 1)
        (p.reallocate heap newsize) := by
    intro newsize hle hmax
    unfold reallocate
    cases hb : heap newsize with
    | none => exact ⟨fun h => (nomatch h), fun _ h => (nomatch h), fun _ hheap => absurd hb (hheap _)⟩
    | some block =>
        refine Does.ok ⟨⟨?_, h.offset, ?_, hmax⟩, hle⟩ _
        · rw [← h.text]
          conv_lhs => rw [h.text]
          refine Cells.slice_congr fun i _ hi => if_pos ?_
          have := h.inside
          omega
        · change t.length < newsize
          omega
  have hin := h.inside
  have hsize := h.size
  have hfail : intMax < t.length + needed + 1 →
      Does heap (fun p => p.Ready t ∧ t.length + needed + 1 ≤ p.length) (t.length + needed + 1)
        (.error .fail) :=
    fun hlt => ⟨fun h => (nomatch h), fun _ h => (nomatch h), fun _ _ => hlt⟩
  unfold ensure
  rw [h.offset]
  split
  · omega
  · split
    · exact hfail (by omega)
    · split
      · exact Does.ok ⟨h, by omega⟩ _
      · split
        · split
          · exact hkeep (by omega) (Nat.le_refl _)
          · exact hfail (by omega)
        · exact hkeep (by omega) (by omega)

/-- Bytes are put behind what is written, and `offset` moves over the first of them. -/
theorem store_ready (h : p.Ready t) (u v : CStr) (hroom : t.length + u.length + v.length ≤ p.length)
    (hin : t.length + u.length < p.length) :
    ∃ q, p.store p.offset (u ++ v) = .ok q ∧ (q.advance u.length).Ready (t ++ u) ∧
      q.length = p.length ∧ q.buffer = Cells.write p.buffer t.length (u ++ v) := by
  refine ⟨{ p with buffer := Cells.write p.buffer p.offset (u ++ v) }, ?_, ?_, rfl, ?_⟩
  · unfold store
    rw [h.offset, List.length_append, if_pos (by omega)]
    rfl
  · refine ⟨?_, ?_, ?_, h.size⟩
    · have hwrite := Cells.slice_write_append p.buffer 0 t.length (u ++ v)
      rw [Nat.zero_add, h.text, List.length_append, ← Nat.add_assoc, Cells.slice_add,
        ← List.append_assoc] at hwrite
      have := (List.append_inj hwrite (by simp)).1
      rw [List.length_append]
      change Cells.slice (Cells.write p.buffer p.offset (u ++ v)) 0 (t.length + u.length) = _
      rw [h.offset]
      exact this
    · change p.offset + u.length = (t ++ u).length
      rw [h.offset, List.length_append]
    · rw [List.length_append]
      exact hin
  · rw [h.offset]

/-- Bytes and a NUL are put behind what is written. -/
theorem store_nul (h : p.Ready t) {u : CStr} (hu : 0 ∉ u)
    (hroom : t.length + u.length + 2 ≤ p.length) :
    ∃ q, p.store p.offset (u ++ [0]) = .ok q ∧ q.Pending (t ++ u) ∧
      (q.advance u.length).Pending (t ++ u) := by
  have hlen : ([0] : CStr).length = 1 := rfl
  obtain ⟨q, hq, hready, hlength, hbuffer⟩ := store_ready h u [0] (by omega) (by omega)
  have hoffset : q.offset = t.length := by
    have := hready.offset
    rw [List.length_append] at this
    change q.offset + u.length = _ at this
    omega
  have hnul : q.buffer (t ++ u).length = 0 := by
    rw [hbuffer, List.length_append]
    unfold Cells.write
    rw [if_pos (Nat.le_add_right _ _), Nat.add_sub_cancel_left, List.getElem?_concat_length]
    rfl
  have hin : (t ++ u).length + 2 ≤ q.length := by
    rw [List.length_append, hlength]
    omega
  refine ⟨q, hq, ⟨hready.text, hnul, ?_, ?_, hin, hready.size⟩,
    ⟨hready.text, hnul, Nat.le_of_eq hready.offset, ?_, hin, hready.size⟩⟩
  · rw [hoffset, List.length_append]
    exact Nat.le_add_right _ _
  · rw [hoffset, List.drop_left]
    exact hu
  · rw [hready.offset, List.drop_length]
    exact List.not_mem_nil

/-- `strlen` stops at the NUL. -/
theorem updateOffset_ok (h : p.Pending t) :
    ∃ q, p.updateOffset = .ok q ∧ q.Ready t ∧ t.length + 2 ≤ q.length := by
  have hin := h.inside
  have hoff := h.offset
  have hcell : ∀ k, p.offset + k < t.length → p.buffer (p.offset + k) ≠ 0 := by
    intro k hk hzero
    have hget : t[p.offset + k]? = some (p.buffer (p.offset + k)) := by
      conv_lhs => rw [← h.text]
      rw [Cells.getElem?_slice _ hk, Nat.zero_add]
    have hmem : p.buffer (p.offset + k) ∈ t.drop p.offset := by
      rw [List.mem_iff_getElem?]
      exact ⟨k, by rw [List.getElem?_drop, hget]⟩
    rw [hzero] at hmem
    exact h.noNul hmem
  have hfind : (List.range (p.length - p.offset)).find?
      (fun k => p.buffer (p.offset + k) = 0) = some (t.length - p.offset) := by
    rw [List.find?_range_eq_some]
    refine ⟨?_, List.mem_range.mpr (by omega), fun k hk => ?_⟩
    · rw [decide_eq_true_eq, Nat.add_sub_cancel' hoff]
      exact h.nul
    · rw [Bool.not_eq_true', decide_eq_false_iff_not]
      exact hcell k (by omega)
  refine ⟨p.advance (t.length - p.offset), ?_, ⟨h.text, ?_, ?_, h.size⟩, hin⟩
  · unfold updateOffset
    rw [hfind]
    rfl
  · change p.offset + (t.length - p.offset) = t.length
    omega
  · change t.length < p.length
    omega

theorem updateOffset_does (h : p.Pending t) :
    Does heap (fun p => p.Ready t ∧ t.length + 2 ≤ p.length) 0 p.updateOffset := by
  obtain ⟨q, hq, hready⟩ := updateOffset_ok h
  rw [hq]
  exact Does.ok hready 0

/-! ## What each function writes -/

theorem numberBuffer_noNul (d : Dbl) : 0 ∉ numberBuffer d := by
  intro h
  cases d with
  | inf neg =>
      have hnull : 0 ∉ ascii "null" := by decide
      exact hnull h
  | fin q =>
      obtain ⟨cs, hcs, hnum⟩ := numberBuffer_number q
      rw [hcs] at h
      exact absurd (isNumberByte_bytes hnum 0 h) (by decide)

theorem escapeByte_facts (c : UInt8) :
    0 ∉ escapeByte c ∧ (escapeByte c).length =
      1 + (if (escapeChar c).isSome then 1 else if c < 32 then 5 else 0) := by
  refine ⟨fun h => absurd (escapeByte_printable c 0 h) (by decide), ?_⟩
  unfold escapeByte
  split
  · next hc =>
      rw [escapeChar_plain hc, if_neg (by simp), if_neg]
      · rfl
      · exact fun h => absurd (UInt8.lt_iff_toNat_lt.mp h)
          (Nat.not_lt.mpr (UInt8.lt_iff_toNat_lt.mp hc.1))
  · next hc =>
      unfold escapeTail
      cases hesc : escapeChar c with
      | some d => rfl
      | none =>
          have hlow : c < 32 := by
            by_contra hge
            refine hc ⟨?_, ?_, ?_⟩
            · rw [UInt8.lt_iff_toNat_lt] at hge ⊢
              exact Nat.not_lt.mp hge
            · rintro rfl
              cases hesc
            · rintro rfl
              cases hesc
          rw [if_neg (by simp), if_pos hlow]
          rfl

/-- The first run over the string counts what the second writes. -/
theorem length_escaped (s : CStr) :
    (s.flatMap escapeByte).length = s.length + escapeCharacters s := by
  unfold escapeCharacters
  induction s with
  | nil => rfl
  | cons c s ih =>
      rw [List.flatMap_cons, List.length_append, ih, (escapeByte_facts c).2, List.length_cons,
        List.map_cons, List.sum_cons]
      omega

/-- Where it counts nothing, the string is copied. -/
theorem escaped_of_zero {s : CStr} (h : escapeCharacters s = 0) : s.flatMap escapeByte = s := by
  induction s with
  | nil => rfl
  | cons c s ih =>
      have hlen := (escapeByte_facts c).2
      unfold escapeCharacters at h ih
      rw [List.map_cons, List.sum_cons] at h
      have hone : (escapeByte c).length = 1 := by omega
      have hself : escapeByte c = [c] := by
        unfold escapeByte at hone ⊢
        split
        · rfl
        · next hc =>
            rw [if_neg hc] at hone
            unfold escapeTail at hone
            split at hone
            · cases hone
            · cases hone
      rw [List.flatMap_cons, hself, ih (by omega)]
      rfl

theorem stringText_noNul (s : CStr) : 0 ∉ stringText s := by
  unfold stringText
  intro h
  rcases List.mem_append.mp h with h | h
  · rcases List.mem_cons.mp h with h | h
    · cases h
    · obtain ⟨c, -, hc⟩ := List.mem_flatMap.mp h
      exact (escapeByte_facts c).1 hc
  · exact absurd h (by decide)

theorem printNumber_does {d : Dbl} (hd : d.InRange) (h : p.Ready t) :
    Does heap (fun p => p.Pending (t ++ numberBuffer d)) (t.length + (numberBuffer d).length + 2)
      (p.printNumber heap d) := by
  have hlen := length_numberBuffer hd
  unfold printNumber
  dsimp only
  rw [if_neg (by omega)]
  refine (ensure_does h _).bind (by omega) fun p hp => ?_
  obtain ⟨hp, hroom⟩ := hp
  obtain ⟨q, hq, -, hpending⟩ := store_nul hp (numberBuffer_noNul d) (by omega)
  rw [hq]
  exact Does.ok hpending _

theorem printStringPtr_does (s : CStr) (h : p.Ready t) :
    Does heap (fun p => p.Pending (t ++ stringText s)) (t.length + (stringText s).length + 2)
      (p.printStringPtr heap s) := by
  have hlen : (stringText s).length = s.length + escapeCharacters s + 2 := by
    unfold stringText
    rw [List.length_append, List.length_cons, length_escaped]
    rfl
  unfold printStringPtr
  refine (ensure_does h _).bind (by omega) fun p hp => ?_
  obtain ⟨hp, hroom⟩ := hp
  obtain ⟨q, hq, hpending, -⟩ := store_nul hp (stringText_noNul s) (by omega)
  have htext : stringText s ++ [0] = (34 :: s.flatMap escapeByte) ++ [34, 0] := by
    unfold stringText
    rw [List.append_assoc]
    rfl
  rw [htext] at hq
  split
  · next hzero =>
      rw [escaped_of_zero hzero] at hq
      rw [hq]
      exact Does.ok hpending _
  · have hfirst : p.store p.offset (34 :: s.flatMap escapeByte) =
        .ok { p with buffer := Cells.write p.buffer p.offset (34 :: s.flatMap escapeByte) } := by
      unfold store
      rw [hp.offset, List.length_cons, length_escaped, if_pos (by omega)]
      rfl
    have hsecond : p.store p.offset ((34 :: s.flatMap escapeByte) ++ [34, 0]) =
        store { p with buffer := Cells.write p.buffer p.offset (34 :: s.flatMap escapeByte) }
          (p.offset + (s.length + escapeCharacters s) + 1) [34, 0] := by
      have hn : p.offset + (s.length + escapeCharacters s) + 1 =
          p.offset + (34 :: s.flatMap escapeByte).length := by
        rw [List.length_cons, length_escaped]
        rfl
      unfold store
      rw [hn, ← Cells.write_append, List.length_append, ← Nat.add_assoc]
    rw [hfirst]
    change Does heap _ _ (store _ _ _)
    rw [← hsecond, hq]
    exact Does.ok hpending _

theorem printWord_does {w : CStr} (hw : 0 ∉ w) {needed : Nat} (hneeded : needed = w.length + 1)
    (h : p.Ready t) :
    Does heap (fun p => p.Pending (t ++ w)) (t.length + w.length + 2)
      (p.ensure heap needed >>= fun p => p.store p.offset (w ++ [0])) := by
  refine (ensure_does h _).bind (by omega) fun p hp => ?_
  obtain ⟨hp, hroom⟩ := hp
  obtain ⟨q, hq, hpending, -⟩ := store_nul hp hw (by omega)
  rw [hq]
  exact Does.ok hpending _

/-- Bytes that `offset` moves over next, with what is written behind them. -/
theorem store_does {needed : Nat} (h : p.Ready t ∧ t.length + needed + 1 ≤ p.length) (u v : CStr)
    (hneeded : u.length + v.length ≤ needed) :
    Does heap (fun p => (p.advance u.length).Ready (t ++ u)) 0 (p.store p.offset (u ++ v)) := by
  obtain ⟨h, hroom⟩ := h
  obtain ⟨q, hq, hready, -, -⟩ := store_ready h u v (by omega) (by omega)
  rw [hq]
  exact Does.ok hready 0

/-! ## Trees -/

/-- `print_value` on a tree. -/
def Prints (heap : Heap) (j : Json) : Prop :=
  ∀ (p : PrintBuffer) (t : CStr), p.Ready t →
    Does heap (fun p => p.Pending (t ++ text j)) (t.length + (text j).length + 2)
      (printValue heap j p)

theorem printElements_does {l : List Json} (hl : ∀ j ∈ l, Prints heap j) :
    ∀ (p : PrintBuffer) (t : CStr), p.Ready t →
      Does heap (fun p => p.Ready (t ++ itemsText l)) (t.length + (itemsText l).length + 2)
        (printElements heap l p) := by
  induction l with
  | nil =>
      intro p t h
      unfold printElements
      rw [itemsText_nil, List.append_nil]
      exact Does.ok h _
  | cons j l ih =>
      intro p t h
      have hj := hl j List.mem_cons_self p t h
      unfold printElements
      cases l with
      | nil =>
          rw [itemsText_singleton]
          refine hj.bind (Nat.le_refl _) fun p hp => ?_
          refine (updateOffset_does hp).bind (Nat.zero_le _) fun p hp => ?_
          exact Does.ok hp.1 _
      | cons k l =>
          have hk : 0 < (itemsText (k :: l)).length :=
            Nat.lt_of_lt_of_le (Nat.succ_pos _) (length_itemsText (k :: l))
          have hlen : (itemsText (j :: k :: l)).length =
              (text j).length + 1 + (itemsText (k :: l)).length := by
            rw [itemsText_cons, List.length_append, List.length_cons]
            omega
          refine hj.bind (by omega) fun p hp => ?_
          refine (updateOffset_does hp).bind (Nat.zero_le _) fun p hp => ?_
          refine (ensure_does hp.1 2).bind (by rw [List.length_append]; omega) fun p hp => ?_
          refine (store_does hp [44] [0] (by decide)).bind (Nat.zero_le _) fun p hp => ?_
          have hrest := ih (fun i hi => hl i (List.mem_cons_of_mem j hi)) _ _ hp
          rw [List.length_append, List.length_append, List.length_singleton, List.append_assoc,
            List.append_assoc, List.singleton_append] at hrest
          rw [hlen, itemsText_cons]
          exact hrest.mono (by omega)

theorem printMembers_does {ms : List (CStr × Json)} (hms : ∀ m ∈ ms, Prints heap m.2) :
    ∀ (p : PrintBuffer) (t : CStr), p.Ready t →
      Does heap (fun p => p.Ready (t ++ membersText ms)) (t.length + (membersText ms).length + 2)
        (printMembers heap ms p) := by
  induction ms with
  | nil =>
      intro p t h
      unfold printMembers
      rw [membersText_nil, List.append_nil]
      exact Does.ok h _
  | cons m ms ih =>
      intro p t h
      obtain ⟨name, j⟩ := m
      have hj := hms (name, j) List.mem_cons_self
      have htext : 0 < (text j).length := by
        obtain ⟨c, u, hu, -⟩ := text_opens j
        rw [hu]
        exact Nat.succ_pos _
      have hsplit : ∃ rest, membersText ((name, j) :: ms) =
          stringText name ++ 58 :: (text j ++ (if ms.isEmpty then [] else [44]) ++ rest) ∧
            rest = membersText ms := by
        refine ⟨_, ?_, rfl⟩
        cases ms with
        | nil =>
            rw [membersText_singleton, membersText_nil]
            simp
        | cons n ms =>
            rw [membersText_cons]
            simp
      obtain ⟨rest, hsplit, hrest⟩ := hsplit
      have hlen := congrArg List.length hsplit
      rw [List.length_append, List.length_cons, List.length_append, List.length_append] at hlen
      unfold printMembers
      generalize (if ms.isEmpty then ([] : CStr) else [44]) = comma at hsplit hlen ⊢
      refine (printStringPtr_does name h).bind (by omega) fun p hp => ?_
      refine (updateOffset_does hp).bind (Nat.zero_le _) fun p hp => ?_
      refine (ensure_does hp.1 1).bind (by rw [List.length_append]; omega) fun p hp => ?_
      refine (store_does hp [58] [] (by decide)).bind (Nat.zero_le _) fun p hp => ?_
      refine (hj _ _ hp).bind (by simp only [List.length_append, List.length_singleton]; omega)
        fun p hp => ?_
      refine (updateOffset_does hp).bind (Nat.zero_le _) fun p hp => ?_
      refine (ensure_does hp.1 (comma.length + 1)).bind
        (by simp only [List.length_append, List.length_singleton]; omega) fun p hp => ?_
      refine (store_does hp comma [0] (Nat.le_refl _)).bind (Nat.zero_le _) fun p hp => ?_
      have hdone := ih (fun n hn => hms n (List.mem_cons_of_mem _ hn)) _ _ hp
      rw [← hrest] at hdone
      have htext : t ++ stringText name ++ [58] ++ text j ++ comma ++ rest =
          t ++ membersText ((name, j) :: ms) := by
        rw [hsplit]
        simp
      rw [htext] at hdone
      refine hdone.mono ?_
      simp only [List.length_append, List.length_singleton]
      omega

/-- `print_value` prints every tree whose numbers are doubles. -/
theorem printValue_does {levels : Nat} {j : Json} (hj : Carried levels j) : Prints heap j := by
  induction hj with
  | null =>
      intro p t h
      unfold printValue
      rw [text_null]
      exact printWord_does (by decide) rfl h
  | @bool _ b =>
      intro p t h
      rw [text_bool]
      cases b with
      | false =>
          unfold printValue
          exact printWord_does (by decide) rfl h
      | true =>
          unfold printValue
          exact printWord_does (by decide) rfl h
  | num hd =>
      intro p t h
      unfold printValue
      rw [text_num]
      exact printNumber_does hd h
  | str hs =>
      intro p t h
      unfold printValue
      rw [text_str]
      exact printStringPtr_does _ h
  | @arr _ l hl ih =>
      intro p t h
      have hlen : (text (.arr l)).length = (itemsText l).length + 2 := by
        rw [text_arr, List.length_append, List.length_cons]
        rfl
      unfold printValue
      refine (ensure_does h 1).bind (by omega) fun p hp => ?_
      refine (store_does hp [91] [] (by decide)).bind (Nat.zero_le _) fun p hp => ?_
      refine (printElements_does ih _ _ hp).bind
        (by simp only [List.length_append, List.length_singleton]; omega) fun p hp => ?_
      have hclose : ∀ {p : PrintBuffer}, p.Ready (t ++ [91] ++ itemsText l) → Does heap _ _ _ :=
        fun hp => printWord_does (by decide : 0 ∉ ([93] : CStr)) rfl hp
      have htext : t ++ [91] ++ itemsText l ++ [93] = t ++ text (.arr l) := by
        rw [text_arr]
        simp
      rw [htext] at hclose
      refine (hclose hp).mono ?_
      simp only [List.length_append, List.length_singleton]
      omega
  | @obj _ ms hnames hms ih =>
      intro p t h
      have hlen : (text (.obj ms)).length = (membersText ms).length + 2 := by
        rw [text_obj, List.length_append, List.length_cons]
        rfl
      unfold printValue
      refine (ensure_does h 2).bind (by omega) fun p hp => ?_
      refine (store_does hp [123] [] (by decide)).bind (Nat.zero_le _) fun p hp => ?_
      refine (printMembers_does ih _ _ hp).bind
        (by simp only [List.length_append, List.length_singleton]; omega) fun p hp => ?_
      have hclose : ∀ {p : PrintBuffer}, p.Ready (t ++ [123] ++ membersText ms) →
          Does heap _ _ _ := fun hp => printWord_does (by decide : 0 ∉ ([125] : CStr)) rfl hp
      have htext : t ++ [123] ++ membersText ms ++ [125] = t ++ text (.obj ms) := by
        rw [text_obj]
        simp
      rw [htext] at hclose
      refine (hclose hp).mono ?_
      simp only [List.length_append, List.length_singleton]
      omega

end PrintBuffer

open PrintBuffer

theorem start_ready (block : Nat → UInt8) : Ready ⟨block, 256, 0⟩ [] :=
  ⟨rfl, rfl, (by decide : 0 < 256), (by decide : 256 ≤ intMax)⟩

/-- `cJSON_PrintUnformatted` never leaves its buffer. What it returns is the text, and with
    memory it returns exactly the texts that an `int` can count with two bytes more. -/
theorem printUnformatted_spec (heap : Heap) {levels : Nat} {j : Json} (hj : Carried levels j) :
    printUnformatted heap j ≠ .error .fault ∧
      (∀ s, printUnformatted heap j = .ok s → s = text j) ∧
      ((∀ n, heap n ≠ none) →
        (printUnformatted heap j = .ok (text j) ↔ (text j).length + 2 ≤ intMax)) := by
  unfold printUnformatted
  cases hblock : heap 256 with
  | none => exact ⟨fun h => (nomatch h), fun _ h => (nomatch h), fun hheap => absurd hblock (hheap _)⟩
  | some block =>
      have hprint : Does heap _ _ _ := printValue_does hj _ _ (start_ready block)
      rw [List.nil_append, List.length_nil, Nat.zero_add] at hprint
      dsimp only
      cases hr : printValue heap j ⟨block, 256, 0⟩ with
      | error e =>
          cases e with
          | fault => exact absurd hr hprint.safe
          | fail =>
              refine ⟨fun h => (nomatch h), fun _ h => (nomatch h), fun hheap => ?_⟩
              have hlong := hprint.fails hr hheap
              exact ⟨fun h => (nomatch h), fun h => absurd h (by omega)⟩
      | ok p =>
          have hp := hprint.done p hr
          obtain ⟨q, hu, hq, hroom⟩ := updateOffset_ok hp
          have hfits : (text j).length + 2 ≤ intMax := Nat.le_trans hroom hq.size
          have hslice : Cells.slice q.buffer 0 q.offset = text j := by
            rw [hq.offset]
            exact hq.text
          rw [Returns.ok_bind, hu, Returns.ok_bind]
          cases hlast : heap (q.offset + 1) with
          | none =>
              exact ⟨fun h => (nomatch h), fun _ h => (nomatch h),
                fun hheap => absurd hlast (hheap _)⟩
          | some _ =>
              dsimp only
              rw [hslice]
              refine ⟨fun h => (nomatch h), fun s h => ?_, fun _ => ⟨fun _ => hfits, fun _ => rfl⟩⟩
              cases h
              rfl

end Cjson
