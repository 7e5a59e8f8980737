/-
  The reader's buffer: what `fill`, `header_line` and the body loop do to it.

  `At r f u` says that `r` is well formed, with framing `f` and the bytes `u` still
  to be consumed. All of `fill` keeps it. With fewer than 16 MiB in the window a
  fill is refused only at the end of the input (`fill_eq_true_iff`); that is what
  the doubling from 4096 and the limit in `fill` come to.
-/
import DisplayxrMcp.Stdio.Reader

namespace DisplayxrMcp.Stdio

open Lib

/-! ## Line feeds -/

theorem memchrLf_eq_none {s : Bytes} : memchrLf s = none ↔ 10 ∉ s := by
  rw [memchrLf, List.findIdx?_eq_none_iff]
  constructor
  · intro h hmem
    exact absurd (h 10 hmem) (by decide)
  · intro h x hx
    rw [beq_eq_false_iff_ne]
    rintro rfl
    exact h hx

theorem memchrLf_some {s : Bytes} {k : Nat} (h : memchrLf s = some k) :
    10 ∉ s.take k ∧ s = s.take k ++ 10 :: s.drop (k + 1) := by
  obtain ⟨hk, h10, hbefore⟩ := List.findIdx?_eq_some_iff_getElem.mp h
  refine ⟨fun hmem => ?_, ?_⟩
  · obtain ⟨j, hj, he⟩ := List.mem_take_iff_getElem.mp hmem
    exact hbefore j (by omega) (beq_iff_eq.mpr he)
  · have he : s[k] = 10 := eq_of_beq h10
    rw [← he, List.getElem_cons_drop, List.take_append_drop]

/-- The line feed found behind `m` bytes without one ends the first line. -/
theorem memchrLf_drop {w : Bytes} {m k : Nat} (hm : 10 ∉ w.take m)
    (h : memchrLf (w.drop m) = some k) :
    10 ∉ w.take (m + k) ∧ w = w.take (m + k) ++ 10 :: w.drop (m + k + 1) := by
  obtain ⟨hno, heq⟩ := memchrLf_some h
  have hsplit : w.take (m + k) = w.take m ++ (w.drop m).take k := List.take_add
  refine ⟨?_, ?_⟩
  · rw [hsplit, List.mem_append]
    exact fun hmem => hmem.elim hm hno
  · rw [hsplit, List.append_assoc]
    have hd : w.drop (m + k + 1) = (w.drop m).drop (k + 1) := by
      rw [List.drop_drop, Nat.add_assoc]
    rw [hd, ← heq, List.take_append_drop]

theorem memchrLf_line {l : Bytes} (hl : 10 ∉ l) (t : Bytes) :
    memchrLf (l ++ 10 :: t) = some l.length := by
  induction l with
  | nil => rfl
  | cons c l ih =>
      have hc : (c == 10) = false := beq_eq_false_iff_ne.mpr fun h => hl (h ▸ List.mem_cons_self)
      have hl' : 10 ∉ l := fun h => hl (List.mem_cons_of_mem _ h)
      have ih' := ih hl'
      unfold memchrLf at ih' ⊢
      rw [List.cons_append, List.findIdx?_cons, hc, ih']
      rfl

/-- A line is what stands before the first line feed. -/
theorem line_inj {l m t t' : Bytes} (hl : 10 ∉ l) (hm : 10 ∉ m)
    (he : l ++ 10 :: t = m ++ 10 :: t') : l = m ∧ t = t' := by
  induction l generalizing m with
  | nil =>
      cases m with
      | nil => exact ⟨rfl, (List.cons.inj he).2⟩
      | cons d m =>
          cases (List.cons.inj he).1
          exact absurd List.mem_cons_self hm
  | cons c l ih =>
      cases m with
      | nil =>
          cases (List.cons.inj he).1
          exact absurd List.mem_cons_self hl
      | cons d m =>
          obtain ⟨rfl, hrest⟩ := List.cons.inj he
          obtain ⟨rfl, ht⟩ := ih (fun h => hl (List.mem_cons_of_mem _ h))
            (fun h => hm (List.mem_cons_of_mem _ h)) hrest
          exact ⟨rfl, ht⟩

/-! ## Capacities -/

theorem capLe_of_shape {c : Nat} (h : c = 0 ∨ ∃ k, k ≤ 12 ∧ c = 4096 * 2 ^ k) :
    c ≤ maxMessageBytes := by
  rcases h with rfl | ⟨k, hk, rfl⟩
  · exact Nat.zero_le _
  · have hle : 2 ^ k ≤ 2 ^ 12 := Nat.pow_le_pow_right (by decide) hk
    unfold maxMessageBytes
    omega

/-- What `fill` doubles to below 16 MiB. -/
theorem doubled_shape {c : Nat} (h : c = 0 ∨ ∃ k, k ≤ 12 ∧ c = 4096 * 2 ^ k)
    (hc : c < maxMessageBytes) :
    ∃ k, k ≤ 12 ∧ (if c = 0 then 4096 else c * 2) = 4096 * 2 ^ k ∧
      c < (if c = 0 then 4096 else c * 2) ∧
      (if c = 0 then 4096 else c * 2) ≤ maxMessageBytes := by
  rcases h with h0 | ⟨k, hk, hck⟩
  · rw [if_pos h0]
    exact ⟨0, by decide, by decide, by omega, by decide⟩
  · have hpos : 0 < 2 ^ k := Nat.two_pow_pos k
    rw [if_neg (by omega)]
    have hk12 : k < 12 := by
      rcases Nat.lt_or_ge k 12 with hlt | hge
      · exact hlt
      · rw [hck, show k = 12 by omega] at hc
        exact absurd hc (by decide)
    have hle : 2 ^ k ≤ 2 ^ 11 := Nat.pow_le_pow_right (by decide) (by omega)
    refine ⟨k + 1, hk12, ?_, by omega, ?_⟩
    · rw [hck, Nat.pow_succ]
      omega
    · unfold maxMessageBytes
      omega

/-! ## Well-formed readers -/

namespace Reader

/-- The consumed bytes are valid, the valid bytes fit, and the capacity was doubled from 4096. -/
structure Wf (r : Reader) : Prop where
  posLe : r.pos ≤ r.buf.length
  lenLe : r.buf.length ≤ r.cap
  capShape : r.cap = 0 ∨ ∃ k, k ≤ 12 ∧ r.cap = 4096 * 2 ^ k
  atEof : r.eof = true → r.src.rest = []

theorem wf_init (src : Source UInt8) (behind : Nat → Nat → Bytes) :
    (init src behind).Wf :=
  ⟨Nat.le_refl _, Nat.le_refl _, Or.inl rfl, fun h => by cases h⟩

theorem Wf.advance {r : Reader} (h : r.Wf) {n : Nat} (hn : n ≤ r.window.length) :
    (r.advance n).Wf := by
  refine ⟨?_, h.lenLe, h.capShape, h.atEof⟩
  have hpos := h.posLe
  rw [window, List.length_drop] at hn
  show r.pos + n ≤ r.buf.length
  omega

theorem Wf.compact {r : Reader} (h : r.Wf) : r.compact.Wf := by
  refine ⟨Nat.zero_le _, ?_, h.capShape, h.atEof⟩
  show (r.buf.drop r.pos).length ≤ r.cap
  have hlen := h.lenLe
  rw [List.length_drop]
  omega

/-- The doubled capacity is allowed unless the buffer has 16 MiB. -/
theorem ncap_shape {r : Reader} (h : r.Wf) (hcap : r.cap < maxMessageBytes) :
    ∃ k, k ≤ 12 ∧ r.ncap = 4096 * 2 ^ k ∧ r.cap < r.ncap ∧ r.ncap ≤ maxMessageBytes :=
  doubled_shape h.capShape hcap

/-- A full buffer gets room; only at 16 MiB it does not. -/
theorem grow_spec {r : Reader} (h : r.Wf) :
    (r.grow = none ∧ maxMessageBytes ≤ r.buf.length) ∨
      ∃ cap, r.grow = some { r with cap := cap } ∧ r.cap ≤ cap ∧ r.buf.length < cap ∧
        ∃ k, k ≤ 12 ∧ cap = 4096 * 2 ^ k := by
  unfold grow
  by_cases hfull : r.buf.length = r.cap
  · rw [if_pos hfull]
    rcases Nat.lt_or_ge r.cap maxMessageBytes with hlt | hge
    · obtain ⟨k, hk, hn, hlt', hle⟩ := ncap_shape h hlt
      rw [if_neg (by omega)]
      exact Or.inr ⟨r.ncap, rfl, by omega, by omega, k, hk, hn⟩
    · rw [if_pos]
      · exact Or.inl ⟨rfl, by omega⟩
      · unfold ncap maxMessageBytes at *
        rw [if_neg (by omega)]
        omega
  · rw [if_neg hfull]
    have hlen := h.lenLe
    refine Or.inr ⟨r.cap, rfl, Nat.le_refl _, by omega, ?_⟩
    rcases h.capShape with h0 | hk
    · omega
    · exact hk

theorem pull_eq (r : Reader) (he : r.eof = false) :
    r.pull = (!(r.src.read (r.cap - r.buf.length)).1.isEmpty,
      { r with
        buf := r.buf ++ (r.src.read (r.cap - r.buf.length)).1
        eof := (r.src.read (r.cap - r.buf.length)).1.isEmpty
        src := (r.src.read (r.cap - r.buf.length)).2 }) := by
  unfold pull
  dsimp only
  split
  · next hnil =>
      rw [hnil, List.append_nil]
      rfl
  · next hne =>
      have hemp : (r.src.read (r.cap - r.buf.length)).1.isEmpty = false := by
        rw [Bool.eq_false_iff, Ne, List.isEmpty_iff]
        exact hne
      rw [hemp, he]
      rfl

/-- The three outcomes of `fill`. -/
theorem fill_cases {r : Reader} (h : r.Wf) :
    (r.eof = true ∧ r.fill = (false, r)) ∨
      (maxMessageBytes ≤ r.window.length ∧ r.fill = (false, r.compact)) ∨
      ∃ cap, r.window.length < cap ∧ r.cap ≤ cap ∧ (∃ k, k ≤ 12 ∧ cap = 4096 * 2 ^ k) ∧
        r.fill = (!(r.src.read (cap - r.window.length)).1.isEmpty,
          { r with
            buf := r.window ++ (r.src.read (cap - r.window.length)).1
            pos := 0
            cap := cap
            eof := (r.src.read (cap - r.window.length)).1.isEmpty
            src := (r.src.read (cap - r.window.length)).2 }) := by
  unfold fill
  by_cases he : r.eof = true
  · exact Or.inl ⟨he, by rw [if_pos he]⟩
  · rw [if_neg he]
    refine Or.inr ?_
    rcases grow_spec h.compact with ⟨hg, hlen⟩ | ⟨cap, hg, hle, hlt, hk⟩
    · rw [hg]
      exact Or.inl ⟨hlen, rfl⟩
    · rw [hg]
      exact Or.inr ⟨cap, hlt, hle, hk, pull_eq _ (Bool.eq_false_iff.mpr he)⟩

theorem fill_wf {r : Reader} (h : r.Wf) : r.fill.2.Wf := by
  rcases fill_cases h with ⟨-, he⟩ | ⟨-, he⟩ | ⟨cap, hlt, -, hk, he⟩
  · rw [he]
    exact h
  · rw [he]
    exact h.compact
  · rw [he]
    refine ⟨Nat.zero_le _, ?_, Or.inr hk, fun hnil => ?_⟩
    · have hle := r.src.read_length_le (cap - r.window.length)
      show (r.window ++ _).length ≤ cap
      rw [List.length_append]
      omega
    · have hrest : r.src.rest = [] :=
        (r.src.read_eq_nil_iff (by omega)).mp (List.isEmpty_iff.mp hnil)
      exact Source.read_rest_nil _ hrest

theorem fill_framing (r : Reader) : r.fill.2.framing = r.framing := by
  unfold fill
  split
  · rfl
  · split
    · rfl
    · next r' hg =>
        obtain ⟨cap, rfl⟩ := grow_some hg
        unfold pull
        dsimp only
        split <;> rfl

theorem fill_unread (r : Reader) : r.fill.2.unread = r.unread := by
  cases h : r.fill.1 with
  | true => exact (fill_true h).1
  | false =>
      obtain ⟨hw, hr⟩ := fill_false h
      rw [unread, unread, hw, hr]

/-- With room in the buffer, a fill fails only at the end of the input. -/
theorem fill_eq_true_iff {r : Reader} (h : r.Wf) (hroom : r.window.length < maxMessageBytes) :
    r.fill.1 = true ↔ r.src.rest ≠ [] := by
  rcases fill_cases h with ⟨heof, he⟩ | ⟨hlen, -⟩ | ⟨cap, hlt, -, -, he⟩
  · rw [he]
    simp [h.atEof heof]
  · omega
  · rw [he, Bool.not_eq_true', Bool.eq_false_iff, Ne, Ne, List.isEmpty_iff,
      r.src.read_eq_nil_iff (by omega)]

/-- A fill that fails with room in the buffer has seen the end of the input. -/
theorem fill_eof {r : Reader} (h : r.Wf) (hroom : r.window.length < maxMessageBytes)
    (hf : r.fill.1 = false) : r.fill.2.eof = true ∧ r.src.rest = [] := by
  have hrest : r.src.rest = [] := by
    by_contra hne
    rw [(fill_eq_true_iff h hroom).mpr hne] at hf
    cases hf
  refine ⟨?_, hrest⟩
  rcases fill_cases h with ⟨heof, he⟩ | ⟨hlen, -⟩ | ⟨cap, hlt, -, -, he⟩
  · rw [he]
    exact heof
  · omega
  · rw [he]
    exact List.isEmpty_iff.mpr ((r.src.read_eq_nil_iff (by omega)).mpr hrest)

/-- The capacity changes only when the window fills the buffer. -/
theorem fill_cap (r : Reader) :
    r.fill.2.cap = r.cap ∨ (r.window.length = r.cap ∧ r.fill.2.cap = r.ncap) := by
  have hpull : ∀ r : Reader, r.pull.2.cap = r.cap := by
    intro r
    unfold pull
    dsimp only
    split <;> rfl
  unfold fill
  split
  · exact Or.inl rfl
  · split
    · exact Or.inl rfl
    · next r' hg =>
        rw [hpull]
        unfold grow at hg
        split at hg
        · next hfull =>
            split at hg
            · cases hg
            · cases hg
              exact Or.inr ⟨hfull, rfl⟩
        · cases hg
          exact Or.inl rfl

theorem headerLine_of_some {r : Reader} {k : Nat} (hk : memchrLf r.window = some k) :
    r.headerLine = (k + 1, r) := by
  unfold headerLine
  rw [hk]

theorem headerLine_of_none {r : Reader} (hk : memchrLf r.window = none) :
    r.headerLine = if r.window.length > 1024 then (0, r)
      else if _h : r.fill.1 = true then r.fill.2.headerLine else (0, r.fill.2) := by
  conv_lhs => unfold headerLine
  rw [hk]

/-- A well-formed reader with framing `f` and the bytes `u` to come. -/
structure At (r : Reader) (f : Framing) (u : Bytes) : Prop where
  wf : r.Wf
  framing : r.framing = f
  unread : r.unread = u

variable {r : Reader} {f : Framing} {u : Bytes}

theorem at_init (src : Source UInt8) (behind : Nat → Nat → Bytes) :
    (init src behind).At .unknown src.rest :=
  ⟨wf_init src behind, rfl, rfl⟩

theorem At.fill (h : r.At f u) : r.fill.2.At f u :=
  ⟨fill_wf h.wf, (fill_framing r).trans h.framing, (fill_unread r).trans h.unread⟩

theorem At.window_prefix (h : r.At f u) : r.window <+: u :=
  ⟨r.src.rest, h.unread⟩

theorem At.advance (h : r.At f u) {n : Nat} (hn : n ≤ r.window.length) :
    (r.advance n).At f (u.drop n) :=
  ⟨h.wf.advance hn, h.framing, by rw [unread_advance hn, h.unread]⟩

/-- At the end of the input the window is all there is. -/
theorem At.window_eq (h : r.At f u) (hrest : r.src.rest = []) : r.window = u := by
  have hu := h.unread
  unfold Reader.unread at hu
  rwa [hrest, List.append_nil] at hu

theorem At.window_nil (h : r.At f u) (hu : u = []) : r.window = [] :=
  List.prefix_nil.mp (hu ▸ h.window_prefix)

/-- When a fill fails with room in the buffer, the window is all there is. -/
theorem At.fill_end (h : r.At f u) (hroom : r.window.length < maxMessageBytes)
    (hf : r.fill.1 = false) : r.fill.2.window = r.window ∧ r.window = u :=
  ⟨(fill_false hf).1, h.window_eq (fill_eof h.wf hroom hf).2⟩

theorem Wf.with_framing {r : Reader} (h : r.Wf) (f : Framing) :
    ({ r with framing := f } : Reader).Wf :=
  ⟨h.posLe, h.lenLe, h.capShape, h.atEof⟩

/-- The body loop returns exactly the next `n` bytes, if there are as many. -/
theorem assemble_spec (h : r.At f u) {n : Nat} (hn : n ≤ maxMessageBytes) :
    (n ≤ u.length → ∃ r', r.assemble n = (some (u.take n), r') ∧ r'.At f (u.drop n)) ∧
      (u.length < n → (r.assemble n).1 = none) := by
  fun_induction assemble r n with
  | case1 r hlt hf ih => exact ih h.fill
  | case2 r hlt hf =>
      obtain ⟨-, hu⟩ := h.fill_end (by omega) (Bool.eq_false_iff.mpr hf)
      have hw := congrArg List.length hu
      exact ⟨fun hle => by omega, fun _ => rfl⟩
  | case3 r hge =>
      have hpre := h.window_prefix
      have hle := hpre.length_le
      refine ⟨fun _ => ⟨r.advance n, ?_, h.advance (by omega)⟩, fun hlt => by omega⟩
      rw [(List.prefix_iff_eq_take.mp (List.take_prefix n r.window |>.trans hpre)).trans
        (by rw [List.length_take, Nat.min_eq_left (by omega)])]

end Reader

end DisplayxrMcp.Stdio
