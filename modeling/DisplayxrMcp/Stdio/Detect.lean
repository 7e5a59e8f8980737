/-
  Detection of the framing.

  `stripLeading` removes all leading white space and BOMs of a stream. `detect`
  finds the framing of what remains, and leaves exactly that to be consumed,
  however the stream is cut (`detect_spec`): while the bytes at hand may still be
  a BOM or the key it waits for more, and what they decide once they are enough
  holds for the whole stream (`judge_some`).
-/
import DisplayxrMcp.Stdio.Buffer

namespace DisplayxrMcp.Stdio

open Lib Reader

/-- A stream without its leading white space and BOMs. -/
def stripLeading : Bytes → Bytes
  | 0xEF :: 0xBB :: 0xBF :: t => stripLeading t
  | c :: t => if isWs c then stripLeading t else c :: t
  | [] => []

/-- It starts with the key, in any case. -/
def startsWithKey (u : Bytes) : Bool := (u.take clKeyLen).map lower == clKey

/-- The framing of a stream that starts with neither white space nor a BOM. -/
def framingOf (u : Bytes) : Framing := if startsWithKey u then .contentLength else .ndjson

theorem stripLeading_ws {c : UInt8} (hc : isWs c = true) (t : Bytes) :
    stripLeading (c :: t) = stripLeading t := by
  rw [stripLeading, if_pos hc]
  rintro _ rfl
  exact absurd hc (by decide)

theorem stripLeading_append_ws {w : Bytes} (hw : ∀ c ∈ w, isWs c = true) (t : Bytes) :
    stripLeading (w ++ t) = stripLeading t := by
  induction w with
  | nil => rfl
  | cons c w ih =>
      rw [List.cons_append, stripLeading_ws (hw c List.mem_cons_self)]
      exact ih fun d hd => hw d (List.mem_cons_of_mem _ hd)

theorem stripLeading_bom (t : Bytes) : stripLeading (bom ++ t) = stripLeading t := rfl

/-- Nothing is removed from a stream that starts with another byte. -/
theorem stripLeading_self {u : Bytes} (hws : ∀ c ∈ u.head?, isWs c = false)
    (hbom : ¬ bom <+: u) : stripLeading u = u := by
  fun_cases stripLeading u with
  | case1 t => exact absurd ⟨t, rfl⟩ hbom
  | case2 c t _ hc => exact absurd hc (Bool.eq_false_iff.mp (hws c rfl))
  | case3 c t _ _ => rfl
  | case4 => rfl

/-! ## The first byte of a message -/

/-- The bytes that a JSON value begins with. -/
def valueStarts : Bytes := ascii "\x7b[\"-0123456789tfn"

theorem valueStarts_spec : ∀ c ∈ valueStarts, isWs c = false ∧ c ≠ 0xEF ∧ lower c ≠ 99 := by
  have hall : valueStarts.all (fun c => decide (isWs c = false ∧ c ≠ 0xEF ∧ lower c ≠ 99)) = true :=
    by decide
  exact fun c hc => of_decide_eq_true (List.all_eq_true.mp hall c hc)

/-- A stream that begins as a JSON value does is ndjson from its first byte on. -/
theorem strip_message {u : Bytes} {c : UInt8} (hc : c ∈ valueStarts) (hhead : u.head? = some c) :
    stripLeading u = u ∧ framingOf u = .ndjson ∧ u ≠ [] := by
  obtain ⟨hws, hbom, hlow⟩ := valueStarts_spec c hc
  cases u with
  | nil => cases hhead
  | cons d u =>
      cases hhead
      refine ⟨stripLeading_self (fun e he => ?_) ?_, ?_, List.cons_ne_nil _ _⟩
      · cases he
        exact hws
      · rintro ⟨w, hw⟩
        cases hw
        exact hbom rfl
      · rw [framingOf, startsWithKey, if_neg]
        intro hkey
        have hfirst := congrArg List.head? (eq_of_beq hkey)
        rw [List.take_succ_cons, List.map_cons] at hfirst
        exact hlow (Option.some.inj hfirst)

/-! ## The bytes at hand -/

theorem bom_prefix_append {w : Bytes} (t : Bytes) (hlen : 3 ≤ w.length) :
    bom <+: w ++ t ↔ bom <+: w := by
  have hb : bom.length ≤ w.length := hlen
  rw [List.prefix_iff_eq_take, List.prefix_iff_eq_take, List.take_append_of_le_length hb]

theorem atBom_iff (r : Reader) : r.atBom = true ↔ bom <+: r.window := by
  rw [Reader.atBom, beq_iff_eq, List.prefix_iff_eq_take]
  exact eq_comm

/-- What the bytes at hand decide holds for the stream they begin. -/
theorem judge_some {w t : Bytes} {f : Framing} (hj : judge w = some f)
    (hbom : ¬ bom <+: w) : w ≠ [] ∧ ¬ bom <+: w ++ t ∧ f = framingOf (w ++ t) := by
  unfold judge at hj
  dsimp only at hj
  split at hj
  · next hcond =>
      simp only [Bool.and_eq_true, decide_eq_true_eq, Bool.not_eq_true', Bool.and_eq_false_iff,
        decide_eq_false_iff_not, beq_eq_false_iff_ne] at hcond
      obtain ⟨hpos, hpart⟩ := hcond
      refine ⟨List.ne_nil_of_length_pos hpos, ?_, ?_⟩
      · rcases Nat.lt_or_ge w.length 3 with hlt | hge
        · intro hpre
          have hw : w = bom.take w.length :=
            List.prefix_iff_eq_take.mp (List.prefix_of_prefix_length_le (List.prefix_append w t)
              hpre (Nat.le_of_lt hlt))
          rcases hpart with (h | h) | h
          · exact h hpos
          · exact h hlt
          · exact h hw
        · rwa [bom_prefix_append t hge]
      · split at hj
        · next hmatch =>
            split at hj
            · next hlen =>
                have hle : clKeyLen ≤ w.length := by omega
                cases hj
                rw [hlen] at hmatch
                rw [framingOf, startsWithKey, List.take_append_of_le_length hle, hmatch]
                rfl
            · cases hj
        · next hne =>
            cases hj
            rw [framingOf, startsWithKey, if_neg]
            intro hkey
            refine hne ?_
            have hkey' := congrArg (List.take (min w.length clKeyLen)) (eq_of_beq hkey)
            rw [← List.map_take, List.take_take, Nat.min_eq_left (Nat.min_le_right _ _),
              List.take_append_of_le_length (Nat.min_le_left _ _)] at hkey'
            exact hkey'
  · cases hj

/-- Too few bytes to decide: a part of a BOM or of the key. -/
theorem judge_none {w : Bytes} (hj : judge w = none) :
    w.length < clKeyLen ∧ (w ≠ [] → framingOf w = .ndjson) := by
  have hshort : w.length < clKeyLen := by
    unfold judge at hj
    dsimp only at hj
    split at hj
    · split at hj
      · split at hj
        · cases hj
        · omega
      · cases hj
    · next hcond =>
        simp only [Bool.and_eq_true, decide_eq_true_eq, Bool.not_eq_true', Bool.and_eq_false_iff,
          decide_eq_false_iff_not, not_and] at hcond
        by_contra hlt
        have hge : 15 ≤ w.length := Nat.not_lt.mp hlt
        exact hcond (by omega) (Or.inl (Or.inr (by omega)))
  refine ⟨hshort, fun _ => ?_⟩
  rw [framingOf, startsWithKey, if_neg]
  intro hkey
  have hlen := congrArg List.length (eq_of_beq hkey)
  rw [List.length_map, List.length_take] at hlen
  have hkl : clKey.length = clKeyLen := by decide
  omega

/-! ## The loop -/

namespace Reader

variable {r : Reader} {f : Framing} {u : Bytes}

theorem At.skipWs (h : r.At f u) :
    ∃ u', r.skipWs.At f u' ∧ stripLeading u' = stripLeading u ∧
      ∀ c ∈ r.skipWs.window.head?, isWs c = false := by
  have hle := takeWhile_length_le r
  refine ⟨_, h.advance hle, ?_, ?_⟩
  · have hall : ∀ c ∈ r.window.takeWhile isWs, isWs c = true := fun c hc =>
      List.mem_takeWhile_imp hc
    have hpre : r.window.takeWhile isWs <+: u :=
      (List.takeWhile_prefix isWs).trans h.window_prefix
    obtain ⟨t, ht⟩ := hpre
    rw [← ht, List.drop_left, stripLeading_append_ws hall]
  · have hw : r.skipWs.window = r.window.dropWhile isWs := by
      have happ := List.takeWhile_append_dropWhile (p := isWs) (l := r.window)
      have hdrop := congrArg (List.drop (r.window.takeWhile isWs).length) happ
      rw [List.drop_left] at hdrop
      rw [Reader.skipWs, window_advance, hdrop]
    intro c hc
    have hnot := List.head?_dropWhile_not isWs r.window
    rw [hw] at hc
    rw [Option.mem_def.mp hc] at hnot
    exact hnot

/-- Bytes at hand that start with neither white space nor a BOM stay. -/
theorem At.stripLeading_eq (h : r.At f u) (hhead : ∀ c ∈ r.window.head?, isWs c = false)
    (hne : r.window ≠ []) (hbom : ¬ bom <+: u) : stripLeading u = u := by
  refine stripLeading_self ?_ hbom
  rw [← h.unread, Reader.unread, List.head?_append_of_ne_nil _ hne]
  exact hhead

/-- Detection leaves the stripped stream and its framing, for every cut of the stream. -/
theorem detect_spec (h : r.At .unknown u) :
    (stripLeading u = [] → r.detect.1 = false ∧ r.detect.2.At .unknown []) ∧
      (stripLeading u ≠ [] →
        r.detect.1 = true ∧ r.detect.2.At (framingOf (stripLeading u)) (stripLeading u)) := by
  fun_induction detect r generalizing u with
  | case1 r hb ih =>
      obtain ⟨u', h', hstrip, -⟩ := h.skipWs
      obtain ⟨t, ht⟩ := (atBom_iff _).mp hb
      have hlen := congrArg List.length ht
      have h3 : 3 ≤ r.skipWs.window.length := by
        rw [← hlen, List.length_append]
        exact Nat.le_add_right 3 _
      have hskip : stripLeading (u'.drop 3) = stripLeading u := by
        rw [← hstrip, ← h'.unread, unread, ← ht, List.append_assoc, stripLeading_bom]
        rfl
      rw [← hskip]
      exact ih (h'.advance h3)
  | case2 r hb f hj =>
      obtain ⟨u', h', hstrip, hhead⟩ := h.skipWs
      obtain ⟨hne, hbom, hf⟩ := judge_some (t := r.skipWs.src.rest) hj fun hpre =>
        hb ((atBom_iff _).mpr hpre)
      have hu : r.skipWs.window ++ r.skipWs.src.rest = u' := h'.unread
      rw [hu] at hbom hf
      rw [← hstrip, h'.stripLeading_eq hhead hne hbom]
      refine ⟨fun hnil => absurd (h'.window_nil hnil) hne, fun _ => ⟨rfl, ?_⟩⟩
      exact ⟨h'.wf.with_framing f, hf, h'.unread⟩
  | case3 r hb hj hf ih =>
      obtain ⟨u', h', hstrip, -⟩ := h.skipWs
      rw [← hstrip]
      exact ih h'.fill
  | case4 r hb hj hf hne =>
      obtain ⟨u', h', hstrip, hhead⟩ := h.skipWs
      obtain ⟨hshort, hnd⟩ := judge_none hj
      obtain ⟨hw, hu⟩ := h'.fill_end (Nat.lt_trans hshort (by decide)) (Bool.eq_false_iff.mpr hf)
      rw [hw] at hne
      have hbom : ¬ bom <+: u' := fun hpre => hb ((atBom_iff _).mpr (hu ▸ hpre))
      rw [← hstrip, h'.stripLeading_eq hhead hne hbom]
      refine ⟨fun hnil => absurd (h'.window_nil hnil) hne, fun _ => ⟨rfl, ?_⟩⟩
      exact ⟨h'.fill.wf.with_framing _, hu ▸ (hnd hne).symm, h'.fill.unread⟩
  | case5 r hb hj hf hnil =>
      obtain ⟨u', h', hstrip, -⟩ := h.skipWs
      obtain ⟨hshort, -⟩ := judge_none hj
      obtain ⟨hw, hu⟩ := h'.fill_end (Nat.lt_trans hshort (by decide)) (Bool.eq_false_iff.mpr hf)
      have hnil' : u' = [] := by
        rw [← hu, ← hw]
        exact Classical.not_not.mp hnil
      subst hnil'
      rw [← hstrip]
      exact ⟨fun _ => ⟨rfl, h'.fill⟩, fun hne => absurd rfl hne⟩

theorem fill_firstCap (hc : r.cap = 0 ∨ r.cap = 4096) (hshort : r.window.length < clKeyLen) :
    r.fill.2.cap = 0 ∨ r.fill.2.cap = 4096 := by
  rcases fill_cap r with he | ⟨hfull, he⟩
  · rwa [he]
  · rcases hc with h0 | h0
    · rw [he, ncap, if_pos h0]
      exact Or.inr rfl
    · unfold clKeyLen at hshort
      omega

theorem firstCap_window (h : r.Wf) (hc : r.cap = 0 ∨ r.cap = 4096) (hne : r.window ≠ []) :
    r.cap = 4096 := by
  have hpos := List.length_pos_of_ne_nil hne
  have hle := h.lenLe
  rw [window, List.length_drop] at hpos
  omega

/-- Detection never grows the buffer beyond its first size. -/
theorem detect_cap (h : r.Wf) (hc : r.cap = 0 ∨ r.cap = 4096) (hok : r.detect.1 = true) :
    r.detect.2.cap = 4096 := by
  fun_induction detect r with
  | case1 r hb ih =>
      obtain ⟨t, ht⟩ := (atBom_iff _).mp hb
      have h3 : 3 ≤ r.skipWs.window.length := by
        rw [← ht, List.length_append]
        exact Nat.le_add_right 3 _
      exact ih ((h.advance (takeWhile_length_le r)).advance h3) hc hok
  | case2 r hb f hj =>
      have hwf : r.skipWs.Wf := h.advance (takeWhile_length_le r)
      have hne := (judge_some (t := []) hj fun hpre => hb ((atBom_iff _).mpr hpre)).1
      exact firstCap_window (hwf.with_framing f) hc hne
  | case3 r hb hj hf ih =>
      have hwf : r.skipWs.Wf := h.advance (takeWhile_length_le r)
      exact ih (fill_wf hwf) (fill_firstCap hc (judge_none hj).1) hok
  | case4 r hb hj hf hne =>
      have hwf : r.skipWs.Wf := h.advance (takeWhile_length_le r)
      exact firstCap_window ((fill_wf hwf).with_framing .ndjson)
        (fill_firstCap hc (judge_none hj).1) hne
  | case5 r hb hj hf hnil => cases hok

/-! ## The first call and the later ones -/

/-- A call with the framing not yet known behaves as one behind the detection. -/
theorem next_unknown [Abi] (h : r.At .unknown u) (hne : stripLeading u ≠ []) :
    r.detect.2.At (framingOf (stripLeading u)) (stripLeading u) ∧ r.next = r.detect.2.next := by
  obtain ⟨hok, hd⟩ := (detect_spec h).2 hne
  have hknown : r.detect.2.framing ≠ .unknown := by
    rw [hd.framing, framingOf]
    split <;> decide
  refine ⟨hd, ?_⟩
  unfold next
  rw [if_pos h.framing, if_neg hknown]
  dsimp only
  rw [hok]

theorem next_unknown_nil [Abi] (h : r.At .unknown u) (hnil : stripLeading u = []) :
    r.next.1 = none ∧ r.next.2.At .unknown [] := by
  obtain ⟨hno, hd⟩ := (detect_spec h).1 hnil
  unfold next
  rw [if_pos h.framing]
  dsimp only
  rw [if_pos hno]
  exact ⟨rfl, hd⟩

/-- The messages depend on the next call only. -/
theorem messages_congr [Abi] {r r' : Reader} (h : r.next = r'.next) (n : Nat) :
    r.messages n = r'.messages n := by
  cases n with
  | zero => rfl
  | succ n => rw [messages, messages, h]

theorem headerLine_framing (r : Reader) : r.headerLine.2.framing = r.framing := by
  fun_induction headerLine r with
  | case1 => rfl
  | case2 => rfl
  | case3 r _ _ _ ih => rw [ih, fill_framing]
  | case4 r => exact fill_framing r

theorem assemble_framing (r : Reader) (n : Nat) : (r.assemble n).2.framing = r.framing := by
  fun_induction assemble r n with
  | case1 r _ _ ih => rw [ih, fill_framing]
  | case2 r => exact fill_framing r
  | case3 => rfl

theorem pastLine_framing (r : Reader) : r.pastLine.framing = r.framing := headerLine_framing r

theorem body_framing (r : Reader) (hs : Headers) : (r.body hs).2.framing = r.framing := by
  unfold body
  split
  · rfl
  · exact assemble_framing r _

theorem nextContentLength_framing [Abi] (r : Reader) (hs : Headers) :
    (r.nextContentLength hs).2.framing = r.framing := by
  fun_induction nextContentLength r hs with
  | case1 r => exact headerLine_framing r
  | case2 r => rw [body_framing, pastLine_framing]
  | case3 r _ _ _ _ ih => rw [ih, pastLine_framing]
  | case4 r _ _ _ ih => rw [ih, pastLine_framing]

theorem nextNdjson_framing (r : Reader) (scanned : Nat) :
    (r.nextNdjson scanned).2.framing = r.framing := by
  fun_induction nextNdjson r scanned with
  | case1 r _ _ _ _ ih => rw [ih]; rfl
  | case2 => rfl
  | case3 => rfl
  | case4 r _ _ _ ih => rw [ih, fill_framing]
  | case5 r => exact fill_framing r
  | case6 r => exact fill_framing r

/-- The framing is fixed once it is known. -/
theorem next_framing [Abi] (h : r.framing ≠ .unknown) : r.next.2.framing = r.framing := by
  unfold next
  rw [if_neg h]
  dsimp only
  rw [if_neg (by decide)]
  split
  · exact nextContentLength_framing r _
  · exact nextNdjson_framing r 0

theorem after_framing [Abi] (h : r.framing ≠ .unknown) (n : Nat) :
    (r.after n).framing = r.framing := by
  induction n generalizing r with
  | zero => rfl
  | succ n ih =>
      have hn := next_framing h
      exact (ih (hn ▸ h)).trans hn

/-! ## Calls from the start -/

/-- A stream of white space and BOMs: no message, and the framing stays unknown. -/
theorem calls_nil [Abi] (h : r.At .unknown u) (hnil : stripLeading u = []) (n : Nat) :
    r.messages n = [] ∧ (r.after n).framing = .unknown := by
  obtain ⟨hnone, hat⟩ := next_unknown_nil h hnil
  refine ⟨?_, ?_⟩
  · cases n with
    | zero => rfl
    | succ n => rw [messages, show r.next = (none, r.next.2) from Prod.ext hnone rfl]
  · induction n generalizing r u with
    | zero => exact h.framing
    | succ n ih =>
        obtain ⟨hnone', hat'⟩ := next_unknown_nil hat rfl
        exact ih hat rfl hnone' hat'

/-- From the first call on the framing is the one of the stripped stream. -/
theorem after_known [Abi] (h : r.At .unknown u) (hne : stripLeading u ≠ []) (n : Nat) :
    (r.after (n + 1)).framing = framingOf (stripLeading u) := by
  obtain ⟨hat, hnext⟩ := next_unknown h hne
  have hknown : r.detect.2.framing ≠ .unknown := by
    rw [hat.framing, framingOf]
    split <;> decide
  have hafter : r.after (n + 1) = r.detect.2.after (n + 1) := by
    rw [after, after, hnext]
  rw [hafter, after_framing hknown, hat.framing]

end Reader

end DisplayxrMcp.Stdio
