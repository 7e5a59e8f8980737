/-
  A read of the log ring from any cursor (`mcp_log_ring_read`, src/mcp_log_ring.c).

  `Exact` says what the reader is owed, from the history of appends alone. Every cursor
  gets it but the last one, `UINT64_MAX`: `since + 1` wraps to 0, so the read starts from
  the oldest entry as a read from cursor 0 would, and reports one more entry as lost.
-/
import DisplayxrMcp.Log.Ring
import Mathlib.Data.List.Induction

namespace DisplayxrMcp.LogRing

open Lib

/-- A fresh ring after these appends. -/
def appendAll (lines : List Line) : Ring :=
  lines.foldl (fun r l => append r l.level l.text l.now) .fresh

/-- The seqs behind the cursor that fewer than `ringSize` appends have followed. -/
def available (lines : List Line) (since : Nat) : List Nat :=
  (List.range' 1 lines.length).filter fun n => decide (since < n ∧ lines.length < n + ringSize)

/-- The seqs behind the cursor that have been overwritten. -/
def overwritten (lines : List Line) (since : Nat) : List Nat :=
  (List.range' 1 lines.length).filter fun n => decide (since < n ∧ n + ringSize ≤ lines.length)

/-- What a read from `since` owes its caller. -/
structure Exact (lines : List Line) (since maxEntries : Nat) (out : ReadResult) : Prop where
  behind : ∀ e ∈ out.entries, since < e.seq
  oldest : out.entries = ((available lines since).take maxEntries).map (entryOf lines)
  consecutive : ∃ first, out.entries.map Entry.seq = List.range' first out.entries.length
  dropped : out.dropped = (overwritten lines since).length
  cursor : since ≤ out.nextCursor

theorem holds_appendAll (lines : List Line) (hlt : lines.length < 2 ^ 64 - 1) :
    Holds (appendAll lines) lines := by
  induction lines using List.reverseRecOn with
  | nil => exact holds_fresh
  | append_singleton lines line ih =>
      rw [List.length_append, List.length_singleton] at hlt
      have hold := ih (by omega)
      unfold appendAll
      rw [List.foldl_append]
      exact hold.append line hlt

/-- The numbers above `a` of the first `len` ones. -/
theorem filter_range'_gt (a len : Nat) :
    (List.range' 1 len).filter (fun n => decide (a < n)) = List.range' (a + 1) (len - a) := by
  induction len with
  | zero =>
      rw [Nat.zero_sub]
      rfl
  | succ len ih =>
      rw [List.range'_concat, List.filter_append, ih, List.filter_cons, List.filter_nil]
      by_cases ha : a ≤ len
      · have hstep : len + 1 - a = len - a + 1 := by omega
        have hlast : 1 + 1 * len = a + 1 + 1 * (len - a) := by omega
        rw [if_pos (decide_eq_true (by omega)), hstep, List.range'_concat, hlast]
      · have hnone : len - a = 0 ∧ len + 1 - a = 0 := by omega
        rw [if_neg (by rw [decide_eq_true_eq]; omega), hnone.1, hnone.2]
        rfl

theorem available_eq (lines : List Line) (since : Nat) :
    available lines since =
      List.range' (max (since + 1) (lines.length + 1 - ringSize))
        (lines.length + 1 - max (since + 1) (lines.length + 1 - ringSize)) := by
  have hmax : max (since + 1) (lines.length + 1 - ringSize) =
      max since (lines.length - ringSize) + 1 := by omega
  rw [hmax, Nat.add_sub_add_right, ← filter_range'_gt]
  refine List.filter_congr fun n hn => ?_
  have hn' := List.mem_range'_1.mp hn
  exact decide_eq_decide.mpr (by omega)

theorem overwritten_length (lines : List Line) (since : Nat) :
    (overwritten lines since).length =
      max (since + 1) (lines.length + 1 - ringSize) - (since + 1) := by
  have hsplit : List.range' 1 lines.length =
      List.range' 1 (lines.length - ringSize) ++
        List.range' (1 + (lines.length - ringSize)) (min ringSize lines.length) := by
    rw [List.range'_append_1]
    congr 1
    omega
  have hkept : (List.range' (1 + (lines.length - ringSize)) (min ringSize lines.length)).filter
      (fun n => decide (since < n ∧ n + ringSize ≤ lines.length)) = [] := by
    refine List.filter_eq_nil_iff.mpr fun n hn => ?_
    have hn' := List.mem_range'_1.mp hn
    rw [decide_eq_true_eq]
    omega
  have hgone : (List.range' 1 (lines.length - ringSize)).filter
      (fun n => decide (since < n ∧ n + ringSize ≤ lines.length)) =
      (List.range' 1 (lines.length - ringSize)).filter fun n => decide (since < n) := by
    refine List.filter_congr fun n hn => ?_
    have hn' := List.mem_range'_1.mp hn
    exact decide_eq_decide.mpr (by omega)
  unfold overwritten
  rw [hsplit, List.filter_append, hkept, List.append_nil, hgone, filter_range'_gt,
    List.length_range']
  omega

theorem Holds.exact {r : Ring} {lines : List Line} (h : Holds r lines)
    (hlt : lines.length < 2 ^ 64 - 1) {since : Nat} (hs : since < 2 ^ 64 - 1)
    (maxEntries : Nat) : Exact lines since maxEntries (read r since maxEntries) := by
  obtain ⟨first, n, hfirst, hn, he⟩ := read_spec h hlt hs maxEntries
  have hseqs : ((List.range' first n).map (entryOf lines)).map Entry.seq = List.range' first n := by
    rw [List.map_map]
    exact List.map_id'' (entryOf_seq lines) _
  rw [he]
  refine ⟨?_, ?_, ⟨first, ?_⟩, ?_, ?_⟩
  · intro e hmem
    obtain ⟨k, hk, rfl⟩ := List.mem_map.mp hmem
    have hk' := List.mem_range'_1.mp hk
    rw [entryOf_seq]
    omega
  · rw [available_eq, ← hfirst]
    rcases Nat.le_total (lines.length + 1 - first) maxEntries with hle | hle
    · rw [List.take_range'_of_length_le hle, hn, Nat.min_eq_right hle]
    · rw [List.take_range'_of_length_ge hle, hn, Nat.min_eq_left hle]
  · simp only [hseqs, List.length_map, List.length_range']
  · rw [overwritten_length, ← hfirst]
  · change since ≤ first + n - 1
    omega

/-- The cursor at the top of the range: the entries that are owed are none, and some are
    reported as lost. -/
theorem not_exact_top {lines : List Line} (hlt : lines.length < 2 ^ 64 - 1) (maxEntries : Nat)
    (r : Ring) : ¬ Exact lines (2 ^ 64 - 1) maxEntries (read r (2 ^ 64 - 1) maxEntries) := by
  intro h
  have hnone : (overwritten lines (2 ^ 64 - 1)).length = 0 := by
    rw [overwritten_length]
    omega
  have hold : 0 < oldestInRing r := by
    unfold oldestInRing
    split <;> omega
  have hdropped : (read r (2 ^ 64 - 1) maxEntries).dropped = oldestInRing r := by
    have hwrap : wrap (2 ^ 64 - 1 + 1) = 0 := by decide
    unfold read
    simp only [hwrap, if_pos hold, Nat.sub_zero]
  have := h.dropped
  omega

/-- A read is exact from every 64-bit cursor but `UINT64_MAX`. -/
theorem read_exact_iff {lines : List Line} (hlt : lines.length < 2 ^ 64 - 1) {since : Nat}
    (hs : since < 2 ^ 64) (maxEntries : Nat) :
    Exact lines since maxEntries (read (appendAll lines) since maxEntries) ↔
      since ≠ 2 ^ 64 - 1 := by
  constructor
  · rintro h rfl
    exact not_exact_top hlt maxEntries _ h
  · intro hne
    exact (holds_appendAll lines hlt).exact hlt (by omega) maxEntries

/-- A ring with one line, read from behind it. -/
theorem read_exact_iff_ahead :
    Exact [⟨.info, ascii "a", 5⟩] 7 4 (read (appendAll [⟨.info, ascii "a", 5⟩]) 7 4) ↔
      7 ≠ 2 ^ 64 - 1 :=
  read_exact_iff (by decide) (by decide) 4

/-- One line, read from `UINT64_MAX`: the line comes back although its seq is below the cursor,
    and the cursor returned is behind the one passed in. -/
theorem read_top_restarts :
    ∃ out, read (appendAll [⟨.info, ascii "a", 5⟩]) (2 ^ 64 - 1) 4 = out ∧
      out.entries.map Entry.seq = [1] ∧ out.nextCursor = 1 ∧ out.dropped = 1 ∧
      ¬ Exact [⟨.info, ascii "a", 5⟩] (2 ^ 64 - 1) 4 out :=
  ⟨_, rfl, by decide +kernel, by decide +kernel, by decide +kernel, fun h =>
    absurd h.cursor (by decide +kernel)⟩

end DisplayxrMcp.LogRing
