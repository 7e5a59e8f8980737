/-
  The log ring behind `tail_log` (src/mcp_log_ring.c), and what a streaming
  reader gets from it.

  `g_lock` makes every append and every read one step. `stream` adds a reader
  that starts at cursor 0 and passes each returned cursor back. `lines`,
  `returned` and `dropped` are the history: every line appended, every entry the
  reader got, and the total it was told is lost.
-/
import DisplayxrMcp.Lib.CStr
import DisplayxrMcp.Lib.Lts
import DisplayxrMcp.Lib.Ring
import Mathlib.Algebra.Group.Nat.Defs

namespace DisplayxrMcp.LogRing

open Lib Lts

abbrev ringSize : Nat := 512

/-- `MCP_LOG_MAX_TEXT`. -/
abbrev maxText : Nat := 512

/-- `uint64_t` arithmetic. -/
def wrap (n : Nat) : Nat := n % 2 ^ 64

/-- `enum mcp_log_level`. -/
inductive Level where
  | trace
  | debug
  | info
  | warn
  | error
  | raw
  deriving DecidableEq

/-- `struct mcp_log_entry`. -/
structure Entry where
  seq : Nat
  timestampNs : ℤ
  level : Level
  text : CStr
  deriving DecidableEq

/-- The static state of the file. -/
structure Ring where
  ring : Fin ringSize → Entry
  nextSeq : Nat
  started : Bool

/-- The zeroed static ring, started. -/
def Ring.fresh : Ring := ⟨fun _ => ⟨0, 0, .trace, []⟩, 1, true⟩

theorem ringSize_pos : 0 < ringSize := Nat.zero_lt_succ 511

/-- The slot `seq & (RING_SIZE - 1)`. -/
def slotOf (seq : Nat) : Fin ringSize := Ring.slot ringSize seq ringSize_pos

/-- The copy into `e->text`. -/
def copyText (text : CStr) : CStr :=
  text.take (if text.length < maxText then text.length else maxText - 1)

/-- `mcp_log_ring_append_text`; `now` is the clock. -/
def append (r : Ring) (level : Level) (text : CStr) (now : ℤ) : Ring :=
  if r.started then
    { r with
      nextSeq := wrap (r.nextSeq + 1)
      ring := Function.update r.ring (slotOf r.nextSeq) ⟨r.nextSeq, now, level, copyText text⟩ }
  else r

/-- The copy loop of `mcp_log_ring_read` with `room` entries left: the entries, and `start`. -/
def copyOut (r : Ring) : Nat → Nat → List Entry × Nat
  | 0, start => ([], start)
  | room + 1, start =>
      if start < r.nextSeq then
        let rest := copyOut r room (wrap (start + 1))
        (r.ring (slotOf start) :: rest.1, rest.2)
      else ([], start)

/-- The three out parameters. -/
structure ReadResult where
  entries : List Entry
  nextCursor : Nat
  dropped : Nat

/-- `oldest_in_ring`. -/
def oldestInRing (r : Ring) : Nat :=
  if r.nextSeq > ringSize then r.nextSeq - ringSize else 1

/-- `mcp_log_ring_read`. -/
def read (r : Ring) (since maxEntries : Nat) : ReadResult :=
  let start := wrap (since + 1)
  let dropped := if start < oldestInRing r then oldestInRing r - start else 0
  let start := if start < oldestInRing r then oldestInRing r else start
  let out := copyOut r maxEntries start
  ⟨out.1, if out.2 > 0 then out.2 - 1 else 0, dropped⟩

/-! ## A streaming reader -/

/-- What one append was given. -/
structure Line where
  level : Level
  text : CStr
  now : ℤ
  deriving DecidableEq

structure State where
  ring : Ring
  lines : List Line
  cursor : Nat
  returned : List Entry
  dropped : Nat

inductive Act where
  | append (line : Line)
  | read (maxEntries : Nat)
  deriving DecidableEq

/-- One call. -/
def State.next (s : State) : Act → State
  | .append line =>
      { s with ring := append s.ring line.level line.text line.now, lines := s.lines ++ [line] }
  | .read maxEntries =>
      let out := read s.ring s.cursor maxEntries
      { s with
        cursor := out.nextCursor
        returned := s.returned ++ out.entries
        dropped := s.dropped + out.dropped }

/-- The ring just started, and the reader at cursor 0. -/
def start : State := ⟨.fresh, [], 0, [], 0⟩

def stream : Lts.System State Act where
  init s := s = start
  step s a s' := s' = s.next a

/-! ## Reading -/

/-- The entry of the line appended under `seq`. -/
def entryOf (lines : List Line) (seq : Nat) : Entry :=
  match lines[seq - 1]? with
  | some l => ⟨seq, l.now, l.level, copyText l.text⟩
  | none => ⟨seq, 0, .trace, []⟩

theorem entryOf_seq (lines : List Line) (seq : Nat) : (entryOf lines seq).seq = seq := by
  unfold entryOf
  split <;> rfl

theorem entryOf_eq {lines : List Line} {seq : Nat} {l : Line} (h : lines[seq - 1]? = some l) :
    entryOf lines seq = ⟨seq, l.now, l.level, copyText l.text⟩ := by
  unfold entryOf
  rw [h]

theorem entryOf_append {lines : List Line} {line : Line} {seq : Nat} (h : 1 ≤ seq)
    (hle : seq ≤ lines.length) : entryOf (lines ++ [line]) seq = entryOf lines seq := by
  unfold entryOf
  rw [List.getElem?_append_left (by omega)]

theorem entryOf_last (lines : List Line) (line : Line) :
    entryOf (lines ++ [line]) (lines.length + 1) =
      ⟨lines.length + 1, line.now, line.level, copyText line.text⟩ :=
  entryOf_eq (by simp)

/-- The ring after `lines` have been appended. -/
structure Holds (r : Ring) (lines : List Line) : Prop where
  started : r.started = true
  next : r.nextSeq = lines.length + 1
  window : Ring.Window r.ring ringSize_pos (entryOf lines) 1 r.nextSeq

theorem holds_fresh : Holds .fresh [] := ⟨rfl, rfl, Ring.Window.empty _ _ _ _⟩

theorem Holds.append {r : Ring} {lines : List Line} (h : Holds r lines) (line : Line)
    (hlt : lines.length + 1 < 2 ^ 64 - 1) :
    Holds (append r line.level line.text line.now) (lines ++ [line]) := by
  have hnext : wrap (r.nextSeq + 1) = r.nextSeq + 1 := by
    rw [h.next]
    exact Nat.mod_eq_of_lt (by omega)
  have hold : Ring.Window r.ring ringSize_pos (entryOf (lines ++ [line])) 1 r.nextSeq := by
    refine h.window.congr fun k hk hkn => ?_
    rw [h.next] at hkn
    exact (entryOf_append hk (by omega)).symm
  have hentry : (⟨r.nextSeq, line.now, line.level, copyText line.text⟩ : Entry) =
      entryOf (lines ++ [line]) r.nextSeq := by
    rw [h.next, entryOf_last]
  unfold LogRing.append
  rw [if_pos h.started]
  refine ⟨h.started, ?_, ?_⟩
  · rw [hnext, h.next, List.length_append, List.length_singleton]
  · rw [hnext]
    exact hold.push _ hentry

/-- The copy loop returns the consecutive entries from `start` on, up to `room` of them. -/
theorem copyOut_eq {r : Ring} {lines : List Line} (h : Holds r lines)
    (hlt : lines.length < 2 ^ 64 - 1) :
    ∀ (room start : Nat), oldestInRing r ≤ start →
      copyOut r room start =
        ((List.range' start (min room (r.nextSeq - start))).map (entryOf lines),
          start + min room (r.nextSeq - start)) := by
  intro room
  induction room with
  | zero =>
      intro start _
      rw [Nat.zero_min]
      rfl
  | succ room ih =>
      intro start hold
      by_cases hs : start < r.nextSeq
      · have hwrap : wrap (start + 1) = start + 1 := by
          have hn := h.next
          exact Nat.mod_eq_of_lt (by omega)
        have hslot : r.ring (slotOf start) = entryOf lines start := by
          unfold oldestInRing at hold
          refine h.window start ?_ hs ?_
          · split at hold <;> omega
          · split at hold <;> omega
        have hn : min (room + 1) (r.nextSeq - start) = min room (r.nextSeq - (start + 1)) + 1 := by
          omega
        rw [copyOut, if_pos hs, hwrap, ih (start + 1) (by omega), hslot, hn, List.range'_succ,
          List.map_cons]
        simp only [Prod.mk.injEq, true_and]
        omega
      · have hn : min (room + 1) (r.nextSeq - start) = 0 := by omega
        rw [copyOut, if_neg hs, hn]
        rfl

/-- A read skips to the oldest entry left behind the cursor, counts what it skipped, and returns
    the entries from there on, up to `maxEntries` of them. -/
theorem read_spec {r : Ring} {lines : List Line} (h : Holds r lines)
    (hlt : lines.length < 2 ^ 64 - 1) {since : Nat} (hs : since < 2 ^ 64 - 1) (maxEntries : Nat) :
    ∃ first n, first = max (since + 1) (lines.length + 1 - ringSize) ∧
      n = min maxEntries (lines.length + 1 - first) ∧
      read r since maxEntries =
        ⟨(List.range' first n).map (entryOf lines), first + n - 1, first - (since + 1)⟩ := by
  have hnext := h.next
  have hwrap : wrap (since + 1) = since + 1 := Nat.mod_eq_of_lt (by omega)
  have hold : max (since + 1) (lines.length + 1 - ringSize) = max (since + 1) (oldestInRing r) := by
    unfold oldestInRing
    split <;> omega
  refine ⟨_, _, rfl, rfl, ?_⟩
  rw [hold, ← hnext]
  unfold read
  by_cases hskip : since + 1 < oldestInRing r
  · rw [Nat.max_eq_right hskip.le]
    simp only [hwrap, if_pos hskip, copyOut_eq h hlt maxEntries (oldestInRing r) (Nat.le_refl _)]
    rw [if_pos (by omega)]
  · rw [Nat.max_eq_left (by omega)]
    simp only [hwrap, if_neg hskip, copyOut_eq h hlt maxEntries (since + 1) (by omega)]
    rw [if_pos (by omega), Nat.sub_self]

/-- A read from a cursor at or before the newest line. -/
theorem read_eq {r : Ring} {lines : List Line} (h : Holds r lines)
    (hlt : lines.length < 2 ^ 64 - 1) {since : Nat} (hs : since ≤ lines.length)
    (maxEntries : Nat) :
    ∃ lost n, read r since maxEntries =
        ⟨(List.range' (since + lost + 1) n).map (entryOf lines), since + lost + n, lost⟩ ∧
      since + lost + n ≤ lines.length ∧ (0 < lost → since + lost + ringSize ≤ lines.length) := by
  obtain ⟨first, n, hfirst, hn, he⟩ := read_spec h hlt (show since < 2 ^ 64 - 1 by omega) maxEntries
  have hstart : since + (first - (since + 1)) + 1 = first := by omega
  refine ⟨first - (since + 1), n, ?_, by omega, by omega⟩
  rw [hstart, he]
  congr 1
  omega

/-! ## Conservation -/

/-- What the reader has been told accounts for every entry up to its cursor. -/
structure Accounts (s : State) : Prop where
  holds : Holds s.ring s.lines
  cursorLe : s.cursor ≤ s.lines.length
  total : s.returned.length + s.dropped = s.cursor
  sorted : (s.returned.map Entry.seq).Pairwise (· < ·)
  genuine : ∀ e ∈ s.returned, 1 ≤ e.seq ∧ e.seq ≤ s.cursor ∧ e = entryOf s.lines e.seq
  covered : ∀ n, 1 ≤ n → n ≤ s.cursor →
    n ∈ s.returned.map Entry.seq ∨ n + ringSize ≤ s.lines.length

theorem accounts_start : Accounts start := by
  refine ⟨holds_fresh, Nat.le_refl 0, rfl, List.Pairwise.nil, ?_, ?_⟩
  · intro e he
    cases he
  · intro n h1 h0
    have : n ≤ 0 := h0
    omega

theorem Accounts.append {s : State} (h : Accounts s) (line : Line)
    (hlt : s.lines.length + 1 < 2 ^ 64 - 1) : Accounts (s.next (.append line)) := by
  have hlen : (s.lines ++ [line]).length = s.lines.length + 1 := by simp
  refine ⟨h.holds.append line hlt, ?_, h.total, h.sorted, ?_, ?_⟩
  · change s.cursor ≤ (s.lines ++ [line]).length
    have := h.cursorLe
    omega
  · intro e he
    obtain ⟨h1, hle, heq⟩ := h.genuine e he
    refine ⟨h1, hle, ?_⟩
    rw [show (s.next (.append line)).lines = s.lines ++ [line] from rfl,
      entryOf_append h1 (Nat.le_trans hle h.cursorLe)]
    exact heq
  · intro n h1 hle
    rcases h.covered n h1 hle with hret | hover
    · exact Or.inl hret
    · right
      change n + ringSize ≤ (s.lines ++ [line]).length
      omega

theorem Accounts.read {s : State} (h : Accounts s) (maxEntries : Nat)
    (hlt : s.lines.length < 2 ^ 64 - 1) : Accounts (s.next (.read maxEntries)) := by
  obtain ⟨lost, n, he, hle, hlost⟩ := read_eq h.holds hlt h.cursorLe maxEntries
  have hseqs : ((List.range' (s.cursor + lost + 1) n).map (entryOf s.lines)).map Entry.seq =
      List.range' (s.cursor + lost + 1) n := by
    rw [List.map_map]
    exact List.map_id'' (entryOf_seq s.lines) _
  have hnew : s.next (.read maxEntries) = { s with
      cursor := s.cursor + lost + n
      returned := s.returned ++ (List.range' (s.cursor + lost + 1) n).map (entryOf s.lines)
      dropped := s.dropped + lost } := by
    simp only [State.next, he]
  rw [hnew]
  refine ⟨h.holds, hle, ?_, ?_, ?_, ?_⟩
  · have := h.total
    simp only [List.length_append, List.length_map, List.length_range']
    omega
  · simp only [List.map_append, hseqs]
    refine List.pairwise_append.mpr ⟨h.sorted, List.pairwise_lt_range' .., ?_⟩
    intro a ha b hb
    obtain ⟨e, hmem, rfl⟩ := List.mem_map.mp ha
    have hold := (h.genuine e hmem).2.1
    have hb' := (List.mem_range'_1.mp hb).1
    omega
  · intro e hmem
    rcases List.mem_append.mp hmem with hmem | hmem
    · obtain ⟨h1, hc, heq⟩ := h.genuine e hmem
      exact ⟨h1, by change e.seq ≤ s.cursor + lost + n; omega, heq⟩
    · obtain ⟨k, hk, rfl⟩ := List.mem_map.mp hmem
      have hk' := List.mem_range'_1.mp hk
      rw [entryOf_seq]
      exact ⟨by omega, by change k ≤ s.cursor + lost + n; omega, rfl⟩
  · intro k h1 hk
    have hk' : k ≤ s.cursor + lost + n := hk
    simp only [List.map_append, List.mem_append, hseqs, List.mem_range'_1]
    by_cases hc : k ≤ s.cursor
    · rcases h.covered k h1 hc with hret | hover
      · exact Or.inl (Or.inl hret)
      · exact Or.inr hover
    · by_cases hl : k ≤ s.cursor + lost
      · exact Or.inr (Nat.le_trans (by omega) (hlost (by omega)))
      · exact Or.inl (Or.inr ⟨by omega, by omega⟩)

theorem accounts_reach {s : State} (h : Reach stream s) (hlt : s.lines.length < 2 ^ 64 - 1) :
    Accounts s := by
  refine (h.invariant (I := fun s => s.lines.length < 2 ^ 64 - 1 → Accounts s) ?_ ?_) hlt
  · rintro s rfl _
    exact accounts_start
  · rintro s a s' - hi rfl hlt'
    cases a with
    | append line =>
        have hlen : (s.next (.append line)).lines.length = s.lines.length + 1 := by
          simp [State.next]
        rw [hlen] at hlt'
        exact (hi (by omega)).append line hlt'
    | read maxEntries => exact (hi hlt').read maxEntries hlt'

/-- Streaming loses and repeats nothing silently: the entries returned have increasing seqs and
    are the lines appended under them, returned and dropped add up to the cursor, and every
    entry up to the cursor that was not returned had been overwritten. -/
theorem log_streaming {s : State} (h : Reach stream s) (hlt : s.lines.length < 2 ^ 64 - 1) :
    (s.returned.map Entry.seq).Pairwise (· < ·) ∧
      (∀ e ∈ s.returned, 1 ≤ e.seq ∧ ∃ l, s.lines[e.seq - 1]? = some l ∧ e.level = l.level ∧
        e.text = l.text.take 511) ∧
      s.returned.length + s.dropped = s.cursor ∧
      ∀ n, 1 ≤ n → n ≤ s.cursor →
        n ∈ s.returned.map Entry.seq ∨ n + ringSize ≤ s.lines.length := by
  have ha := accounts_reach h hlt
  refine ⟨ha.sorted, fun e he => ?_, ha.total, ha.covered⟩
  obtain ⟨h1, hc, heq⟩ := ha.genuine e he
  obtain ⟨l, hl⟩ : ∃ l, s.lines[e.seq - 1]? = some l := by
    have hcur := ha.cursorLe
    exact ⟨_, List.getElem?_eq_getElem (by omega)⟩
  have hent : e = ⟨e.seq, l.now, l.level, copyText l.text⟩ := heq.trans (entryOf_eq hl)
  have hcopy : copyText l.text = l.text.take 511 := by
    unfold copyText maxText
    split
    · rw [List.take_length, List.take_of_length_le (by omega)]
    · rfl
  refine ⟨h1, l, hl, ?_, ?_⟩
  · rw [hent]
  · rw [hent]
    exact hcopy

/-- Two lines, read one at a time. -/
theorem log_streaming_twoLines : ∃ s : State, s.cursor = 2 ∧ s.dropped = 0 ∧
    (s.returned.map Entry.seq).Pairwise (· < ·) ∧
    s.returned.map Entry.text = [ascii "a", ascii "b"] ∧ s.returned.length + s.dropped = s.cursor := by
  have hrun : ((follow (fun s a => some (State.next s a)) start
      [.append ⟨.info, ascii "a", 5⟩, .append ⟨.warn, ascii "b", 6⟩, .read 1, .read 1]).map
        fun s => decide (s.cursor = 2 ∧ s.dropped = 0 ∧ s.lines.length = 2 ∧
          s.returned.map Entry.text = [ascii "a", ascii "b"])) = some true := by
    decide +kernel
  obtain ⟨s, hs, hrun⟩ := Option.map_eq_some_iff.mp hrun
  obtain ⟨hc, hd, hl, ht⟩ := of_decide_eq_true hrun
  have hreach : Reach stream s :=
    ⟨start, _, rfl, run_of_follow (fun _ _ _ h => (Option.some.inj h).symm) _ hs, fun _ _ => trivial⟩
  have hall := log_streaming hreach (by omega)
  exact ⟨s, hc, hd, hall.1, ht, hall.2.2.1⟩

end DisplayxrMcp.LogRing
