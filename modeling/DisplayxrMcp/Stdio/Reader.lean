/-
  The buffered reader on the agent's side (src/adapter/stdio_framing.c).

  `buf` is the `len` valid bytes of the buffer, so `len` is its length; `src` is
  the byte source behind `read`. `strtoul` gets a pointer into the buffer and no
  length, so it can see what lies in memory behind the valid bytes: `behind` says
  what that is, by the numbers of unread bytes and of consumed bytes, and is
  arbitrary. Memory allocation succeeds.
-/
import DisplayxrMcp.Lib.Decimal
import DisplayxrMcp.Lib.Source
import Mathlib.Data.List.DropRight

namespace DisplayxrMcp.Stdio

open Lib

abbrev Bytes : Type := List UInt8

/-- `enum dxr_stdio_framing`. -/
inductive Framing where
  | unknown
  | ndjson
  | contentLength
  deriving DecidableEq

/-- `DXR_STDIO_MAX_MESSAGE_BYTES`. -/
abbrev maxMessageBytes : Nat := 16 * 1024 * 1024

/-- `CL_KEY`. -/
def clKey : Bytes := ascii "content-length:"

/-- `CL_KEY_LEN`. -/
abbrev clKeyLen : Nat := 15

/-- `lower`. -/
def lower (c : UInt8) : UInt8 := if 65 ≤ c && c ≤ 90 then c + 32 else c

/-- `is_ws`. -/
def isWs (c : UInt8) : Bool := c == 32 || c == 9 || c == 13 || c == 10

/-- A UTF-8 BOM. -/
def bom : Bytes := [0xEF, 0xBB, 0xBF]

/-- `memchr(s, '\n', strlen s)`, as an offset. -/
def memchrLf (s : Bytes) : Option Nat := s.findIdx? (· == 10)

/-- The two loops that trim a line. -/
def trim (line : Bytes) : Bytes := (line.dropWhile isWs).rdropWhile isWs

/-- `struct dxr_stdio_reader`. -/
structure Reader where
  buf : Bytes
  pos : Nat
  cap : Nat
  eof : Bool
  framing : Framing
  src : Source UInt8
  behind : Nat → Nat → Bytes

/-- `dxr_stdio_reader_init`. -/
def Reader.init (src : Source UInt8) (behind : Nat → Nat → Bytes) : Reader :=
  ⟨[], 0, 0, false, .unknown, src, behind⟩

namespace Reader

/-- The valid bytes not consumed yet. -/
def window (r : Reader) : Bytes := r.buf.drop r.pos

/-- All bytes still to be consumed. -/
def unread (r : Reader) : Bytes := r.window ++ r.src.rest

/-- `r->pos += n`. -/
def advance (r : Reader) (n : Nat) : Reader := { r with pos := r.pos + n }

/-- The first part of `fill`: consumed bytes are moved out. -/
def compact (r : Reader) : Reader := { r with buf := r.window, pos := 0 }

/-- `ncap`. -/
def ncap (r : Reader) : Nat := if r.cap = 0 then 4096 else r.cap * 2

/-- The second part of `fill`: a full buffer is doubled, up to a limit. -/
def grow (r : Reader) : Option Reader :=
  if r.buf.length = r.cap then
    if r.ncap > maxMessageBytes + 4096 then none else some { r with cap := r.ncap }
  else some r

/-- The last part of `fill`: read what fits. -/
def pull (r : Reader) : Bool × Reader :=
  let got := r.src.read (r.cap - r.buf.length)
  if got.1 = [] then (false, { r with eof := true, src := got.2 })
  else (true, { r with buf := r.buf ++ got.1, src := got.2 })

/-- `fill`. -/
def fill (r : Reader) : Bool × Reader :=
  if r.eof then (false, r)
  else
    match r.compact.grow with
    | none => (false, r.compact)
    | some r => r.pull

/-! ### What a fill does to the bytes -/

@[simp] theorem window_compact (r : Reader) : r.compact.window = r.window := rfl

@[simp] theorem window_advance (r : Reader) (n : Nat) :
    (r.advance n).window = r.window.drop n := by
  simp [window, advance]

@[simp] theorem src_advance (r : Reader) (n : Nat) : (r.advance n).src = r.src := rfl

theorem unread_advance {r : Reader} {n : Nat} (h : n ≤ r.window.length) :
    (r.advance n).unread = r.unread.drop n := by
  unfold unread
  rw [window_advance, src_advance, List.drop_append_of_le_length h]

theorem grow_some {r r' : Reader} (h : r.grow = some r') : ∃ cap, r' = { r with cap := cap } := by
  unfold grow at h
  split at h
  · split at h
    · cases h
    · cases h
      exact ⟨_, rfl⟩
  · cases h
    exact ⟨r.cap, rfl⟩

theorem pull_true {r : Reader} (h : r.pull.1 = true) (hpos : r.pos ≤ r.buf.length) :
    r.pull.2.unread = r.unread ∧ r.pull.2.src.rest.length < r.src.rest.length := by
  unfold pull at h ⊢
  dsimp only at h ⊢
  split at h
  · cases h
  · next hne =>
      rw [if_neg hne]
      refine ⟨?_, Source.read_rest_lt _ hne⟩
      have happ := Source.read_append r.src (r.cap - r.buf.length)
      simp only [unread, window]
      rw [List.drop_append_of_le_length hpos, List.append_assoc, happ]

theorem pull_false {r : Reader} (h : r.pull.1 = false) :
    r.pull.2.window = r.window ∧ r.pull.2.src.rest = r.src.rest := by
  unfold pull at h ⊢
  dsimp only at h ⊢
  split at h
  · next hnil =>
      have happ := Source.read_append r.src (r.cap - r.buf.length)
      rw [hnil, List.nil_append] at happ
      rw [if_pos hnil]
      exact ⟨rfl, happ⟩
  · cases h

/-- A fill that succeeds moves at least one byte from the source to the window. -/
theorem fill_true {r : Reader} (h : r.fill.1 = true) :
    r.fill.2.unread = r.unread ∧ r.fill.2.src.rest.length < r.src.rest.length := by
  unfold fill at h ⊢
  split at h
  · cases h
  · next he =>
      rw [if_neg he]
      split at h
      · cases h
      · next r' hg =>
          obtain ⟨cap, rfl⟩ := grow_some hg
          exact pull_true h (Nat.zero_le _)

/-- A fill that fails consumes nothing. -/
theorem fill_false {r : Reader} (h : r.fill.1 = false) :
    r.fill.2.window = r.window ∧ r.fill.2.src.rest = r.src.rest := by
  unfold fill at h ⊢
  split
  · exact ⟨rfl, rfl⟩
  · next he =>
      rw [if_neg he] at h
      split
      · exact ⟨rfl, rfl⟩
      · next r' hg =>
          rw [hg] at h
          obtain ⟨cap, rfl⟩ := grow_some hg
          exact pull_false h

/-- What the loops of the reader count down. -/
def left (r : Reader) : Nat := r.unread.length + r.src.rest.length

theorem left_fill {r : Reader} (h : r.fill.1 = true) : r.fill.2.left < r.left := by
  obtain ⟨hu, hlt⟩ := fill_true h
  unfold left
  rw [hu]
  omega

theorem left_advance {r : Reader} {n : Nat} (h0 : 0 < n) (h : n ≤ r.window.length) :
    (r.advance n).left < r.left := by
  have hlen : r.unread.length = r.window.length + r.src.rest.length := List.length_append
  unfold left
  rw [unread_advance h, List.length_drop, src_advance]
  omega

/-- A read of `n` bytes: fill until they are there, then take them. -/
def assemble (r : Reader) (n : Nat) : Option Bytes × Reader :=
  if r.window.length < n then
    if _h : r.fill.1 = true then r.fill.2.assemble n else (none, r.fill.2)
  else (some (r.window.take n), r.advance n)
termination_by r.left
decreasing_by exact left_fill _h

/-! ### Detection -/

/-- `memcmp(buf + pos, bom, 3) == 0` with three bytes there. -/
def atBom (r : Reader) : Bool := r.window.take 3 == bom

/-- What `detect` makes of the bytes at hand: a framing, once they are enough. -/
def judge (avail : Bytes) : Option Framing :=
  let partialBom := 0 < avail.length && avail.length < 3 && avail == bom.take avail.length
  if 0 < avail.length && !partialBom then
    let n := min avail.length clKeyLen
    if (avail.take n).map lower = clKey.take n then
      if n = clKeyLen then some .contentLength else none
    else some .ndjson
  else none

/-- The loop over leading white space. -/
def skipWs (r : Reader) : Reader := r.advance (r.window.takeWhile isWs).length

theorem takeWhile_length_le (r : Reader) :
    (r.window.takeWhile isWs).length ≤ r.window.length :=
  (List.takeWhile_sublist isWs).length_le

theorem left_skipWs (r : Reader) : r.skipWs.left ≤ r.left := by
  have hle := takeWhile_length_le r
  unfold skipWs left
  rw [unread_advance hle, List.length_drop, src_advance]
  omega

theorem left_atBom {r : Reader} (h : r.atBom = true) : (r.advance 3).left < r.left := by
  have htake : r.window.take 3 = bom := eq_of_beq h
  have hlen := congrArg List.length htake
  rw [List.length_take] at hlen
  exact left_advance (by decide) (by simp [bom] at hlen; omega)

/-- `detect`. -/
def detect (r : Reader) : Bool × Reader :=
  if _hb : r.skipWs.atBom = true then (r.skipWs.advance 3).detect
  else
    match judge r.skipWs.window with
    | some framing => (true, { r.skipWs with framing := framing })
    | none =>
        if _h : r.skipWs.fill.1 = true then r.skipWs.fill.2.detect
        else if r.skipWs.fill.2.window ≠ [] then
          (true, { r.skipWs.fill.2 with framing := .ndjson })
        else (false, r.skipWs.fill.2)
termination_by r.left
decreasing_by
  · exact Nat.lt_of_lt_of_le (left_atBom _hb) (left_skipWs r)
  · exact Nat.lt_of_lt_of_le (left_fill _h) (left_skipWs r)

/-! ### ndjson -/

theorem memchrLf_lt {s : Bytes} {k : Nat} (h : memchrLf s = some k) : k < s.length :=
  (List.findIdx?_eq_some_iff_getElem.mp h).1

/-- `next_ndjson`, with `scanned` bytes of the window searched already. -/
def nextNdjson (r : Reader) (scanned : Nat) : Option Bytes × Reader :=
  match _hn : memchrLf (r.window.drop scanned) with
  | some k =>
      if trim (r.window.take (scanned + k)) = [] then
        (r.advance (scanned + k + 1)).nextNdjson 0
      else if (trim (r.window.take (scanned + k))).length > maxMessageBytes then
        (none, r.advance (scanned + k + 1))
      else (some (trim (r.window.take (scanned + k))), r.advance (scanned + k + 1))
  | none =>
      if _h : r.fill.1 = true then r.fill.2.nextNdjson r.window.length
      else if trim r.fill.2.window = [] || !r.fill.2.eof then
        (none, r.fill.2.advance r.fill.2.window.length)
      else (some (trim r.fill.2.window), r.fill.2.advance r.fill.2.window.length)
termination_by r.left
decreasing_by
  · have hk := memchrLf_lt _hn
    rw [List.length_drop] at hk
    exact left_advance (by omega) (by omega)
  · exact left_fill _h

/-! ### Content-Length -/

/-- `header_line`: the length of the line at hand, zero at the end or behind 1024 bytes. -/
def headerLine (r : Reader) : Nat × Reader :=
  match memchrLf r.window with
  | some k => (k + 1, r)
  | none =>
      if r.window.length > 1024 then (0, r)
      else if _h : r.fill.1 = true then r.fill.2.headerLine else (0, r.fill.2)
termination_by r.left
decreasing_by exact left_fill _h

theorem headerLine_spec (r : Reader) :
    r.headerLine.2.unread = r.unread ∧ r.headerLine.2.left ≤ r.left ∧
      r.headerLine.1 ≤ r.headerLine.2.window.length := by
  fun_induction headerLine r with
  | case1 r k hk => exact ⟨rfl, Nat.le_refl _, memchrLf_lt hk⟩
  | case2 r _ _ => exact ⟨rfl, Nat.le_refl _, Nat.zero_le _⟩
  | case3 r _ _ h ih =>
      obtain ⟨hu, hle, hn⟩ := ih
      exact ⟨hu.trans (fill_true h).1, Nat.le_trans hle (Nat.le_of_lt (left_fill h)), hn⟩
  | case4 r _ _ h =>
      obtain ⟨hw, hr⟩ := fill_false (Bool.eq_false_iff.mpr h)
      have hu : r.fill.2.unread = r.unread := by rw [unread, unread, hw, hr]
      exact ⟨hu, Nat.le_of_eq (by rw [left, left, hu, hr]), Nat.zero_le _⟩

/-- The local variables of `next_content_length`. -/
structure Headers where
  contentLength : Nat
  haveLength : Bool
  anyHeader : Bool

/-- `blank`. -/
def blankLine (line : Bytes) : Bool := line.length == 1 || (line.length == 2 && line.head? == some 13)

/-- `match`: a header line that is longer than the key and starts with it. -/
def isLengthLine (line : Bytes) : Bool :=
  decide (line.length > clKeyLen) && (line.take clKeyLen).map lower == clKey

/-- A header line that is not blank. `memory` is what `strtoul` finds behind the key. -/
def Headers.add [Abi] (h : Headers) (line memory : Bytes) : Headers :=
  if isLengthLine line then ⟨strtoul memory, true, true⟩ else { h with anyHeader := true }

/-- What `strtoul` finds at `line + CL_KEY_LEN`. -/
def memory (r : Reader) : Bytes :=
  r.window.drop clKeyLen ++ r.behind r.src.rest.length r.unread.length

/-- The line `header_line` found. -/
def line (r : Reader) : Bytes := r.headerLine.2.window.take r.headerLine.1

/-- `r->pos += n` behind it. -/
def pastLine (r : Reader) : Reader := r.headerLine.2.advance r.headerLine.1

theorem left_pastLine {r : Reader} (h : r.headerLine.1 ≠ 0) : r.pastLine.left < r.left := by
  obtain ⟨-, hle, hn⟩ := headerLine_spec r
  exact Nat.lt_of_lt_of_le (left_advance (Nat.pos_of_ne_zero h) hn) hle

/-- `next_content_length` behind the headers. -/
def body (r : Reader) (h : Headers) : Option Bytes × Reader :=
  if !h.haveLength || h.contentLength = 0 || h.contentLength > maxMessageBytes then (none, r)
  else r.assemble h.contentLength

/-- `next_content_length`. -/
def nextContentLength [Abi] (r : Reader) (h : Headers) : Option Bytes × Reader :=
  if _h0 : r.headerLine.1 = 0 then (none, r.headerLine.2)
  else if blankLine r.line then
    if h.anyHeader then r.pastLine.body h else r.pastLine.nextContentLength h
  else r.pastLine.nextContentLength (h.add r.line r.headerLine.2.memory)
termination_by r.left
decreasing_by
  · exact left_pastLine _h0
  · exact left_pastLine _h0

/-- `dxr_stdio_reader_next`. -/
def next [Abi] (r : Reader) : Option Bytes × Reader :=
  let d := if r.framing = .unknown then r.detect else (true, r)
  if d.1 = false then (none, d.2)
  else if d.2.framing = .contentLength then d.2.nextContentLength ⟨0, false, false⟩
  else d.2.nextNdjson 0

/-- The reader after `n` calls of `dxr_stdio_reader_next`. -/
def after [Abi] : Nat → Reader → Reader
  | 0, r => r
  | n + 1, r => after n r.next.2

/-- The messages of the first `n` calls of `dxr_stdio_reader_next`, up to the first NULL. -/
def messages [Abi] : Nat → Reader → List Bytes
  | 0, _ => []
  | n + 1, r =>
      match r.next with
      | (none, _) => []
      | (some body, r') => body :: messages n r'

end Reader

/-! ## Writing -/

/-- `Content-Length: %zu\r\n\r\n`. -/
def header (len : Nat) : Bytes := ascii "Content-Length: " ++ decimal len ++ [13, 10, 13, 10]

/-- A CR or LF byte becomes a space. -/
def flatByte (c : UInt8) : UInt8 := if c = 10 || c = 13 then 32 else c

/-- `dxr_stdio_encode`. -/
def encode (framing : Framing) (body : Bytes) : Bytes :=
  if framing = .contentLength then header body.length ++ body
  else body.map flatByte ++ [10]

end DisplayxrMcp.Stdio
