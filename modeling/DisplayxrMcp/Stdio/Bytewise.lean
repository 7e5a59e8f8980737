/-
  The buffered reader, one byte at a time (src/adapter/stdio_framing.c).

  Reader.lean has `buf` as the bytes that are valid. Here `buf` is the memory the
  pointer points at: every cell holds something, and `len` is only a number next to
  it. The functions are cut at every byte they look at. `Pc` says where in which loop
  the reader stands, with the local variables; a step examines at most one byte, and
  `address` is its index, so a step sees of the buffer what `address` names and no
  more. `fill` is one step: it decides nothing by what the bytes are.

  `consumed` and `since` are no fields of the struct. They count what `pos` has moved
  over in all, now and when the call in progress began.
-/
import DisplayxrMcp.Lib.Cells
import DisplayxrMcp.Stdio.Reader
import Mathlib.Logic.Function.Iterate

namespace DisplayxrMcp.Stdio.Bytewise

open Lib Lib.Cells

/-- What the allocator and the rest of memory do at each step: whether an allocation succeeds,
    and what is in the cells that were not written. -/
structure Heap where
  grants : Nat → Bool
  debris : Nat → Nat → UInt8

/-- `struct dxr_stdio_reader`. -/
structure Struct where
  buf : Nat → UInt8
  len : Nat
  pos : Nat
  cap : Nat
  eof : Bool
  framing : Framing

/-- Where the reader stands. `returned` is between two calls. -/
inductive Pc where
  | returned (out : Option Bytes)
  -- `detect`
  | skipWs
  | bomByte (k : Nat)
  | checkBom
  | memcmp (k : Nat) (same : Bool)
  | keyByte (i : Nat)
  | fillDetect
  -- `next_ndjson`, where `last` is the unterminated line at the end
  | memchr (i : Nat)
  | fillNdjson
  | trimStart (start stop : Nat) (last : Bool)
  | trimStop (start stop : Nat) (last : Bool)
  | trimmed (start stop : Nat) (last : Bool)
  -- `header_line`
  | headerByte (h : Reader.Headers) (i : Nat)
  | fillHeader (h : Reader.Headers)
  -- `next_content_length`, with a header line of `n` bytes at `pos`
  | blank (h : Reader.Headers) (n : Nat)
  | lineByte (h : Reader.Headers) (n i : Nat)
  | strtoul (h : Reader.Headers) (n : Nat)
  | space (h : Reader.Headers) (n i : Nat)
  | digits (h : Reader.Headers) (n : Nat) (negative : Bool) (ds : Bytes) (i : Nat)
  | checkLength (h : Reader.Headers)
  | body (contentLength : Nat)
  -- `take`, and `pos` moves on by `after` behind it
  | take (start len after : Nat)
  | memcpy (i stop : Nat) (out : Bytes) (after : Nat)

structure State where
  r : Struct
  src : Source UInt8
  now : Nat
  pc : Pc
  consumed : Nat
  since : Nat

/-- `dxr_stdio_reader_init`, before the first call. -/
def start (src : Source UInt8) : State :=
  ⟨⟨fun _ => 0, 0, 0, 0, false, .unknown⟩, src, 0, .returned none, 0, 0⟩

/-- `strtoul` of the digits. -/
def toulong [abi : Abi] (negative : Bool) (ds : Bytes) : Nat :=
  if 2 ^ abi.long ≤ digitsValue ds then 2 ^ abi.long - 1
  else if negative then (2 ^ abi.long - digitsValue ds) % 2 ^ abi.long
  else digitsValue ds

namespace State

/-- The byte at `buf[i]`. Behind the allocated cells there is whatever there is. -/
def load (heap : Heap) (s : State) (i : Nat) : UInt8 :=
  if i < s.r.cap then s.r.buf i else heap.debris s.now i

def goto (s : State) (pc : Pc) : State := { s with pc := pc }

/-- `r->pos += n`. -/
def advance (s : State) (n : Nat) : State :=
  { s with r := { s.r with pos := s.r.pos + n }, consumed := s.consumed + n }

def setFraming (s : State) (f : Framing) : State := { s with r := { s.r with framing := f } }

/-- The bytes received and not consumed: `len - pos`. -/
def avail (s : State) : Nat := s.r.len - s.r.pos

/-! ### fill -/

/-- Consumed bytes are moved out. -/
def compact (s : State) : State :=
  if 0 < s.r.pos then
    { s with r := { s.r with
        buf := Cells.memmove s.r.buf 0 s.r.pos (s.r.len - s.r.pos)
        len := s.r.len - s.r.pos
        pos := 0 } }
  else s

/-- A full buffer is reallocated, up to a limit. -/
def grow (heap : Heap) (s : State) : Option State :=
  if s.r.len = s.r.cap then
    let ncap := if s.r.cap = 0 then 4096 else s.r.cap * 2
    if ncap > maxMessageBytes + 4096 then none
    else if heap.grants s.now then
      some { s with r := { s.r with
        buf := fun i => if i < s.r.cap then s.r.buf i else heap.debris s.now i
        cap := ncap } }
    else none
  else some s

/-- `read` into the free cells. -/
def pull (s : State) : Bool × State :=
  let got := s.src.read (s.r.cap - s.r.len)
  if got.1 = [] then (false, { s with r := { s.r with eof := true }, src := got.2 })
  else
    (true, { s with
      r := { s.r with buf := Cells.write s.r.buf s.r.len got.1, len := s.r.len + got.1.length }
      src := got.2 })

/-- `fill`. -/
def fill (heap : Heap) (s : State) : Bool × State :=
  if s.r.eof then (false, s)
  else
    match s.compact.grow heap with
    | none => (false, s.compact)
    | some s => s.pull

/-! ### The rest of the functions, between two bytes -/

/-- The end of `dxr_stdio_reader_next`: the framing is known. -/
def enter (s : State) : State :=
  if s.r.framing = .contentLength then s.goto (.headerByte ⟨0, false, false⟩ s.r.pos)
  else s.goto (.memchr s.r.pos)

/-- The next header line is looked for behind this one. -/
def nextHeader (s : State) (h : Reader.Headers) (n : Nat) : State :=
  (s.advance n).goto (.headerByte h (s.r.pos + n))

/-- A blank header line. -/
def blankLine (s : State) (h : Reader.Headers) (n : Nat) : State :=
  if h.anyHeader then (s.advance n).goto (.checkLength h) else s.nextHeader h n

/-- A header line that is not blank. -/
def headerText (s : State) (h : Reader.Headers) (n : Nat) : State :=
  if n > clKeyLen then s.goto (.lineByte { h with anyHeader := true } n 0)
  else s.nextHeader { h with anyHeader := true } n

/-- The index of the byte the next step examines. -/
def address (s : State) : Option Nat :=
  match s.pc with
  | .skipWs => if s.r.pos < s.r.len then some s.r.pos else none
  | .bomByte k => if 3 ≤ s.avail then some (s.r.pos + k) else none
  | .memcmp k _ => some (s.r.pos + k)
  | .keyByte i => if i < min s.avail clKeyLen then some (s.r.pos + i) else none
  | .memchr i => if i < s.r.len then some i else none
  | .trimStart start stop _ => if start < stop then some start else none
  | .trimStop start stop _ => if start < stop then some (stop - 1) else none
  | .headerByte _ i => if i < s.r.len then some i else none
  | .blank _ n => if n = 2 then some s.r.pos else none
  | .lineByte _ _ i => if i < clKeyLen then some (s.r.pos + i) else none
  | .space _ _ i => some i
  | .digits _ _ _ _ i => some i
  | .memcpy i stop _ _ => if i < stop then some i else none
  | _ => none

/-- The step that examines the byte `c`. -/
def onByte [Abi] (s : State) (c : UInt8) : State :=
  match s.pc with
  | .skipWs => if isWs c then s.advance 1 else s.goto (.bomByte 0)
  | .bomByte k =>
      if bom[k]? = some c then
        if k = 2 then (s.advance 3).goto .skipWs else s.goto (.bomByte (k + 1))
      else s.goto .checkBom
  | .memcmp k same =>
      let same := same && bom[k]? = some c
      if k + 1 < s.avail then s.goto (.memcmp (k + 1) same)
      else if same then s.goto .fillDetect
      else s.goto (.keyByte 0)
  | .keyByte i =>
      if clKey[i]? = some (lower c) then s.goto (.keyByte (i + 1))
      else (s.setFraming .ndjson).enter
  | .memchr i =>
      if c = 10 then (s.advance (i + 1 - s.r.pos)).goto (.trimStart s.r.pos i false)
      else s.goto (.memchr (i + 1))
  | .trimStart start stop last =>
      if isWs c then s.goto (.trimStart (start + 1) stop last)
      else s.goto (.trimStop start stop last)
  | .trimStop start stop last =>
      if isWs c then s.goto (.trimStop start (stop - 1) last)
      else s.goto (.trimmed start stop last)
  | .headerByte h i =>
      if c = 10 then s.goto (.blank h (i - s.r.pos + 1)) else s.goto (.headerByte h (i + 1))
  | .blank h n => if c = 13 then s.blankLine h n else s.headerText h n
  | .lineByte h n i =>
      if clKey[i]? = some (lower c) then s.goto (.lineByte h n (i + 1)) else s.nextHeader h n
  | .space h n i =>
      if isSpace c then s.goto (.space h n (i + 1))
      else if c = 45 then s.goto (.digits h n true [] (i + 1))
      else if c = 43 then s.goto (.digits h n false [] (i + 1))
      else s.goto (.digits h n false [] i)
  | .digits h n negative ds i =>
      if isDigit c then s.goto (.digits h n negative (ds ++ [c]) (i + 1))
      else s.nextHeader ⟨toulong negative ds, true, h.anyHeader⟩ n
  | .memcpy i stop out after => s.goto (.memcpy (i + 1) stop (out ++ [c]) after)
  | _ => s

/-- The step that examines no byte. -/
def move (heap : Heap) (s : State) : State :=
  match s.pc with
  | .returned _ =>
      let s := { s with since := s.consumed }
      if s.r.framing = .unknown then s.goto .skipWs else s.enter
  | .skipWs => s.goto (.bomByte 0)
  | .bomByte _ => s.goto .checkBom
  | .checkBom =>
      if 0 < s.avail ∧ s.avail < 3 then s.goto (.memcmp 0 true)
      else if 0 < s.avail then s.goto (.keyByte 0)
      else s.goto .fillDetect
  | .keyByte _ =>
      if min s.avail clKeyLen = clKeyLen then (s.setFraming .contentLength).enter
      else s.goto .fillDetect
  | .fillDetect =>
      let (ok, s) := s.fill heap
      if ok then s.goto .skipWs
      else if s.r.pos < s.r.len then (s.setFraming .ndjson).enter
      else s.goto (.returned none)
  | .memchr _ => s.goto .fillNdjson
  | .fillNdjson =>
      let scanned := s.avail
      let (ok, s) := s.fill heap
      if ok then s.goto (.memchr (s.r.pos + scanned))
      else s.goto (.trimStart s.r.pos s.r.len true)
  | .trimStart start stop last => s.goto (.trimStop start stop last)
  | .trimStop start stop last => s.goto (.trimmed start stop last)
  | .trimmed start stop false =>
      if stop = start then s.goto (.memchr s.r.pos)
      else if stop - start > maxMessageBytes then s.goto (.returned none)
      else s.goto (.take start (stop - start) 0)
  | .trimmed start stop true =>
      let s := s.advance s.avail
      if stop = start ∨ s.r.eof = false then s.goto (.returned none)
      else s.goto (.take start (stop - start) 0)
  | .headerByte h _ =>
      if s.avail > 1024 then s.goto (.returned none) else s.goto (.fillHeader h)
  | .fillHeader h =>
      let (ok, s) := s.fill heap
      if ok then s.goto (.headerByte h s.r.pos) else s.goto (.returned none)
  | .blank h n => if n = 1 then s.blankLine h n else s.headerText h n
  | .lineByte h n _ => s.goto (.strtoul h n)
  | .strtoul h n => s.goto (.space h n (s.r.pos + clKeyLen))
  | .checkLength h =>
      if !h.haveLength || h.contentLength = 0 || h.contentLength > maxMessageBytes then
        s.goto (.returned none)
      else s.goto (.body h.contentLength)
  | .body n =>
      if s.avail < n then
        let (ok, s) := s.fill heap
        if ok then s.goto (.body n) else s.goto (.returned none)
      else s.goto (.take s.r.pos n n)
  | .take start len after =>
      if heap.grants s.now then s.goto (.memcpy start (start + len) [] after)
      else (s.advance after).goto (.returned none)
  | .memcpy _ _ out after => (s.advance after).goto (.returned (some out))
  | _ => s

/-- A step. A caller calls `dxr_stdio_reader_next` again and again. -/
def step [Abi] (heap : Heap) (s : State) : State :=
  let s' := match s.address with
    | some i => s.onByte (s.load heap i)
    | none => s.move heap
  { s' with now := s.now + 1 }

end State

/-- The state after `n` steps. -/
def run [Abi] (heap : Heap) (src : Source UInt8) (n : Nat) : State :=
  (State.step heap)^[n] (start src)

end DisplayxrMcp.Stdio.Bytewise
