/-
  Content-Length frames on the private wire: `read_frame` and `write_frame` of the
  server (src/mcp_server.c), `dxr_conn_read_frame` and `dxr_conn_write_frame` of the
  adapter (src/adapter/stdio_framing.c).

  Both readers are `readFrameWith`, with their own test for the key and their own
  limit. `line` is a 256-byte buffer that is filled byte by byte, so nothing is read
  beyond a frame; `mcp_conn_read` is `Source.readFull`. A C string ends at its first
  NUL. Memory allocation succeeds.
-/
import DisplayxrMcp.Lib.Split
import DisplayxrMcp.Stdio.RoundTrip

namespace DisplayxrMcp.Wire

open Lib Stdio

/-- `MAX_FRAME_BYTES` of the server. -/
abbrev maxFrameBytes : Nat := 4 * 1024 * 1024

/-- `read_line` and `conn_read_line`, with room for `room` more bytes. -/
def readLine : Nat → Source UInt8 → Option Bytes × Source UInt8
  | 0, src => (none, src)
  | room + 1, src =>
      match src.readFull 1 with
      | some (c :: _, src') =>
          if c = 10 then (some [c], src')
          else ((readLine room src').1.map (c :: ·), (readLine room src').2)
      | _ => (none, src)

theorem readLine_cons (room : Nat) (c : UInt8) (rest : Bytes) (sizes : Nat → Nat) :
    readLine (room + 1) ⟨c :: rest, sizes⟩ =
      if c = 10 then (some [c], ⟨rest, sizes⟩)
      else ((readLine room ⟨rest, sizes⟩).1.map (c :: ·), (readLine room ⟨rest, sizes⟩).2) := by
  rw [readLine, Source.readFull_eq, if_pos (by simp)]
  rfl

theorem readLine_nil (room : Nat) (sizes : Nat → Nat) :
    readLine room ⟨[], sizes⟩ = (none, ⟨[], sizes⟩) := by
  cases room with
  | zero => rfl
  | succ room =>
      rw [readLine, Source.readFull_eq, if_neg (by simp)]

/-- A line that is read is taken off the source. -/
theorem readLine_some {room : Nat} {src src' : Source UInt8} {line : Bytes}
    (h : readLine room src = (some line, src')) : line ++ src'.rest = src.rest ∧ line ≠ [] := by
  induction room generalizing src line with
  | zero => cases h
  | succ room ih =>
      obtain ⟨rest, sizes⟩ := src
      cases rest with
      | nil =>
          rw [readLine_nil] at h
          cases h
      | cons c rest =>
          rw [readLine_cons] at h
          split at h
          · cases h
            exact ⟨rfl, by simp⟩
          · obtain ⟨hmap, hsrc⟩ := Prod.mk.inj h
            obtain ⟨l, hl, rfl⟩ := Option.map_eq_some_iff.mp hmap
            have hrest := (ih (Prod.ext hl hsrc)).1
            exact ⟨by rw [List.cons_append, hrest], by simp⟩

/-- The header loop: the value of the last Content-Length line, if there was one. -/
def readHeader [Abi] (isKey : Bytes → Bool) (src : Source UInt8) (length : Option Nat) :
    Option Nat × Source UInt8 :=
  match _h : readLine 255 src with
  | (none, src') => (length, src')
  | (some line, src') =>
      if line.head? = some 13 || line.head? = some 10 then (length, src')
      else readHeader isKey src'
        (if isKey line then some (strtoul (line.drop clKeyLen)) else length)
termination_by src.rest.length
decreasing_by
  obtain ⟨hrest, hne⟩ := readLine_some _h
  have hpos := List.length_pos_of_ne_nil hne
  rw [← hrest, List.length_append]
  omega

theorem readHeader_of_none [Abi] {isKey : Bytes → Bool} {src src' : Source UInt8}
    {length : Option Nat} (h : readLine 255 src = (none, src')) :
    readHeader isKey src length = (length, src') := by
  rw [readHeader]
  split
  · next h' =>
      rw [h] at h'
      cases h'
      rfl
  · next h' =>
      rw [h] at h'
      cases h'

theorem readHeader_of_some [Abi] {isKey : Bytes → Bool} {src src' : Source UInt8}
    {length : Option Nat} {line : Bytes} (h : readLine 255 src = (some line, src')) :
    readHeader isKey src length =
      if line.head? = some 13 || line.head? = some 10 then (length, src')
      else readHeader isKey src'
        (if isKey line then some (strtoul (line.drop clKeyLen)) else length) := by
  conv_lhs => rw [readHeader]
  split
  · next h' =>
      rw [h] at h'
      cases h'
  · next h' =>
      rw [h] at h'
      cases h'
      rfl

/-- A frame: header, limit, body. -/
def readFrameWith [Abi] (isKey : Bytes → Bool) (limit : Nat) (src : Source UInt8) :
    Option (Bytes × Source UInt8) :=
  match readHeader isKey src none with
  | (none, _) => none
  | (some n, src') => if n = 0 || n > limit then none else src'.readFull n

/-- `strncasecmp(line, "Content-Length:", 15) == 0`. -/
def serverKey (line : Bytes) : Bool := (line.take clKeyLen).map lower == clKey

/-- `match`: longer than the key, as a C string, and starting with it. -/
def adapterKey (line : Bytes) : Bool :=
  decide ((line.takeWhile (· ≠ 0)).length > clKeyLen) && (line.take clKeyLen).map lower == clKey

/-- `read_frame` of the server. -/
def readFrame [Abi] (src : Source UInt8) : Option (Bytes × Source UInt8) :=
  readFrameWith serverKey maxFrameBytes src

/-- `dxr_conn_read_frame`. -/
def connReadFrame [Abi] (src : Source UInt8) : Option (Bytes × Source UInt8) :=
  readFrameWith adapterKey maxMessageBytes src

/-- The bytes of `write_frame` of the server; `body` is a C string. -/
def writeFrame (body : Bytes) : Bytes :=
  header (body.takeWhile (· ≠ 0)).length ++ body.takeWhile (· ≠ 0)

/-- The bytes of `dxr_conn_write_frame`. -/
def connWriteFrame (body : Bytes) : Bytes := header body.length ++ body

/-- A frame with this text as two writes, the header and the C string. -/
def frameWrite {γ : Type} (conn : γ) (bounded : Bool) (text : CStr) : Lts.Write γ UInt8 :=
  ⟨conn, bounded, header (text.takeWhile (· ≠ 0)).length, text.takeWhile (· ≠ 0)⟩

theorem frame_frameWrite {γ : Type} (conn : γ) (bounded : Bool) (text : CStr) :
    (frameWrite conn bounded text).frame = writeFrame text := rfl

/-- The bodies that up to `n` calls of a reader return, up to the first NULL. -/
def readAll (read : Source UInt8 → Option (Bytes × Source UInt8)) :
    Nat → Source UInt8 → List Bytes
  | 0, _ => []
  | n + 1, src =>
      match read src with
      | none => []
      | some (body, src') => body :: readAll read n src'

/-! ## A frame that was written -/

/-- A line that fits the buffer is read whole. -/
theorem readLine_line {room : Nat} {l : Bytes} (hl : 10 ∉ l) (hlen : l.length < room) (t : Bytes)
    (sizes : Nat → Nat) :
    readLine room ⟨l ++ 10 :: t, sizes⟩ = (some (l ++ [10]), ⟨t, sizes⟩) := by
  induction l generalizing room with
  | nil =>
      obtain ⟨room, rfl⟩ := Nat.exists_eq_succ_of_ne_zero (Nat.ne_of_gt hlen)
      exact (readLine_cons room 10 t sizes).trans (if_pos rfl)
  | cons c l ih =>
      obtain ⟨room, rfl⟩ := Nat.exists_eq_succ_of_ne_zero (Nat.ne_of_gt (Nat.zero_lt_of_lt hlen))
      have hc : c ≠ 10 := fun h => hl (h ▸ List.mem_cons_self)
      have hrec := ih (fun h => hl (List.mem_cons_of_mem _ h)) (Nat.lt_of_succ_lt_succ hlen)
      rw [List.cons_append, readLine_cons, if_neg hc, hrec]
      rfl

theorem lengthLine_head (n : Nat) : (lengthLine n ++ [10]).head? = some 67 := rfl

theorem strtoul_lengthLine [Abi] {n : Nat} (hn : n < 2 ^ 32) :
    strtoul ((lengthLine n ++ [10]).drop clKeyLen) = n := by
  have hlen := lengthLine_length n
  have hle : clKeyLen ≤ (lengthLine n).length :=
    Nat.le_trans (by decide : clKeyLen ≤ 17) (by omega)
  rw [List.drop_append_of_le_length hle, lengthLine_drop, List.cons_append, List.append_assoc]
  exact strtoul_decimal hn (by decide) [10]

/-- The header that is written is read, and nothing behind it. -/
theorem readHeader_header [Abi] {isKey : Bytes → Bool} {n : Nat} (hn : n ≤ maxMessageBytes)
    (hkey : isKey (lengthLine n ++ [10]) = true) (t : Bytes) (sizes : Nat → Nat) :
    readHeader isKey ⟨header n ++ t, sizes⟩ none = (some n, ⟨t, sizes⟩) := by
  have hlen := lengthLine_length n
  have hdec := Stdio.decimal_length_le hn
  have hn32 : n < 2 ^ 32 := by
    unfold maxMessageBytes at hn
    omega
  have hfirst : readLine 255 ⟨header n ++ t, sizes⟩ =
      (some (lengthLine n ++ [10]), ⟨13 :: 10 :: t, sizes⟩) := by
    rw [header_eq, List.append_assoc]
    exact readLine_line (lengthLine_noLf n) (by omega) (13 :: 10 :: t) sizes
  have hblank : readLine 255 ⟨13 :: 10 :: t, sizes⟩ = (some [13, 10], ⟨t, sizes⟩) :=
    readLine_line (l := [13]) (by decide) (by decide) t sizes
  rw [readHeader_of_some hfirst, lengthLine_head, if_neg (by decide), if_pos hkey,
    strtoul_lengthLine hn32, readHeader_of_some hblank]
  rfl

theorem serverKey_lengthLine (n : Nat) : serverKey (lengthLine n ++ [10]) = true := by
  have hkey := isLengthLine_lengthLine n
  unfold Reader.isLengthLine at hkey
  exact (Bool.and_eq_true_iff.mp hkey).2

theorem adapterKey_lengthLine (n : Nat) : adapterKey (lengthLine n ++ [10]) = true := by
  have hzero : ∀ c ∈ lengthLine n ++ [10], decide (c ≠ 0) = true := by
    intro c hc
    rw [decide_eq_true_eq]
    rintro rfl
    unfold lengthLine at hc
    rw [List.mem_append, List.mem_append, List.mem_append] at hc
    rcases hc with ((h | h) | h) | h
    · exact absurd h (by decide)
    · exact not_mem_decimal (by decide) h
    · exact absurd h (by decide)
    · exact absurd h (by decide)
  have htake : (lengthLine n ++ [10]).takeWhile (· ≠ 0) = lengthLine n ++ [10] :=
    List.takeWhile_eq_self_iff.mpr hzero
  unfold adapterKey
  rw [htake]
  exact isLengthLine_lengthLine n

/-- A written frame is read if and only if its body is within the reader's limit. -/
theorem readFrameWith_frame [Abi] {isKey : Bytes → Bool}
    (hkey : ∀ n, isKey (lengthLine n ++ [10]) = true) {limit : Nat} {b : Bytes} (h1 : 1 ≤ b.length)
    (hmax : b.length ≤ maxMessageBytes) (t : Bytes)
    (sizes : Nat → Nat) :
    readFrameWith isKey limit ⟨connWriteFrame b ++ t, sizes⟩ =
      if b.length ≤ limit then some (b, ⟨t, sizes⟩) else none := by
  unfold readFrameWith connWriteFrame
  rw [List.append_assoc, readHeader_header hmax (hkey b.length)]
  dsimp only
  by_cases hle : b.length ≤ limit
  · rw [if_pos hle, if_neg, Source.readFull_eq, if_pos (by simp)]
    · simp
    · simp only [Bool.or_eq_true, decide_eq_true_eq]
      omega
  · rw [if_neg hle, if_pos]
    simp only [Bool.or_eq_true, decide_eq_true_eq]
    omega

theorem readFrameWith_nil [Abi] (isKey : Bytes → Bool) (limit : Nat) (sizes : Nat → Nat) :
    readFrameWith isKey limit ⟨[], sizes⟩ = none := by
  unfold readFrameWith
  rw [readHeader_of_none (readLine_nil 255 sizes)]

/-! ## A sequence of frames -/

/-- The bytes of a sequence of written frames. -/
def frameBytes (bodies : List Bytes) : Bytes := (bodies.map connWriteFrame).flatten

theorem frameBytes_cons (b : Bytes) (bodies : List Bytes) :
    frameBytes (b :: bodies) = connWriteFrame b ++ frameBytes bodies := by
  unfold frameBytes
  rw [List.map_cons, List.flatten_cons]

/-- All bodies up to the first that is too long arrive, for every segmentation. -/
theorem readAll_frameBytes [Abi] {isKey : Bytes → Bool}
    (hkey : ∀ n, isKey (lengthLine n ++ [10]) = true) {limit : Nat} {bodies : List Bytes}
    (hb : Sized bodies) (sizes : Nat → Nat) (n : Nat) :
    readAll (readFrameWith isKey limit) n ⟨frameBytes bodies, sizes⟩ =
      (bodies.takeWhile fun b => b.length ≤ limit).take n := by
  induction n generalizing bodies with
  | zero => rfl
  | succ n ih =>
      unfold readAll
      cases bodies with
      | nil =>
          rw [show frameBytes [] = [] from rfl, readFrameWith_nil]
          rfl
      | cons b bodies =>
          obtain ⟨h1, hmax⟩ := hb b List.mem_cons_self
          rw [frameBytes_cons, readFrameWith_frame hkey h1 hmax, List.takeWhile_cons]
          by_cases hle : b.length ≤ limit
          · rw [if_pos hle, if_pos (decide_eq_true hle), List.take_succ_cons]
            exact congrArg (b :: ·) (ih hb.tail)
          · rw [if_neg hle, if_neg (by rw [decide_eq_true_eq]; exact hle)]
            rfl

/-- `write_frame` of a C string writes the frame of its bytes. -/
theorem writeFrame_eq {body : Bytes} (h : 0 ∉ body) : writeFrame body = connWriteFrame body := by
  have htake : body.takeWhile (· ≠ 0) = body := by
    rw [List.takeWhile_eq_self_iff]
    intro c hc
    rw [decide_eq_true_eq]
    rintro rfl
    exact h hc
  unfold writeFrame connWriteFrame
  rw [htake]

/-- What the server reads of a sequence of frames. -/
theorem readAll_readFrame [Abi] {bodies : List Bytes} (hb : Sized bodies) (sizes : Nat → Nat)
    (n : Nat) :
    readAll readFrame n ⟨frameBytes bodies, sizes⟩ =
      (bodies.takeWhile fun b => b.length ≤ maxFrameBytes).take n :=
  readAll_frameBytes serverKey_lengthLine hb sizes n

/-- What the adapter reads of a sequence of frames is all of it. -/
theorem readAll_connReadFrame [Abi] {bodies : List Bytes} (hb : Sized bodies) (sizes : Nat → Nat)
    (n : Nat) : readAll connReadFrame n ⟨frameBytes bodies, sizes⟩ = bodies.take n := by
  have hall : (bodies.takeWhile fun b => b.length ≤ maxMessageBytes) = bodies :=
    List.takeWhile_eq_self_iff.mpr fun b h => decide_eq_true (hb b h).2
  exact (readAll_frameBytes adapterKey_lengthLine hb sizes n).trans (by rw [hall])

/-! ## A connection that ends anywhere -/

/-- A prefix of `p ++ q` ends in `p` or goes on into `q`. -/
theorem prefix_append_cases {s p q : Bytes} (h : s <+: p ++ q) :
    (s <+: p ∧ s ≠ p) ∨ ∃ t, s = p ++ t ∧ t <+: q := by
  rcases List.prefix_or_prefix_of_prefix h (List.prefix_append p q) with hs | ⟨t, rfl⟩
  · by_cases he : s = p
    · exact Or.inr ⟨[], by rw [he, List.append_nil], List.nil_prefix⟩
    · exact Or.inl ⟨hs, he⟩
  · exact Or.inr ⟨t, rfl, (List.prefix_append_right_inj p).mp h⟩

/-- The end of the stream comes before the line feed. -/
theorem readLine_end {room : Nat} {l : Bytes} (hl : 10 ∉ l) (hlen : l.length < room)
    (sizes : Nat → Nat) : readLine room ⟨l, sizes⟩ = (none, ⟨[], sizes⟩) := by
  induction l generalizing room with
  | nil => exact readLine_nil room sizes
  | cons c l ih =>
      obtain ⟨room, rfl⟩ := Nat.exists_eq_succ_of_ne_zero (Nat.ne_of_gt (Nat.zero_lt_of_lt hlen))
      have hc : c ≠ 10 := fun h => hl (h ▸ List.mem_cons_self)
      have hrec := ih (fun h => hl (List.mem_cons_of_mem _ h)) (Nat.lt_of_succ_lt_succ hlen)
      rw [readLine_cons, if_neg hc, hrec]
      rfl

/-- A header that is not there to its end announces nothing that could be read. -/
theorem readHeader_cut [Abi] (isKey : Bytes → Bool) {n : Nat} (hn : n ≤ maxMessageBytes) {s : Bytes}
    (hs : s <+: header n) (hne : s ≠ header n) (sizes : Nat → Nat) :
    (readHeader isKey ⟨s, sizes⟩ none).2.rest = [] := by
  have hlen := lengthLine_length n
  have hdec := Stdio.decimal_length_le hn
  rw [header_eq] at hs hne
  rcases prefix_append_cases (q := 10 :: [13, 10]) hs with ⟨hs, -⟩ | ⟨t, rfl, ht⟩
  · have hno : 10 ∉ s := fun h => lengthLine_noLf n (hs.subset h)
    have hle := hs.length_le
    rw [readHeader_of_none (readLine_end hno (by omega) sizes)]
  · -- the first line is there; what follows it is nothing, or a CR
    have hrest : t = [] ∨ ∃ t', t = 10 :: t' ∧ 10 ∉ t' ∧ t'.length ≤ 1 := by
      rcases List.prefix_cons_iff.mp ht with rfl | ⟨t', rfl, ht'⟩
      · exact Or.inl rfl
      · rcases List.prefix_cons_iff.mp ht' with rfl | ⟨t'', rfl, ht''⟩
        · exact Or.inr ⟨[], rfl, by decide, by decide⟩
        · rcases List.prefix_cons_iff.mp ht'' with rfl | ⟨t₃, rfl, ht₃⟩
          · exact Or.inr ⟨[13], rfl, by decide, by decide⟩
          · rw [List.prefix_nil.mp ht₃] at hne
            exact absurd rfl hne
    rcases hrest with rfl | ⟨t', rfl, hno, hle⟩
    · rw [List.append_nil, readHeader_of_none (readLine_end (lengthLine_noLf n) (by omega) sizes)]
    · rw [readHeader_of_some (readLine_line (lengthLine_noLf n) (by omega) t' sizes),
        lengthLine_head, if_neg (by decide), readHeader_of_none (readLine_end hno (by omega) sizes)]

/-- What is read of a connection that ends anywhere is the next body. -/
theorem connReadFrame_prefix [Abi] {bodies : List Bytes}
    (hb : ∀ b ∈ bodies, b.length ≤ maxMessageBytes) {src src' : Source UInt8} {b : Bytes}
    (hpre : src.rest <+: frameBytes bodies)
    (h : connReadFrame src = some (b, src')) :
    ∃ bodies', bodies = b :: bodies' ∧ src'.rest <+: frameBytes bodies' := by
  obtain ⟨rest, sizes⟩ := src
  cases bodies with
  | nil =>
      have hnil : rest = [] := List.prefix_nil.mp hpre
      subst hnil
      unfold connReadFrame at h
      rw [readFrameWith_nil] at h
      cases h
  | cons d bodies =>
      have hmax := hb d List.mem_cons_self
      rw [frameBytes_cons, connWriteFrame, List.append_assoc] at hpre
      unfold connReadFrame readFrameWith at h
      rcases prefix_append_cases hpre with ⟨hcut, hne⟩ | ⟨t, rfl, ht⟩
      · have hend := readHeader_cut adapterKey hmax hcut hne sizes
        split at h
        · cases h
        · next n src₁ he =>
            rw [he] at hend
            split at h
            · cases h
            · next hcond =>
                simp only [Bool.or_eq_true, decide_eq_true_eq, not_or] at hcond
                rw [Source.readFull_eq, if_neg (by rw [hend]; simp; omega)] at h
                cases h
      · rw [readHeader_header hmax (adapterKey_lengthLine _)] at h
        dsimp only at h
        split at h
        · cases h
        · rw [Source.readFull_eq] at h
          rcases prefix_append_cases ht with ⟨hcut, hne⟩ | ⟨t', rfl, ht'⟩
          · have hlt : t.length < d.length := by
              refine Nat.lt_of_le_of_ne hcut.length_le fun he => hne (hcut.eq_of_length he)
            rw [if_neg (by simp; omega)] at h
            cases h
          · rw [if_pos (by simp), List.take_left, List.drop_left] at h
            cases h
            exact ⟨bodies, rfl, ht'⟩

/-- The server reads the bodies that the adapter writes exactly if none has more than 4 MiB; the
    adapter reads the replies that the server writes. Any segmentation will do. -/
theorem wire_frames [Abi] (bodies replies : List Bytes) (hb : Sized bodies) (hr : Sized replies)
    (hnul : ∀ r ∈ replies, 0 ∉ r) :
    ((∀ (sizes : Nat → Nat) (n : Nat),
          readAll readFrame n ⟨(bodies.map connWriteFrame).flatten, sizes⟩ = bodies.take n) ↔
        ∀ b ∈ bodies, b.length ≤ maxFrameBytes) ∧
      ∀ (sizes : Nat → Nat) (n : Nat),
        readAll connReadFrame n ⟨(replies.map writeFrame).flatten, sizes⟩ = replies.take n := by
  refine ⟨⟨fun hall => ?_, fun hle sizes n => ?_⟩, fun sizes n => ?_⟩
  · have hread := hall (fun _ => 1) bodies.length
    rw [List.take_length] at hread
    have htake := (readAll_readFrame hb (fun _ => 1) bodies.length).symm.trans hread
    rw [List.take_of_length_le (List.takeWhile_sublist _).length_le] at htake
    exact fun b h => of_decide_eq_true (List.takeWhile_eq_self_iff.mp htake b h)
  · have hself : (bodies.takeWhile fun b => b.length ≤ maxFrameBytes) = bodies :=
      List.takeWhile_eq_self_iff.mpr fun b h => decide_eq_true (hle b h)
    exact (readAll_readFrame hb sizes n).trans (by rw [hself])
  · rw [List.map_congr_left fun r h => writeFrame_eq (hnul r h)]
    exact readAll_connReadFrame hr sizes n

open Lp64 in
/-- A request and its reply. -/
theorem wire_frames_ping :
    (∀ (sizes : Nat → Nat) (n : Nat),
      readAll readFrame n ⟨([ascii "{}"].map connWriteFrame).flatten, sizes⟩ =
        [ascii "{}"].take n) ∧
      ∀ (sizes : Nat → Nat) (n : Nat),
        readAll connReadFrame n ⟨([ascii "[]"].map writeFrame).flatten, sizes⟩ =
          [ascii "[]"].take n := by
  have hall := wire_frames [ascii "{}"] [ascii "[]"] (by unfold Sized; decide)
    (by unfold Sized; decide) (by decide)
  exact ⟨hall.1.mpr (by decide), hall.2⟩

open Lp64 in
/-- A body of 4 MiB and one byte, which the adapter accepts. -/
theorem wire_frames_large : Sized [List.replicate (4 * 1024 * 1024 + 1) 123] ∧
    ¬ ∀ (sizes : Nat → Nat) (n : Nat),
      readAll readFrame n ⟨([List.replicate (4 * 1024 * 1024 + 1) 123].map connWriteFrame).flatten,
        sizes⟩ = [List.replicate (4 * 1024 * 1024 + 1) 123].take n := by
  have hsized : Sized [List.replicate (4 * 1024 * 1024 + 1) (123 : UInt8)] := by
    intro b hb
    rw [List.mem_singleton.mp hb, List.length_replicate]
    decide
  refine ⟨hsized, fun hall => ?_⟩
  have hread := (readAll_readFrame hsized (fun _ => 1) 1).symm.trans (hall (fun _ => 1) 1)
  rw [List.takeWhile_cons, List.length_replicate] at hread
  cases hread

end DisplayxrMcp.Wire
