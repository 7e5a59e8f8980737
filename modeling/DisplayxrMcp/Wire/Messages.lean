/-
  JSON messages on the private wire: frames of texts that cJSON has printed, read by either
  end and parsed by cJSON.

  `readAll_part`: of whole frames and a part of one more, a reader gets the bodies of the
  whole ones, and the last one only if it is all there. So what the peer of the server reads
  of messages is those messages, printed and parsed again (`messages_sent`), and what the
  server reads of any frames is some of them, and then the end (`inbounds_prefix`).
-/
import DisplayxrMcp.Cjson.Printed
import DisplayxrMcp.Rpc
import DisplayxrMcp.Wire.Frame

namespace DisplayxrMcp.Wire

open Lib Cjson Stdio

/-- What the server makes of a body: `cJSON_ParseWithLength`. -/
def received (body : Bytes) : Inbound :=
  match parseWithLength body with
  | .ok j => .msg j
  | .error _ => .junk

/-- What one round of the serve loop reads: a body by `read_frame`, or the end. -/
def inbound [Abi] (src : Source UInt8) : Inbound × Source UInt8 :=
  match readFrame src with
  | none => (.eof, src)
  | some (body, src') => (received body, src')

/-- What `n` rounds of it read. -/
def inbounds [Abi] : Nat → Source UInt8 → List Inbound
  | 0, _ => []
  | n + 1, src => (inbound src).1 :: inbounds n (inbound src).2

/-- What the peer of the server reads: `dxr_conn_read_frame`, and `cJSON_Parse`. -/
def messages [Abi] (n : Nat) (src : Source UInt8) : List (Returns Json) :=
  (readAll connReadFrame n src).map parse

/-- A tree whose text a reader with this limit takes. -/
structure Sendable (limit : Nat) (j : Json) : Prop where
  carried : Carried nestingLimit j
  fits : j.text.length ≤ limit

/-! ## Frames that are not all there -/

/-- Less than a frame is no frame. -/
theorem readFrameWith_cut [Abi] (isKey : Bytes → Bool) (limit : Nat) {b part : Bytes}
    (hmax : b.length ≤ maxMessageBytes) (hpre : part <+: connWriteFrame b)
    (hne : part ≠ connWriteFrame b) (hkey : ∀ n, isKey (lengthLine n ++ [10]) = true)
    (sizes : Nat → Nat) : readFrameWith isKey limit ⟨part, sizes⟩ = none := by
  unfold connWriteFrame at hpre hne
  unfold readFrameWith
  rcases prefix_append_cases hpre with ⟨hcut, hcut'⟩ | ⟨t, rfl, ht⟩
  · have hend := readHeader_cut isKey hmax hcut hcut' sizes
    split
    · rfl
    · next n src₁ he =>
        rw [he] at hend
        split
        · rfl
        · next hcond =>
            simp only [Bool.or_eq_true, decide_eq_true_eq, not_or] at hcond
            rw [Source.readFull_eq, if_neg (by rw [hend]; simp; omega)]
  · have hlt : t.length < b.length := by
      refine Nat.lt_of_le_of_ne ht.length_le fun he => hne ?_
      rw [ht.eq_of_length he]
    rw [readHeader_header hmax (hkey _)]
    dsimp only
    split
    · rfl
    · rw [Source.readFull_eq, if_neg (by simp; omega)]

/-- A frame that is read of a stream of frames, cut anywhere, is the next one. -/
theorem readFrameWith_prefix [Abi] {isKey : Bytes → Bool} {limit : Nat} {bodies : List Bytes}
    (hkey : ∀ n, isKey (lengthLine n ++ [10]) = true) (hb : Sized bodies) {src src' : Source UInt8}
    {b : Bytes} (hpre : src.rest <+: frameBytes bodies)
    (h : readFrameWith isKey limit src = some (b, src')) :
    ∃ bodies', bodies = b :: bodies' ∧ src.rest = connWriteFrame b ++ src'.rest ∧
      src'.rest <+: frameBytes bodies' := by
  obtain ⟨rest, sizes⟩ := src
  cases bodies with
  | nil =>
      have hnil : rest = [] := List.prefix_nil.mp hpre
      rw [hnil, readFrameWith_nil] at h
      cases h
  | cons d bodies =>
      obtain ⟨h1, hmax⟩ := hb d List.mem_cons_self
      rw [frameBytes_cons] at hpre
      rcases prefix_append_cases hpre with ⟨hcut, hne⟩ | ⟨t, rfl, ht⟩
      · rw [readFrameWith_cut isKey limit hmax hcut hne hkey] at h
        cases h
      · rw [readFrameWith_frame hkey h1 hmax] at h
        split at h
        · cases h
          exact ⟨bodies, rfl, rfl, ht⟩
        · cases h

/-- Of whole frames and a part of one more the bodies are read, and the last one if it is all
    there. -/
theorem readAll_part [Abi] {bodies : List Bytes} (hb : Sized bodies) {b part : Bytes}
    (hbody : Sized [b]) (hpre : part <+: connWriteFrame b) (sizes : Nat → Nat) (n : Nat) :
    readAll connReadFrame n ⟨frameBytes bodies ++ part, sizes⟩ =
      (bodies ++ if part = connWriteFrame b then [b] else []).take n := by
  by_cases hall : part = connWriteFrame b
  · have hbytes : frameBytes bodies ++ part = frameBytes (bodies ++ [b]) := by
      unfold frameBytes
      rw [hall, List.map_append, List.flatten_append, List.map_singleton, List.flatten_singleton]
    have hsized : Sized (bodies ++ [b]) := fun d hd =>
      (List.mem_append.mp hd).elim (hb d) (hbody d)
    rw [if_pos hall, hbytes, readAll_connReadFrame hsized]
  · have hnone : connReadFrame ⟨part, sizes⟩ = none :=
      readFrameWith_cut _ _ (hbody b List.mem_cons_self).2 hpre hall adapterKey_lengthLine sizes
    rw [if_neg hall, List.append_nil]
    induction n generalizing bodies with
    | zero => rfl
    | succ n ih =>
        unfold readAll
        cases bodies with
        | nil =>
            rw [show frameBytes [] = [] from rfl, List.nil_append, hnone]
            rfl
        | cons d bodies =>
            obtain ⟨h1, hmax⟩ := hb d List.mem_cons_self
            have hread : connReadFrame ⟨frameBytes (d :: bodies) ++ part, sizes⟩ =
                some (d, ⟨frameBytes bodies ++ part, sizes⟩) := by
              rw [frameBytes_cons, List.append_assoc]
              exact (readFrameWith_frame adapterKey_lengthLine h1 hmax _ sizes).trans (if_pos hmax)
            rw [hread, List.take_succ_cons]
            exact congrArg (d :: ·) (ih hb.tail)

/-! ## Messages -/

theorem text_sized {limit : Nat} (hlimit : limit ≤ maxMessageBytes) {js : List Json}
    (h : ∀ j ∈ js, Sendable limit j) : Sized (js.map Json.text) := by
  intro b hb
  obtain ⟨j, hj, rfl⟩ := List.mem_map.mp hb
  obtain ⟨c, t, ht, -⟩ := text_opens j
  refine ⟨?_, Nat.le_trans (h j hj).fits hlimit⟩
  rw [ht, List.length_cons]
  omega

/-- The text is a C string. -/
theorem writeFrame_text (j : Json) : writeFrame j.text = connWriteFrame j.text :=
  writeFrame_eq fun h => absurd (text_printable j 0 h) (by decide)

theorem frames_text (js : List Json) :
    (js.map fun j => writeFrame j.text).flatten = frameBytes (js.map Json.text) := by
  unfold frameBytes
  rw [List.map_map]
  exact congrArg List.flatten (List.map_congr_left fun j _ => writeFrame_text j)

theorem parse_texts {limit : Nat} {js : List Json} (h : ∀ j ∈ js, Sendable limit j) :
    (js.map Json.text).map parse = js.map fun j => .ok j.reparse := by
  rw [List.map_map]
  exact List.map_congr_left fun j hj => (parse_text (h j hj).carried).2

/-- Of messages, and a part of one more, the peer reads the messages, and the last one if it is
    all there. -/
theorem messages_sent [Abi] {js : List Json} (h : ∀ j ∈ js, Sendable maxMessageBytes j) {k : Json}
    {part : Bytes} (hk : Sendable maxMessageBytes k) (hpart : part <+: writeFrame k.text)
    (sizes : Nat → Nat) (n : Nat) :
    messages n ⟨(js.map fun j => writeFrame j.text).flatten ++ part, sizes⟩ =
      ((js ++ if part = writeFrame k.text then [k] else []).map fun j => .ok j.reparse).take n := by
  have hle : maxMessageBytes ≤ maxMessageBytes := Nat.le_refl _
  have hone : ∀ j ∈ [k], Sendable maxMessageBytes j := List.forall_mem_singleton.mpr hk
  rw [writeFrame_text] at hpart ⊢
  have hmore : (if part = connWriteFrame k.text then [k.text] else [] : List Bytes) =
      (if part = connWriteFrame k.text then [k] else [] : List Json).map Json.text := by
    split
    · rfl
    · rfl
  have hall : ∀ j ∈ js ++ if part = connWriteFrame k.text then [k] else [],
      Sendable maxMessageBytes j := by
    intro j hj
    rcases List.mem_append.mp hj with hj | hj
    · exact h j hj
    · split at hj
      · exact hone j hj
      · exact absurd hj List.not_mem_nil
  unfold messages
  rw [frames_text, readAll_part (text_sized hle h) (text_sized hle hone) hpart, hmore,
    ← List.map_append, List.map_take, parse_texts hall]

/-- The server takes a frame of at most 4 MiB. -/
theorem inbound_frame [Abi] {b : Bytes} (h1 : 1 ≤ b.length) (hmax : b.length ≤ maxFrameBytes)
    (t : Bytes) (sizes : Nat → Nat) :
    inbound ⟨connWriteFrame b ++ t, sizes⟩ = (received b, ⟨t, sizes⟩) := by
  have hle : b.length ≤ maxMessageBytes := Nat.le_trans hmax (by decide)
  unfold inbound readFrame
  rw [readFrameWith_frame serverKey_lengthLine h1 hle, if_pos hmax]

theorem received_text {j : Json} (h : Carried nestingLimit j) : received j.text = .msg j.reparse := by
  unfold received
  rw [(parse_text h).1]

theorem inbounds_end [Abi] {src : Source UInt8} (h : readFrame src = none) (n : Nat) :
    inbounds n src = List.replicate n .eof := by
  induction n with
  | zero => rfl
  | succ n ih =>
      have hend : inbound src = (.eof, src) := by
        unfold inbound
        rw [h]
      unfold inbounds
      rw [hend, List.replicate_succ]
      exact congrArg (.eof :: ·) ih

/-- Of a stream of frames, cut anywhere, the server reads some, and then the end. -/
theorem inbounds_prefix [Abi] {bodies : List Bytes} (hb : Sized bodies) {src : Source UInt8}
    (hpre : src.rest <+: frameBytes bodies) : ∃ k ≤ bodies.length, ∀ n, inbounds n src =
      ((bodies.take k).map received).take n ++ List.replicate (n - k) .eof := by
  induction bodies generalizing src with
  | nil =>
      refine ⟨0, Nat.le_refl 0, fun n => ?_⟩
      obtain ⟨rest, sizes⟩ := src
      have hnil : rest = [] := List.prefix_nil.mp hpre
      rw [hnil, inbounds_end (readFrameWith_nil _ _ sizes)]
      simp
  | cons d bodies ih =>
      cases hread : readFrame src with
      | none =>
          refine ⟨0, Nat.zero_le _, fun n => ?_⟩
          rw [inbounds_end hread]
          simp
      | some p =>
          obtain ⟨b, src'⟩ := p
          obtain ⟨bodies', he, -, hrest⟩ := readFrameWith_prefix serverKey_lengthLine hb hpre hread
          cases he
          obtain ⟨k, hk, hall⟩ := ih hb.tail hrest
          refine ⟨k + 1, Nat.succ_le_succ hk, fun n => ?_⟩
          cases n with
          | zero => simp [inbounds]
          | succ n =>
              have hfirst : inbound src = (received d, src') := by
                unfold inbound
                rw [hread]
              unfold inbounds
              rw [hfirst]
              dsimp only
              rw [hall, List.take_succ_cons, List.map_cons, List.take_succ_cons, Nat.succ_sub_succ,
                List.cons_append]

end DisplayxrMcp.Wire
