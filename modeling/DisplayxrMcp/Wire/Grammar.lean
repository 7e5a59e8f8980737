/-
  The frame grammar of the private wire, and which streams `readFrameWith` reads
  outside it.

  The header loop ends in two ways: at a line that starts with CR or LF, and where
  `read_line` gives up, at the end of the stream or with its buffer full; the code
  behind it is the same for both. `exists_header` takes every stream apart this way,
  and `readsFrames_iff` says which of these streams give a body that is no frame's.
-/
import DisplayxrMcp.Wire.Frame

namespace DisplayxrMcp.Wire

open Lib Stdio

/-! ## The grammar -/

/-- An LF-terminated line that fits `line`. -/
def Fits (l : Bytes) : Prop := (∃ l', 10 ∉ l' ∧ l = l' ++ [10]) ∧ l.length ≤ 255

/-- A blank line: LF or CRLF alone. -/
def Blank (l : Bytes) : Prop := l = [10] ∨ l = [13, 10]

/-- The text behind the key of the last Content-Length line. -/
def lastText (isKey : Bytes → Bool) (lines : List Bytes) : Option Bytes :=
  (lines.filter isKey).getLast?.map (List.drop clKeyLen)

/-- White space, an unsigned decimal numeral of the value `n`, and what is left of the text;
    `around` says what may stand around the digits. -/
def Numeral (around : Bytes → Bytes → Prop) (text : Bytes) (n : Nat) : Prop :=
  ∃ sp ds tail, text = sp ++ ds ++ tail ∧ (∀ c ∈ sp, isSpace c = true) ∧ ds ≠ [] ∧
    (∀ c ∈ ds, isDigit c = true) ∧ (∀ c ∈ tail.head?, isDigit c = false) ∧ around sp tail ∧
    digitsValue ds = n

/-- A frame: header lines, a blank line, and a body as long as the last Content-Length line says. -/
def IsFrame (around : Bytes → Bytes → Prop) (bytes body : Bytes) : Prop :=
  ∃ lines blank text, bytes = lines.flatten ++ blank ++ body ∧
    (∀ l ∈ lines, Fits l ∧ ¬ Blank l) ∧ Blank blank ∧ lastText serverKey lines = some text ∧
    Numeral around text body.length

/-- What the reader takes off the stream when it returns a body is a frame with that body. -/
def ReadsFrames (around : Bytes → Bytes → Prop)
    (read : Source UInt8 → Option (Bytes × Source UInt8)) (src : Source UInt8) : Prop :=
  ∀ body src', read src = some (body, src') →
    ∃ bytes, src.rest = bytes ++ src'.rest ∧ IsFrame around bytes body

/-! ## What the header loop does -/

/-- A line after which the header loop goes on. -/
def Plain (l : Bytes) : Prop := Fits l ∧ l.head? ≠ some 13 ∧ l.head? ≠ some 10

/-- Where the header loop ends: a line that starts with CR or LF, a full buffer without a line
    feed, or the end of the stream. -/
inductive Stop : Bytes → Bytes → Prop where
  | line {stop rest} (hfit : Fits stop) (hhead : stop.head? = some 13 ∨ stop.head? = some 10) :
      Stop stop rest
  | full {stop rest} (hno : 10 ∉ stop) (hlen : stop.length = 255) : Stop stop rest
  | ended {stop} (hno : 10 ∉ stop) (hlen : stop.length < 255) : Stop stop []

/-- The stream has a body where the header loop ends, and what stands before it is no header: the
    buffer is full, or the last line starts with CR and is not blank, or the last Content-Length
    line has no unsigned numeral. -/
def Misread [Abi] (around : Bytes → Bytes → Prop) (isKey : Bytes → Bool) (limit : Nat) (u : Bytes) :
    Prop :=
  ∃ lines stop rest text, u = lines.flatten ++ stop ++ rest ∧ (∀ l ∈ lines, Plain l) ∧
    lastText isKey lines = some text ∧ 1 ≤ strtoul text ∧ strtoul text ≤ limit ∧
    strtoul text ≤ rest.length ∧
    ((10 ∉ stop ∧ stop.length = 255) ∨ (Fits stop ∧ stop.head? = some 13 ∧ ¬ Blank stop) ∨
      (Blank stop ∧ ∀ t n, lastText serverKey lines = some t → ¬ Numeral around t n))

theorem Blank.fits {l : Bytes} (h : Blank l) : Fits l := by
  rcases h with rfl | rfl
  · exact ⟨⟨[], List.not_mem_nil, rfl⟩, by decide⟩
  · exact ⟨⟨[13], by decide, rfl⟩, by decide⟩

theorem Blank.head {l : Bytes} (h : Blank l) : l.head? = some 13 ∨ l.head? = some 10 := by
  rcases h with rfl | rfl
  · exact Or.inr rfl
  · exact Or.inl rfl

/-- A line that starts with LF is blank. -/
theorem Fits.blank {l : Bytes} (h : Fits l) (hhead : l.head? = some 10) : Blank l := by
  obtain ⟨⟨l', hno, rfl⟩, -⟩ := h
  cases l' with
  | nil => exact Or.inl rfl
  | cons c l' =>
      cases hhead
      exact absurd List.mem_cons_self hno

theorem Plain.not_blank {l : Bytes} (h : Plain l) : ¬ Blank l := fun hb =>
  hb.head.elim h.2.1 h.2.2

theorem readLine_fits {l : Bytes} (h : Fits l) (t : Bytes) (sizes : Nat → Nat) :
    readLine 255 ⟨l ++ t, sizes⟩ = (some l, ⟨t, sizes⟩) := by
  obtain ⟨⟨l', hno, rfl⟩, hlen⟩ := h
  rw [List.length_append, List.length_singleton] at hlen
  rw [List.append_assoc]
  exact readLine_line hno (by omega) t sizes

/-- The buffer is full before the line feed. -/
theorem readLine_full {l : Bytes} (hno : 10 ∉ l) (t : Bytes) (sizes : Nat → Nat) :
    readLine l.length ⟨l ++ t, sizes⟩ = (none, ⟨t, sizes⟩) := by
  induction l with
  | nil => rfl
  | cons c l ih =>
      have hc : c ≠ 10 := fun h => hno (h ▸ List.mem_cons_self)
      have hrec := ih fun h => hno (List.mem_cons_of_mem _ h)
      rw [List.length_cons, List.cons_append, readLine_cons, if_neg hc, hrec]
      rfl

/-- The header loop ends. -/
theorem readHeader_stop [Abi] {isKey : Bytes → Bool} {stop rest : Bytes} (h : Stop stop rest)
    (sizes : Nat → Nat) (length : Option Nat) :
    readHeader isKey ⟨stop ++ rest, sizes⟩ length = (length, ⟨rest, sizes⟩) := by
  cases h with
  | line hfit hhead =>
      rw [readHeader_of_some (readLine_fits hfit rest sizes), if_pos]
      rw [Bool.or_eq_true, decide_eq_true_eq, decide_eq_true_eq]
      exact hhead
  | full hno hlen =>
      have hread := readLine_full hno rest sizes
      rw [hlen] at hread
      exact readHeader_of_none hread
  | ended hno hlen =>
      rw [List.append_nil]
      exact readHeader_of_none (readLine_end hno hlen sizes)

theorem lastText_append (isKey : Bytes → Bool) (lines : List Bytes) (l : Bytes) :
    lastText isKey (lines ++ [l]) =
      if isKey l then some (l.drop clKeyLen) else lastText isKey lines := by
  unfold lastText
  rw [List.filter_append]
  by_cases h : isKey l = true
  · rw [if_pos h, List.filter_cons_of_pos h, List.filter_nil, List.getLast?_concat]
    rfl
  · rw [if_neg h, List.filter_cons_of_neg h, List.filter_nil, List.append_nil]

/-- The header loop over the lines before its end: the last Content-Length line counts. -/
theorem readHeader_lines [Abi] {isKey : Bytes → Bool} {lines : List Bytes}
    (h : ∀ l ∈ lines, Plain l) (u : Bytes) (sizes : Nat → Nat) :
    readHeader isKey ⟨lines.flatten ++ u, sizes⟩ none =
      readHeader isKey ⟨u, sizes⟩ ((lastText isKey lines).map strtoul) := by
  induction lines using List.reverseRecOn generalizing u with
  | nil => rfl
  | append_singleton lines l ih =>
      obtain ⟨hfit, h13, h10⟩ := h l (by simp)
      have hgo : ¬ (l.head? = some 13 || l.head? = some 10) = true := by
        rw [Bool.or_eq_true, decide_eq_true_eq, decide_eq_true_eq]
        exact fun hh => hh.elim h13 h10
      rw [List.flatten_append, List.flatten_singleton, List.append_assoc,
        ih (fun l hl => h l (List.mem_append_left _ hl)),
        readHeader_of_some (readLine_fits hfit u sizes), if_neg hgo, lastText_append]
      by_cases hk : isKey l = true
      · rw [if_pos hk, if_pos hk]
        rfl
      · rw [if_neg hk, if_neg hk]

/-- Every stream is some header lines and an end of the header loop. -/
theorem exists_header (u : Bytes) :
    ∃ (lines : List Bytes) (stop rest : Bytes), u = lines.flatten ++ stop ++ rest ∧
      (∀ l ∈ lines, Plain l) ∧ Stop stop rest := by
  induction hn : u.length using Nat.strong_induction_on generalizing u with
  | _ n ih =>
      subst hn
      by_cases hmem : 10 ∈ u.take 255
      · obtain ⟨l, t, htake, hno⟩ := List.eq_append_cons_of_mem hmem
        have hlen : (l ++ [10]).length ≤ 255 := by
          have hle := congrArg List.length htake
          simp only [List.length_take, List.length_append, List.length_cons] at hle ⊢
          simp only [List.length_nil]
          omega
        have hfit : Fits (l ++ [10]) := ⟨⟨l, hno, rfl⟩, hlen⟩
        have hu : u = l ++ [10] ++ (t ++ u.drop 255) := by
          conv_lhs => rw [← List.take_append_drop 255 u, htake]
          simp
        by_cases hhead : (l ++ [10]).head? = some 13 ∨ (l ++ [10]).head? = some 10
        · exact ⟨[], l ++ [10], t ++ u.drop 255, hu, List.forall_mem_nil _, .line hfit hhead⟩
        · have hlt : (t ++ u.drop 255).length < u.length := by
            conv_rhs => rw [hu]
            simp only [List.length_append, List.length_singleton]
            omega
          obtain ⟨lines, stop, rest, hrest, hlines, hstop⟩ := ih _ hlt (t ++ u.drop 255) rfl
          rw [hrest] at hu
          refine ⟨(l ++ [10]) :: lines, stop, rest, ?_, ?_, hstop⟩
          · rw [hu, List.flatten_cons]
            simp only [List.append_assoc]
          · intro l' hl'
            rcases List.mem_cons.mp hl' with rfl | hl'
            · exact ⟨hfit, not_or.mp hhead⟩
            · exact hlines l' hl'
      · by_cases hlen : u.length < 255
        · rw [List.take_of_length_le (Nat.le_of_lt hlen)] at hmem
          exact ⟨[], u, [], by simp, List.forall_mem_nil _, .ended hmem hlen⟩
        · refine ⟨[], u.take 255, u.drop 255, by simp, List.forall_mem_nil _, .full hmem ?_⟩
          rw [List.length_take]
          omega

/-! ## One decomposition -/

/-- Lines that end with LF and hold no other are found again in their bytes. -/
theorem flatten_inj {lines lines' : List Bytes} (h : ∀ l ∈ lines, Fits l)
    (h' : ∀ l ∈ lines', Fits l) (he : lines.flatten = lines'.flatten) : lines = lines' := by
  induction lines generalizing lines' with
  | nil =>
      cases lines' with
      | nil => rfl
      | cons m lines' =>
          obtain ⟨⟨m', -, rfl⟩, -⟩ := h' m List.mem_cons_self
          simp at he
  | cons l lines ih =>
      obtain ⟨⟨l', hno, rfl⟩, -⟩ := h l List.mem_cons_self
      cases lines' with
      | nil => simp at he
      | cons m lines' =>
          obtain ⟨⟨m', hno', rfl⟩, -⟩ := h' m List.mem_cons_self
          rw [List.flatten_cons, List.flatten_cons, List.append_assoc, List.append_assoc] at he
          obtain ⟨rfl, hrest⟩ := line_inj hno hno' he
          rw [ih (fun l hl => h l (List.mem_cons_of_mem _ hl))
            (fun l hl => h' l (List.mem_cons_of_mem _ hl)) hrest]

/-- The bytes before the body have one end of the header loop. -/
theorem blank_of_eq {lines lines' : List Bytes} {stop blank : Bytes} (h : ∀ l ∈ lines, Plain l)
    (h' : ∀ l ∈ lines', Fits l ∧ ¬ Blank l) (hblank : Blank blank)
    (hstop : Fits stop ∨ (10 ∉ stop ∧ stop ≠ []))
    (he : lines.flatten ++ stop = lines'.flatten ++ blank) : lines = lines' ∧ stop = blank := by
  rcases hstop with hfit | ⟨hno, hne⟩
  · have hall : ∀ l ∈ lines ++ [stop], Fits l := by
      intro l hl
      rcases List.mem_append.mp hl with hl | hl
      · exact (h l hl).1
      · exact List.mem_singleton.mp hl ▸ hfit
    have hall' : ∀ l ∈ lines' ++ [blank], Fits l := by
      intro l hl
      rcases List.mem_append.mp hl with hl | hl
      · exact (h' l hl).1
      · exact List.mem_singleton.mp hl ▸ hblank.fits
    have heq := flatten_inj hall hall' (by simpa using he)
    obtain ⟨hlines, hlast⟩ := List.append_inj' heq rfl
    exact ⟨hlines, List.singleton_inj.mp hlast⟩
  · -- the last byte is a line feed on one side only
    have hlast := congrArg List.getLast? he
    obtain ⟨⟨b, -, rfl⟩, -⟩ := hblank.fits
    rw [← List.append_assoc, List.getLast?_concat, List.getLast?_append_of_ne_nil _ hne] at hlast
    exact absurd (List.mem_of_getLast? hlast) hno

/-! ## Which bodies are frames -/

/-- A numeral is read by `strtoul`, as long as it is in range. -/
theorem Numeral.strtoul [abi : Abi] {around : Bytes → Bytes → Prop} {text : Bytes} {n : Nat}
    (h : Numeral around text n) :
    Lib.strtoul text = if 2 ^ abi.long ≤ n then 2 ^ abi.long - 1 else n := by
  obtain ⟨sp, ds, tail, rfl, hsp, hne, hds, htail, -, rfl⟩ := h
  exact strtoul_digits hsp hne hds htail

/-- Behind the white space the text has a sign. -/
def Signed (text : Bytes) : Prop := ∃ c ∈ (text.dropWhile isSpace).head?, c = 45 ∨ c = 43

/-- A text that `strtoul` reads as a length has a numeral, unless it has a sign. -/
theorem exists_numeral_iff [Abi] {text : Bytes} (h : 1 ≤ Lib.strtoul text) :
    (∃ n, Numeral (fun _ _ => True) text n) ↔ ¬ Signed text := by
  constructor
  · rintro ⟨n, sp, ds, tail, rfl, hsp, hne, hds, -⟩ ⟨c, hc, hsigned⟩
    obtain ⟨d, ds, rfl⟩ := List.exists_cons_of_ne_nil hne
    obtain ⟨hspace, hsign⟩ := not_isSpace_of_isDigit (hds d List.mem_cons_self)
    rw [List.append_assoc, List.dropWhile_append_of_pos hsp, List.cons_append, List.dropWhile_cons,
      hspace, if_neg (by decide)] at hc
    cases hc
    exact hsigned.elim hsign.1 hsign.2
  · intro hsign
    have htake : takeSign (text.dropWhile isSpace) = (false, text.dropWhile isSpace) := by
      unfold takeSign
      split
      · next s he => exact absurd ⟨45, by rw [he]; rfl, Or.inl rfl⟩ hsign
      · next s he => exact absurd ⟨43, by rw [he]; rfl, Or.inr rfl⟩ hsign
      · rfl
    refine ⟨_, text.takeWhile isSpace, (text.dropWhile isSpace).takeWhile isDigit,
      (text.dropWhile isSpace).dropWhile isDigit, ?_, fun c hc => List.mem_takeWhile_imp hc, ?_,
      fun c hc => List.mem_takeWhile_imp hc, ?_, trivial, rfl⟩
    · rw [List.append_assoc, List.takeWhile_append_dropWhile, List.takeWhile_append_dropWhile]
    · intro hnil
      unfold Lib.strtoul at h
      simp only [htake, hnil] at h
      exact absurd (h.trans_eq strtoul_nil) (by decide)
    · intro c hc
      have hhead := List.head?_dropWhile_not isDigit (text.dropWhile isSpace)
      rw [Option.mem_def.mp hc] at hhead
      exact hhead

/-- A test for the key that only misses lines without a numeral. -/
structure FindsKey (isKey : Bytes → Bool) : Prop where
  sound : ∀ l, isKey l = true → serverKey l = true
  complete : ∀ {around l n}, serverKey l = true → Fits l → Numeral around (l.drop clKeyLen) n →
    isKey l = true

/-- Where the last Content-Length line has a numeral, it is the last that the reader takes. -/
theorem FindsKey.lastText {isKey : Bytes → Bool} (hk : FindsKey isKey)
    {around : Bytes → Bytes → Prop} {lines : List Bytes} (hlines : ∀ l ∈ lines, Fits l)
    {text : Bytes} {n : Nat} (h : lastText serverKey lines = some text)
    (hnum : Numeral around text n) : lastText isKey lines = some text := by
  induction lines using List.reverseRecOn with
  | nil => cases h
  | append_singleton lines l ih =>
      rw [lastText_append] at h ⊢
      by_cases hs : serverKey l = true
      · rw [if_pos hs] at h
        cases h
        rw [if_pos (hk.complete hs (hlines l (by simp)) hnum)]
      · rw [if_neg hs] at h
        rw [if_neg fun hi => hs (hk.sound l hi)]
        exact ih (fun l hl => hlines l (List.mem_append_left _ hl)) h

/-- A frame is read where the header loop ends, if the length is in range and the body is there. -/
theorem readFrameWith_stop [Abi] {isKey : Bytes → Bool} {limit : Nat} {lines : List Bytes}
    {stop rest : Bytes} (hlines : ∀ l ∈ lines, Plain l) (hstop : Stop stop rest) (sizes : Nat → Nat)
    (body : Bytes) (src : Source UInt8) :
    readFrameWith isKey limit ⟨lines.flatten ++ stop ++ rest, sizes⟩ = some (body, src) ↔
      ∃ text, lastText isKey lines = some text ∧ 1 ≤ strtoul text ∧ strtoul text ≤ limit ∧
        strtoul text ≤ rest.length ∧ body = rest.take (strtoul text) ∧
        src = ⟨rest.drop (strtoul text), sizes⟩ := by
  unfold readFrameWith
  rw [List.append_assoc, readHeader_lines hlines, readHeader_stop hstop]
  cases hlast : lastText isKey lines with
  | none => simp
  | some text =>
      rw [Option.map_some]
      dsimp only
      rw [Source.readFull_eq]
      constructor
      · intro h
        split at h
        · cases h
        · next hrange =>
            rw [Bool.or_eq_true, decide_eq_true_eq, decide_eq_true_eq, not_or] at hrange
            split at h
            · next hle =>
                cases h
                exact ⟨text, rfl, by omega, by omega, hle, rfl, rfl⟩
            · cases h
      · rintro ⟨text', ht, h1, hlimit, hle, rfl, rfl⟩
        cases ht
        rw [if_neg, if_pos hle]
        rw [Bool.or_eq_true, decide_eq_true_eq, decide_eq_true_eq]
        omega

/-- A reader reads frames only, unless the stream is misread. -/
theorem readsFrames_iff [abi : Abi] {isKey : Bytes → Bool} (hk : FindsKey isKey) {limit : Nat}
    (hlimit : limit < 2 ^ 32 - 1) (around : Bytes → Bytes → Prop) (src : Source UInt8) :
    ReadsFrames around (readFrameWith isKey limit) src ↔
      ¬ Misread around isKey limit src.rest := by
  obtain ⟨u, sizes⟩ := src
  constructor
  · rintro hall ⟨lines, stop, rest, text, hu, hlines, hlast, h1, hle, hrest, hkind⟩
    dsimp only at hu
    subst hu
    have hstop : Stop stop rest := by
      rcases hkind with ⟨hno, hlen⟩ | ⟨hfit, hhead, -⟩ | ⟨hblank, -⟩
      · exact .full hno hlen
      · exact .line hfit (Or.inl hhead)
      · exact .line hblank.fits hblank.head
    have hread : readFrameWith isKey limit ⟨lines.flatten ++ stop ++ rest, sizes⟩ =
        some (rest.take (strtoul text), ⟨rest.drop (strtoul text), sizes⟩) :=
      (readFrameWith_stop hlines hstop sizes _ _).mpr ⟨text, hlast, h1, hle, hrest, rfl, rfl⟩
    obtain ⟨bytes, hbytes, lines', blank, text', rfl, hlines', hblank, hlast', hnum⟩ :=
      hall _ _ hread
    have heq : lines.flatten ++ stop = lines'.flatten ++ blank := by
      rw [List.append_assoc (lines'.flatten ++ blank), List.take_append_drop] at hbytes
      exact List.append_cancel_right hbytes
    rcases hkind with ⟨hno, hlen⟩ | ⟨hfit, -, hb⟩ | ⟨hb, hnone⟩
    · have hne : stop ≠ [] := List.ne_nil_of_length_eq_add_one (n := 254) hlen
      obtain ⟨-, rfl⟩ := blank_of_eq hlines hlines' hblank (Or.inr ⟨hno, hne⟩) heq
      have hmem := hblank
      rcases hmem with rfl | rfl <;> exact absurd hno (by decide)
    · obtain ⟨-, rfl⟩ := blank_of_eq hlines hlines' hblank (Or.inl hfit) heq
      exact hb hblank
    · obtain ⟨rfl, -⟩ := blank_of_eq hlines hlines' hblank (Or.inl hb.fits) heq
      exact hnone text' _ hlast' hnum
  · intro hmis body src' hread
    obtain ⟨lines, stop, rest, rfl, hlines, hstop⟩ := exists_header u
    obtain ⟨text, hlast, h1, hle, hrest, rfl, rfl⟩ :=
      (readFrameWith_stop hlines hstop sizes body src').mp hread
    have hnot := fun hkind =>
      hmis ⟨lines, stop, rest, text, rfl, hlines, hlast, h1, hle, hrest, hkind⟩
    have hblank : Blank stop := by
      cases hstop with
      | line hfit hhead =>
          by_contra hb
          rcases hhead with h13 | h10
          · exact hnot (Or.inr (Or.inl ⟨hfit, h13, hb⟩))
          · exact hb (hfit.blank h10)
      | full hno hlen => exact absurd (Or.inl ⟨hno, hlen⟩) hnot
      | ended hno hlen =>
          rw [List.length_nil] at hrest
          omega
    have hnum : ∃ t n, lastText serverKey lines = some t ∧ Numeral around t n := by
      by_contra hnone
      exact hnot (Or.inr (Or.inr ⟨hblank, fun t n ht hn => hnone ⟨t, n, ht, hn⟩⟩))
    obtain ⟨t, n, hserver, hnum⟩ := hnum
    have hsame := hk.lastText (fun l hl => (hlines l hl).1) hserver hnum
    rw [hlast] at hsame
    cases hsame
    have hval := hnum.strtoul
    have hn : strtoul text = n := by
      have hlong := abi.pow_le
      split at hval
      · omega
      · exact hval
    refine ⟨lines.flatten ++ stop ++ rest.take (strtoul text), by simp, lines, stop, text, rfl,
      fun l hl => ⟨(hlines l hl).1, (hlines l hl).not_blank⟩, hblank, hserver, ?_⟩
    rw [List.length_take, Nat.min_eq_left hrest, hn]
    exact hnum

/-! ## The two readers -/

theorem findsKey_server : FindsKey serverKey := ⟨fun _ h => h, fun h _ _ => h⟩

/-- A Content-Length line that the adapter does not take has a NUL right behind the key. -/
theorem adapterKey_of_serverKey {l : Bytes} (h : serverKey l = true) (hl : Fits l)
    (hnul : (l.drop clKeyLen).head? ≠ some 0) : adapterKey l = true := by
  unfold serverKey at h
  unfold adapterKey
  rw [h, Bool.and_true, decide_eq_true_eq]
  have hkey : (l.take clKeyLen).map lower = clKey := beq_iff_eq.mp h
  have hlen : (l.take clKeyLen).length = clKeyLen := by
    have hmap := congrArg List.length hkey
    rwa [List.length_map] at hmap
  have hzero : ∀ c ∈ l.take clKeyLen, decide (c ≠ 0) = true := by
    intro c hc
    rw [decide_eq_true_eq]
    rintro rfl
    have hmem := List.mem_map_of_mem (f := lower) hc
    rw [hkey] at hmem
    exact absurd hmem (by decide)
  obtain ⟨⟨l', hno, rfl⟩, -⟩ := hl
  cases hd : (l' ++ [10]).drop clKeyLen with
  | nil =>
      -- the last byte of the key is no line feed
      have htake := List.take_of_length_le (List.drop_eq_nil_iff.mp hd)
      rw [htake] at hkey
      have hlast := congrArg List.getLast? hkey
      rw [List.map_append, List.map_singleton, List.getLast?_concat] at hlast
      exact absurd hlast (by decide)
  | cons c d =>
      rw [hd] at hnul
      have hc : decide (c ≠ 0) = true := by
        rw [decide_eq_true_eq]
        rintro rfl
        exact hnul rfl
      have hsplit := List.take_append_drop clKeyLen (l' ++ [10])
      rw [hd] at hsplit
      rw [← hsplit, List.takeWhile_append_of_pos hzero, List.takeWhile_cons, if_pos hc,
        List.length_append, hlen, List.length_cons]
      omega

theorem findsKey_adapter : FindsKey adapterKey := by
  refine ⟨fun l h => (Bool.and_eq_true_iff.mp h).2, fun {around l n} hs hl hnum => ?_⟩
  refine adapterKey_of_serverKey hs hl fun hzero => ?_
  obtain ⟨sp, ds, tail, he, hsp, hne, hds, -⟩ := hnum
  rw [he] at hzero
  obtain ⟨d, ds, rfl⟩ := List.exists_cons_of_ne_nil hne
  cases sp with
  | nil =>
      cases hzero
      exact absurd (hds 0 List.mem_cons_self) (by decide)
  | cons c sp =>
      cases hzero
      exact absurd (hsp 0 List.mem_cons_self) (by decide)

/-- The bodies that the server's reader and the adapter's return are frames of the grammar, whatever
    it allows around the digits, exactly on the streams that are not misread. Where it allows
    anything, only a sign makes a length that is no numeral. -/
theorem wire_grammar [Abi] (around : Bytes → Bytes → Prop) (src : Source UInt8) :
    (ReadsFrames around readFrame src ↔ ¬ Misread around serverKey maxFrameBytes src.rest) ∧
      (ReadsFrames around connReadFrame src ↔
        ¬ Misread around adapterKey maxMessageBytes src.rest) ∧
      ∀ text, 1 ≤ strtoul text → ((∃ n, Numeral (fun _ _ => True) text n) ↔ ¬ Signed text) :=
  ⟨readsFrames_iff findsKey_server (by decide) around src,
    readsFrames_iff findsKey_adapter (by decide) around src, fun _ => exists_numeral_iff⟩

/-- A header line of 256 bytes between the Content-Length line and a body. -/
def overlong : Bytes := ascii "Content-Length: 2\r\n" ++ List.replicate 255 88 ++ ascii "ok"

open Lp64 in
/-- Both readers take the body from behind the 255th byte of the line. -/
theorem wire_grammar_overlong : ¬ (ReadsFrames (fun _ _ => True) readFrame ⟨overlong, fun _ => 1⟩ ∧
    ReadsFrames (fun _ _ => True) connReadFrame ⟨overlong, fun _ => 1⟩) := by
  intro h
  refine (readsFrames_iff findsKey_server (by decide) _ _).mp h.1
    ⟨[ascii "Content-Length: 2\r\n"], List.replicate 255 88, ascii "ok",
      ascii " 2\r\n", rfl, ?_, by decide, by decide, by decide, by decide, Or.inl ?_⟩
  · intro l hl
    cases List.mem_singleton.mp hl
    exact ⟨⟨⟨ascii "Content-Length: 2\r", by decide, rfl⟩, by decide⟩, by decide, by decide⟩
  · exact ⟨fun hmem => absurd (List.eq_of_mem_replicate hmem) (by decide), List.length_replicate⟩

end DisplayxrMcp.Wire
