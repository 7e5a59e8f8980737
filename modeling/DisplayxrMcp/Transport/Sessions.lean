/-
  Socket names and the enumeration of sessions (src/mcp_transport.c, POSIX).

  `mcp_enumerate_sessions` checks both ends of a file name and hands what is between to
  `strtol`, which stops where it likes. So `007`, `+7` and the role `7d` all are session
  7 to it, and a number out of range is session `LONG_MAX`. `enumerate_inverts_iff`: the
  enumeration undoes the naming exactly in the directories without such a file.
-/
import DisplayxrMcp.Lib.Strtol
import Mathlib.Data.List.Pairwise

namespace DisplayxrMcp.Transport

open Lib

/-- The directory of the sockets. -/
def tmpDir : CStr := ascii "/tmp/"

/-- `prefix` of `mcp_enumerate_sessions`. -/
def filePrefix : CStr := ascii "displayxr-mcp-"

/-- `SOCK_PREFIX`. -/
def sockPrefix : CStr := tmpDir ++ filePrefix

/-- `SOCK_SUFFIX`. -/
def sockSuffix : CStr := ascii ".sock"

/-- `%ld`. -/
def longDecimal (v : ℤ) : CStr := if v < 0 then minus :: decimal v.natAbs else decimal v.toNat

/-- `build_sock_path` into a buffer of 128 bytes. -/
def buildSockPath (pid : ℤ) : CStr := snprintf 128 (sockPrefix ++ longDecimal pid ++ sockSuffix)

/-- `build_sock_path_named` into a buffer of 128 bytes. -/
def buildSockPathNamed (role : CStr) : CStr := snprintf 128 (sockPrefix ++ role ++ sockSuffix)

/-- The file name of a path in `/tmp`. -/
def fileOf (path : CStr) : CStr := path.drop tmpDir.length

/-- The checks on the ends of a name. -/
def Matches (name : CStr) : Prop :=
  filePrefix.length + sockSuffix.length < name.length ∧
    name.take filePrefix.length = filePrefix ∧
    name.drop (name.length - sockSuffix.length) = sockSuffix

instance : DecidablePred Matches := fun _ => inferInstanceAs (Decidable (_ ∧ _ ∧ _))

/-- The pid that one turn of the loop takes from a name. -/
def sessionPid (w : Nat) (name : CStr) : Option ℤ :=
  if Matches name then
    match strtol w (name.drop filePrefix.length) with
    | some (pid, _) => if pid ≤ 0 then none else some pid
    | none => none
  else none

/-- The loop of `mcp_enumerate_sessions` over the rest of the directory. -/
def enumerateLoop (w : Nat) : Nat → List CStr → List ℤ
  | _, [] => []
  | 0, _ :: _ => []
  | room + 1, name :: rest =>
      match sessionPid w name with
      | some pid => pid :: enumerateLoop w room rest
      | none => enumerateLoop w (room + 1) rest

/-- `mcp_enumerate_sessions`; `dir` is the listing, `none` when it cannot be opened. -/
def enumerateSessions (w : Nat) (dir : Option (List CStr)) (cap : Nat) : List ℤ :=
  match dir with
  | some listing => enumerateLoop w cap listing
  | none => []

/-- Decimal of a pid that `long` can hold. -/
def PlainPid (w : Nat) (x : CStr) : Prop := ∃ n : Nat, 0 < n ∧ n < 2 ^ (w - 1) ∧ x = decimal n

/-- White space, perhaps a `+`, then the digits of a positive number. -/
def ReadsPositive (y : CStr) : Prop :=
  ∃ sp sign ds rest, Scanned y sp sign ds rest ∧ sign ≠ [minus] ∧ 0 < digitsValue ds

/-- What the naming of sockets makes of a listing. -/
structure Inverts (w : Nat) (listing : List CStr) (cap : Nat) : Prop where
  exact : ∀ p : ℤ, 0 < p → p < 2 ^ (w - 1) →
    (p ∈ enumerateSessions w (some listing) cap ↔ fileOf (buildSockPath p) ∈ listing)
  once : (enumerateSessions w (some listing) cap).Nodup
  roles : ∀ role, fileOf (buildSockPathNamed role) ∈ listing → ¬ PlainPid w role →
    enumerateSessions w (some (listing.filter fun n => decide (n ≠ fileOf (buildSockPathNamed role))))
      cap = enumerateSessions w (some listing) cap

/-! ## Names -/

/-- The name of the socket `x`. -/
def sockFile (x : CStr) : CStr := filePrefix ++ (x ++ sockSuffix)

theorem lengths : tmpDir.length = 5 ∧ filePrefix.length = 14 ∧ sockSuffix.length = 5 := by decide

theorem sockFile_inj {x y : CStr} (h : sockFile x = sockFile y) : x = y :=
  List.append_cancel_right (List.append_cancel_left h)

/-- A path that fits names the whole file. -/
theorem fileOf_sockPath {x : CStr} (h : x.length ≤ 98) :
    fileOf (snprintf 128 (sockPrefix ++ x ++ sockSuffix)) = sockFile x := by
  obtain ⟨hdir, hpre, hsuf⟩ := lengths
  rw [snprintf_of_length_lt]
  · rw [fileOf, sockPrefix, sockFile, List.append_assoc, List.append_assoc,
      List.drop_left]
  · rw [sockPrefix, List.length_append, List.length_append, List.length_append]
    omega

theorem decimal_length_pid {n : Nat} (h : n < 2 ^ 63) : (decimal n).length ≤ 19 := by
  unfold decimal
  rw [List.length_map]
  exact (Nat.length_toDigits_le_iff (by decide) (by decide)).mpr (lt_trans h (by decide))

theorem fileOf_buildSockPath {n : Nat} (hn : n < 2 ^ 63) :
    fileOf (buildSockPath n) = sockFile (decimal n) := by
  have hlen := decimal_length_pid hn
  unfold buildSockPath longDecimal
  rw [if_neg (by omega), Int.toNat_natCast]
  exact fileOf_sockPath (by omega)

/-- A name that a role's path is cut to is too long for a pid's. -/
theorem buildSockPathNamed_pid {role : CStr} {n : Nat} (hn : n < 2 ^ 63)
    (h : fileOf (buildSockPathNamed role) = sockFile (decimal n)) : role = decimal n := by
  obtain ⟨hdir, hpre, hsuf⟩ := lengths
  by_cases hrole : role.length ≤ 98
  · unfold buildSockPathNamed at h
    rw [fileOf_sockPath hrole] at h
    exact sockFile_inj h
  · have hdec := decimal_length_pid hn
    have hlen := congrArg List.length h
    simp only [fileOf, buildSockPathNamed, snprintf, sockPrefix, sockFile, List.length_drop,
      List.length_take, List.length_append, hdir, hpre, hsuf] at hlen
    omega

theorem lt_longMax {w : Nat} (hw : w = 32 ∨ w = 64) {n : Nat} (h : n < 2 ^ (w - 1)) :
    n < 2 ^ 63 := by
  rcases hw with rfl | rfl
  · exact lt_trans h (by decide)
  · exact h

/-- A positive `long` is a natural number. -/
theorem exists_nat_pid {w : Nat} (hw : w = 32 ∨ w = 64) {p : ℤ} (hp : 0 < p)
    (hmax : p < 2 ^ (w - 1)) : ∃ n : Nat, p = n ∧ 0 < n ∧ n < 2 ^ (w - 1) := by
  obtain ⟨n, rfl⟩ := Int.eq_ofNat_of_zero_le hp.le
  refine ⟨n, rfl, by omega, ?_⟩
  rcases hw with rfl | rfl
  · omega
  · omega

/-! ## One file -/

theorem matches_iff {name : CStr} : Matches name ↔ ∃ x, x ≠ [] ∧ name = sockFile x := by
  obtain ⟨-, hpre, hsuf⟩ := lengths
  constructor
  · rintro ⟨hlen, htake, hdrop⟩
    have hsplit : name = filePrefix ++ name.drop filePrefix.length := by
      conv_lhs => rw [← List.take_append_drop filePrefix.length name, htake]
    have htail : name.drop filePrefix.length =
        (name.drop filePrefix.length).take (name.length - 19) ++ sockSuffix := by
      conv_lhs => rw [← List.take_append_drop (name.length - 19) (name.drop filePrefix.length)]
      rw [List.drop_drop, show filePrefix.length + (name.length - 19) =
        name.length - sockSuffix.length by omega, hdrop]
    refine ⟨(name.drop filePrefix.length).take (name.length - 19), ?_, ?_⟩
    · intro hnil
      have hlen' := congrArg List.length hnil
      rw [List.length_take, List.length_drop, List.length_nil] at hlen'
      omega
    · rw [sockFile, ← htail, ← hsplit]
  · rintro ⟨x, hx, rfl⟩
    have hpos := List.length_pos_iff.mpr hx
    have hlen : (sockFile x).length = filePrefix.length + (x.length + sockSuffix.length) := by
      rw [sockFile, List.length_append, List.length_append]
    refine ⟨by omega, List.take_left, ?_⟩
    rw [hlen, show filePrefix.length + (x.length + sockSuffix.length) - sockSuffix.length =
      filePrefix.length + x.length by omega, sockFile, ← List.append_assoc, ← List.length_append,
      List.drop_left]

theorem not_readsPositive_suffix : ¬ ReadsPositive sockSuffix := by
  rintro ⟨sp, sign, ds, rest, hscan, -⟩
  have hnone : strtol 64 sockSuffix = none := by decide
  rw [strtol_scanned hscan] at hnone
  cases hnone

theorem saturate_pos {w : Nat} (hw : w = 32 ∨ w = 64) {v : ℤ} :
    (0 < saturate w v ↔ 0 < v) ∧ saturate w v < 2 ^ (w - 1) := by
  unfold saturate
  rcases hw with rfl | rfl
  · omega
  · omega

/-- What a file contributes. -/
theorem sessionPid_eq_some {w : Nat} (hw : w = 32 ∨ w = 64) {name : CStr} {p : ℤ} :
    sessionPid w name = some p ↔
      ∃ x sp sign ds rest, name = sockFile x ∧ Scanned (x ++ sockSuffix) sp sign ds rest ∧
        sign ≠ [minus] ∧ 0 < digitsValue ds ∧ p = saturate w (digitsValue ds) := by
  have htail : ∀ x, (sockFile x).drop filePrefix.length = x ++ sockSuffix := fun x => List.drop_left
  constructor
  · intro h
    unfold sessionPid at h
    split at h
    · next hm =>
        obtain ⟨x, -, rfl⟩ := matches_iff.mp hm
        rw [htail] at h
        split at h
        · next v rest hread =>
            obtain ⟨sp, sign, ds, hscan, hv⟩ := strtol_some hread
            split at h
            · cases h
            · next hpos =>
                cases h
                have hpos' : 0 < p := by omega
                rw [hv, (saturate_pos hw).1] at hpos'
                by_cases hsign : sign = [minus]
                · rw [if_pos hsign] at hpos'
                  omega
                · rw [if_neg hsign] at hv hpos'
                  exact ⟨x, sp, sign, ds, rest, rfl, hscan, hsign, by omega, hv⟩
        · cases h
    · cases h
  · rintro ⟨x, sp, sign, ds, rest, rfl, hscan, hsign, hpos, rfl⟩
    have hne : x ≠ [] := by
      rintro rfl
      exact not_readsPositive_suffix ⟨sp, sign, ds, rest, hscan, hsign, hpos⟩
    have hsat : 0 < saturate w (digitsValue ds) := (saturate_pos hw).1.mpr (by omega)
    unfold sessionPid
    rw [if_pos (matches_iff.mpr ⟨x, hne, rfl⟩), htail, strtol_scanned hscan, if_neg hsign]
    exact if_neg (by omega)

theorem scanned_decimal (n : Nat) : Scanned (decimal n ++ sockSuffix) [] [] (decimal n) sockSuffix :=
  ⟨rfl, List.forall_mem_nil _, Or.inl rfl, decimal_ne_nil n, decimal_isDigit n, by
    intro c hc
    cases hc
    decide⟩

/-- The file of a pid contributes that pid. -/
theorem sessionPid_decimal {w : Nat} (hw : w = 32 ∨ w = 64) {n : Nat} (hn : 0 < n)
    (hmax : n < 2 ^ (w - 1)) : sessionPid w (sockFile (decimal n)) = some (n : ℤ) := by
  refine (sessionPid_eq_some hw).mpr ⟨decimal n, [], [], decimal n, sockSuffix, rfl,
    scanned_decimal n, by decide, ?_, ?_⟩
  · rw [digitsValue_decimal]
    exact hn
  · rw [digitsValue_decimal]
    unfold saturate
    rcases hw with rfl | rfl
    · omega
    · omega

/-! ## The directory -/

/-- With room for every matching file, each file contributes on its own. -/
theorem enumerateLoop_eq (w : Nat) (listing : List CStr) :
    ∀ room, (listing.countP fun n => decide (Matches n)) < room →
      enumerateLoop w room listing = listing.filterMap (sessionPid w) := by
  induction listing with
  | nil =>
      intro room _
      cases room with
      | zero => rfl
      | succ room => rfl
  | cons name rest ih =>
      intro room hroom
      cases room with
      | zero => exact absurd hroom (Nat.not_lt_zero _)
      | succ room =>
          rw [List.countP_cons] at hroom
          cases hpid : sessionPid w name with
          | none =>
              rw [List.filterMap_cons_none hpid, ← ih (room + 1) (by omega)]
              simp only [enumerateLoop, hpid]
          | some p =>
              have hm : Matches name := by
                unfold sessionPid at hpid
                split at hpid
                · assumption
                · cases hpid
              rw [if_pos (decide_eq_true hm)] at hroom
              rw [List.filterMap_cons_some hpid, ← ih room (by omega)]
              simp only [enumerateLoop, hpid]

/-- Two files of one pid are one file, when no pid is found twice. -/
theorem eq_of_nodup_filterMap {α β : Type} {f : α → Option β} {l : List α}
    (h : (l.filterMap f).Nodup) {a b : α} (ha : a ∈ l) (hb : b ∈ l) {p : β} (hfa : f a = some p)
    (hfb : f b = some p) : a = b := by
  have hpair := List.pairwise_filterMap.mp h
  have hsymm : Std.Symm fun a b => ∀ p, f a = some p → ∀ q, f b = some q → p ≠ q :=
    ⟨fun a b hab p hp q hq he => hab q hq p hp he.symm⟩
  by_contra hne
  exact hpair.forall ha hb hne p hfa p hfb rfl

/-- Every file that reads as a pid has that pid's name. -/
def AllPlain (w : Nat) (listing : List CStr) : Prop :=
  ∀ x, sockFile x ∈ listing → ReadsPositive (x ++ sockSuffix) → PlainPid w x

/-- Then what contributes is the file of the pid. -/
theorem AllPlain.file {w : Nat} (hw : w = 32 ∨ w = 64) {listing : List CStr}
    (h : AllPlain w listing) {name : CStr} (hmem : name ∈ listing) {p : ℤ}
    (hp : sessionPid w name = some p) :
    ∃ n : Nat, p = n ∧ 0 < n ∧ n < 2 ^ (w - 1) ∧ name = sockFile (decimal n) := by
  obtain ⟨x, sp, sign, ds, rest, rfl, hscan, hsign, hpos, -⟩ := (sessionPid_eq_some hw).mp hp
  obtain ⟨n, hn, hmax, rfl⟩ := h x hmem ⟨sp, sign, ds, rest, hscan, hsign, hpos⟩
  rw [sessionPid_decimal hw hn hmax] at hp
  exact ⟨n, (Option.some.inj hp).symm, hn, hmax, rfl⟩

theorem countP_filter_lt {listing : List CStr} {cap : Nat} (q : CStr → Bool)
    (hcap : (listing.countP fun n => decide (Matches n)) < cap) :
    ((listing.filter q).countP fun n => decide (Matches n)) < cap :=
  lt_of_le_of_lt (List.filter_sublist.countP_le) hcap

/-- The enumeration undoes the naming exactly when no file of the directory reads as a pid
    without being named after it. -/
theorem enumerate_inverts_iff {w : Nat} (hw : w = 32 ∨ w = 64) {listing : List CStr}
    (hnodup : listing.Nodup) {cap : Nat}
    (hcap : (listing.countP fun n => decide (Matches n)) < cap) :
    Inverts w listing cap ↔ AllPlain w listing := by
  have hfound : enumerateSessions w (some listing) cap = listing.filterMap (sessionPid w) :=
    enumerateLoop_eq w listing cap hcap
  constructor
  · intro h x hx hreads
    obtain ⟨sp, sign, ds, rest, hscan, hsign, hpos⟩ := hreads
    have hsat := saturate_pos hw (v := digitsValue ds)
    obtain ⟨n, hn, hnpos, hmax⟩ := exists_nat_pid hw (hsat.1.mpr (by omega)) hsat.2
    have hpid : sessionPid w (sockFile x) = some (n : ℤ) :=
      (sessionPid_eq_some hw).mpr ⟨x, sp, sign, ds, rest, rfl, hscan, hsign, hpos, hn.symm⟩
    have hmem : (n : ℤ) ∈ enumerateSessions w (some listing) cap := by
      rw [hfound]
      exact List.mem_filterMap.mpr ⟨_, hx, hpid⟩
    have hfile := (h.exact n (by omega) (hn ▸ hsat.2)).mp hmem
    rw [fileOf_buildSockPath (lt_longMax hw hmax)] at hfile
    have heq := eq_of_nodup_filterMap (hfound ▸ h.once) hx hfile hpid
      (sessionPid_decimal hw hnpos hmax)
    exact ⟨n, hnpos, hmax, sockFile_inj heq⟩
  · intro hall
    refine ⟨?_, ?_, ?_⟩
    · intro p hp hpmax
      obtain ⟨n, rfl, hn, hmax⟩ := exists_nat_pid hw hp hpmax
      rw [hfound, List.mem_filterMap, fileOf_buildSockPath (lt_longMax hw hmax)]
      constructor
      · rintro ⟨name, hmem, hpid⟩
        obtain ⟨k, hk, -, -, rfl⟩ := hall.file hw hmem hpid
        rw [Int.ofNat_inj.mp hk]
        exact hmem
      · intro hmem
        exact ⟨_, hmem, sessionPid_decimal hw hn hmax⟩
    · rw [hfound]
      refine List.pairwise_filterMap.mpr (hnodup.imp_of_mem ?_)
      rintro a b ha hb hne p hp q hq rfl
      obtain ⟨k, rfl, -, -, rfl⟩ := hall.file hw ha hp
      obtain ⟨m, hm, -, -, rfl⟩ := hall.file hw hb hq
      exact hne (by rw [Int.ofNat_inj.mp hm])
    · intro role hmem hrole
      have hnone : sessionPid w (fileOf (buildSockPathNamed role)) = none := by
        rw [Option.eq_none_iff_forall_ne_some]
        intro p hp
        obtain ⟨n, -, hn, hmax, hname⟩ := hall.file hw hmem hp
        exact hrole ⟨n, hn, hmax, buildSockPathNamed_pid (lt_longMax hw hmax) hname⟩
      have hwithout := enumerateLoop_eq w _ cap
        (countP_filter_lt (fun n => decide (n ≠ fileOf (buildSockPathNamed role))) hcap)
      rw [hfound]
      refine hwithout.trans ?_
      rw [List.filterMap_filter]
      refine List.filterMap_congr fun n _ => ?_
      by_cases hn : n = fileOf (buildSockPathNamed role)
      · rw [hn, if_neg (by simp), hnone]
      · rw [if_pos (decide_eq_true hn)]

/-- An application's socket, a role's, and a file that is no socket. -/
theorem enumerate_inverts_plain :
    Inverts 64 [ascii "displayxr-mcp-71.sock", ascii "displayxr-mcp-shell.sock", ascii "x.sock"]
      4 := by
  refine (enumerate_inverts_iff (Or.inr rfl) (by decide) (by decide)).mpr ?_
  have hpid : ascii "displayxr-mcp-71.sock" = sockFile (decimal 71) := by decide
  have hshell : ascii "displayxr-mcp-shell.sock" = sockFile (ascii "shell") := by decide
  intro x hx hreads
  rcases List.mem_cons.mp hx with hx | hx
  · exact ⟨71, by decide, by decide, sockFile_inj (hx.trans hpid)⟩
  · rcases List.mem_cons.mp hx with hx | hx
    · obtain ⟨sp, sign, ds, rest, hscan, -⟩ := hreads
      have hnone : strtol 64 (ascii "shell" ++ sockSuffix) = none := by decide
      rw [sockFile_inj (hx.trans hshell)] at hscan
      rw [strtol_scanned hscan] at hnone
      cases hnone
    · have hlen := congrArg List.length (List.mem_singleton.mp hx)
      rw [sockFile, List.length_append, lengths.2.1] at hlen
      exact absurd hlen (by rw [show (ascii "x.sock").length = 6 by decide]; omega)

/-- The role `3d` is taken for process 3. -/
theorem enumerate_role :
    buildSockPathNamed (ascii "3d") = ascii "/tmp/displayxr-mcp-3d.sock" ∧
      enumerateSessions 64 (some [ascii "displayxr-mcp-3d.sock"]) 2 = [3] ∧
      ¬ Inverts 64 [ascii "displayxr-mcp-3d.sock"] 2 := by
  have hfound : enumerateSessions 64 (some [ascii "displayxr-mcp-3d.sock"]) 2 = [3] := by
    decide +kernel
  refine ⟨by decide, hfound, fun h => ?_⟩
  have hfile := (h.exact 3 (by decide) (by decide)).mp (hfound ▸ List.mem_cons_self)
  exact absurd hfile (by decide)

end DisplayxrMcp.Transport
