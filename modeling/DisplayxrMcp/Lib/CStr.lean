/-
  C strings: the bytes before the terminating NUL.

  `snprintf` into a buffer of `cap` bytes keeps the first `cap - 1`. `strstr`
  returns the offset of the first occurrence. `strstr_sep` is the fact a
  two-byte separator `xx` relies on: after a prefix that does not contain `x`,
  the first occurrence of `xx` is the separator itself, whatever follows.
-/
import Mathlib.Data.List.Basic
import Mathlib.Tactic.Common

namespace Lib

/-- A NUL-terminated byte string, without its NUL. -/
abbrev CStr := List UInt8

/-- The bytes of an ASCII literal. -/
def ascii (s : String) : CStr := s.toList.map fun c => c.toNat.toUInt8

/-- `%d` of a non-negative number. -/
def decimal (n : Nat) : CStr := (Nat.toDigits 10 n).map fun c => c.toNat.toUInt8

/-- What `snprintf(out, cap, "%s", s)` leaves in `out`. -/
def snprintf (cap : Nat) (s : CStr) : CStr := s.take (cap - 1)

/-- Offset of the first occurrence of `needle`. -/
def strstr (needle : CStr) : CStr → Option Nat
  | [] => if needle = [] then some 0 else none
  | c :: hay =>
      if needle <+: c :: hay then some 0 else (strstr needle hay).map (· + 1)

theorem snprintf_of_length_lt {cap : Nat} {s : CStr} (h : s.length < cap) : snprintf cap s = s :=
  List.take_of_length_le (by omega)

theorem snprintf_length_lt {cap : Nat} (hcap : 0 < cap) (s : CStr) :
    (snprintf cap s).length < cap := by
  simp only [snprintf, List.length_take]
  omega

theorem snprintf_eq_iff {cap : Nat} (hcap : 0 < cap) {s : CStr} :
    snprintf cap s = s ↔ s.length < cap := by
  constructor
  · intro h
    rw [← h]
    exact snprintf_length_lt hcap s
  · exact snprintf_of_length_lt

theorem mem_snprintf {cap : Nat} {s : CStr} {c : UInt8} (h : c ∈ snprintf cap s) : c ∈ s :=
  List.mem_of_mem_take h

/-- A string longer than the prefix `p` is cut behind `p`. -/
theorem snprintf_append {cap : Nat} {p t : CStr} (h : p.length < cap) :
    snprintf cap (p ++ t) = p ++ snprintf (cap - p.length) t := by
  simp only [snprintf, List.take_append]
  rw [List.take_of_length_le (by omega), show cap - 1 - p.length = cap - p.length - 1 by omega]

/-- The separator `xx` is found right behind a prefix without `x`. -/
theorem strstr_sep {x : UInt8} {p : CStr} (hp : x ∉ p) (t : CStr) :
    strstr [x, x] (p ++ x :: x :: t) = some p.length := by
  induction p with
  | nil => simp [strstr]
  | cons c p ih =>
      have hc : x ≠ c := fun h => hp (h ▸ List.mem_cons_self)
      have hp' : x ∉ p := fun h => hp (List.mem_cons_of_mem c h)
      simp [strstr, ih hp', hc]

end Lib
