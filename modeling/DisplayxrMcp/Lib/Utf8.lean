/-
  Cutting UTF-8.

  Valid UTF-8 cut behind its first `n` bytes is valid again exactly when the byte behind
  the cut starts a character (`ValidUtf8.take_iff`).
-/
import DisplayxrMcp.Lib.Rfc8259

namespace Lib

open Rfc8259

/-- Bytes that encode characters. -/
def ValidUtf8 (b : List UInt8) : Prop := ∃ cs, b = utf8 cs

theorem validUtf8_iff {b : List UInt8} : ValidUtf8 b ↔ b.toByteArray.IsValidUTF8 := by
  constructor
  · rintro ⟨cs, rfl⟩
    exact ⟨cs, rfl⟩
  · rintro ⟨cs, h⟩
    exact ⟨cs, List.toByteArray_inj.mp h⟩

theorem extract_toByteArray (b : List UInt8) (n : Nat) :
    b.toByteArray.extract 0 n = (b.take n).toByteArray := by
  ext
  · simp
  · simp

theorem ValidUtf8.take_iff {b : List UInt8} (h : ValidUtf8 b) (n : Nat) :
    ValidUtf8 (b.take n) ↔ ∀ c ∈ b[n]?, c.IsUTF8FirstByte := by
  rcases Nat.lt_or_ge n b.length with hn | hn
  · obtain ⟨cs, rfl⟩ := h
    -- the cut is a position of the string, and core knows the valid ones by their byte
    have hsize : (String.ofList cs).rawEndPos = ⟨(utf8 cs).length⟩ := by
      ext
      rw [← List.size_toByteArray]
      rfl
    have hpos : (⟨n⟩ : String.Pos.Raw) < (String.ofList cs).rawEndPos := by
      rw [hsize]
      exact hn
    have hcut : (⟨n⟩ : String.Pos.Raw).IsValid (String.ofList cs) ↔
        ValidUtf8 ((utf8 cs).take n) := by
      rw [String.Pos.Raw.isValid_iff_isValidUTF8_extract_zero, validUtf8_iff,
        ← extract_toByteArray]
      refine ⟨And.right, fun hv => ⟨?_, hv⟩⟩
      rw [hsize]
      exact Nat.le_of_lt hn
    have hbyte : (String.ofList cs).getUTF8Byte ⟨n⟩ hpos = (utf8 cs)[n] := by
      simp [String.getUTF8Byte, utf8, List.utf8Encode]
    have hne : (⟨n⟩ : String.Pos.Raw) ≠ (String.ofList cs).rawEndPos := by
      rw [hsize]
      intro he
      exact Nat.ne_of_lt hn (congrArg String.Pos.Raw.byteIdx he)
    rw [← hcut, String.Pos.Raw.isValid_iff_isUTF8FirstByte, List.getElem?_eq_getElem hn]
    constructor
    · rintro (he | ⟨hlt, hfirst⟩) c hc
      · exact absurd he hne
      · rw [hbyte] at hfirst
        exact Option.some.inj hc ▸ hfirst
    · intro hfirst
      refine Or.inr ⟨hpos, ?_⟩
      rw [hbyte]
      exact hfirst _ rfl
  · rw [List.take_of_length_le hn, List.getElem?_eq_none hn]
    exact ⟨fun _ c hc => absurd hc (Option.not_mem_none c), fun _ => h⟩

end Lib
