import CssValues.Proofs.Text.Utf8
import CssValues.Text.AsciiCase
import Mathlib.Data.List.Forall2

/-!
# How far the case of letters reaches

Texts agree up to case when they have the same length and each two characters at the same place are
the same or the two cases of one letter from `a` to `z`. A character beyond ASCII has no other case
here, whatever its case is elsewhere: the Kelvin sign is no `k` and the long s is no `s`.

The comparison may go by the bytes of the texts. No byte of a character beyond ASCII is a letter, so
bytes are put into lower case exactly as characters are.
-/

namespace CssValues

/-! ## By characters -/

/-- The characters are the same, or the upper and the lower case of one ASCII letter. -/
def SameLetter (c d : Char) : Prop :=
  c = d ∨ (c.isUpper = true ∧ d.toNat = c.toNat + 32) ∨ (d.isUpper = true ∧ c.toNat = d.toNat + 32)

/-- The range of the upper-case letters in numbers. -/
theorem upperCaseRange_iff {c : Char} :
    (c.val ≥ 'A'.val ∧ c.val ≤ 'Z'.val) ↔ 65 ≤ c.toNat ∧ c.toNat ≤ 90 := by
  rw [ge_iff_le, UInt32.le_iff_toNat_le, UInt32.le_iff_toNat_le]
  rfl

/-- Upper case letters are a range of the code points. -/
theorem isUpper_iff_toNat {c : Char} : c.isUpper = true ↔ 65 ≤ c.toNat ∧ c.toNat ≤ 90 := by
  change decide (c.val ≥ 'A'.val ∧ c.val ≤ 'Z'.val) = true ↔ _
  rw [decide_eq_true_eq, upperCaseRange_iff]

/-- Upper-case letters go up by 32, and all other characters stay. -/
theorem toNat_toLower (c : Char) :
    c.toLower.toNat = if 65 ≤ c.toNat ∧ c.toNat ≤ 90 then c.toNat + 32 else c.toNat := by
  unfold Char.toLower
  split
  next h =>
    have hupper := upperCaseRange_iff.mp h
    rw [if_pos hupper]
    change (c.toNat + 32) % 2 ^ 32 = c.toNat + 32
    omega
  next h => rw [if_neg (mt upperCaseRange_iff.mpr h)]

/-- Two characters have the same lower case exactly when they are the same letter. -/
theorem toLower_eq_toLower_iff {c d : Char} : c.toLower = d.toLower ↔ SameLetter c d := by
  rw [← Char.toNat_inj, toNat_toLower, toNat_toLower, SameLetter, ← Char.toNat_inj]
  simp only [isUpper_iff_toNat]
  split <;> split <;> omega

/-- Texts agree up to case exactly when their characters do, one by one. -/
theorem sameUpToCase_iff_forall₂ {text other : List Char} :
    sameUpToCase text other = true ↔ List.Forall₂ SameLetter text other := by
  rw [sameUpToCase_iff, ← List.forall₂_eq_eq_eq, List.forall₂_map_left_iff,
    List.forall₂_map_right_iff]
  simp only [toLower_eq_toLower_iff]

/-! ## By bytes -/

/-- The byte of an upper-case letter as that of the lower-case letter, and any other byte. -/
def lowerByte (byte : UInt8) : UInt8 :=
  if 65 ≤ byte.toNat ∧ byte.toNat ≤ 90 then byte + 32 else byte

/-- Bytes beyond ASCII have no case. -/
theorem lowerByte_of_le {byte : UInt8} (h : 128 ≤ byte.toNat) : lowerByte byte = byte := by
  rw [lowerByte, if_neg (by omega)]

/-- The byte of an ASCII character goes to lower case as the character does. -/
theorem lowerByte_toUInt8 {c : Char} (hc : c.toNat < 128) :
    lowerByte c.toUInt8 = c.toLower.toUInt8 := by
  apply UInt8.toNat.inj
  change _ = c.toLower.toNat % 256
  rw [toNat_toLower, lowerByte, toNat_toUInt8 hc]
  split
  · rw [UInt8.toNat_add, toNat_toUInt8 hc]
    rfl
  · rw [toNat_toUInt8 hc]
    omega

/-- The bytes of a character in lower case are those of the lower-case character. -/
theorem map_lowerByte_utf8EncodeChar (c : Char) :
    (String.utf8EncodeChar c).map lowerByte = String.utf8EncodeChar c.toLower := by
  have hlower := toNat_toLower c
  by_cases hc : c.toNat < 128
  · have hclower : c.toLower.toNat < 128 := by
      split at hlower <;> omega
    rw [utf8EncodeChar_of_lt hc, utf8EncodeChar_of_lt hclower, List.map_singleton,
      lowerByte_toUInt8 hc]
  · have hsame : c.toLower = c := by
      rw [if_neg (by omega)] at hlower
      exact Char.toNat_inj.mp hlower
    have hbyte : ∀ byte ∈ String.utf8EncodeChar c, lowerByte byte = id byte := fun byte hmem =>
      lowerByte_of_le (le_of_mem_utf8EncodeChar (Nat.not_lt.mp hc) hmem)
    rw [hsame, List.map_congr_left hbyte, List.map_id]

/-- The bytes of a text in lower case are those of the lower-case text. -/
theorem map_lowerByte_utf8Bytes (text : List Char) :
    (utf8Bytes text).map lowerByte = utf8Bytes (text.map Char.toLower) := by
  rw [utf8Bytes, utf8Bytes, List.map_flatMap, List.flatMap_map]
  simp only [map_lowerByte_utf8EncodeChar]

/-- Texts with the same bytes are the same. -/
theorem utf8Bytes_inj {text other : List Char} :
    utf8Bytes text = utf8Bytes other ↔ text = other := by
  rw [← String.ofList_inj, ← String.toByteArray_inj]
  exact List.toByteArray_inj.symm

/-- Texts agree up to case exactly when their bytes do. -/
theorem sameUpToCase_iff_utf8Bytes {text other : List Char} :
    sameUpToCase text other = true ↔
      (utf8Bytes text).map lowerByte = (utf8Bytes other).map lowerByte := by
  rw [sameUpToCase_iff, map_lowerByte_utf8Bytes, map_lowerByte_utf8Bytes, utf8Bytes_inj]

end CssValues
