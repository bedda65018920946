import CssValues.Binary64.Arithmetic

/-!
# Whole numbers among the values

The sign of a value, the larger of two values, rounding to whole numbers, and the way to unsigned
words of 64 bits and back. A word is rounded to the nearest value, so words past `2 ^ 53` may
change. In the other direction a fraction is dropped and a value past the last word becomes the last
word.
-/

namespace CssValues

namespace Binary64

/-- The value without its sign. -/
protected def abs (x : Binary64) : Binary64 := { x with negative := false }

/-- The larger of two values. NaN is passed over. -/
instance : Max Binary64 := ⟨fun x y => if x.IsNaN ∨ x < y then y else x⟩

/-- The distance from one to the next value, `2 ^ -52`. -/
def epsilon : Binary64 := ofQuotient false unitsPerOne binadeSize

/-- The whole number nearest to a count of units, a half going up. -/
def nearestWhole (units : Nat) : Nat := (2 * units + unitsPerOne) / (2 * unitsPerOne)

/-- The whole number nearest to a value, a half going away from zero. -/
protected def round (x : Binary64) : Binary64 :=
  if x.IsFinite then ofQuotient x.negative (nearestWhole x.units * unitsPerOne) 1 else x

/-- The last unsigned word of 64 bits, `2 ^ 64 - 1`. -/
def maxWord : Nat := 0xffffffffffffffff

/-- The value as an unsigned word. A fraction is dropped, a value that is out of range becomes the
first or the last word, and NaN becomes zero. -/
def toUInt64 (x : Binary64) : UInt64 :=
  if x.IsNaN ∨ x.negative = true then 0
  else UInt64.ofNat (Nat.min (x.units / unitsPerOne) maxWord)

/-- The value nearest to an unsigned word. -/
def ofUInt64 (n : UInt64) : Binary64 := ofNat n.toNat

/-- One, in units. -/
theorem units_one : (1 : Binary64).units = unitsPerOne := by decide +kernel

/-- One, in units, is not below zero. -/
theorem signedUnits_one : (1 : Binary64).signedUnits = unitsPerOne :=
  congrArg Int.ofNat units_one

/-- A value of at least one is a word of at least one. -/
theorem toUInt64_pos {x : Binary64} (h : 1 ≤ x) : 0 < x.toUInt64.toNat := by
  obtain ⟨-, hnan, hone⟩ := le_iff.mp h
  have hpos := unitsPerOne_pos
  rw [signedUnits_one] at hone
  have hsign : ¬ x.negative = true := by
    intro hnegative
    rw [signedUnits, if_pos hnegative] at hone
    omega
  rw [signedUnits, if_neg hsign] at hone
  have hquotient : 0 < x.units / unitsPerOne := Nat.div_pos (Int.ofNat_le.mp hone) hpos
  have hword : 0 < Nat.min (x.units / unitsPerOne) maxWord :=
    Nat.lt_min.mpr ⟨hquotient, by decide⟩
  have hword_le : Nat.min (x.units / unitsPerOne) maxWord ≤ maxWord := Nat.min_le_right _ _
  rw [toUInt64, if_neg (not_or.mpr ⟨hnan, hsign⟩), UInt64.toNat_ofNat', Nat.mod_eq_of_lt]
  · exact hword
  · exact Nat.lt_of_le_of_lt hword_le (by decide)

/-- The value nearest to a word is finite. -/
theorem isFinite_ofUInt64 (n : UInt64) : (ofUInt64 n).IsFinite := isFinite_ofNat n.toNat_lt_size

/-- The value nearest to a positive word is positive. -/
theorem zero_lt_ofUInt64 {n : UInt64} (h : 0 < n.toNat) : 0 < ofUInt64 n := zero_lt_ofNat h

end Binary64

end CssValues
