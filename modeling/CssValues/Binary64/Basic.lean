/-!
# Binary floating-point values of 64 bits

A `Binary64` is a word of the binary64 interchange format, kept as a sign and a magnitude of 63
bits. Equality `=` compares words. The relations `==`, `<` and `≤` compare what the words stand
for: the two zeros are equal, and NaN is equal to nothing and ordered with nothing.

Every finite value is a whole number of *units*, the smallest positive value `2 ^ -1074`, so
orders and exact sums are statements about integers. Rounding and arithmetic are elsewhere.
-/

namespace CssValues

/-- The weight of the sign bit, `2 ^ 63`. -/
def Binary64.signWeight : Nat := 0x8000000000000000

/-- A binary64 word: its sign bit and the other 63 bits, read as a natural number. -/
structure Binary64 where
  negative : Bool
  magnitude : Nat
  magnitude_lt : magnitude < Binary64.signWeight
deriving DecidableEq

namespace Binary64

/-- The number of magnitudes in one binade, `2 ^ 52`. -/
def binadeSize : Nat := 0x10000000000000

/-- The magnitude of the infinities; smaller ones are finite and larger ones are NaN. -/
def infinityMagnitude : Nat := 0x7ff0000000000000

/-- The word is not a number. -/
def IsNaN (x : Binary64) : Prop := infinityMagnitude < x.magnitude

/-- The word is one of the two infinities. -/
def IsInfinite (x : Binary64) : Prop := x.magnitude = infinityMagnitude

/-- The word stands for a real number. -/
def IsFinite (x : Binary64) : Prop := x.magnitude < infinityMagnitude

/-- The word is one of the two zeros. -/
def IsZero (x : Binary64) : Prop := x.magnitude = 0

instance (x : Binary64) : Decidable x.IsNaN := inferInstanceAs (Decidable (_ < _))
instance (x : Binary64) : Decidable x.IsInfinite := inferInstanceAs (Decidable (_ = _))
instance (x : Binary64) : Decidable x.IsFinite := inferInstanceAs (Decidable (_ < _))
instance (x : Binary64) : Decidable x.IsZero := inferInstanceAs (Decidable (_ = _))

/-- The infinity of the given sign. -/
def infinity (negative : Bool) : Binary64 := ⟨negative, infinityMagnitude, by decide⟩

/-- The zero of the given sign. -/
def zero (negative : Bool) : Binary64 := ⟨negative, 0, by decide⟩

/-- The positive quiet NaN without payload. -/
def nan : Binary64 := ⟨false, infinityMagnitude + 0x8000000000000, by decide⟩

instance : Inhabited Binary64 := ⟨zero false⟩

/-- Read a word from its 64 bits. -/
def ofBits (bits : UInt64) : Binary64 where
  negative := signWeight ≤ bits.toNat
  magnitude := bits.toNat % signWeight
  magnitude_lt := Nat.mod_lt _ (by decide)

/-- The 64 bits of a word. -/
def toBits (x : Binary64) : UInt64 :=
  UInt64.ofNat ((if x.negative then signWeight else 0) + x.magnitude)

/-- A word is determined by its bits. -/
theorem ofBits_toBits (x : Binary64) : ofBits x.toBits = x := by
  obtain ⟨negative, magnitude, hmagnitude⟩ := x
  cases negative
  · simp only [ofBits, toBits, UInt64.toNat_ofNat', mk.injEq, decide_eq_false_iff_not,
      Bool.false_eq_true, if_false]
    simp only [signWeight] at *
    omega
  · simp only [ofBits, toBits, UInt64.toNat_ofNat', mk.injEq, decide_eq_true_eq, if_true]
    simp only [signWeight] at *
    omega

/-- Every pattern of bits is kept. -/
theorem toBits_ofBits (bits : UInt64) : (ofBits bits).toBits = bits := by
  have hbits := bits.toNat_lt
  apply UInt64.toNat.inj
  simp only [ofBits, toBits, decide_eq_true_eq, UInt64.toNat_ofNat']
  split
  · simp only [signWeight] at *
    omega
  · simp only [signWeight] at *
    omega

/-! ## Values in units of `2 ^ -1074` -/

/-- The number of units in a magnitude: the fraction alone in the lowest binade, and the fraction
with its leading bit, doubled once for each further binade, above it. -/
def magnitudeUnits (magnitude : Nat) : Nat :=
  if magnitude / binadeSize = 0 then magnitude
  else (binadeSize + magnitude % binadeSize) <<< (magnitude / binadeSize - 1)

/-- The distance from zero, in units. An infinity counts as the first value past the largest. -/
def units (x : Binary64) : Nat := magnitudeUnits x.magnitude

/-- The value in units. -/
def signedUnits (x : Binary64) : Int := if x.negative then -(x.units : Int) else x.units

/-- Only the zero magnitude has no units. -/
theorem magnitudeUnits_pos {magnitude : Nat} (h : 0 < magnitude) :
    0 < magnitudeUnits magnitude := by
  unfold magnitudeUnits
  split
  · exact h
  · rw [Nat.shiftLeft_eq]
    exact Nat.mul_pos (Nat.add_pos_left (by decide) _) (Nat.two_pow_pos _)

/-- A zero has no units. -/
theorem units_eq_zero_iff {x : Binary64} : x.units = 0 ↔ x.IsZero := by
  constructor
  · intro h
    apply Nat.eq_zero_of_not_pos
    intro hpos
    exact Nat.ne_of_gt (magnitudeUnits_pos hpos) h
  · intro h
    simp only [IsZero] at h
    simp [units, h, magnitudeUnits]

/-! ## Order -/

/-- Order two values; NaN is ordered with nothing. -/
def compare? (x y : Binary64) : Option Ordering :=
  if x.IsNaN ∨ y.IsNaN then none else some (compare x.signedUnits y.signedUnits)

/-- Equality of values: the zeros are equal, and NaN is not equal to itself. -/
instance : BEq Binary64 where
  beq x y := decide (¬ x.IsNaN ∧ ¬ y.IsNaN ∧ x.signedUnits = y.signedUnits)

instance : LT Binary64 where
  lt x y := ¬ x.IsNaN ∧ ¬ y.IsNaN ∧ x.signedUnits < y.signedUnits

instance : LE Binary64 where
  le x y := ¬ x.IsNaN ∧ ¬ y.IsNaN ∧ x.signedUnits ≤ y.signedUnits

instance (x y : Binary64) : Decidable (x < y) := inferInstanceAs (Decidable (_ ∧ _))
instance (x y : Binary64) : Decidable (x ≤ y) := inferInstanceAs (Decidable (_ ∧ _))

/-- The place of a word in the total order of words: the negative ones, from the largest magnitude
to the smallest, and then the positive ones. -/
def totalKey (x : Binary64) : Int := if x.negative then -(x.magnitude : Int) - 1 else x.magnitude

/-- Total order of words: negative zero comes before zero, and a positive NaN after infinity. -/
def totalCompare (x y : Binary64) : Ordering := compare x.totalKey y.totalKey

/-- Equal values are numbers, and agree in units. -/
theorem beq_iff {x y : Binary64} :
    (x == y) = true ↔ ¬ x.IsNaN ∧ ¬ y.IsNaN ∧ x.signedUnits = y.signedUnits :=
  decide_eq_true_iff

/-- A value is less than another when both are numbers and it has fewer units. -/
theorem lt_iff {x y : Binary64} :
    x < y ↔ ¬ x.IsNaN ∧ ¬ y.IsNaN ∧ x.signedUnits < y.signedUnits :=
  Iff.rfl

/-- A value is at most another when both are numbers and it has no more units. -/
theorem le_iff {x y : Binary64} :
    x ≤ y ↔ ¬ x.IsNaN ∧ ¬ y.IsNaN ∧ x.signedUnits ≤ y.signedUnits :=
  Iff.rfl

end Binary64

end CssValues
