import CssValues.Binary64.Basic

/-!
# Rounding to the nearest value

Every inexact result is the value nearest to a quotient of natural numbers of units, a half going
to the even neighbour. `nearestMagnitude` is that rounding for all binades at once: the quotient is
divided by the power of two that leaves it 53 bits, or by none when it has fewer, and the number of
binades skipped is added above the fraction. A quotient past the largest finite value gives the
infinity. Whole numbers and decimals enter through the same function.
-/

namespace CssValues

namespace Binary64

/-- The natural number nearest to `num / den`, a half going to the even neighbour. -/
def roundHalfEven (num den : Nat) : Nat :=
  let quotient := num / den
  let twice := 2 * (num % den)
  if twice < den then quotient
  else if den < twice then quotient + 1
  else quotient + quotient % 2

/-- The number of bits of `num / den` beyond the 53 that a value keeps. -/
def surplusBits (num den : Nat) : Nat := (num / den).log2 - 52

/-- The magnitude nearest to `num / den` units, infinity included. -/
def nearestMagnitude (num den : Nat) : Nat :=
  let surplus := surplusBits num den
  Nat.min (surplus * binadeSize + roundHalfEven num (den <<< surplus)) infinityMagnitude

/-- Rounding never goes below the whole part. -/
theorem le_roundHalfEven (num den : Nat) : num / den ≤ roundHalfEven num den := by
  simp only [roundHalfEven]
  split
  · omega
  · split <;> omega

/-- Rounding goes at most one above the whole part. -/
theorem roundHalfEven_le (num den : Nat) : roundHalfEven num den ≤ num / den + 1 := by
  simp only [roundHalfEven]
  split
  · omega
  · split <;> omega

/-- Rounding goes no farther than infinity. -/
theorem nearestMagnitude_le (num den : Nat) : nearestMagnitude num den ≤ infinityMagnitude :=
  Nat.min_le_right _ _

/-- Dividing by the surplus leaves a whole part of at most 53 bits. -/
theorem div_surplus_lt (num den : Nat) : num / (den <<< surplusBits num den) < 2 * binadeSize := by
  rw [Nat.shiftLeft_eq, ← Nat.div_div_eq_div_mul, Nat.div_lt_iff_lt_mul (Nat.two_pow_pos _)]
  have htwo_binades : 2 * binadeSize = 2 ^ 53 := by decide
  rw [htwo_binades, ← Nat.pow_add]
  apply Nat.lt_of_lt_of_le Nat.lt_log2_self
  apply Nat.pow_le_pow_right (by decide)
  unfold surplusBits
  omega

/-- A quotient of few bits stays in its binades. -/
theorem nearestMagnitude_le_surplus (num den : Nat) :
    nearestMagnitude num den ≤ (surplusBits num den + 2) * binadeSize := by
  have hwhole := div_surplus_lt num den
  have hrounded := roundHalfEven_le num (den <<< surplusBits num den)
  apply Nat.le_trans (Nat.min_le_left _ _)
  rw [Nat.add_mul]
  omega

/-- A quotient of at least one unit does not round to zero. -/
theorem nearestMagnitude_pos {num den : Nat} (hden : 0 < den) (h : den ≤ num) :
    0 < nearestMagnitude num den := by
  have hone : 1 ≤ num / den := (Nat.one_le_div_iff hden).mpr h
  apply Nat.lt_min.mpr
  constructor
  · by_cases hsurplus : surplusBits num den = 0
    · rw [hsurplus, Nat.shiftLeft_zero]
      exact Nat.add_pos_right _ (Nat.le_trans hone (le_roundHalfEven num den))
    · exact Nat.add_pos_left (Nat.mul_pos (Nat.pos_of_ne_zero hsurplus) (by decide)) _
  · decide

/-- Nothing rounds to nothing. -/
theorem nearestMagnitude_zero (den : Nat) : nearestMagnitude 0 den = 0 := by
  have hsurplus : surplusBits 0 den = 0 := by simp [surplusBits]
  have hrounded : roundHalfEven 0 den = 0 := by
    simp only [roundHalfEven, Nat.zero_div, Nat.zero_mod]
    split <;> simp_all
  simp only [nearestMagnitude, hsurplus, Nat.shiftLeft_zero, hrounded, Nat.zero_mul]
  exact Nat.zero_min _

/-- The value of the given sign nearest to `num / den` units. -/
def ofQuotient (negative : Bool) (num den : Nat) : Binary64 where
  negative := negative
  magnitude := nearestMagnitude num den
  magnitude_lt := Nat.lt_of_le_of_lt (nearestMagnitude_le num den) (by decide)

/-- Rounding never gives NaN. -/
theorem not_isNaN_ofQuotient (negative : Bool) (num den : Nat) :
    ¬ (ofQuotient negative num den).IsNaN :=
  Nat.not_lt.mpr (nearestMagnitude_le num den)

/-! ## Whole numbers and decimals -/

/-- The number of units in one, `2 ^ 1074`. -/
@[irreducible] def unitsPerOne : Nat := 1 <<< 1074

/-- The value nearest to a natural number. -/
def ofNat (n : Nat) : Binary64 := ofQuotient false (n * unitsPerOne) 1

/-- The value nearest to an integer. -/
def ofInt (n : Int) : Binary64 := ofQuotient (n < 0) (n.natAbs * unitsPerOne) 1

/-- The value nearest to the decimal `coefficient · 10 ^ exponent`. -/
def ofDecimal (coefficient : Nat) (exponent : Int) : Binary64 :=
  match exponent with
  | .ofNat places => ofQuotient false (coefficient * Nat.pow 10 places * unitsPerOne) 1
  | .negSucc places => ofQuotient false (coefficient * unitsPerOne) (Nat.pow 10 (places + 1))

instance (n : Nat) : OfNat Binary64 n where
  ofNat := ofNat n

instance : OfScientific Binary64 where
  ofScientific coefficient negative exponent :=
    ofDecimal coefficient (if negative then -(exponent : Int) else exponent)

/-- The number of units in one, computed. It is kept folded elsewhere. -/
theorem unitsPerOne_eq : unitsPerOne = 1 <<< 1074 := by
  unfold unitsPerOne
  rfl

/-- One is not nothing. -/
theorem unitsPerOne_pos : 0 < unitsPerOne := by
  rw [unitsPerOne_eq, Nat.one_shiftLeft]
  exact Nat.two_pow_pos 1074

/-- The units of a whole number are the number with 1074 zero bits behind it. -/
theorem mul_unitsPerOne_eq (n : Nat) : n * unitsPerOne = n <<< 1074 := by
  rw [unitsPerOne_eq, Nat.one_shiftLeft, Nat.shiftLeft_eq]

/-- Whole numbers up to this, `2 ^ 53`, are values themselves. -/
def maxExactNat : Nat := 0x20000000000000

/-- Whole numbers that are values themselves have at most 64 bits. -/
theorem lt_of_le_maxExactNat {n : Nat} (h : n ≤ maxExactNat) : n < UInt64.size :=
  Nat.lt_of_le_of_lt h (by decide)

/-- Shifting a number of some bits leaves no more surplus than all bits beyond 53. -/
theorem surplusBits_shiftLeft_le {n bits : Nat} (h : n < 1 <<< bits) (shift : Nat) :
    surplusBits (n <<< shift) 1 ≤ bits + shift - 53 := by
  rw [Nat.one_shiftLeft] at h
  unfold surplusBits
  rw [Nat.div_one]
  by_cases hzero : n <<< shift = 0
  · simp [hzero]
  · have hbound : n <<< shift < 2 ^ (bits + shift) := by
      rw [Nat.shiftLeft_eq, Nat.pow_add]
      exact Nat.mul_lt_mul_of_pos_right h (Nat.two_pow_pos shift)
    have hlog := (Nat.log2_lt hzero).mpr hbound
    omega

/-- Whole numbers of at most 64 bits are finite. -/
theorem isFinite_ofNat {n : Nat} (h : n < UInt64.size) : (ofNat n).IsFinite := by
  have hsize : UInt64.size = 1 <<< 64 := by decide
  have hsurplus := surplusBits_shiftLeft_le (Nat.lt_of_lt_of_eq h hsize) 1074
  have hsmall := nearestMagnitude_le_surplus (n <<< 1074) 1
  unfold ofNat IsFinite
  rw [mul_unitsPerOne_eq]
  apply Nat.lt_of_le_of_lt hsmall
  apply Nat.lt_of_le_of_lt (Nat.mul_le_mul_right _ (Nat.add_le_add_right hsurplus 2))
  decide

/-- Positive whole numbers have a positive magnitude. -/
theorem magnitude_ofNat_pos {n : Nat} (h : 0 < n) : 0 < (ofNat n).magnitude :=
  nearestMagnitude_pos Nat.one_pos (Nat.mul_pos h unitsPerOne_pos)

end Binary64

end CssValues
