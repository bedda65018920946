import CssValues.Binary64.Rounding

/-!
# Arithmetic

The four operations take the exact result of their operands, as a quotient of natural numbers of
units, and round it once. Infinities and zeros follow the usual conventions: an operation on NaN,
an infinity less itself, zero times an infinity, and a quotient of two zeros or two infinities are
NaN; the sign of a product or quotient is the product of the signs; a sum that is exactly zero is
negative only if both its operands are.
-/

namespace CssValues

namespace Binary64

/-- The value with the other sign. -/
def neg (x : Binary64) : Binary64 := { x with negative := !x.negative }

/-- The sum of two values. -/
def add (x y : Binary64) : Binary64 :=
  if x.IsNaN ∨ y.IsNaN then nan
  else if x.IsInfinite then
    if y.IsInfinite ∧ x.negative ≠ y.negative then nan else x
  else if y.IsInfinite then y
  else
    let total := x.signedUnits + y.signedUnits
    if total = 0 then zero (x.negative && y.negative)
    else ofQuotient (total < 0) total.natAbs 1

/-- The difference of two values is the sum with the other sign of the second. -/
def sub (x y : Binary64) : Binary64 := x.add y.neg

/-- The product of two values. -/
def mul (x y : Binary64) : Binary64 :=
  let negative := x.negative != y.negative
  if x.IsNaN ∨ y.IsNaN then nan
  else if x.IsInfinite ∨ y.IsInfinite then
    if x.IsZero ∨ y.IsZero then nan else infinity negative
  else ofQuotient negative (x.units * y.units) unitsPerOne

/-- The quotient of two values. -/
def div (x y : Binary64) : Binary64 :=
  let negative := x.negative != y.negative
  if x.IsNaN ∨ y.IsNaN then nan
  else if x.IsInfinite then
    if y.IsInfinite then nan else infinity negative
  else if y.IsInfinite then zero negative
  else if y.IsZero then
    if x.IsZero then nan else infinity negative
  else ofQuotient negative (x.units * unitsPerOne) y.units

instance : Neg Binary64 := ⟨neg⟩
instance : Add Binary64 := ⟨add⟩
instance : Sub Binary64 := ⟨sub⟩
instance : Mul Binary64 := ⟨mul⟩
instance : Div Binary64 := ⟨div⟩

/-- Changing the sign twice changes nothing. -/
theorem neg_neg (x : Binary64) : - -x = x := by
  show neg (neg x) = x
  simp [neg]

/-- The other sign changes the sign of the value. -/
theorem signedUnits_neg (x : Binary64) : (-x).signedUnits = -x.signedUnits := by
  show (neg x).signedUnits = _
  cases hsign : x.negative <;> simp [neg, signedUnits, units, hsign]

/-! ## Values that are not negative

Zero counts as not negative whatever its sign, and NaN does not count. -/

/-- The whole number zero is the positive zero. -/
theorem zero_eq : (0 : Binary64) = zero false := by
  show ofNat 0 = zero false
  simp only [ofNat, Nat.zero_mul, ofQuotient, nearestMagnitude_zero, zero]

/-- Zero is a number. -/
theorem not_isNaN_zero : ¬ (0 : Binary64).IsNaN := by
  rw [zero_eq]
  exact Nat.not_lt_zero _

/-- Zero has no units. -/
theorem signedUnits_zero : (0 : Binary64).signedUnits = 0 := by
  rw [zero_eq]
  rfl

/-- A value is not negative when it is a number whose sign is positive, or a zero. -/
theorem zero_le_iff {x : Binary64} : 0 ≤ x ↔ ¬ x.IsNaN ∧ (x.negative = true → x.IsZero) := by
  rw [le_iff, signedUnits_zero, ← units_eq_zero_iff]
  simp only [not_isNaN_zero, not_false_eq_true, true_and, signedUnits]
  refine and_congr_right fun _ => ?_
  cases x.negative <;> simp

/-- A value is positive when it is a number with the positive sign, and no zero. -/
theorem zero_lt_iff {x : Binary64} : 0 < x ↔ ¬ x.IsNaN ∧ x.negative = false ∧ ¬ x.IsZero := by
  rw [lt_iff, signedUnits_zero, ← units_eq_zero_iff]
  simp only [not_isNaN_zero, not_false_eq_true, true_and, signedUnits]
  refine and_congr_right fun _ => ?_
  cases x.negative
  · simp
    omega
  · simp

/-- A value is negative when it is a number with the negative sign, and no zero. -/
theorem lt_zero_iff {x : Binary64} : x < 0 ↔ ¬ x.IsNaN ∧ x.negative = true ∧ ¬ x.IsZero := by
  rw [lt_iff, signedUnits_zero, ← units_eq_zero_iff]
  simp only [not_isNaN_zero, not_false_eq_true, true_and, signedUnits]
  refine and_congr_right fun _ => ?_
  cases x.negative
  · simp
  · simp
    omega

/-- A rounded quotient is not negative when its sign is positive or nothing was rounded. -/
theorem zero_le_ofQuotient {negative : Bool} {num den : Nat} (h : negative = true → num = 0) :
    0 ≤ ofQuotient negative num den := by
  refine zero_le_iff.mpr ⟨not_isNaN_ofQuotient _ _ _, fun hsign => ?_⟩
  simp [IsZero, ofQuotient, h hsign, nearestMagnitude_zero]

/-- Positive whole numbers are positive values. -/
theorem zero_lt_ofNat {n : Nat} (h : 0 < n) : 0 < ofNat n :=
  zero_lt_iff.mpr ⟨not_isNaN_ofQuotient _ _ _, rfl, Nat.ne_of_gt (magnitude_ofNat_pos h)⟩

/-- An infinity is no zero. -/
theorem IsInfinite.not_isZero {x : Binary64} (h : x.IsInfinite) : ¬ x.IsZero :=
  fun hzero => absurd (h.symm.trans hzero) (by decide)

/-- The sum of values that are not negative is not negative. -/
theorem zero_le_add {x y : Binary64} (hx : 0 ≤ x) (hy : 0 ≤ y) : 0 ≤ x + y := by
  show 0 ≤ add x y
  have hsum : 0 ≤ x.signedUnits + y.signedUnits := by
    have hleft := hx.2.2
    have hright := hy.2.2
    rw [signedUnits_zero] at hleft hright
    omega
  obtain ⟨hxnan, hxzero⟩ := zero_le_iff.mp hx
  obtain ⟨hynan, hyzero⟩ := zero_le_iff.mp hy
  unfold add
  rw [if_neg (by simp [hxnan, hynan])]
  split
  next hxinfinite =>
    rw [if_neg]
    · exact hx
    · rintro ⟨hyinfinite, hdiffer⟩
      have hxsign := Bool.of_not_eq_true (mt hxzero hxinfinite.not_isZero)
      have hysign := Bool.of_not_eq_true (mt hyzero hyinfinite.not_isZero)
      exact hdiffer (hxsign.trans hysign.symm)
  next =>
    split
    · exact hy
    · simp only
      split
      · exact zero_le_iff.mpr ⟨by simp [IsNaN, zero], fun _ => rfl⟩
      · refine zero_le_ofQuotient fun hnegative => ?_
        have hlt := of_decide_eq_true hnegative
        omega

/-! ## Positive factors

A product with a positive finite value and a quotient by one are the same in kind: both scale the
other operand by a quotient of natural numbers and keep its sign. -/

/-- The value times `num / den`, rounded once. An infinity stays as it is. -/
def scaled (x : Binary64) (num den : Nat) : Binary64 :=
  if x.IsInfinite then infinity x.negative else ofQuotient x.negative (x.units * num) den

/-- Scaling keeps a value from being negative. -/
theorem zero_le_scaled {x : Binary64} (h : 0 ≤ x) (num den : Nat) : 0 ≤ x.scaled num den := by
  have hzero := (zero_le_iff.mp h).2
  rw [scaled]
  split
  next hinfinite =>
    refine zero_le_iff.mpr ⟨Nat.lt_irrefl _, fun hnegative => ?_⟩
    exact absurd (hzero hnegative) hinfinite.not_isZero
  next =>
    refine zero_le_ofQuotient fun hnegative => ?_
    rw [units_eq_zero_iff.mpr (hzero hnegative), Nat.zero_mul]

section Positive

variable {x y : Binary64} (hx : ¬ x.IsNaN) (hy : 0 < y) (hfinite : y.IsFinite)

include hx hy hfinite

/-- A product with a positive finite value is the other factor, scaled. -/
theorem mul_eq_scaled : x * y = x.scaled y.units unitsPerOne := by
  obtain ⟨hnan, hsign, hzero⟩ := zero_lt_iff.mp hy
  have hinfinite : ¬ y.IsInfinite := Nat.ne_of_lt hfinite
  show mul x y = _
  unfold mul scaled
  simp only [hx, hnan, hsign, hzero, hinfinite, or_false, if_false, Bool.bne_false]
  split
  next hxinfinite => rw [if_neg hxinfinite.not_isZero]
  next => rfl

/-- A quotient by a positive finite value is the dividend, scaled. -/
theorem div_eq_scaled : x / y = x.scaled unitsPerOne y.units := by
  obtain ⟨hnan, hsign, hzero⟩ := zero_lt_iff.mp hy
  have hinfinite : ¬ y.IsInfinite := Nat.ne_of_lt hfinite
  show div x y = _
  unfold div scaled
  simp only [hx, hnan, hsign, hzero, hinfinite, or_false, if_false, Bool.bne_false]

end Positive

/-- The product with a positive finite value is not negative if the other factor is not. -/
theorem zero_le_mul {x y : Binary64} (hx : 0 ≤ x) (hy : 0 < y) (hfinite : y.IsFinite) :
    0 ≤ x * y := by
  rw [mul_eq_scaled (zero_le_iff.mp hx).1 hy hfinite]
  exact zero_le_scaled hx _ _

/-- The quotient by a positive finite value is not negative if the dividend is not. -/
theorem zero_le_div {x y : Binary64} (hx : 0 ≤ x) (hy : 0 < y) (hfinite : y.IsFinite) :
    0 ≤ x / y := by
  rw [div_eq_scaled (zero_le_iff.mp hx).1 hy hfinite]
  exact zero_le_scaled hx _ _

end Binary64

end CssValues
