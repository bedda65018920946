import CssValues.Proofs.Binary64.Shortest

/-!
# Rounding of numbers

Rounding depends on the quotient alone, not on the numerator and denominator that stand for it. So
decimals that are the same number have the same nearest value, and the value nearest to the number
that a shortest decimal is has the magnitude that the decimal was found for.
-/

namespace CssValues

namespace Binary64

/-- Words with the same sign and the same magnitude are the same. -/
theorem eq_of_magnitude_eq {x y : Binary64} (hsign : x.negative = y.negative)
    (hmagnitude : x.magnitude = y.magnitude) : x = y := by
  obtain ⟨negative, magnitude, bound⟩ := x
  cases hsign
  cases hmagnitude
  rfl

/-! ## Quotients -/

/-- A common factor does not change a rounded quotient. -/
theorem roundHalfEven_mul_mul {k : Nat} (hk : 0 < k) (num den : Nat) :
    roundHalfEven (num * k) (den * k) = roundHalfEven num den := by
  have hdiv : num * k / (den * k) = num / den := Nat.mul_div_mul_right num den hk
  have hmod : num * k % (den * k) = num % den * k := Nat.mul_mod_mul_right k num den
  simp only [roundHalfEven, hdiv, hmod, ← Nat.mul_assoc, Nat.mul_lt_mul_right hk]

/-- A common factor of numerator and denominator does not matter. -/
theorem nearestMagnitude_mul_mul {k : Nat} (hk : 0 < k) (num den : Nat) :
    nearestMagnitude (num * k) (den * k) = nearestMagnitude num den := by
  have hsurplus : surplusBits (num * k) (den * k) = surplusBits num den := by
    rw [surplusBits, Nat.mul_div_mul_right num den hk, surplusBits]
  have hshift (shift : Nat) : (den * k) <<< shift = den <<< shift * k := by
    rw [Nat.shiftLeft_eq, Nat.shiftLeft_eq, Nat.mul_right_comm]
  simp only [nearestMagnitude, hsurplus, hshift, roundHalfEven_mul_mul hk]

/-- Equal quotients round to the same magnitude. -/
theorem nearestMagnitude_eq_of_mul_eq {num den num' den' : Nat} (hden : 0 < den)
    (hden' : 0 < den') (h : num * den' = num' * den) :
    nearestMagnitude num den = nearestMagnitude num' den' := by
  rw [← nearestMagnitude_mul_mul hden' num den, h, Nat.mul_comm den den',
    nearestMagnitude_mul_mul hden]

end Binary64

/-! ## Decimals -/

namespace Decimal

open Binary64

/-- The value nearest to a decimal is not negative. -/
theorem negative_nearest (d : Decimal) : d.nearest.negative = false := by
  obtain ⟨coefficient, exponent⟩ := d
  cases exponent <;> rfl

/-- The value nearest to a decimal is found from any quotient of units that the decimal is. -/
theorem magnitude_nearest {d : Decimal} {num den : Nat} (hden : 0 < den)
    (h : d.toRat * unitsPerOne * den = num) : d.nearest.magnitude = nearestMagnitude num den := by
  obtain ⟨coefficient, exponent⟩ := d
  have hten (places : Nat) : (10 : ℚ) ^ places ≠ 0 := pow_ne_zero places (by norm_num)
  cases exponent with
  | ofNat places =>
    change nearestMagnitude (coefficient * 10 ^ places * unitsPerOne) 1 = _
    apply nearestMagnitude_eq_of_mul_eq Nat.one_pos hden
    rw [Nat.mul_one]
    rw [toRat, Int.ofNat_eq_natCast, zpow_natCast] at h
    exact_mod_cast h
  | negSucc places =>
    change nearestMagnitude (coefficient * unitsPerOne) (10 ^ (places + 1)) = _
    apply nearestMagnitude_eq_of_mul_eq (Nat.pow_pos (by decide)) hden
    have hcross : (coefficient : ℚ) * unitsPerOne * den = num * 10 ^ (places + 1) := by
      rw [← h, toRat, zpow_negSucc]
      field_simp [hten]
    exact_mod_cast hcross

end Decimal

namespace Binary64

/-- One is `5 ^ 1074` times `2 ^ 1074` of the finest decimal steps. -/
theorem unitsPerOne_mul_tenthsPerUnit : (unitsPerOne * tenthsPerUnit : ℚ) = 10 ^ 1074 := by
  have hpow (n : Nat) : ((1 <<< n : Nat) : ℚ) * (Nat.pow 5 n : Nat) = 10 ^ n := by
    rw [Nat.one_shiftLeft, Nat.pow_eq, Nat.cast_pow, Nat.cast_pow, ← mul_pow]
    norm_num
  rw [unitsPerOne_eq, tenthsPerUnit_eq]
  -- no step may compute the power
  generalize 1074 = n
  exact hpow n

/-- Points of the decimal grids in steps of `10 ^ -1074` or more are rounded as quotients of these
steps. -/
theorem magnitude_nearest_gridPoint {d : Decimal} {coefficient place : Nat}
    (h : d.toRat = (⟨coefficient, (place : Int) - 1074⟩ : Decimal).toRat) :
    d.nearest.magnitude = nearestMagnitude (coefficient * 10 ^ place) tenthsPerUnit := by
  apply Decimal.magnitude_nearest tenthsPerUnit_pos
  have hten : (10 : ℚ) ≠ 0 := by norm_num
  rw [h, Decimal.toRat, mul_assoc, unitsPerOne_mul_tenthsPerUnit, mul_assoc,
    ← zpow_natCast (10 : ℚ) 1074, ← zpow_add₀ hten]
  push_cast
  rw [sub_add_cancel, zpow_natCast]

/-- A decimal that is the same number as the shortest decimal of a finite value rounds to the
magnitude of that value. -/
theorem magnitude_nearest_of_toRat_eq {x : Binary64} (hx : x.IsFinite) {d : Decimal}
    (h : d.toRat = x.shortest.toRat) : d.nearest.magnitude = x.magnitude := by
  obtain ⟨coefficient, place, hshortest, hmagnitude⟩ := exists_shortest_eq hx
  rw [hshortest] at h
  exact (magnitude_nearest_gridPoint h).trans hmagnitude

end Binary64

end CssValues
