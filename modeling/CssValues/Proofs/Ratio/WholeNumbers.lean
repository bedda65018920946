import CssValues.Proofs.Binary64.Whole
import CssValues.Proofs.Ratio.ReadBack
import CssValues.Ratio.Simplified

/-!
# When a scale makes components whole

The test for whole numbers is made in rounded arithmetic, but nothing in it is rounded: the whole
number, the difference from it and the tolerance are all values. So a scale is accepted exactly when
both scaled components are near whole numbers as rational numbers, `IsNearWhole`. The scaled
components themselves are rounded, once.
-/

namespace CssValues

open Binary64 (unitsPerOne maxExactNat nearestWhole nearestMagnitude binadeSize magnitudeUnits
  ofQuotient)

/-- A number is as good as a positive whole number: it is at most `2 ^ 53`, no other whole number is
nearer, and it differs from this one by at most `2 ^ -50` of itself, or of one if that is more. -/
structure IsNearWhole (x : ℚ) (n : ℕ) : Prop where
  pos : 0 < n
  le : x ≤ 2 ^ 53
  sub_half_le : n - 1 / 2 ≤ x
  lt_add_half : x < n + 1 / 2
  abs_sub_le : |x - n| ≤ max x 1 / 2 ^ 50

/-! ## The tolerance -/

/-- Four times the distance from one to the next value is `2 ^ -50`. -/
theorem units_four_mul_epsilon :
    (4 * Binary64.epsilon).units = 1 <<< 1024 ∧ (4 * Binary64.epsilon).IsFinite ∧
      (4 * Binary64.epsilon).negative = false := by decide +kernel

/-- A number of at most 53 bits, shifted by fewer places, is below a power of two. -/
theorem shiftLeft_lt_one_shiftLeft {n shift places : ℕ} (hn : n < 2 * binadeSize)
    (hplaces : 53 + shift ≤ places) : n <<< shift < 1 <<< places := by
  rw [Nat.shiftLeft_eq, Nat.one_shiftLeft]
  calc n * 2 ^ shift
      < 2 ^ 53 * 2 ^ shift := Nat.mul_lt_mul_of_pos_right hn (Nat.two_pow_pos shift)
    _ = 2 ^ (53 + shift) := (Nat.pow_add 2 53 shift).symm
    _ ≤ 2 ^ places := Nat.pow_le_pow_right (by decide) hplaces

/-- Places can be moved from one factor to the other. -/
theorem one_shiftLeft_mul_shiftLeft (n rest places more : ℕ) :
    (1 <<< places) * n <<< (rest + more) = n <<< rest * (1 <<< (places + more)) := by
  simp only [Nat.shiftLeft_eq, Nat.pow_add]
  ring

/-- The tolerance relative to a value of at least one is exact. -/
theorem units_tolerance {x : Binary64} (hx : x.IsFinite) (hsign : x.negative = false)
    (hone : unitsPerOne ≤ x.units) :
    ¬ (4 * Binary64.epsilon * x).IsNaN ∧ (4 * Binary64.epsilon * x).negative = false ∧
      (4 * Binary64.epsilon * x).units * 2 ^ 50 = x.units := by
  obtain ⟨hfour, hfinite, hnonneg⟩ := units_four_mul_epsilon
  obtain ⟨significand, shift, hunits, hlt, -, hshift⟩ := hx.exists_units_eq
  rw [hunits, Binary64.unitsPerOne_eq] at hone
  obtain ⟨rest, rfl⟩ : ∃ rest, shift = rest + 50 := by
    refine Nat.exists_eq_add_of_le' (Nat.not_lt.mp fun hsmall => ?_)
    exact Nat.not_lt.mpr hone (shiftLeft_lt_one_shiftLeft hlt (by omega))
  have hexact : (1 <<< 1024) * x.units = significand <<< rest * unitsPerOne := by
    rw [hunits, Binary64.unitsPerOne_eq]
    exact one_shiftLeft_mul_shiftLeft significand rest 1024 50
  have hmul : (4 : Binary64) * Binary64.epsilon * x =
      ofQuotient false ((1 <<< 1024) * x.units) unitsPerOne := by
    change Binary64.mul (4 * Binary64.epsilon) x = _
    simp only [Binary64.mul, hfinite.not_isNaN, hfinite.not_isInfinite, hx.not_isNaN,
      hx.not_isInfinite, or_self, if_false, hfour, hnonneg, hsign]
    rfl
  obtain ⟨hfin, hproduct⟩ := (Binary64.isRepresentable_shiftLeft hlt.le
    (by omega : rest ≤ 2044)).ofQuotient false Binary64.unitsPerOne_pos
  rw [hmul, hexact]
  refine ⟨hfin.not_isNaN, rfl, ?_⟩
  rw [hproduct, hunits, Nat.shiftLeft_eq, Nat.shiftLeft_eq, Nat.mul_assoc, ← Nat.pow_add]

/-! ## One component -/

section Component

variable {x : Binary64} (hx : x.IsFinite) (hsign : x.negative = false)

include hx hsign

/-- A value is close to the whole number that it rounds to when it is so in exact arithmetic. -/
theorem isCloseTo_round_iff (hle : x.units ≤ maxExactNat * unitsPerOne) :
    IsCloseTo x x.round ↔
      ((x.units : Int) - nearestWhole x.units * unitsPerOne).natAbs * 2 ^ 50 ≤
        max x.units unitsPerOne := by
  obtain ⟨hroundfinite, -⟩ := Binary64.isFinite_and_units_round hx hle
  have hmax := Binary64.units_max_one hx.not_isNaN hsign
  have hmaxfinite : (max x 1).IsFinite ∧ (max x 1).negative = false := by
    rcases Binary64.max_one_cases x with h | h
    · rw [h]
      exact ⟨hx, hsign⟩
    · rw [h]
      exact ⟨IsRatioComponent.one.1, rfl⟩
  obtain ⟨hnan, hnonneg, htolerance⟩ := units_tolerance hmaxfinite.1 hmaxfinite.2
    (hmax ▸ le_max_right _ _)
  have hdifference : x.signedUnits - x.round.signedUnits =
      (x.units : Int) - nearestWhole x.units * unitsPerOne := by
    rw [Binary64.signedUnits_of_negative_eq_false hsign, Binary64.signedUnits_round hx hle hsign]
  obtain ⟨hsubfinite, hsub⟩ := Binary64.isFinite_and_units_sub hx hroundfinite
    (hdifference ▸ Binary64.isRepresentable_sub_nearestWhole hx)
  have habs : (x - x.round).abs.IsFinite := hsubfinite
  have hunits : (x - x.round).abs.units =
      ((x.units : Int) - nearestWhole x.units * unitsPerOne).natAbs := by
    rw [← hdifference]
    exact hsub
  rw [IsCloseTo, Binary64.le_iff_units_le habs.not_isNaN hnan rfl hnonneg, hunits, ← hmax,
    ← htolerance, Nat.mul_le_mul_right_iff (Nat.two_pow_pos 50)]

/-- A rounded value is at least one when the nearest whole number is not zero. -/
theorem one_le_round_iff (hle : x.units ≤ maxExactNat * unitsPerOne) :
    1 ≤ x.round ↔ 0 < nearestWhole x.units := by
  obtain ⟨hfinite, hunits⟩ := Binary64.isFinite_and_units_round hx hle
  rw [Binary64.le_iff_units_le IsRatioComponent.one.1.not_isNaN hfinite.not_isNaN rfl
    ((Binary64.negative_round hx).trans hsign), hunits, Binary64.units_one]
  exact le_mul_iff_one_le_left Binary64.unitsPerOne_pos

section Units

omit hx

/-- A value is at most a half below a whole number when its units are. -/
theorem sub_half_le_toRat_iff {n : ℕ} :
    n - 1 / 2 ≤ x.toRat ↔ 2 * (n * unitsPerOne) ≤ 2 * x.units + unitsPerOne := by
  rw [Binary64.toRat_of_negative_eq_false hsign, le_div_iff₀ Binary64.cast_unitsPerOne_pos,
    ← Nat.cast_le (α := ℚ)]
  push_cast
  constructor
  · intro h
    linarith
  · intro h
    linarith

/-- A value is less than a half above a whole number when its units are. -/
theorem toRat_lt_add_half_iff {n : ℕ} :
    x.toRat < n + 1 / 2 ↔ 2 * x.units < 2 * (n * unitsPerOne) + unitsPerOne := by
  rw [Binary64.toRat_of_negative_eq_false hsign, div_lt_iff₀ Binary64.cast_unitsPerOne_pos,
    ← Nat.cast_lt (α := ℚ)]
  push_cast
  constructor
  · intro h
    linarith
  · intro h
    linarith

/-- A value is within the tolerance of a whole number when its units are. -/
theorem abs_toRat_sub_le_iff {n : ℕ} :
    |x.toRat - n| ≤ max x.toRat 1 / 2 ^ 50 ↔
      ((x.units : Int) - n * unitsPerOne).natAbs * 2 ^ 50 ≤ max x.units unitsPerOne := by
  have hone := Binary64.cast_unitsPerOne_pos
  have hvalue := Binary64.toRat_of_negative_eq_false hsign
  have hleft : |x.toRat - n| * unitsPerOne = |(x.units : ℚ) - n * unitsPerOne| := by
    rw [← abs_of_pos hone, ← abs_mul, abs_of_pos hone, hvalue, sub_mul, div_mul_cancel₀ _ hone.ne']
  have hright : max x.toRat 1 * unitsPerOne = max (x.units : ℚ) unitsPerOne := by
    rw [max_mul_of_nonneg _ _ hone.le, hvalue, div_mul_cancel₀ _ hone.ne', one_mul]
  rw [le_div_iff₀ (by norm_num), ← mul_le_mul_iff_of_pos_right hone, hright, mul_right_comm,
    hleft, ← Nat.cast_le (α := ℚ)]
  push_cast [Nat.cast_natAbs]
  exact Iff.rfl

end Units

/-- A value is near a whole number, as a rational number, exactly when it passes the tests and
rounds to that number. -/
theorem isNearWhole_toRat_iff {n : ℕ} :
    IsNearWhole x.toRat n ↔ x.units ≤ maxExactNat * unitsPerOne ∧ IsCloseTo x x.round ∧
      1 ≤ x.round ∧ nearestWhole x.units = n := by
  have hle := Binary64.toRat_le_iff_units_le hsign
  constructor
  · intro h
    have hbound := hle.mp h.le
    have hnearest := Binary64.nearestWhole_eq ((sub_half_le_toRat_iff hsign).mp h.sub_half_le)
      ((toRat_lt_add_half_iff hsign).mp h.lt_add_half)
    refine ⟨hbound, ?_, ?_, hnearest⟩
    · rw [isCloseTo_round_iff hx hsign hbound, hnearest]
      exact (abs_toRat_sub_le_iff hsign).mp h.abs_sub_le
    · rw [one_le_round_iff hx hsign hbound, hnearest]
      exact h.pos
  · rintro ⟨hbound, hround, honele, rfl⟩
    obtain ⟨herror, herror'⟩ := Binary64.nearestWhole_error x.units
    rw [isCloseTo_round_iff hx hsign hbound] at hround
    rw [one_le_round_iff hx hsign hbound] at honele
    exact ⟨honele, hle.mpr hbound, (sub_half_le_toRat_iff hsign).mpr herror,
      (toRat_lt_add_half_iff hsign).mpr herror', (abs_toRat_sub_le_iff hsign).mpr hround⟩

end Component

/-- A value near a whole number rounds to it. -/
theorem IsNearWhole.isFinite_and_toRat_round {x : Binary64} (hsign : x.negative = false) {n : ℕ}
    (h : IsNearWhole x.toRat n) : x.round.IsFinite ∧ x.round.toRat = n := by
  have hle := (Binary64.toRat_le_iff_units_le hsign).mp h.le
  have hx := Binary64.isFinite_of_units_le hle
  obtain ⟨-, -, -, hnearest⟩ := (isNearWhole_toRat_iff hx hsign).mp h
  refine ⟨(Binary64.isFinite_and_units_round hx hle).1, ?_⟩
  rw [Binary64.toRat, Binary64.signedUnits_round hx hle hsign, hnearest]
  push_cast
  exact mul_div_cancel_right₀ _ Binary64.cast_unitsPerOne_pos.ne'

/-- Past `2 ^ 53` nothing is near a whole number, and up to it the word that a value rounds to is
the whole number it is near. -/
theorem isNearWhole_iff_tests {x : Binary64} (hx : ¬ x.IsNaN) (hsign : x.negative = false) {n : ℕ} :
    IsNearWhole x.toRat n ↔ ¬ 9007199254740992 < x ∧ IsCloseTo x x.round ∧ 1 ≤ x.round ∧
      x.round.toUInt64.toNat = n := by
  have hcutoff : ¬ 9007199254740992 < x ↔ x.units ≤ maxExactNat * unitsPerOne := by
    have hmax : (9007199254740992 : Binary64).units = maxExactNat * unitsPerOne :=
      Binary64.units_ofNat (Nat.le_refl maxExactNat)
    have hlt : 9007199254740992 < x ↔ (9007199254740992 : Binary64).units < x.units :=
      Binary64.lt_iff_units_lt (Binary64.not_isNaN_ofNat _) hx rfl hsign
    rw [hlt, hmax, Nat.not_lt]
  rw [hcutoff]
  by_cases hfinite : x.IsFinite
  · rw [isNearWhole_toRat_iff hfinite hsign]
    refine and_congr_right fun hle => and_congr_right fun _ => and_congr_right fun _ => ?_
    obtain ⟨hround, hunits⟩ := Binary64.isFinite_and_units_round hfinite hle
    have hword : x.round.toUInt64.toNat = nearestWhole x.units :=
      Binary64.toNat_toUInt64_of_units hround ((Binary64.negative_round hfinite).trans hsign) hunits
        ((Binary64.nearestWhole_le hle).trans (by decide))
    rw [hword]
  · refine iff_of_false (fun h => ?_) fun h => hfinite (Binary64.isFinite_of_units_le h.1)
    exact hfinite (Binary64.isFinite_of_units_le
      ((Binary64.toRat_le_iff_units_le hsign).mp h.le))

/-! ## Both components -/

namespace IsRatioComponent

variable {x y : Binary64} (hx : IsRatioComponent x) (hy : IsRatioComponent y)

include hx

/-- A component has no sign. -/
theorem negative_eq : x.negative = false := (Binary64.zero_lt_iff.mp hx.2).2.1

/-- The number that a component stands for. -/
theorem toRat_eq : x.toRat = x.units / unitsPerOne :=
  Binary64.toRat_of_negative_eq_false hx.negative_eq

/-- A component stands for a positive number. -/
theorem toRat_pos : 0 < x.toRat := by
  rw [hx.toRat_eq]
  exact div_pos (Nat.cast_pos.mpr hx.units_pos) Binary64.cast_unitsPerOne_pos

include hy

/-- The product of components is the exact one, rounded once. -/
theorem mul_eq : x * y = ofQuotient false (x.units * y.units) unitsPerOne := by
  change Binary64.mul x y = _
  simp only [Binary64.mul, hx.1.not_isNaN, hx.1.not_isInfinite, hy.1.not_isNaN,
    hy.1.not_isInfinite, or_self, if_false, hx.negative_eq, hy.negative_eq]
  rfl

/-- A product of components is not NaN. -/
theorem not_isNaN_mul : ¬ (x * y).IsNaN := by
  rw [hx.mul_eq hy]
  exact Binary64.not_isNaN_ofQuotient _ _ _

/-- A product of components has no sign. -/
theorem negative_mul : (x * y).negative = false := by
  rw [hx.mul_eq hy, Binary64.negative_ofQuotient]

end IsRatioComponent

/-- The scales are components, and exact. -/
theorem isRatioComponent_scale {decimals : ℕ} (h : decimals ≤ 10) :
    IsRatioComponent (Binary64.ofNat (Nat.pow 10 decimals)) ∧
      (Binary64.ofNat (Nat.pow 10 decimals)).toRat = 10 ^ decimals := by
  have hle : Nat.pow 10 decimals ≤ maxExactNat :=
    (Nat.pow_le_pow_right (by decide) h).trans (by decide)
  refine ⟨Ratio.isRatioComponent_ofNat (Nat.pow_pos (by decide)) hle, ?_⟩
  rw [Binary64.toRat_ofNat hle, Nat.pow_eq, Nat.cast_pow, Nat.cast_ofNat]

/-- A scale is accepted when it makes both components near whole numbers, and these are the
numbers accepted. -/
theorem wholeAtScale?_eq_some_iff {width height scale : Binary64} (hw : IsRatioComponent width)
    (hh : IsRatioComponent height) (hs : IsRatioComponent scale) {w h : UInt64} :
    wholeAtScale? width height scale = some (w, h) ↔
      IsNearWhole (width * scale).toRat w.toNat ∧ IsNearWhole (height * scale).toRat h.toNat := by
  rw [isNearWhole_iff_tests (hw.not_isNaN_mul hs) (hw.negative_mul hs),
    isNearWhole_iff_tests (hh.not_isNaN_mul hs) (hh.negative_mul hs), UInt64.toNat_inj,
    UInt64.toNat_inj]
  simp only [wholeAtScale?]
  split
  next hpast =>
    refine iff_of_false nofun fun hboth => ?_
    rcases hpast with hpast | hpast
    · exact hboth.1.1 hpast
    · exact hboth.2.1 hpast
  next hcutoff =>
    rw [not_or] at hcutoff
    split
    next htests =>
      rw [Option.some.injEq, Prod.mk.injEq]
      simp only [hcutoff, htests, not_false_eq_true, true_and]
    next htests =>
      refine iff_of_false nofun fun hboth => htests ?_
      exact ⟨hboth.1.2.1, hboth.2.2.1, hboth.1.2.2.1, hboth.2.2.2.1⟩

end CssValues
