import CssValues.Proofs.Ratio.WholeNumbers
import Mathlib.Data.Nat.Cast.Field

/-!
# Lowest terms keep the proportion

A whole number that a scale makes of a component differs from the exact product by two errors, both
relative to it: the one rounding of the product, and the tolerance. Together they stay below
`5 · 2 ^ -52`, for components of every size, because a product that is near a positive whole number
is neither subnormal nor past `2 ^ 53`. The divisor cancels, so the proportion of the whole numbers
in lowest terms differs from that of the components by twice as much.
-/

namespace CssValues

open Binary64 (unitsPerOne maxExactNat nearestMagnitude binadeSize magnitudeUnits ofQuotient)

/-! ## The error of a whole number -/

namespace IsRatioComponent

variable {x y : Binary64} (hx : IsRatioComponent x) (hy : IsRatioComponent y)

include hx hy

/-- A product of at least the smallest normal number is within one rounding of the exact one. -/
theorem isWithin_mul (hfinite : (x * y).IsFinite)
    (hnormal : binadeSize * unitsPerOne ≤ x.units * y.units) :
    IsWithin 1 (x * y).toRat (x.toRat * y.toRat) := by
  rw [hx.mul_eq hy] at hfinite ⊢
  have hunit := Binary64.unitsPerOne_pos
  have hone := Binary64.cast_unitsPerOne_pos
  have hwithin := Binary64.isWithin_nearestMagnitude hunit hfinite hnormal
  rw [Nat.cast_mul] at hwithin
  have hexact : x.toRat * y.toRat * unitsPerOne ^ 2 = x.units * y.units := by
    rw [hx.toRat_eq, hy.toRat_eq, div_mul_div_comm, ← sq, div_mul_cancel₀ _ (pow_pos hone 2).ne']
  have hrounded : (ofQuotient false (x.units * y.units) unitsPerOne).toRat * unitsPerOne ^ 2 =
      magnitudeUnits (nearestMagnitude (x.units * y.units) unitsPerOne) * unitsPerOne := by
    rw [Binary64.toRat_of_negative_eq_false rfl, Binary64.units_ofQuotient, sq, ← mul_assoc,
      div_mul_cancel₀ _ hone.ne']
  refine IsWithin.of_mul_right (pow_pos hone 2) ?_
  rw [hexact, hrounded]
  exact hwithin

/-- A product that rounds past the smallest normal number is not below it. -/
theorem binadeSize_mul_le (h : binadeSize < (x * y).units) :
    binadeSize * unitsPerOne ≤ x.units * y.units := by
  rw [hx.mul_eq hy] at h
  by_contra hsmall
  have hunit := Binary64.unitsPerOne_pos
  have hmono := Binary64.nearestMagnitude_mono hunit (Nat.le_of_not_le hsmall)
  have hbinade : nearestMagnitude (binadeSize * unitsPerOne) unitsPerOne = binadeSize := by
    have hexact := Binary64.nearestMagnitude_magnitudeUnits hunit
      (by decide : binadeSize ≤ Binary64.infinityMagnitude)
    rwa [Binary64.magnitudeUnits_binadeSize] at hexact
  rw [hbinade, ← Binary64.magnitudeUnits_strictMono.le_iff_le,
    Binary64.magnitudeUnits_binadeSize] at hmono
  exact Nat.not_lt.mpr hmono h

end IsRatioComponent

namespace IsNearWhole

variable {x : ℚ} {n : ℕ} (h : IsNearWhole x n)

include h

/-- The whole number is at least one. -/
theorem one_le : (1 : ℚ) ≤ n := Nat.one_le_cast.mpr h.pos

/-- The whole number is exact as a value. -/
theorem le_maxExactNat : n ≤ maxExactNat := by
  have hlow := h.sub_half_le
  have hhigh := h.le
  have hlt : (n : ℚ) < (maxExactNat + 1 : ℕ) := by
    rw [Nat.cast_add_one, Binary64.cast_maxExactNat]
    linarith
  exact Nat.le_of_lt_succ (Nat.cast_lt.mp hlt)

/-- The tolerance is relative below one as well: only a number just below one is near one. -/
theorem abs_sub_le_mul : |x - n| ≤ 17 / 16 * x / 2 ^ 50 := by
  have hclose := h.abs_sub_le
  rcases le_total 1 x with hlarge | hsmall
  · rw [max_eq_left hlarge] at hclose
    linarith
  · rw [max_eq_right hsmall] at hclose
    have hone := h.one_le
    have hlow := (abs_le.mp hclose).1
    have hx : 16 / 17 ≤ x := by
      norm_num at hlow
      linarith
    refine hclose.trans ?_
    linarith

/-- A number near a whole one is at least a half. -/
theorem half_le : 1 / 2 ≤ x := by
  have hone := h.one_le
  have hlow := h.sub_half_le
  linarith

end IsNearWhole

/-- A whole number that a scale makes of a component is the exact product up to `5 · 2 ^ -52`. -/
theorem IsNearWhole.abs_sub_mul_le {x y : Binary64} {n : ℕ} (hx : IsRatioComponent x)
    (hy : IsRatioComponent y) (h : IsNearWhole (x * y).toRat n) :
    |n - x.toRat * y.toRat| ≤ 5 / 2 ^ 52 * (x.toRat * y.toRat) := by
  have hsign := hx.negative_mul hy
  have hfinite : (x * y).IsFinite :=
    Binary64.isFinite_of_units_le ((Binary64.toRat_le_iff_units_le hsign).mp h.le)
  have hnormal : binadeSize < (x * y).units := by
    have hsmall : binadeSize * 2 < unitsPerOne := by decide +kernel
    have hhalf := h.half_le
    rw [Binary64.toRat_of_negative_eq_false hsign,
      div_le_div_iff₀ (by norm_num) Binary64.cast_unitsPerOne_pos, one_mul] at hhalf
    exact Nat.lt_of_mul_lt_mul_right (hsmall.trans_le (by exact_mod_cast hhalf))
  have hpos : 0 < x.toRat * y.toRat := mul_pos hx.toRat_pos hy.toRat_pos
  have hrounded :=
    (hx.isWithin_mul hy hfinite (hx.binadeSize_mul_le hy hnormal)).abs_sub_le hpos.le
  have hclose := h.abs_sub_le_mul
  generalize (x * y).toRat = product at *
  generalize x.toRat * y.toRat = exact at *
  rw [pow_one, unitRoundoff] at hrounded
  rw [abs_le] at *
  constructor
  · norm_num at *
    linarith
  · norm_num at *
    linarith

/-! ## The divisor -/

/-- Components that no scale makes whole are left as they are. -/
theorem lowestTerms_of_none {width height : Binary64} (h : wholeComponents? width height = none) :
    lowestTerms width height = (width, height) := by
  unfold lowestTerms
  rw [h]

/-- Words that are accepted are divided by their greatest common divisor. -/
theorem lowestTerms_of_some {width height : Binary64} {w h : UInt64}
    (haccepted : wholeComponents? width height = some (w, h)) :
    lowestTerms width height = (Binary64.ofNat (w.toNat / Nat.gcd w.toNat h.toNat),
      Binary64.ofNat (h.toNat / Nat.gcd w.toNat h.toNat)) := by
  have hdiv (n : UInt64) : (n / euclid w h).toNat = n.toNat / Nat.gcd w.toNat h.toNat := by
    rw [UInt64.toNat_div, toNat_euclid]
  unfold lowestTerms
  rw [haccepted]
  change (Binary64.ofNat (w / euclid w h).toNat, Binary64.ofNat (h / euclid w h).toNat) = _
  rw [hdiv, hdiv]

namespace Ratio

/-- Both components of a ratio are near whole numbers under the power of ten of so many decimals. -/
structure IsWholeUnder (r : Ratio) (decimals w h : ℕ) : Prop where
  decimals_le : decimals ≤ 10
  width : IsNearWhole (r.width * Binary64.ofNat (Nat.pow 10 decimals)).toRat w
  height : IsNearWhole (r.height * Binary64.ofNat (Nat.pow 10 decimals)).toRat h

namespace IsWholeUnder

variable {r : Ratio} {decimals w h : ℕ} (hwhole : r.IsWholeUnder decimals w h)

include hwhole

/-- The first whole number is the exact scaled component up to `5 · 2 ^ -52`. -/
theorem abs_sub_width_le :
    |w - r.width.toRat * 10 ^ decimals| ≤ 5 / 2 ^ 52 * (r.width.toRat * 10 ^ decimals) := by
  obtain ⟨hscale, hten⟩ := isRatioComponent_scale hwhole.decimals_le
  have herror := hwhole.width.abs_sub_mul_le r.width_valid hscale
  rwa [hten] at herror

/-- The second whole number is the exact scaled component up to `5 · 2 ^ -52`. -/
theorem abs_sub_height_le :
    |h - r.height.toRat * 10 ^ decimals| ≤ 5 / 2 ^ 52 * (r.height.toRat * 10 ^ decimals) := by
  obtain ⟨hscale, hten⟩ := isRatioComponent_scale hwhole.decimals_le
  have herror := hwhole.height.abs_sub_mul_le r.height_valid hscale
  rwa [hten] at herror

end IsWholeUnder

/-- The words accepted under a scale are the whole numbers that the components are near. -/
theorem wholeAtScale?_eq_some_iff_isWholeUnder {r : Ratio} {decimals : ℕ}
    (hle : decimals ≤ 10) {w h : UInt64} :
    wholeAtScale? r.width r.height (Binary64.ofNat (Nat.pow 10 decimals)) = some (w, h) ↔
      r.IsWholeUnder decimals w.toNat h.toNat := by
  rw [wholeAtScale?_eq_some_iff r.width_valid r.height_valid (isRatioComponent_scale hle).1]
  constructor
  · intro hnear
    exact ⟨hle, hnear.1, hnear.2⟩
  · intro hwhole
    exact ⟨hwhole.width, hwhole.height⟩

/-- Whole numbers up to `2 ^ 53` are words. -/
theorem toNat_ofNat_of_le {n : ℕ} (hn : n ≤ maxExactNat) : (UInt64.ofNat n).toNat = n := by
  rw [UInt64.toNat_ofNat', Nat.mod_eq_of_lt (hn.trans_lt (by decide))]

/-- The whole numbers that a scale makes of the components are accepted as words. -/
theorem IsWholeUnder.wholeAtScale?_eq_some {r : Ratio} {decimals w h : ℕ}
    (hwhole : r.IsWholeUnder decimals w h) :
    wholeAtScale? r.width r.height (Binary64.ofNat (Nat.pow 10 decimals)) =
      some (UInt64.ofNat w, UInt64.ofNat h) := by
  rw [wholeAtScale?_eq_some_iff_isWholeUnder hwhole.decimals_le,
    toNat_ofNat_of_le hwhole.width.le_maxExactNat, toNat_ofNat_of_le hwhole.height.le_maxExactNat]
  exact hwhole

/-- The first component of a simplified ratio is the first of the lowest terms. -/
theorem width_simplified (r : Ratio) : r.simplified.width = (lowestTerms r.width r.height).1 := by
  rw [simplified]

/-- The second component of a simplified ratio is the second of the lowest terms. -/
theorem height_simplified (r : Ratio) :
    r.simplified.height = (lowestTerms r.width r.height).2 := by
  rw [simplified]

/-- Ratios with the same components are the same. -/
theorem eq_of_components {r s : Ratio} (hwidth : r.width = s.width)
    (hheight : r.height = s.height) : r = s := by
  cases r
  cases s
  cases hwidth
  cases hheight
  rfl

/-- Simplifying leaves a ratio as it is, or divides the whole numbers that its components are near
by their greatest common divisor. -/
theorem simplified_cases (r : Ratio) :
    (wholeComponents? r.width r.height = none ∧ r.simplified = r) ∨
      ∃ decimals, ∃ w h : UInt64, wholeComponents? r.width r.height = some (w, h) ∧
        r.IsWholeUnder decimals w.toNat h.toNat ∧
        r.simplified.width = Binary64.ofNat (w.toNat / Nat.gcd w.toNat h.toNat) ∧
        r.simplified.height = Binary64.ofNat (h.toNat / Nat.gcd w.toNat h.toNat) := by
  cases hcomponents : wholeComponents? r.width r.height with
  | none =>
    have hterms := lowestTerms_of_none hcomponents
    refine Or.inl ⟨rfl, eq_of_components ?_ ?_⟩
    · rw [width_simplified, hterms]
    · rw [height_simplified, hterms]
  | some words =>
    obtain ⟨w, h⟩ := words
    obtain ⟨decimals, hle, haccepted⟩ := exists_of_wholeComponents? hcomponents
    have hterms := lowestTerms_of_some hcomponents
    refine Or.inr ⟨decimals, w, h, rfl,
      (wholeAtScale?_eq_some_iff_isWholeUnder hle).mp haccepted, ?_, ?_⟩
    · rw [width_simplified, hterms]
    · rw [height_simplified, hterms]

/-- Whole numbers that are products with one factor up to a relative error have their proportion up
to twice that error, and a little more since the error is relative to the products. -/
theorem abs_cross_sub_le {w h x y c : ℚ} (hx : 0 < x) (hy : 0 < y) (hc : 0 < c)
    (hw : |w - x * c| ≤ 5 / 2 ^ 52 * (x * c)) (hh : |h - y * c| ≤ 5 / 2 ^ 52 * (y * c)) :
    |w * y - x * h| ≤ 1 / 2 ^ 48 * x * h := by
  have hsplit : w * y - x * h = (w - x * c) * y + -(x * (h - y * c)) := by ring
  have hproduct : 0 < x * y * c := mul_pos (mul_pos hx hy) hc
  have hwidth : |(w - x * c) * y| ≤ 5 / 2 ^ 52 * (x * y * c) := by
    rw [abs_mul, abs_of_pos hy]
    calc |w - x * c| * y ≤ 5 / 2 ^ 52 * (x * c) * y := mul_le_mul_of_nonneg_right hw hy.le
      _ = 5 / 2 ^ 52 * (x * y * c) := by ring
  have hheight : |x * (h - y * c)| ≤ 5 / 2 ^ 52 * (x * y * c) := by
    rw [abs_mul, abs_of_pos hx]
    calc x * |h - y * c| ≤ x * (5 / 2 ^ 52 * (y * c)) := mul_le_mul_of_nonneg_left hh hx.le
      _ = 5 / 2 ^ 52 * (x * y * c) := by ring
  have hbelow : (1 - 5 / 2 ^ 52) * (x * y * c) ≤ x * h := by
    have hlow := mul_le_mul_of_nonneg_left (abs_le.mp hh).1 hx.le
    linarith
  calc |w * y - x * h|
      ≤ |(w - x * c) * y| + |x * (h - y * c)| := by
        rw [hsplit, ← abs_neg (x * (h - y * c))]
        exact abs_add_le _ _
    _ ≤ 10 / 2 ^ 52 * (x * y * c) := by linarith
    _ ≤ 1 / 2 ^ 48 * ((1 - 5 / 2 ^ 52) * (x * y * c)) := by
      norm_num
      linarith
    _ ≤ 1 / 2 ^ 48 * x * h := by
      rw [mul_assoc (1 / 2 ^ 48) x h]
      exact mul_le_mul_of_nonneg_left hbelow (by norm_num)

/-- Simplifying keeps the proportion of every ratio up to `2 ^ -48`. -/
theorem simplified_keeps_proportion (r : Ratio) :
    |r.simplified.width.toRat * r.height.toRat - r.width.toRat * r.simplified.height.toRat| ≤
      1 / 2 ^ 48 * r.width.toRat * r.simplified.height.toRat := by
  have hx := r.width_valid.toRat_pos
  have hy := r.height_valid.toRat_pos
  rcases r.simplified_cases with ⟨-, hsame⟩ | ⟨decimals, w, h, -, hwhole, hwidth, hheight⟩
  · rw [hsame, sub_self, abs_zero]
    exact (mul_pos (mul_pos (by norm_num) hx) hy).le
  · have hw := hwhole.width.le_maxExactNat
    have hh := hwhole.height.le_maxExactNat
    rw [hwidth, hheight, Binary64.toRat_ofNat ((Nat.div_le_self _ _).trans hw),
      Binary64.toRat_ofNat ((Nat.div_le_self _ _).trans hh),
      Nat.cast_div_charZero (Nat.gcd_dvd_left _ _), Nat.cast_div_charZero (Nat.gcd_dvd_right _ _)]
    have hdivisor : (0 : ℚ) < Nat.gcd w.toNat h.toNat :=
      Nat.cast_pos.mpr (Nat.gcd_pos_of_pos_left _ hwhole.width.pos)
    have hcross := abs_cross_sub_le hx hy (pow_pos (by norm_num) decimals)
      hwhole.abs_sub_width_le hwhole.abs_sub_height_le
    rw [div_mul_eq_mul_div, mul_div_assoc', mul_div_assoc', ← sub_div, abs_div,
      abs_of_pos hdivisor]
    exact div_le_div_of_nonneg_right hcross hdivisor.le

end Ratio

end CssValues
