import CssValues.Proofs.CssText.ShortestText
import CssValues.Proofs.Ratio.NormalForm
import Mathlib.Data.Rat.Floor

/-!
# Components with more than ten decimals

Scales of up to ten decimals are tried, so one would expect that a component whose text has more
digits than that behind the point keeps the ratio as it is. The test for whole numbers does not read
the text, though: it has a tolerance. A whole number in lowest terms has no digits behind the point,
so such a ratio is kept exactly when no scale makes it whole up to the tolerance. It is kept when
a component is farther from every number of ten decimals than the tolerance reaches. It is never
kept when a scale brings a component between `2 ^ 49` and `2 ^ 53`, and the other one as well unless
that is a whole number: there the tolerance is a half or more, and everything is as good as whole.
-/

namespace CssValues

open Binary64 (unitsPerOne maxExactNat)

/-! ## Digits behind the point -/

/-- How many characters follow the first point of a text. -/
def fractionLength (text : String) : ℕ := (text.toList.dropWhile (· ≠ '.')).tail.length

/-- The text of a decimal has as many digits behind the point as it has negative powers of ten. -/
theorem Decimal.length_tail_dropWhile_chars (d : Decimal) :
    (d.chars.dropWhile (· ≠ '.')).tail.length = (-d.exponent).toNat := by
  obtain ⟨coefficient, exponent⟩ := d
  cases exponent with
  | ofNat zeros =>
    have hdigits := (isDigits_iff.mp (isDigits_toDigits_append_zeros coefficient zeros)).2
    change (List.dropWhile (· ≠ '.') (Nat.toDigits 10 coefficient ++
      List.replicate zeros '0')).tail.length = _
    rw [← List.append_nil (_ ++ _), (takeWhile_and_dropWhile_point hdigits (by simp)).2]
    exact (Int.toNat_of_nonpos (Int.neg_nonpos_of_nonneg (Int.natCast_nonneg zeros))).symm
  | negSucc below =>
    change (List.dropWhile (· ≠ '.') (Nat.toDigits 10 (coefficient / 10 ^ (below + 1)) ++
      '.' :: fractionDigits (below + 1) (coefficient % 10 ^ (below + 1)))).tail.length = below + 1
    rw [(takeWhile_and_dropWhile_point (fun _ => isDigit_of_mem_toDigits) (by simp)).2,
      List.tail_cons, length_fractionDigits]

namespace IsRatioComponent

variable {x : Binary64} (hx : IsRatioComponent x)

include hx

/-- The digits behind the point are those of the shortest decimal. -/
theorem fractionLength_numberText :
    fractionLength (numberText x) = (-x.shortest.exponent).toNat := by
  have hsign : ¬ x < 0 := fun hlt => by
    have hnegative := (Binary64.lt_zero_iff.mp hlt).2.1
    rw [hx.negative_eq] at hnegative
    contradiction
  rw [fractionLength, numberText_of_isFinite hx.1, toList_finiteText, if_neg hsign,
    List.nil_append, Decimal.length_tail_dropWhile_chars]

/-- A component that is a whole number has the units of that number. -/
theorem units_of_toRat_eq {n : ℕ} (h : x.toRat = n) : x.units = n * unitsPerOne := by
  rw [hx.toRat_eq, div_eq_iff Binary64.cast_unitsPerOne_pos.ne'] at h
  exact_mod_cast h

/-- A whole number has no digits behind the point. -/
theorem fractionLength_of_toRat_eq {n : ℕ} (hpos : 0 < n) (hn : n ≤ maxExactNat)
    (h : x.toRat = n) : fractionLength (numberText x) = 0 := by
  obtain ⟨coefficient, zeros, hshortest, -⟩ :=
    Binary64.shortest_of_whole hx.1 hpos hn (hx.units_of_toRat_eq h)
  rw [hx.fractionLength_numberText, hshortest]
  exact Int.toNat_of_nonpos (Int.neg_nonpos_of_nonneg (Int.natCast_nonneg zeros))

end IsRatioComponent

/-! ## The reach of the tolerance -/

/-- No number of ten decimals is within the tolerance, and the rounding of the scaled number. -/
def IsFarFromDecimals (x : Binary64) : Prop :=
  ∀ n : ℕ, 5 / 2 ^ 52 * x.toRat < |n / 10 ^ 10 - x.toRat|

/-- Scaled by so many decimals, the component is surely as good as whole: it is a whole number
already, or it becomes so large that the tolerance is a half or more. -/
def IsSurelyWholeUnder (x : Binary64) (decimals : ℕ) : Prop :=
  (∃ n : ℕ, 0 < n ∧ n * 10 ^ decimals ≤ 2 ^ 53 ∧ x.toRat = n) ∨
    2 ^ 49 ≤ (x * Binary64.ofNat (Nat.pow 10 decimals)).toRat ∧
      (x * Binary64.ofNat (Nat.pow 10 decimals)).toRat ≤ 2 ^ 53

/-- From `2 ^ 49` on, every number is near a whole number. -/
theorem exists_isNearWhole {x : ℚ} (hlow : 2 ^ 49 ≤ x) (hhigh : x ≤ 2 ^ 53) :
    ∃ n, IsNearWhole x n := by
  have hfloor := Nat.floor_le (by linarith : 0 ≤ x + 1 / 2)
  have hnext := Nat.lt_floor_add_one (x + 1 / 2)
  have hmax := le_max_left x 1
  -- the nearest whole number is within a half, and a half is `2 ^ 49 / 2 ^ 50`
  refine ⟨⌊x + 1 / 2⌋₊, Nat.floor_pos.mpr (by linarith), hhigh, by linarith, by linarith, ?_⟩
  rw [abs_le]
  constructor
  · linarith
  · linarith

namespace IsRatioComponent

variable {x : Binary64} (hx : IsRatioComponent x)

include hx

/-- A whole number is scaled without rounding. -/
theorem toRat_mul_scale {n decimals : ℕ} (hle : decimals ≤ 10)
    (hn : n * 10 ^ decimals ≤ maxExactNat) (h : x.toRat = n) :
    (x * Binary64.ofNat (Nat.pow 10 decimals)).toRat = (n * 10 ^ decimals : ℕ) := by
  obtain ⟨hscale, -⟩ := isRatioComponent_scale hle
  have hscaleUnits : (Binary64.ofNat (Nat.pow 10 decimals)).units = 10 ^ decimals * unitsPerOne :=
    Binary64.units_ofNat ((Nat.pow_le_pow_right (by decide) hle).trans (by decide))
  have hproduct : x.units * (Binary64.ofNat (Nat.pow 10 decimals)).units =
      n * 10 ^ decimals * unitsPerOne * unitsPerOne := by
    rw [hx.units_of_toRat_eq h, hscaleUnits]
    ring
  obtain ⟨-, hunits⟩ := (Binary64.isRepresentable_mul_unitsPerOne hn).ofQuotient false
    Binary64.unitsPerOne_pos
  rw [Binary64.toRat_of_negative_eq_false (hx.negative_mul hscale), hx.mul_eq hscale, hproduct,
    hunits, Nat.cast_mul, mul_div_cancel_right₀ _ Binary64.cast_unitsPerOne_pos.ne']

/-- What is surely as good as whole under a scale is near a whole number there, whichever way it is
sure. -/
theorem exists_isNearWhole_of_isSurelyWholeUnder {decimals : ℕ} (hle : decimals ≤ 10)
    (h : IsSurelyWholeUnder x decimals) :
    ∃ n, IsNearWhole (x * Binary64.ofNat (Nat.pow 10 decimals)).toRat n := by
  rcases h with ⟨n, hpos, hn, hvalue⟩ | ⟨hlow, hhigh⟩
  · refine ⟨n * 10 ^ decimals, ?_⟩
    rw [hx.toRat_mul_scale hle hn hvalue]
    exact isNearWhole_natCast (Nat.mul_pos hpos (Nat.pow_pos (by decide))) hn
  · exact exists_isNearWhole hlow hhigh

end IsRatioComponent

/-- A relative error of a scaled number is one of the number. -/
theorem abs_div_sub_le {x w c ε : ℚ} (hc : 0 < c) (h : |w - x * c| ≤ ε * (x * c)) :
    |w / c - x| ≤ ε * x := by
  have hsplit : w - x * c = (w / c - x) * c := by rw [sub_mul, div_mul_cancel₀ _ hc.ne']
  rw [hsplit, abs_mul, abs_of_pos hc, ← mul_assoc] at h
  exact le_of_mul_le_mul_right h hc

/-- What a scale of at most ten decimals makes whole is not far from a number of ten decimals. -/
theorem not_isFarFromDecimals {x : Binary64} {decimals w : ℕ} (hle : decimals ≤ 10)
    (h : |w - x.toRat * 10 ^ decimals| ≤ 5 / 2 ^ 52 * (x.toRat * 10 ^ decimals)) :
    ¬ IsFarFromDecimals x := by
  intro hfar
  have hten (places : ℕ) : (0 : ℚ) < 10 ^ places := pow_pos (by norm_num) places
  have hmore : ((w * 10 ^ (10 - decimals) : ℕ) : ℚ) / 10 ^ 10 =
      w / 10 ^ decimals := by
    rw [Nat.cast_mul, Nat.cast_pow, Nat.cast_ofNat, ← Nat.sub_add_cancel hle, pow_add, mul_comm,
      Nat.sub_add_cancel hle, mul_div_mul_left _ _ (hten _).ne']
  have hreached := hfar (w * 10 ^ (10 - decimals))
  rw [hmore] at hreached
  exact not_lt.mpr (abs_div_sub_le (hten decimals) h) hreached

namespace Ratio

/-- The text of one of the components has more than ten digits behind the point. -/
def HasLongDecimals (r : Ratio) : Prop :=
  10 < fractionLength (numberText r.width) ∨
    10 < fractionLength (numberText r.height)

/-- Whether a ratio has long decimals can be told from the shortest decimals of its components. -/
theorem hasLongDecimals_iff {r : Ratio} :
    r.HasLongDecimals ↔ 10 < (-r.width.shortest.exponent).toNat ∨
      10 < (-r.height.shortest.exponent).toNat := by
  rw [HasLongDecimals, r.width_valid.fractionLength_numberText,
    r.height_valid.fractionLength_numberText]

/-- In lowest terms there are no digits behind the point. -/
theorem IsInLowestTerms.not_hasLongDecimals {r : Ratio} {m n : ℕ} (h : r.IsInLowestTerms m n) :
    ¬ r.HasLongDecimals := by
  rw [HasLongDecimals,
    r.width_valid.fractionLength_of_toRat_eq h.width_pos h.width_le h.width_eq,
    r.height_valid.fractionLength_of_toRat_eq h.height_pos h.height_le h.height_eq, or_self]
  exact Nat.not_lt_zero 10

/-- Of the ratios with long decimals, simplifying keeps those that no scale makes whole. -/
theorem simplified_eq_iff_of_hasLongDecimals {r : Ratio} (hlong : r.HasLongDecimals) :
    r.simplified = r ↔ ∀ decimals w h, ¬ r.IsWholeUnder decimals w h := by
  rcases r.isInLowestTerms_or_simplified_eq with ⟨_, _, _, _, _, hwhole, hterms, -⟩ | ⟨hnone, hsame⟩
  · -- what a scale makes whole ends in lowest terms, which `r` is not in
    refine iff_of_false (fun hsame => ?_) fun hnone => hnone _ _ _ hwhole
    rw [hsame] at hterms
    exact hterms.not_hasLongDecimals hlong
  · exact iff_of_true hsame hnone

/-- A ratio with more than ten decimals in a component is kept by simplifying exactly when no scale
makes it whole. So it is kept if a component is far from the numbers of ten decimals, and never kept
if under some scale both components are surely as good as whole. -/
theorem long_decimals_kept_iff {r : Ratio} (hlong : r.HasLongDecimals) :
    (r.simplified = r ↔ ∀ decimals w h, ¬ r.IsWholeUnder decimals w h) ∧
    (IsFarFromDecimals r.width ∨ IsFarFromDecimals r.height → r.simplified = r) ∧
    ∀ decimals ≤ 10, IsSurelyWholeUnder r.width decimals →
      IsSurelyWholeUnder r.height decimals → r.simplified ≠ r := by
  have hiff := simplified_eq_iff_of_hasLongDecimals hlong
  refine ⟨hiff, fun hfar => hiff.mpr fun decimals w h hwhole => ?_,
    fun decimals hle hwidth hheight hsame => ?_⟩
  · rcases hfar with hwidth | hheight
    · exact not_isFarFromDecimals hwhole.decimals_le hwhole.abs_sub_width_le hwidth
    · exact not_isFarFromDecimals hwhole.decimals_le hwhole.abs_sub_height_le hheight
  · obtain ⟨w, hw⟩ := r.width_valid.exists_isNearWhole_of_isSurelyWholeUnder hle hwidth
    obtain ⟨h, hh⟩ := r.height_valid.exists_isNearWhole_of_isSurelyWholeUnder hle hheight
    exact hiff.mp hsame decimals w h ⟨hle, hw, hh⟩

/-- The value nearest to `π`, over one, is far from the numbers of ten decimals. -/
theorem pi_over_one_kept :
    let r : Ratio := ⟨.ofBits 0x400921fb54442d18, 1, by decide +kernel, IsRatioComponent.one⟩
    r.HasLongDecimals ∧ IsFarFromDecimals r.width ∧ r.simplified = r := by
  intro r
  have hunits : r.width.units * 281474976710656 = 884279719003555 * unitsPerOne := by
    decide +kernel
  have hvalue : r.width.toRat = 884279719003555 / 281474976710656 := by
    rw [r.width_valid.toRat_eq,
      div_eq_div_iff Binary64.cast_unitsPerOne_pos.ne' (by norm_num : (281474976710656 : ℚ) ≠ 0)]
    exact_mod_cast hunits
  have hlong : r.HasLongDecimals := hasLongDecimals_iff.mpr (Or.inl (by decide +kernel))
  have hfar : IsFarFromDecimals r.width := by
    intro n
    rw [hvalue, lt_abs]
    -- `π` lies between 3.1415926535 and 3.1415926536, and not close to either
    rcases le_or_gt n 31415926535 with hbelow | habove
    · have hn : (n : ℚ) ≤ 31415926535 := by exact_mod_cast hbelow
      right
      linarith
    · have hn : (31415926536 : ℚ) ≤ n := by exact_mod_cast habove
      left
      linarith
  exact ⟨hlong, hfar, (long_decimals_kept_iff hlong).2.1 (Or.inl hfar)⟩

/-- A width with twelve decimals is past `2 ^ 49` under the last scale, and is rounded. The first
value above one has sixteen decimals, and is as good as one. -/
theorem long_decimals_not_kept :
    let r : Ratio := ⟨.ofBits 0x40eeadfb4c5d390c, 1, by decide +kernel, IsRatioComponent.one⟩
    let s : Ratio := ⟨.ofBits 0x3ff0000000000001, 1, by decide +kernel, IsRatioComponent.one⟩
    (r.width.shortest = ⟨62831853071795864, -12⟩ ∧ r.HasLongDecimals ∧ r.simplified ≠ r ∧
      r.simplified.width = .ofNat 628318530717959 ∧ r.simplified.height = .ofNat 10000000000) ∧
    (s.width.shortest = ⟨10000000000000002, -16⟩ ∧ s.HasLongDecimals ∧ s.simplified ≠ s ∧
      s.simplified = square) := by
  intro r s
  -- times `10 ^ 10` the width is 628318530717958.625, and the tolerance more than a half
  have hr : wholeComponents? r.width r.height = some (628318530717959, 10000000000) := by
    decide +kernel
  have hs : wholeComponents? s.width s.height = some (1, 1) := by decide +kernel
  have hrterms := lowestTerms_of_some hr
  have hsterms := lowestTerms_of_some hs
  have hrdigits : r.width.shortest = ⟨62831853071795864, -12⟩ := by decide +kernel
  have hsdigits : s.width.shortest = ⟨10000000000000002, -16⟩ := by decide +kernel
  have hrwidth : r.simplified.width = .ofNat 628318530717959 := by
    rw [width_simplified, hrterms]
    rfl
  have hrheight : r.simplified.height = .ofNat 10000000000 := by
    rw [height_simplified, hrterms]
    rfl
  have hssquare : s.simplified = square := by
    refine eq_of_components ?_ ?_
    · rw [width_simplified, hsterms]
      rfl
    · rw [height_simplified, hsterms]
      rfl
  refine ⟨⟨hrdigits, hasLongDecimals_iff.mpr (Or.inl ?_), fun hsame => ?_, hrwidth, hrheight⟩,
    hsdigits, hasLongDecimals_iff.mpr (Or.inl ?_), fun hsame => ?_, hssquare⟩
  · rw [hrdigits]
    decide
  · rw [hsame] at hrwidth
    exact absurd hrwidth (by decide +kernel)
  · rw [hsdigits]
    decide
  · rw [hsame] at hssquare
    exact absurd hssquare (by decide +kernel)

end Ratio

end CssValues
