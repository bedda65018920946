import CssValues.Proofs.Binary64.Nearest
import CssValues.Proofs.Ratio.LowestTerms

/-!
# Decimals reduce exactly

The values nearest to two decimals with the same number of places are scaled back to the digits of
the decimals: under the scale of that many places both products round to the digits, and under a
smaller scale a product is near a whole number only if the digits end in as many zeros as the scale
falls short of. Both hold as long as the two roundings and the tolerance together stay below a
half, for up to fourteen digits; whole numbers need no scale, and are exact up to `2 ^ 53`. So
simplifying finds the digits up to trailing zeros, and divides them by their greatest common
divisor.
-/

namespace CssValues

open Binary64 (unitsPerOne maxExactNat nearestMagnitude binadeSize magnitudeUnits ofQuotient)

/-! ## The value nearest to a decimal -/

/-- The digits of a number with so many decimals are few enough to be found by scaling. -/
structure IsScalable (digits places : ℕ) : Prop where
  pos : 0 < digits
  places_le : places ≤ 10
  size : places = 0 ∧ digits ≤ maxExactNat ∨ digits ≤ 10 ^ 14

/-- The value nearest to `digits / 10 ^ places`. -/
def nearestDecimal (digits places : ℕ) : Binary64 := (⟨digits, -(places : ℤ)⟩ : Decimal).nearest

/-- The value nearest to a decimal is the rounded quotient of its digits by the power of ten. -/
theorem nearestDecimal_eq (digits places : ℕ) :
    nearestDecimal digits places = ofQuotient false (digits * unitsPerOne) (10 ^ places) := by
  have hten : (10 : ℚ) ^ places ≠ 0 := pow_ne_zero places (by norm_num)
  refine Binary64.eq_of_magnitude_eq (Decimal.negative_nearest _) ?_
  apply Decimal.magnitude_nearest (Nat.pow_pos (by decide))
  rw [Decimal.toRat, zpow_neg, zpow_natCast]
  push_cast
  field_simp

namespace IsScalable

variable {digits places : ℕ} (h : IsScalable digits places)

include h

/-- Scalable digits are a whole number that is exact. -/
theorem le_maxExactNat : digits ≤ maxExactNat := by
  rcases h.size with ⟨-, hle⟩ | hle
  · exact hle
  · exact hle.trans (by decide)

/-- Scalable digits stand for a number that is far above the subnormal ones. -/
theorem normal : binadeSize * 10 ^ places ≤ digits * unitsPerOne := by
  have hplaces : 10 ^ places ≤ 10 ^ 10 := Nat.pow_le_pow_right (by decide) h.places_le
  have hunit : binadeSize * 10 ^ 10 ≤ unitsPerOne := by decide +kernel
  calc binadeSize * 10 ^ places
      ≤ binadeSize * 10 ^ 10 := Nat.mul_le_mul_left _ hplaces
    _ ≤ unitsPerOne := hunit
    _ ≤ digits * unitsPerOne := Nat.le_mul_of_pos_left _ h.pos

/-- Dividing by the power of ten does not go past the digits. -/
theorem isFinite : (nearestDecimal digits places).IsFinite := by
  have hden : 0 < 10 ^ places := Nat.pow_pos (by decide)
  have hmono := Binary64.nearestMagnitude_mono hden
    (Nat.le_mul_of_pos_right (digits * unitsPerOne) hden)
  have hwhole := Binary64.nearestMagnitude_mul_mul hden (digits * unitsPerOne) 1
  rw [Nat.one_mul] at hwhole
  rw [nearestDecimal_eq]
  exact (hmono.trans_eq hwhole).trans_lt
    (Binary64.isFinite_ofNat (Binary64.lt_of_le_maxExactNat h.le_maxExactNat))

/-- The value nearest to scalable digits may stand in a ratio. -/
theorem isRatioComponent : IsRatioComponent (nearestDecimal digits places) := by
  refine ⟨h.isFinite, Binary64.zero_lt_iff.mpr ⟨h.isFinite.not_isNaN, ?_, ?_⟩⟩
  · rw [nearestDecimal_eq, Binary64.negative_ofQuotient]
  · have hone : 1 ≤ binadeSize := by decide
    have hle := (Nat.mul_le_mul_right (10 ^ places) hone).trans h.normal
    rw [Nat.one_mul] at hle
    rw [nearestDecimal_eq]
    exact (Binary64.nearestMagnitude_pos (Nat.pow_pos (by decide)) hle).ne'

/-- The value nearest to scalable digits is within one rounding of the decimal. -/
theorem isWithin_toRat :
    IsWithin 1 (nearestDecimal digits places).toRat (digits / 10 ^ places) := by
  have hden : 0 < 10 ^ places := Nat.pow_pos (by decide)
  have hone := Binary64.cast_unitsPerOne_pos
  have hten : (0 : ℚ) < 10 ^ places := pow_pos (by norm_num) places
  have hfinite := h.isFinite
  have hvalue := h.isRatioComponent.toRat_eq
  rw [nearestDecimal_eq] at hfinite hvalue ⊢
  have hwithin := Binary64.isWithin_nearestMagnitude hden hfinite h.normal
  push_cast at hwithin
  refine IsWithin.of_mul_right (mul_pos hone hten) ?_
  rw [hvalue, Binary64.units_ofQuotient, ← mul_assoc, div_mul_cancel₀ _ hone.ne',
    mul_comm (unitsPerOne : ℚ), ← mul_assoc, div_mul_cancel₀ _ hten.ne']
  exact hwithin

end IsScalable

/-! ## Scaling it -/

namespace IsRatioComponent

variable {x y : Binary64} (hx : IsRatioComponent x) (hy : IsRatioComponent y)

include hx hy

/-- A product of moderate size is finite, and within one rounding of the exact one. -/
theorem isWithin_mul_of_le (hlow : 1 / 2 ≤ x.toRat * y.toRat) (hhigh : x.toRat * y.toRat ≤ 2 ^ 53) :
    IsWithin 1 (x * y).toRat (x.toRat * y.toRat) := by
  have hunit := Binary64.unitsPerOne_pos
  have hone := Binary64.cast_unitsPerOne_pos
  rw [hx.toRat_eq, hy.toRat_eq, div_mul_div_comm] at hlow hhigh
  rw [div_le_div_iff₀ (by norm_num) (mul_pos hone hone), one_mul] at hlow
  rw [div_le_iff₀ (mul_pos hone hone), ← Binary64.cast_maxExactNat] at hhigh
  have hnormal : binadeSize * unitsPerOne ≤ x.units * y.units := by
    have hlow' : unitsPerOne * unitsPerOne ≤ x.units * y.units * 2 := by exact_mod_cast hlow
    have hbinade : binadeSize * 2 ≤ unitsPerOne := by decide +kernel
    have hscaled := Nat.mul_le_mul_right unitsPerOne hbinade
    rw [Nat.mul_right_comm] at hscaled
    exact Nat.le_of_mul_le_mul_right (hscaled.trans hlow') (by decide)
  have hfinite : (x * y).IsFinite := by
    have hhigh' : x.units * y.units ≤ maxExactNat * unitsPerOne * unitsPerOne := by
      rw [Nat.mul_assoc]
      exact_mod_cast hhigh
    rw [hx.mul_eq hy]
    exact (Binary64.nearestMagnitude_mono hunit hhigh').trans_lt
      ((Binary64.isRepresentable_mul_unitsPerOne (Nat.le_refl maxExactNat)).nearestMagnitude_mul
        hunit).1
  exact hx.isWithin_mul hy hfinite hnormal

omit hy in
/-- The scale without decimals changes nothing. -/
theorem toRat_mul_scale_zero : (x * Binary64.ofNat (Nat.pow 10 0)).toRat = x.toRat := by
  have hone : Nat.pow 10 0 ≤ maxExactNat := by decide
  have hscale := (isRatioComponent_scale (Nat.zero_le 10)).1
  have hunits : (x * Binary64.ofNat (Nat.pow 10 0)).units = x.units := by
    rw [hx.mul_eq hscale, Binary64.units_ofNat hone, Nat.pow_eq, pow_zero, Nat.one_mul]
    exact (hx.1.isRepresentable.ofQuotient false Binary64.unitsPerOne_pos).2
  rw [Binary64.toRat_of_negative_eq_false (hx.negative_mul hscale), hunits, hx.toRat_eq]

end IsRatioComponent

/-- Numbers that differ by less than one are the same. -/
theorem natCast_inj_of_abs_sub_lt_one {m n : ℕ} (h : |(m : ℚ) - n| < 1) : m = n := by
  obtain ⟨hlow, hhigh⟩ := abs_lt.mp h
  have hmn : (m : ℚ) < (n + 1 : ℕ) := by
    push_cast
    linarith
  have hnm : (n : ℚ) < (m + 1 : ℕ) := by
    push_cast
    linarith
  exact Nat.le_antisymm (Nat.le_of_lt_succ (Nat.cast_lt.mp hmn))
    (Nat.le_of_lt_succ (Nat.cast_lt.mp hnm))

/-- A multiple of a number that is scaled to up to fourteen digits, but for the tolerance and one
rounding, differs from the digits by less than one. -/
theorem abs_mul_sub_lt_one {n scaled rest digits : ℚ} (hrest : 0 < rest)
    (hdigits : digits ≤ 10 ^ 14) (hn : |n - scaled| ≤ 5 / 2 ^ 52 * scaled)
    (hexact : |scaled * rest - digits| ≤ digits * (1 + unitRoundoff - 1)) :
    |n * rest - digits| < 1 := by
  have hscaled : |n * rest - scaled * rest| ≤ 5 / 2 ^ 52 * (scaled * rest) := by
    rw [← sub_mul, abs_mul, abs_of_pos hrest]
    calc |n - scaled| * rest ≤ 5 / 2 ^ 52 * scaled * rest :=
          mul_le_mul_of_nonneg_right hn hrest.le
      _ = 5 / 2 ^ 52 * (scaled * rest) := mul_assoc _ _ _
  generalize scaled * rest = product at *
  rw [unitRoundoff] at hexact
  rw [abs_le] at hscaled hexact
  rw [abs_lt]
  constructor
  · linarith
  · linarith

/-- A positive whole number up to `2 ^ 53` is near itself. -/
theorem isNearWhole_natCast {n : ℕ} (hpos : 0 < n) (hle : n ≤ maxExactNat) : IsNearWhole n n where
  pos := hpos
  le := by
    rw [← Binary64.cast_maxExactNat]
    exact Nat.cast_le.mpr hle
  sub_half_le := by linarith
  lt_add_half := by linarith
  abs_sub_le := by
    rw [sub_self, abs_zero]
    positivity

/-- A number within two roundings of a whole number of up to fourteen digits is near it. -/
theorem isNearWhole_of_isWithin {x : ℚ} {n : ℕ} (hpos : 0 < n) (hle : n ≤ 10 ^ 14)
    (h : IsWithin 2 x n) : IsNearWhole x n := by
  have hn : (n : ℚ) ≤ 10 ^ 14 := by exact_mod_cast hle
  have hone : (1 : ℚ) ≤ n := Nat.one_le_cast.mpr hpos
  obtain ⟨hlow, hhigh⟩ := h
  rw [unitRoundoff] at hlow hhigh
  refine ⟨hpos, ?_, ?_, ?_, ?_⟩
  · linarith
  · linarith
  · linarith
  · have hmax := le_max_left x 1
    rw [abs_le]
    constructor
    · linarith
    · linarith

namespace IsScalable

variable {digits places : ℕ} (h : IsScalable digits places)

include h

/-- Scaled by its decimals, the nearest value is the digits up to one rounding. -/
theorem isWithin_mul_pow :
    IsWithin 1 ((nearestDecimal digits places).toRat * 10 ^ places) digits := by
  have hten : (0 : ℚ) < 10 ^ places := pow_pos (by norm_num) places
  have hwithin := h.isWithin_toRat.mul_right hten.le
  rwa [div_mul_cancel₀ _ hten.ne'] at hwithin

/-- The scale of as many decimals gives the digits. -/
theorem isNearWhole_scale :
    IsNearWhole (nearestDecimal digits places * Binary64.ofNat (Nat.pow 10 places)).toRat
      digits := by
  rcases h.size with ⟨rfl, hle⟩ | hle
  · have hexact : nearestDecimal digits 0 = Binary64.ofNat digits := by
      rw [nearestDecimal_eq, pow_zero, Binary64.ofNat]
    rw [h.isRatioComponent.toRat_mul_scale_zero, hexact, Binary64.toRat_ofNat hle]
    exact isNearWhole_natCast h.pos hle
  · obtain ⟨hscale, hten⟩ := isRatioComponent_scale h.places_le
    have hexact := h.isWithin_mul_pow
    have hn : (digits : ℚ) ≤ 10 ^ 14 := by exact_mod_cast hle
    have hone : (1 : ℚ) ≤ digits := Nat.one_le_cast.mpr h.pos
    have hrounded := h.isRatioComponent.isWithin_mul_of_le hscale
    rw [hten] at hrounded
    refine isNearWhole_of_isWithin h.pos hle ((hrounded ?_ ?_).trans hexact)
    · have hlow := hexact.1
      rw [pow_one, unitRoundoff] at hlow
      linarith
    · have hhigh := hexact.2
      rw [pow_one, unitRoundoff] at hhigh
      linarith

/-- A scale of fewer decimals gives a whole number only if the digits are that number and zeros. -/
theorem mul_pow_eq {decimals n : ℕ} (hle : decimals ≤ places)
    (hn : IsNearWhole (nearestDecimal digits places * Binary64.ofNat (Nat.pow 10 decimals)).toRat
      n) : n * 10 ^ (places - decimals) = digits := by
  apply natCast_inj_of_abs_sub_lt_one
  rcases h.size with ⟨rfl, hmax⟩ | hmax
  · rw [Nat.le_zero.mp hle] at hn ⊢
    have hexact : nearestDecimal digits 0 = Binary64.ofNat digits := by
      rw [nearestDecimal_eq, pow_zero, Binary64.ofNat]
    rw [h.isRatioComponent.toRat_mul_scale_zero, hexact, Binary64.toRat_ofNat hmax] at hn
    have hlow := hn.sub_half_le
    have hhigh := hn.lt_add_half
    rw [Nat.sub_zero, pow_zero, Nat.mul_one, abs_lt]
    constructor
    · linarith
    · linarith
  · obtain ⟨hscale, hten⟩ := isRatioComponent_scale (hle.trans h.places_le)
    have herror := hn.abs_sub_mul_le h.isRatioComponent hscale
    have hexact := h.isWithin_mul_pow.abs_sub_le (Nat.cast_nonneg digits)
    have hpow : (10 : ℚ) ^ places = 10 ^ decimals * 10 ^ (places - decimals) := by
      rw [← pow_add, Nat.add_sub_cancel' hle]
    rw [hten] at herror
    rw [hpow, ← mul_assoc, pow_one] at hexact
    push_cast
    exact abs_mul_sub_lt_one (pow_pos (by norm_num) _) (by exact_mod_cast hmax) herror hexact

end IsScalable

/-! ## Pairs of decimals -/

/-- The first scale that is accepted comes no later than any other. -/
theorem exists_wholeComponents? {width height : Binary64} {places : ℕ} (hle : places ≤ 10)
    {m n : UInt64}
    (haccepted : wholeAtScale? width height (Binary64.ofNat (Nat.pow 10 places)) = some (m, n)) :
    ∃ decimals w h, decimals ≤ places ∧ wholeComponents? width height = some (w, h) ∧
      wholeAtScale? width height (Binary64.ofNat (Nat.pow 10 decimals)) = some (w, h) := by
  have htried : places ∈ List.range (maxDecimals + 1) := List.mem_range.mpr (Nat.lt_succ_of_le hle)
  have hsome : (wholeComponents? width height).isSome = true := by
    refine List.findSome?_isSome_iff.mpr ⟨places, htried, ?_⟩
    rw [haccepted]
    rfl
  obtain ⟨⟨w, h⟩, hfound⟩ := Option.isSome_iff_exists.mp hsome
  obtain ⟨before, decimals, after, hsplit, hhere, hrefused⟩ := List.findSome?_eq_some_iff.mp hfound
  refine ⟨decimals, w, h, ?_, hfound, hhere⟩
  have hsorted : (before ++ decimals :: after).Pairwise (· < ·) := hsplit ▸ List.pairwise_lt_range
  rw [hsplit, List.mem_append, List.mem_cons] at htried
  rcases htried with hbefore | rfl | hafter
  · cases haccepted.symm.trans (hrefused places hbefore)
  · exact Nat.le_refl _
  · exact (List.rel_of_pairwise_cons (List.pairwise_append.mp hsorted).2.1 hafter).le

/-- Quotients by the greatest common divisor are the same exactly for the same fraction. -/
theorem div_gcd_eq_iff {m n m' n' : ℕ} (hm : 0 < m) (hm' : 0 < m') :
    m / Nat.gcd m n = m' / Nat.gcd m' n' ∧ n / Nat.gcd m n = n' / Nat.gcd m' n' ↔
      m * n' = m' * n := by
  obtain ⟨a, b, hab, ha, hb⟩ := Nat.exists_coprime m n
  obtain ⟨a', b', hab', ha', hb'⟩ := Nat.exists_coprime m' n'
  have hg := Nat.gcd_pos_of_pos_left n hm
  have hg' := Nat.gcd_pos_of_pos_left n' hm'
  generalize Nat.gcd m n = g at *
  generalize Nat.gcd m' n' = g' at *
  subst ha hb ha' hb'
  rw [Nat.mul_div_cancel _ hg, Nat.mul_div_cancel _ hg, Nat.mul_div_cancel _ hg',
    Nat.mul_div_cancel _ hg']
  have ha_pos := Nat.pos_of_mul_pos_right hm
  constructor
  · rintro ⟨rfl, rfl⟩
    ring
  · intro hcross
    have hfraction : a * b' = a' * b := by
      refine Nat.eq_of_mul_eq_mul_right (Nat.mul_pos hg hg') ?_
      linarith
    have ha : a = a' := Nat.dvd_antisymm (hab.dvd_of_dvd_mul_right ⟨b', hfraction.symm⟩)
      (hab'.dvd_of_dvd_mul_right ⟨b, hfraction⟩)
    subst ha
    exact ⟨rfl, (Nat.eq_of_mul_eq_mul_left ha_pos hfraction).symm⟩

/-- Components are equal exactly when they are the same number. -/
theorem IsRatioComponent.beq_iff_toRat_eq {x y : Binary64} (hx : IsRatioComponent x)
    (hy : IsRatioComponent y) : (x == y) = true ↔ x.toRat = y.toRat := by
  rw [hx.beq_iff_eq hy, ← hx.units_eq_iff hy, hx.toRat_eq, hy.toRat_eq,
    div_left_inj' Binary64.cast_unitsPerOne_pos.ne', Nat.cast_inj]

/-- Ratios are equal exactly when their components are the same numbers. -/
theorem Ratio.beq_iff_toRat_eq {r s : Ratio} :
    (r == s) = true ↔ r.width.toRat = s.width.toRat ∧ r.height.toRat = s.height.toRat := by
  change (r.width == s.width && r.height == s.height) = true ↔ _
  rw [Bool.and_eq_true, r.width_valid.beq_iff_toRat_eq s.width_valid,
    r.height_valid.beq_iff_toRat_eq s.height_valid]

/-- Two numbers with the same number of decimals, whole and up to `2 ^ 53` or both of at most
fourteen digits: `width / 10 ^ places` and `height / 10 ^ places`. -/
structure DecimalPair where
  width : ℕ
  height : ℕ
  places : ℕ
  width_pos : 0 < width
  height_pos : 0 < height
  places_le : places ≤ 10
  size : places = 0 ∧ width ≤ 2 ^ 53 ∧ height ≤ 2 ^ 53 ∨ width ≤ 10 ^ 14 ∧ height ≤ 10 ^ 14

namespace DecimalPair

variable (p q : DecimalPair)

/-- The first of the two numbers is found by scaling. -/
theorem isScalable_width : IsScalable p.width p.places :=
  ⟨p.width_pos, p.places_le, p.size.imp (fun h => ⟨h.1, h.2.1⟩) fun h => h.1⟩

/-- The second of the two numbers is found by scaling. -/
theorem isScalable_height : IsScalable p.height p.places :=
  ⟨p.height_pos, p.places_le, p.size.imp (fun h => ⟨h.1, h.2.2⟩) fun h => h.2⟩

/-- The ratio of the values nearest to the two numbers. -/
def ratio : Ratio :=
  ⟨nearestDecimal p.width p.places, nearestDecimal p.height p.places,
    p.isScalable_width.isRatioComponent, p.isScalable_height.isRatioComponent⟩

/-- The components in lowest terms are those of the digits. -/
theorem toRat_simplified_ratio :
    p.ratio.simplified.width.toRat = (p.width / Nat.gcd p.width p.height : ℕ) ∧
      p.ratio.simplified.height.toRat = (p.height / Nat.gcd p.width p.height : ℕ) := by
  have hwhole : p.ratio.IsWholeUnder p.places p.width p.height :=
    ⟨p.places_le, p.isScalable_width.isNearWhole_scale, p.isScalable_height.isNearWhole_scale⟩
  obtain ⟨decimals, w, h, hle, hfound, haccepted⟩ :=
    exists_wholeComponents? p.places_le hwhole.wholeAtScale?_eq_some
  have hfirst := (Ratio.wholeAtScale?_eq_some_iff_isWholeUnder (hle.trans p.places_le)).mp haccepted
  have hwidth := p.isScalable_width.mul_pow_eq hle hfirst.width
  have hheight := p.isScalable_height.mul_pow_eq hle hfirst.height
  have hrest : 0 < 10 ^ (p.places - decimals) := Nat.pow_pos (by decide)
  rw [Ratio.width_simplified, Ratio.height_simplified, lowestTerms_of_some hfound, ← hwidth,
    ← hheight, Nat.gcd_mul_right, Nat.mul_div_mul_right _ _ hrest, Nat.mul_div_mul_right _ _ hrest]
  exact ⟨Binary64.toRat_ofNat ((Nat.div_le_self _ _).trans hfirst.width.le_maxExactNat),
    Binary64.toRat_ofNat ((Nat.div_le_self _ _).trans hfirst.height.le_maxExactNat)⟩

/-- Ratios of such decimals simplify to the digits in lowest terms, exactly. So two of them simplify
to equal ratios exactly when they are the same fraction. -/
theorem simplified_reduces :
    (Ratio.ofComponents (nearestDecimal p.width p.places) (nearestDecimal p.height p.places) =
        .ok p.ratio ∧
      p.ratio.simplified.width.toRat = (p.width / Nat.gcd p.width p.height : ℕ) ∧
      p.ratio.simplified.height.toRat = (p.height / Nat.gcd p.width p.height : ℕ)) ∧
    ((p.ratio.simplified == q.ratio.simplified) = true ↔
      p.width * q.height = q.width * p.height) := by
  obtain ⟨hpwidth, hpheight⟩ := p.toRat_simplified_ratio
  obtain ⟨hqwidth, hqheight⟩ := q.toRat_simplified_ratio
  refine ⟨⟨Ratio.ofComponents_eq_ok _ _, hpwidth, hpheight⟩, ?_⟩
  rw [Ratio.beq_iff_toRat_eq, hpwidth, hpheight, hqwidth, hqheight, Nat.cast_inj, Nat.cast_inj]
  exact div_gcd_eq_iff p.width_pos q.width_pos

/-- The ratio `1.5 / 1.0` simplifies to `3 / 2`, as `3 / 2` itself does. -/
theorem simplified_reduces_three_halves :
    ∃ p q : DecimalPair, (p.width = 15 ∧ p.height = 10 ∧ p.places = 1) ∧
      (q.width = 3 ∧ q.height = 2 ∧ q.places = 0) ∧
      (p.ratio.simplified.width.toRat = 3 ∧ p.ratio.simplified.height.toRat = 2) ∧
      (p.ratio.simplified == q.ratio.simplified) = true := by
  let p : DecimalPair := ⟨15, 10, 1, by decide, by decide, by decide, by decide⟩
  let q : DecimalPair := ⟨3, 2, 0, by decide, by decide, by decide, by decide⟩
  obtain ⟨⟨-, hwidth, hheight⟩, hsame⟩ := p.simplified_reduces q
  have hterms : p.width / Nat.gcd p.width p.height = 3 ∧
      p.height / Nat.gcd p.width p.height = 2 := by decide
  rw [hterms.1, Nat.cast_ofNat] at hwidth
  rw [hterms.2, Nat.cast_ofNat] at hheight
  exact ⟨p, q, ⟨rfl, rfl, rfl⟩, ⟨rfl, rfl, rfl⟩, ⟨hwidth, hheight⟩, hsame.mpr (by decide)⟩

end DecimalPair

end CssValues
