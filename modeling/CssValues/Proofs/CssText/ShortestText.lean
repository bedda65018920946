import CssValues.Dimension.Length
import CssValues.Dimension.Resolution
import CssValues.Proofs.Binary64.ShortestDigits
import CssValues.Proofs.Text.NumberReader
import CssValues.Proofs.Text.PlainNumeral
import CssValues.Scalar

/-!
# Texts of numbers are shortest

The text of a finite number is canonical. A zero of either sign is the digit zero; any other number
has a minus sign exactly when it is below zero, and digits without superfluous zeros, which read
back as the number and have as few significant digits as any decimal that does. So whole numbers up
to `2 ^ 53` are written as integers. The texts of percentages and of numbers with a unit begin with
the text of the number, and the unit follows.
-/

namespace CssValues

open Binary64 (unitsPerOne maxExactNat)

/-! ## The parts of the text -/

/-- The text of a finite number has no `calc()` around it. -/
theorem cssText_number {x : Binary64} (hx : x.IsFinite) : cssText (⟨x⟩ : Number) = finiteText x :=
  numberText_of_isFinite hx

/-- Both zeros are written as one digit. -/
theorem finiteText_of_isZero {x : Binary64} (h : x.IsZero) : finiteText x = "0" := by
  have hsign : ¬ x < 0 := fun hlt => (Binary64.lt_zero_iff.mp hlt).2.2 h
  rw [finiteText, if_neg hsign, Binary64.shortest_of_isZero h]
  decide

/-- The text is the sign and the digits. -/
theorem toList_finiteText (x : Binary64) :
    (finiteText x).toList = (if x < 0 then ['-'] else []) ++ x.shortest.chars := by
  by_cases hsign : x < 0
  · rw [toList_finiteText_of_lt hsign, if_pos hsign]
    rfl
  · rw [toList_finiteText_of_not_lt hsign, if_neg hsign]
    rfl

/-- The digits of a whole number up to `2 ^ 53` are its decimal digits. -/
theorem text_shortest_of_whole {x : Binary64} (hx : x.IsFinite) {n : ℕ} (hpos : 0 < n)
    (hn : n ≤ maxExactNat) (hunits : x.units = n * unitsPerOne) : x.shortest.text = toString n := by
  obtain ⟨coefficient, zeros, hshortest, hvalue⟩ := Binary64.shortest_of_whole hx hpos hn hunits
  have hcoefficient : 0 < coefficient := by
    rw [← hvalue] at hpos
    exact Nat.pos_of_mul_pos_right hpos
  rw [Decimal.text, hshortest, Decimal.chars_natCast hcoefficient, hvalue,
    Nat.toString_eq_ofList_toDigits]

/-- A whole number up to `2 ^ 53` is written as an integer. -/
theorem finiteText_of_toRat_eq {x : Binary64} (hx : x.IsFinite) {n : ℤ} (hn : |n| ≤ 2 ^ 53)
    (h : x.toRat = n) : finiteText x = toString n := by
  have hpos := Binary64.unitsPerOne_pos
  have hsigned : x.signedUnits = n * unitsPerOne := by
    rw [Binary64.toRat, div_eq_iff Binary64.cast_unitsPerOne_pos.ne'] at h
    exact_mod_cast h
  have hunits : x.units = n.natAbs * unitsPerOne := by
    have habs := congrArg Int.natAbs hsigned
    rwa [Binary64.natAbs_signedUnits, Int.natAbs_mul, Int.natAbs_natCast] at habs
  have hsign : x < 0 ↔ n < 0 := by
    have hzero : n * (unitsPerOne : ℤ) < 0 * unitsPerOne ↔ n < 0 :=
      mul_lt_mul_iff_of_pos_right (Int.natCast_pos.mpr hpos)
    rw [zero_mul] at hzero
    rw [Binary64.lt_iff, Binary64.signedUnits_zero, hsigned, hzero]
    exact ⟨fun hlt => hlt.2.2, fun hlt => ⟨hx.not_isNaN, Binary64.not_isNaN_zero, hlt⟩⟩
  have hle : n.natAbs ≤ maxExactNat := by
    have hmax : (2 : ℤ) ^ 53 = maxExactNat := by norm_num [maxExactNat]
    rw [Int.abs_eq_natAbs, hmax] at hn
    exact Int.ofNat_le.mp hn
  rcases Nat.eq_zero_or_pos n.natAbs with hzero | hlarge
  · rw [hzero, Nat.zero_mul, Binary64.units_eq_zero_iff] at hunits
    rw [finiteText_of_isZero hunits, Int.natAbs_eq_zero.mp hzero]
    rfl
  · have hdigits := text_shortest_of_whole hx hlarge hle hunits
    rw [finiteText, hdigits]
    cases n with
    | ofNat m =>
      rw [if_neg (mt hsign.mp (Int.not_lt.mpr (Int.natCast_nonneg m))), String.empty_append]
      rfl
    | negSucc m =>
      rw [if_pos (hsign.mpr (Int.negSucc_lt_zero m))]
      rfl

/-! ## The whole text -/

/-- The text is the shortest numeral of the value: a single zero, or a sign for a value below zero
and digits without superfluous zeros. It reads back as the value, and no decimal that does has fewer
significant digits. Whole numbers are integers. -/
structure IsShortestNumeral (text : String) (x : Binary64) : Prop where
  of_isZero : x.IsZero → text = "0"
  of_not_isZero : ¬ x.IsZero → ∃ digits d, text.toList = (if x < 0 then ['-'] else []) ++ digits ∧
    isPlainNumeral digits = true ∧ Decimal.ofChars? digits = some d ∧
    d.nearest.magnitude = x.magnitude ∧
    ∀ (e : Decimal) n, e.nearest.magnitude = x.magnitude → e.HasDigits n → d.HasDigits n
  ofChars?_eq : Binary64.ofChars? text.toList = some (if x.IsZero then Binary64.zero false else x)
  of_toRat_eq : ∀ n : ℤ, |n| ≤ 2 ^ 53 → x.toRat = n → text = toString n

/-- The text of a finite number is its shortest numeral. -/
theorem isShortestNumeral_finiteText {x : Binary64} (hx : x.IsFinite) :
    IsShortestNumeral (finiteText x) x where
  of_isZero := finiteText_of_isZero
  of_not_isZero hzero := by
    obtain ⟨d, hread, hvalue⟩ := x.shortest.exists_ofChars?_chars
    refine ⟨x.shortest.chars, d, toList_finiteText x,
      Decimal.isPlainNumeral_chars (Binary64.not_dvd_coefficient_shortest hx hzero), hread,
      Binary64.magnitude_nearest_of_toRat_eq hx hvalue, fun e n he hdigits => ?_⟩
    have hshortest : x.shortest.HasDigits n := by
      refine ⟨x.shortest.coefficient, 0, by rw [pow_zero, Nat.mul_one], ?_⟩
      exact Binary64.coefficient_shortest_lt hx hzero he hdigits
    exact hshortest.of_toRat_eq hvalue.symm
  ofChars?_eq := Binary64.ofChars?_finiteText hx
  of_toRat_eq _ hn h := finiteText_of_toRat_eq hx hn h

/-- The text of a finite number is its shortest numeral, and the texts of the percentage, the
dimensions and the resolutions with the same value are that text and then the unit. -/
theorem cssText_is_shortest {x : Binary64} (hx : x.IsFinite) :
    IsShortestNumeral (cssText (⟨x⟩ : Number)) x ∧
      cssText (⟨x⟩ : Percentage) = cssText (⟨x⟩ : Number) ++ "%" ∧
      (∀ (U : Type) [Vocabulary U] (unit : U),
        cssText (⟨x, unit⟩ : Dimension U) = cssText (⟨x⟩ : Number) ++ Vocabulary.token unit) ∧
      ∀ r : Resolution, r.value = x →
        cssText r = cssText (⟨x⟩ : Number) ++ Vocabulary.token r.unit := by
  have hdimension (unit : String) : dimensionText x unit = finiteText x ++ unit := by
    rw [dimensionText, nonFiniteKeyword?_of_isFinite hx]
  rw [cssText_number hx]
  refine ⟨isShortestNumeral_finiteText hx, hdimension "%", fun U _ unit => hdimension _,
    fun r hr => ?_⟩
  change dimensionText r.value (Vocabulary.token r.unit) = _
  rw [hr]
  exact hdimension _

/-- The last whole number that is written as an integer by rule, alone and in pixels. -/
theorem cssText_is_shortest_last_whole :
    (Binary64.ofNat maxExactNat).IsFinite ∧
      cssText (⟨Binary64.ofNat maxExactNat⟩ : Number) = "9007199254740992" ∧
      cssText (⟨Binary64.ofNat maxExactNat, .px⟩ : Length) = "9007199254740992px" := by
  have hfinite := Binary64.isFinite_ofNat (Binary64.lt_of_le_maxExactNat (Nat.le_refl maxExactNat))
  obtain ⟨hnumeral, -, hdimension, -⟩ := cssText_is_shortest hfinite
  have hnumber := hnumeral.of_toRat_eq 9007199254740992 (by norm_num) (by
    rw [Binary64.toRat_ofNat (Nat.le_refl maxExactNat)]
    norm_num [maxExactNat])
  refine ⟨hfinite, hnumber, ?_⟩
  rw [hdimension LengthUnit LengthUnit.px, hnumber]
  decide

end CssValues
