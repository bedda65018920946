import CssValues.Dimension.Resolution
import CssValues.Proofs.Binary64.Tripling

/-!
# Two tokens for one unit

Dots per pixel have two tokens, `dppx` and `x`, of the same size. A conversion from one to the
other still multiplies by the size and divides by it, with a rounding after each step. So it does
not keep every value: it loses those whose product overflows, and moves those whose triple is half
way between two values. A value that it moves does not come back on the way back, and compares as
different.
-/

namespace CssValues

namespace ResolutionUnit

/-- The token is one of the two for dots per pixel. -/
def IsPerPixel (unit : ResolutionUnit) : Prop := unit = .dppx ∨ unit = .x

instance (unit : ResolutionUnit) : Decidable unit.IsPerPixel := inferInstanceAs (Decidable (_ ∨ _))

/-- Both tokens for dots per pixel have the same size. -/
theorem IsPerPixel.factor_eq {unit : ResolutionUnit} (h : unit.IsPerPixel) :
    LinearUnit.factor unit = 96 := by
  rcases h with rfl | rfl
  · rfl
  · rfl

end ResolutionUnit

namespace Resolution

/-- A value that multiplication by ninety-six and division by it give back. -/
def IsKeptPerPixel (value : Binary64) : Prop :=
  value.IsInfinite ∨ (value * 96).IsFinite ∧ ¬ value.TripleIsTied

instance (value : Binary64) : Decidable (IsKeptPerPixel value) :=
  inferInstanceAs (Decidable (_ ∨ _))

/-- A value is found again behind a product and a quotient by ninety-six exactly when it is kept per
pixel. -/
theorem mul_div_eq_iff_isKeptPerPixel {value : Binary64} (hvalue : ¬ value.IsNaN) :
    value * 96 / 96 = value ↔ IsKeptPerPixel value := by
  rcases Binary64.isFinite_or_isInfinite hvalue with hfinite | hinfinite
  · rw [Binary64.mul_div_ninetySix_eq_iff hfinite, IsKeptPerPixel]
    exact (or_iff_right hfinite.not_isInfinite).symm
  · exact iff_of_true (Binary64.actsOnMagnitudes_mul_div_ninetySix.eq_of_isInfinite hinfinite)
      (Or.inl hinfinite)

/-- No resolution is NaN. -/
theorem not_isNaN (r : Resolution) : ¬ r.value.IsNaN := (Binary64.zero_le_iff.mp r.zero_le_value).1

/-- A conversion between the two tokens is a product and a quotient. -/
theorem convert_of_isPerPixel {r : Resolution} {unit : ResolutionUnit} (hsource : r.unit.IsPerPixel)
    (htarget : unit.IsPerPixel) (hne : unit ≠ r.unit) :
    (r.convert unit).toDimension = ⟨r.value * 96 / 96, unit⟩ := by
  change r.toDimension.convert unit = _
  rw [Dimension.convert, if_neg hne, hsource.factor_eq, htarget.factor_eq, rescale]

/-- Resolutions with the same value and unit are the same. -/
theorem ext_toDimension {r s : Resolution} (h : r.toDimension = s.toDimension) : r = s := by
  obtain ⟨r, hr⟩ := r
  cases h
  rfl

/-- What the conversion to the other token for dots per pixel leaves of a resolution: it keeps the
value, converts back and compares as equal exactly when the value is kept by the product and the
quotient. -/
theorem convert_other_token_iff {r : Resolution} {unit : ResolutionUnit}
    (hsource : r.unit.IsPerPixel) (htarget : unit.IsPerPixel) (hne : unit ≠ r.unit) :
    ((r.convert unit).value = r.value ↔ IsKeptPerPixel r.value) ∧
      ((r.convert unit).convert r.unit = r ↔ IsKeptPerPixel r.value) ∧
      (r.compareConverted? (r.convert unit) = some .eq ↔ IsKeptPerPixel r.value) ∧
      (r.unit = .x → (r.inDppx = r.value ↔ IsKeptPerPixel r.value)) := by
  have hacts := Binary64.actsOnMagnitudes_mul_div_ninetySix
  have hthere := convert_of_isPerPixel hsource htarget hne
  have hunit : (r.convert unit).unit = unit := congrArg Dimension.unit hthere
  have hvalue : (r.convert unit).value = r.value * 96 / 96 := congrArg Dimension.value hthere
  have hback : ((r.convert unit).convert r.unit).toDimension =
      ⟨r.value * 96 / 96 * 96 / 96, r.unit⟩ := by
    rw [convert_of_isPerPixel (hunit.symm ▸ htarget) hsource (by rw [hunit]; exact hne.symm),
      hvalue]
  have hcompare : r.compareConverted? (r.convert unit) =
      r.value.compare? (r.value * 96 / 96 * 96 / 96) :=
    congrArg r.value.compare? (congrArg Dimension.value hback)
  rw [← mul_div_eq_iff_isKeptPerPixel r.not_isNaN]
  refine ⟨by rw [hvalue], ?_, ?_, fun hx => ?_⟩
  · rw [← hacts.map_map_eq_iff r.not_isNaN]
    constructor
    · intro h
      rw [h] at hback
      exact (congrArg Dimension.value hback).symm
    · intro h
      exact ext_toDimension (hback.trans (congrArg (Dimension.mk · r.unit) h))
  · rw [hcompare, ← hacts.map_map_eq_iff r.not_isNaN]
    exact (hacts.comp hacts).compare?_self_iff r.not_isNaN
  · have hother : unit = .dppx := htarget.resolve_right (hx ▸ hne)
    rw [inDppx, ← hother, hvalue]

/-- Three dots per two pixels are the same under both tokens. -/
theorem three_halves_kept_under_other_token :
    let r : Resolution := ⟨⟨1.5, .x⟩, by decide +kernel⟩
    (r.unit.IsPerPixel ∧ ResolutionUnit.dppx.IsPerPixel ∧ .dppx ≠ r.unit) ∧
      IsKeptPerPixel r.value ∧
      (r.convert .dppx).value = 1.5 ∧ (r.convert .dppx).convert .x = r ∧
      r.compareConverted? (r.convert .dppx) = some .eq ∧ r.inDppx = 1.5 := by
  intro r
  have hsource : r.unit.IsPerPixel := Or.inr rfl
  have htarget : ResolutionUnit.dppx.IsPerPixel := Or.inl rfl
  have hne : ResolutionUnit.dppx ≠ r.unit := by decide
  have hkept : IsKeptPerPixel r.value := by decide +kernel
  obtain ⟨hvalue, hback, hcompare, hdots⟩ := convert_other_token_iff hsource htarget hne
  exact ⟨⟨hsource, htarget, hne⟩, hkept, hvalue.mpr hkept, hback.mpr hkept, hcompare.mpr hkept,
    (hdots rfl).mpr hkept⟩

/-- The second value above three halves ends in `10`. Under the other token it is the third value,
and it does not come back. -/
theorem not_kept_under_other_token :
    let value : Binary64 := .ofBits 0x3ff8000000000002
    let r : Resolution := ⟨⟨value, .dppx⟩, by decide +kernel⟩
    let s : Resolution := ⟨⟨value, .x⟩, by decide +kernel⟩
    (r.convert .x).value = .ofBits 0x3ff8000000000003 ∧ (r.convert .x).convert .dppx ≠ r ∧
      r.compareConverted? (r.convert .x) ≠ some .eq ∧ s.inDppx ≠ s.value := by
  decide +kernel

end Resolution

end CssValues
