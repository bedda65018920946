import CssValues.CssText
import CssValues.ValueError

/-!
# Ratios

A ratio is a width over a height, both finite and above zero. Ratios are equal when their components
are, so `2 / 1` and `4 / 2` differ. A ratio of equal components is written as one number.
-/

namespace CssValues

/-- The value can be a component of a ratio. -/
def IsRatioComponent (x : Binary64) : Prop := x.IsFinite ∧ 0 < x

instance (x : Binary64) : Decidable (IsRatioComponent x) := inferInstanceAs (Decidable (_ ∧ _))

/-- A width over a height. -/
structure Ratio where
  width : Binary64
  height : Binary64
  width_valid : IsRatioComponent width
  height_valid : IsRatioComponent height
deriving DecidableEq

namespace Ratio

instance : BEq Ratio := ⟨fun r s => r.width == s.width && r.height == s.height⟩

/-- The ratio of two values, unless one of them cannot be a component. -/
def ofComponents (width height : Binary64) : Except ValueError Ratio :=
  if h : IsRatioComponent width ∧ IsRatioComponent height then .ok ⟨width, height, h.1, h.2⟩
  else .error (.malformedRatio width height)

/-- Two values that can be components make a ratio. -/
theorem ofComponents_eq_ok {width height : Binary64} (hwidth : IsRatioComponent width)
    (hheight : IsRatioComponent height) :
    ofComponents width height = .ok ⟨width, height, hwidth, hheight⟩ :=
  dif_pos ⟨hwidth, hheight⟩

/-- Other values are refused, and the error has both of them. -/
theorem ofComponents_eq_error {width height : Binary64}
    (h : ¬ (IsRatioComponent width ∧ IsRatioComponent height)) :
    ofComponents width height = .error (.malformedRatio width height) :=
  dif_neg h

/-- The ratio of a single number, whose height is one. -/
def ofValue (value : Binary64) : Except ValueError Ratio := ofComponents value 1

/-- Whole numbers above zero and up to `2 ^ 53` can be components. -/
theorem isRatioComponent_ofNat {n : Nat} (hn : 0 < n) (hle : n ≤ Binary64.maxExactNat) :
    IsRatioComponent (Binary64.ofNat n) :=
  ⟨Binary64.isFinite_ofNat (Binary64.lt_of_le_maxExactNat hle), Binary64.zero_lt_ofNat hn⟩

/-- The ratio of two whole numbers. -/
def ofNats (width height : Nat) (hwidth : 0 < width) (hheight : 0 < height)
    (hwidth_le : width ≤ Binary64.maxExactNat) (hheight_le : height ≤ Binary64.maxExactNat) :
    Ratio :=
  ⟨Binary64.ofNat width, Binary64.ofNat height, isRatioComponent_ofNat hwidth hwidth_le,
    isRatioComponent_ofNat hheight hheight_le⟩

/-- The ratio `1 / 1`. -/
def square : Ratio := ofNats 1 1 (by decide) (by decide) (by decide) (by decide)

/-- The ratio `16 / 9`. -/
def widescreen : Ratio := ofNats 16 9 (by decide) (by decide) (by decide) (by decide)

/-- The ratio `4 / 3`. -/
def standard : Ratio := ofNats 4 3 (by decide) (by decide) (by decide) (by decide)

/-- The width divided by the height. -/
def quotient (r : Ratio) : Binary64 := r.width / r.height

/-- The ratio with its components exchanged. -/
def inverse (r : Ratio) : Ratio := ⟨r.height, r.width, r.height_valid, r.width_valid⟩

instance : CssText Ratio where
  cssText r :=
    numberText r.width ++ (if r.width == r.height then "" else " / " ++ numberText r.height)

end Ratio

end CssValues
