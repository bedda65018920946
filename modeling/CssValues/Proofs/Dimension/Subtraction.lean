import CssValues.Proofs.Dimension.ConversionOrder
import CssValues.Proofs.Dimension.LengthRun

/-!
# Subtraction as addition

Times, frequencies and angles subtract what the second quantity is in the unit of the first. Lengths
change the sign of the second one before they convert and add it. Both are the same, because
conversion is odd: of what it multiplies and divides it leaves the sign alone, whatever the
magnitude, zeros and infinities included. Only the sign of NaN is lost, and a sum with NaN is NaN.
-/

namespace CssValues

open UnitFamily LawfulUnitFamily Convertible

namespace Binary64

/-- The values are the same word, or both are NaN. -/
def SameUpToNaN (x y : Binary64) : Prop := x = y ∨ x.IsNaN ∧ y.IsNaN

namespace SameUpToNaN

variable {x y : Binary64}

/-- A word is the same as itself. -/
theorem refl (x : Binary64) : SameUpToNaN x x := Or.inl rfl

/-- Being the same up to NaN does not depend on the order. -/
theorem symm (h : SameUpToNaN x y) : SameUpToNaN y x := h.imp Eq.symm And.symm

/-- Sums with the same values are the same. -/
theorem add_left (h : SameUpToNaN x y) (z : Binary64) : SameUpToNaN (z + x) (z + y) := by
  rcases h with heq | ⟨hx, hy⟩
  · rw [heq]
    exact .refl _
  · have hnan {w : Binary64} (hw : w.IsNaN) : (z + w).IsNaN := by
      change (add z w).IsNaN
      rw [add, if_pos (Or.inr hw)]
      decide
    exact Or.inr ⟨hnan hx, hnan hy⟩

end SameUpToNaN

/-- What acts on magnitudes does the same to the other sign, and keeps NaN. -/
theorem ActsOnMagnitudes.sameUpToNaN_map_neg {f : Binary64 → Binary64} {g : Nat → Nat}
    (h : ActsOnMagnitudes f g) (x : Binary64) : SameUpToNaN (f (-x)) (-f x) := by
  by_cases hx : x.IsNaN
  · exact Or.inr ⟨h.isNaN hx, h.isNaN hx⟩
  · exact Or.inl (h.map_neg hx)

end Binary64

open Binary64 (SameUpToNaN)

/-! ## Conversion of the other sign -/

section Family

variable {Q U : Type} [DecidableEq U] [Convertible Q U] [UnitFamily U] [LawfulUnitFamily U]
  [LawfulConvertible Q]

/-- A quantity and the one with the other sign are still that in another unit. -/
theorem exists_convert?_neg {x y : Q} {unit : U} (hsource : IsSized (toDimension x).unit)
    (htarget : IsSized unit) (hneg : toDimension y = -toDimension x) :
    ∃ x' y', convert? x unit = some x' ∧ convert? y unit = some y' ∧
      SameUpToNaN (toDimension y').value (-(toDimension x').value) := by
  have hunit : (toDimension y).unit = (toDimension x).unit := by
    rw [hneg]
    rfl
  have hvalue : (toDimension y).value = -(toDimension x).value := by
    rw [hneg]
    rfl
  obtain ⟨f, g, hacts, hconvert⟩ := exists_acts_convert? (Q := Q) hsource htarget
  obtain ⟨x', hx', hxdimension⟩ := hconvert x rfl
  obtain ⟨y', hy', hydimension⟩ := hconvert y hunit
  refine ⟨x', y', hx', hy', ?_⟩
  rw [hxdimension, hydimension, hvalue]
  exact hacts.sameUpToNaN_map_neg _

end Family

/-- A length converts exactly when the one with the other sign does, relative lengths to their own
unit included. -/
theorem Length.exists_convert?_neg {x x' : Length} {unit : LengthUnit}
    (hx : x.convert? unit = some x') :
    ∃ y', (-x).convert? unit = some y' ∧ SameUpToNaN y'.value (-x'.value) := by
  by_cases hunit : unit = x.unit
  · have hself : (-x).convert? unit = some (-x) := if_pos hunit
    rw [convert?, if_pos hunit, Option.some.injEq] at hx
    exact ⟨-x, hself, hx ▸ .refl _⟩
  · have hsized : IsSized x.unit ∧ IsSized unit := by
      have hdefined : ¬ x.convert? unit = none := hx ▸ nofun
      rw [convert?_eq_none_iff, not_and, not_or, Bool.not_eq_false, Bool.not_eq_false] at hdefined
      exact hdefined hunit
    obtain ⟨z, y', hz, hy', hsame⟩ :=
      CssValues.exists_convert?_neg (Q := Length) (x := x) (y := -x) hsized.1 hsized.2 rfl
    cases Option.some.inj (hx.symm.trans hz)
    exact ⟨y', hy', hsame⟩

/-! ## Differences -/

/-- The difference of two quantities is the sum of the first and the second with the other sign. -/
def SubtractsByNegation (U : Type) [DecidableEq U] [LinearUnit U] : Prop :=
  ∀ x y : Dimension U, (x - y).unit = x.unit ∧ (x + -y).unit = x.unit ∧
    SameUpToNaN (x - y).value (x + -y).value

/-- In a lawful family, subtracting a quantity is adding its negation. -/
theorem subtractsByNegation (U : Type) [DecidableEq U] [LinearUnit U] [LawfulUnitFamily U] :
    SubtractsByNegation U := by
  intro x y
  obtain ⟨z, z', hz, hz', hsame⟩ :=
    exists_convert?_neg (Q := Dimension U) (x := y) (y := -y) trivial (trivial : IsSized x.unit) rfl
  cases hz
  cases hz'
  exact ⟨rfl, rfl, (hsame.add_left x.value).symm⟩

/-- In every family subtraction is addition of the negation. Lengths have a difference exactly when
the second converts to the unit of the first, and it is the difference of the values there. -/
theorem subtraction_adds_negation :
    SubtractsByNegation TimeUnit ∧ SubtractsByNegation FrequencyUnit ∧
      SubtractsByNegation AngleUnit ∧
      ∀ x y : Length, (x.sub? y = none ↔ y.convert? x.unit = none) ∧
        ∀ y' ∈ y.convert? x.unit, ∃ z ∈ x.sub? y, z.unit = x.unit ∧
          SameUpToNaN z.value (x.value - y'.value) := by
  refine ⟨subtractsByNegation _, subtractsByNegation _, subtractsByNegation _, fun x y => ?_⟩
  refine ⟨Length.sub?_eq_none_iff, fun y' hy' => ?_⟩
  obtain ⟨z, hz, hsame⟩ := Length.exists_convert?_neg hy'
  refine ⟨⟨x.value + z.value, x.unit⟩, ?_, rfl, hsame.add_left x.value⟩
  rw [Length.sub?, Length.add?, hz]
  rfl

/-- An inch less a negative infinity of centimetres. -/
theorem inch_less_infinity :
    let y := Length.cm (Binary64.infinity true)
    ∃ y' ∈ y.convert? .inches, ∃ z ∈ (Length.inches 1).sub? y, z.unit = .inches ∧
      SameUpToNaN z.value (1 - y'.value) := by
  intro y
  have hconvert : (y.convert? .inches).isSome = true := rfl
  obtain ⟨y', hy'⟩ := Option.isSome_iff_exists.mp hconvert
  exact ⟨y', hy', (subtraction_adds_negation.2.2.2 (Length.inches 1) y).2 y' hy'⟩

end CssValues
