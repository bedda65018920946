import CssValues.Proofs.Dimension.ConversionChain

/-!
# Conversion keeps signs and order

Between two units with sizes all values go through one map, which acts on magnitudes alone. So
conversion is odd and keeps the order of values; zeros keep their signs, infinities stay the same
infinity, and nothing but NaN becomes NaN. Two quantities in one unit are never in the opposite
order in another unit: a rounding or an overflow may make them equal, and no more.
-/

namespace CssValues

open Binary64 (ActsOnMagnitudes)
open UnitFamily LawfulUnitFamily Convertible

/-- What the conversion of `x` to `x'` and of `y` to `y'`, all in one unit each, leaves of their
signs and their order. -/
structure KeepsSignsAndOrder {U : Type} [DecidableEq U] (x y x' y' : Dimension U) : Prop where
  value_le : x.value ≤ y.value → x'.value ≤ y'.value
  eq_neg : ¬ x.value.IsNaN → y = -x → y' = -x'
  isNaN_iff : x'.value.IsNaN ↔ x.value.IsNaN
  eq_of_isZero : x.value.IsZero → x'.value = x.value
  eq_of_isInfinite : x.value.IsInfinite → x'.value = x.value
  compare? : x'.compare? y' = x.compare? y ∨ x.compare? y ≠ none ∧ x'.compare? y' = some .eq

/-- Quantities in the same unit that are mapped in the same way keep their signs and their order. -/
theorem KeepsSignsAndOrder.of_acts {U : Type} [DecidableEq U] {f : Binary64 → Binary64}
    {g : Nat → Nat} (hacts : ActsOnMagnitudes f g) {x y : Dimension U} (hunit : y.unit = x.unit)
    (unit : U) : KeepsSignsAndOrder x y ⟨f x.value, unit⟩ ⟨f y.value, unit⟩ where
  value_le := hacts.map_le
  eq_neg hnan hneg := by
    rw [hneg]
    exact congrArg (Dimension.mk · unit) (hacts.map_neg hnan)
  isNaN_iff := hacts.isNaN_iff
  eq_of_isZero := hacts.eq_of_isZero
  eq_of_isInfinite := hacts.eq_of_isInfinite
  compare? := by
    rw [Dimension.compare?, Dimension.compare?, if_pos rfl, if_pos hunit.symm]
    exact hacts.compare?_map x.value y.value

section Family

variable {Q U : Type} [DecidableEq U] [Convertible Q U] [UnitFamily U] [LawfulUnitFamily U]
  [LawfulConvertible Q]

/-- Between two units with sizes conversion is defined, and is one map of values that acts on
magnitudes. -/
theorem exists_acts_convert? {source target : U} (hsource : IsSized source)
    (htarget : IsSized target) :
    ∃ f g, ActsOnMagnitudes f g ∧ ∀ x : Q, (toDimension x).unit = source →
      ∃ y, convert? x target = some y ∧ toDimension y = ⟨f (toDimension x).value, target⟩ := by
  by_cases hunit : target = source
  · refine ⟨id, id, .id, fun x hx => ⟨x, ?_, ?_⟩⟩
    · rw [hunit, ← hx]
      exact LawfulConvertible.convert?_self x
    · rw [hunit, ← hx]
      rfl
  · refine ⟨_, _, actsOnMagnitudes_rescale (isUnitSize_multiplier hsource htarget)
      (isUnitSize_divisor hsource htarget), fun x hx => ?_⟩
    subst hx
    exact LawfulConvertible.convert?_of_ne hsource htarget hunit

end Family

/-- Quantities in one unit that convert to another unit with a size keep their signs and their
order. -/
def ConvertsInOrder (Q : Type) {U : Type} [DecidableEq U] [Convertible Q U] [UnitFamily U] : Prop :=
  ∀ (x y : Q) (unit : U), IsSized (toDimension x).unit → IsSized unit →
    (toDimension y).unit = (toDimension x).unit →
    ∃ x' y', convert? x unit = some x' ∧ convert? y unit = some y' ∧
      (toDimension x').unit = unit ∧ (toDimension y').unit = unit ∧
      KeepsSignsAndOrder (toDimension x) (toDimension y) (toDimension x') (toDimension y')

/-- In a lawful family, conversions keep the order of values. -/
theorem convertsInOrder (Q : Type) {U : Type} [DecidableEq U] [Convertible Q U] [UnitFamily U]
    [LawfulUnitFamily U] [LawfulConvertible Q] : ConvertsInOrder Q := by
  intro x y unit hsource htarget hunit
  obtain ⟨f, g, hacts, hconvert⟩ := exists_acts_convert? (Q := Q) hsource htarget
  obtain ⟨x', hx', hxdimension⟩ := hconvert x rfl
  obtain ⟨y', hy', hydimension⟩ := hconvert y hunit
  refine ⟨x', y', hx', hy', ?_, ?_, ?_⟩
  · rw [hxdimension]
  · rw [hydimension]
  · rw [hxdimension, hydimension]
    exact .of_acts hacts hunit unit

/-- In every family, conversion is odd and keeps the order of values, zeros, infinities and NaN. -/
theorem conversions_keep_order :
    ConvertsInOrder Time ∧ ConvertsInOrder Frequency ∧ ConvertsInOrder Angle ∧
      ConvertsInOrder Resolution ∧ ConvertsInOrder Length :=
  ⟨convertsInOrder _, convertsInOrder _, convertsInOrder _, convertsInOrder _, convertsInOrder _⟩

/-- The largest finite number of seconds and its negation, counted in milliseconds, of which neither
has a finite number. -/
theorem largest_seconds_keep_order :
    let x := Time.s ⟨false, Binary64.infinityMagnitude - 1, by decide⟩
    (IsSized x.unit ∧ IsSized TimeUnit.ms ∧ (-x).unit = x.unit) ∧
    ∃ x' y', convert? x TimeUnit.ms = some x' ∧ convert? (-x) TimeUnit.ms = some y' ∧
      x'.unit = TimeUnit.ms ∧ y'.unit = TimeUnit.ms ∧ KeepsSignsAndOrder x (-x) x' y' := by
  intro x
  exact ⟨⟨trivial, trivial, rfl⟩, conversions_keep_order.1 x (-x) .ms trivial trivial rfl⟩

end CssValues
