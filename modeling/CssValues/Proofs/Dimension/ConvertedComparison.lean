import CssValues.Binary64.Whole
import CssValues.Dimension.Frequency
import CssValues.Dimension.Time
import CssValues.Proofs.Binary64.Comparison

/-!
# Comparison after conversion

To compare two quantities the second is converted to the unit of the first. The other way around the
first is converted, and rounded elsewhere, so the answers need not mirror each other: one of them
may find the quantities equal. They never contradict each other, though, as long as one of the two
units has size one. Then one direction multiplies by the other size, the other direction divides by
it, and a product and a quotient do not cross.
-/

namespace CssValues

open Binary64 (ActsOnMagnitudes NeverCross unitsPerOne scaleMagnitude)

/-! ## Magnitudes between two units -/

section Units

variable {U : Type} [LinearUnit U]

/-- What conversion from one unit to another does to magnitudes. -/
def convertMagnitude (source target : U) : Nat → Nat :=
  scaleMagnitude unitsPerOne (LinearUnit.factor target).units ∘
    scaleMagnitude (LinearUnit.factor source).units unitsPerOne

/-- A conversion acts on magnitudes: it scales them by one size and then by the inverse of the
other. -/
theorem actsOnMagnitudes_convert (source target : U) :
    ActsOnMagnitudes (rescale · (LinearUnit.factor source) (LinearUnit.factor target))
      (convertMagnitude source target) :=
  (Binary64.actsOnMagnitudes_mul (LinearUnit.factor_isFinite source)
    (LinearUnit.factor_pos source)).comp
    (Binary64.actsOnMagnitudes_div (LinearUnit.factor_isFinite target)
      (LinearUnit.factor_pos target))

/-- Conversion to a unit of size one multiplies, conversion from it divides, and they do not
cross. -/
theorem neverCross_of_factor_eq_one {source target : U} (hone : LinearUnit.factor target = 1) :
    NeverCross (convertMagnitude source target) (convertMagnitude target source) := by
  obtain ⟨-, -, hzero⟩ := Binary64.zero_lt_iff.mp (LinearUnit.factor_pos source)
  have hsource := Nat.pos_of_ne_zero (mt Binary64.units_eq_zero_iff.mp hzero)
  have hunit := Binary64.unitsPerOne_pos
  refine (Binary64.neverCross_scaleMagnitude hsource hunit).congr (fun _ => ?_) fun hm => ?_
  · rw [convertMagnitude, Function.comp_apply, hone, Binary64.units_one]
    exact Binary64.scaleMagnitude_self hunit (Binary64.scaleMagnitude_le _ _ _)
  · rw [convertMagnitude, Function.comp_apply, hone, Binary64.units_one,
      Binary64.scaleMagnitude_self hunit hm]

end Units

namespace Dimension

variable {U : Type} [DecidableEq U]

/-! ## Within one unit -/

/-- Quantities are equal when their values are and they have the same unit. -/
theorem beq_iff {x y : Dimension U} :
    (x == y) = true ↔ (x.value == y.value) = true ∧ x.unit = y.unit := by
  change (x.value == y.value && decide (x.unit = y.unit)) = true ↔ _
  rw [Bool.and_eq_true, decide_eq_true_eq]

/-- Quantities in different units are neither ordered nor equal. -/
theorem unit_eq_of_compare? {x y : Dimension U} {order : Ordering}
    (h : x.compare? y = some order) : x.unit = y.unit := by
  by_contra hne
  rw [compare?, if_neg hne] at h
  cases h

/-- Quantities are equal when they are in one unit and their values compare as equal. -/
theorem beq_iff_compare? {x y : Dimension U} : (x == y) = true ↔ x.compare? y = some .eq := by
  rw [beq_iff, ← Binary64.compare?_eq_eq_iff]
  constructor
  · rintro ⟨hvalue, hunit⟩
    rwa [compare?, if_pos hunit]
  · intro h
    have hunit := unit_eq_of_compare? h
    rw [compare?, if_pos hunit] at h
    exact ⟨h, hunit⟩

variable [LinearUnit U]

/-- Within one unit nothing is converted. -/
theorem compareConverted?_of_unit_eq {x y : Dimension U} (h : x.unit = y.unit) :
    x.compareConverted? y = x.compare? y := by
  rw [compareConverted?, compare?, if_pos h, h, convert_self]

/-! ## Between two units -/

/-- Two quantities of which one is in a unit of size one are converted by maps that do not cross. -/
theorem exists_neverCross {x y : Dimension U}
    (h : x.unit = y.unit ∨ LinearUnit.factor x.unit = 1 ∨ LinearUnit.factor y.unit = 1) :
    ∃ f f' g g', ActsOnMagnitudes f g ∧ ActsOnMagnitudes f' g' ∧ NeverCross g g' ∧
      (x.convert y.unit).value = f x.value ∧ (y.convert x.unit).value = f' y.value := by
  by_cases hunit : x.unit = y.unit
  · refine ⟨id, id, id, id, .id, .id, .id, ?_, ?_⟩
    · rw [← hunit, convert_self]
      rfl
    · rw [hunit, convert_self]
      rfl
  · have hcross :
        NeverCross (convertMagnitude x.unit y.unit) (convertMagnitude y.unit x.unit) := by
      rcases h.resolve_left hunit with hx | hy
      · exact (neverCross_of_factor_eq_one hx).symm
      · exact neverCross_of_factor_eq_one hy
    refine ⟨_, _, _, _, actsOnMagnitudes_convert x.unit y.unit,
      actsOnMagnitudes_convert y.unit x.unit, hcross, ?_, ?_⟩
    · rw [convert, if_neg (Ne.symm hunit)]
    · rw [convert, if_neg hunit]

/-- The two comparisons of a pair agree as far as rounding lets them: both answer, the answers are
never strict in the same direction, and within one unit they mirror each other. Equal quantities are
those in one unit that compare as equal there. -/
structure ComparesConsistently (x y : Dimension U) : Prop where
  isSome : (x.compareConverted? y).isSome = true
  not_both_lt : ¬ (x.compareConverted? y = some .lt ∧ y.compareConverted? x = some .lt)
  not_both_gt : ¬ (x.compareConverted? y = some .gt ∧ y.compareConverted? x = some .gt)
  gt_or_eq_of_lt : x.compareConverted? y = some .lt →
    y.compareConverted? x = some .gt ∨ y.compareConverted? x = some .eq
  of_unit_eq : x.unit = y.unit → x.compareConverted? y = x.compare? y ∧
    y.compareConverted? x = (x.compareConverted? y).map Ordering.swap
  beq_iff : (x == y) = true ↔ x.compare? y = some .eq
  unit_eq : x.compare? y = some .eq → x.unit = y.unit

/-- Comparisons are consistent within one unit, and between two of which one has the size one. -/
theorem comparesConsistently {x y : Dimension U}
    (h : x.unit = y.unit ∨ LinearUnit.factor x.unit = 1 ∨ LinearUnit.factor y.unit = 1)
    (hx : ¬ x.value.IsNaN) (hy : ¬ y.value.IsNaN) : ComparesConsistently x y := by
  obtain ⟨f, f', g, g', hf, hf', hcross, hxvalue, hyvalue⟩ := exists_neverCross h
  have hup := hcross.map_le_or_map_le hf hf' hx hy
  have hdown := hcross.le_map_or_le_map hf hf' hx hy
  have hxy : x.compareConverted? y = x.value.compare? (f' y.value) := by
    rw [compareConverted?, hyvalue]
  have hyx : y.compareConverted? x = y.value.compare? (f x.value) := by
    rw [compareConverted?, hxvalue]
  constructor
  · rw [hxy, Binary64.compare?, if_neg (not_or.mpr ⟨hx, mt hf'.isNaN_iff.mp hy⟩)]
    rfl
  · rw [hxy, hyx, Binary64.compare?_eq_lt_iff, Binary64.compare?_eq_lt_iff]
    rintro ⟨hxlt, hylt⟩
    rcases hup with hle | hle
    · exact Binary64.not_lt_of_le hle hylt
    · exact Binary64.not_lt_of_le hle hxlt
  · rw [hxy, hyx, Binary64.compare?_eq_gt_iff, Binary64.compare?_eq_gt_iff]
    rintro ⟨hxgt, hygt⟩
    rcases hdown with hle | hle
    · exact Binary64.not_lt_of_le hle hygt
    · exact Binary64.not_lt_of_le hle hxgt
  · rw [hxy, hyx, Binary64.compare?_eq_lt_iff]
    intro hxlt
    exact Binary64.compare?_of_le (hup.resolve_right fun hle => Binary64.not_lt_of_le hle hxlt)
  · intro hunit
    rw [compareConverted?_of_unit_eq hunit, compareConverted?_of_unit_eq hunit.symm, compare?,
      compare?, if_pos hunit, if_pos hunit.symm]
    exact ⟨rfl, Binary64.compare?_swap _ _⟩
  · exact beq_iff_compare?
  · exact unit_eq_of_compare?

/-- Comparisons of times, and of frequencies, never contradict each other: two units are the same or
one of them has size one. -/
theorem comparisons_never_contradict :
    (∀ x y : Time, ¬ x.value.IsNaN → ¬ y.value.IsNaN → ComparesConsistently x y) ∧
      ∀ x y : Frequency, ¬ x.value.IsNaN → ¬ y.value.IsNaN → ComparesConsistently x y := by
  have htime (unit unit' : TimeUnit) :
      unit = unit' ∨ LinearUnit.factor unit = 1 ∨ LinearUnit.factor unit' = 1 := by
    cases unit with
    | s =>
      cases unit' with
      | s => exact Or.inl rfl
      | ms => exact Or.inr (Or.inr rfl)
    | ms => exact Or.inr (Or.inl rfl)
  have hfrequency (unit unit' : FrequencyUnit) :
      unit = unit' ∨ LinearUnit.factor unit = 1 ∨ LinearUnit.factor unit' = 1 := by
    cases unit with
    | hz => exact Or.inr (Or.inl rfl)
    | khz =>
      cases unit' with
      | hz => exact Or.inr (Or.inr rfl)
      | khz => exact Or.inl rfl
  exact ⟨fun x y => comparesConsistently (htime x.unit y.unit),
    fun x y => comparesConsistently (hfrequency x.unit y.unit)⟩

/-- The largest finite number of seconds is less than an infinity of milliseconds, and equal to it
the other way around, because it has no finite number of milliseconds. -/
theorem largest_seconds_compare_with_infinity :
    let x := Time.s ⟨false, Binary64.infinityMagnitude - 1, by decide⟩
    let y := Time.ms (Binary64.infinity false)
    (¬ x.value.IsNaN ∧ ¬ y.value.IsNaN) ∧ x.compareConverted? y = some .lt ∧
      y.compareConverted? x = some .eq ∧ ComparesConsistently x y := by
  intro x y
  have hx : ¬ x.value.IsNaN := by decide
  have hy : ¬ y.value.IsNaN := by decide
  have hconsistent := comparisons_never_contradict.1 x y hx hy
  have hlt : x.compareConverted? y = some .lt := by decide +kernel
  have hgt : y.compareConverted? x ≠ some .gt := by decide +kernel
  exact ⟨⟨hx, hy⟩, hlt, (hconsistent.gt_or_eq_of_lt hlt).resolve_left hgt, hconsistent⟩

end Dimension

end CssValues
