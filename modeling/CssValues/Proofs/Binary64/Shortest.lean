import CssValues.Binary64.Shortest
import CssValues.Proofs.Binary64.Units
import CssValues.Proofs.Decimal

/-!
# The shortest decimal reads back

The decimal found for a finite value rounds to the magnitude of that value: each point of a grid is
checked before it is taken, and the value itself, on the finest grid, rounds to itself. So values
whose shortest decimals are the same number have the same magnitude. That no shorter decimal reads
back is another matter: it depends on the order of decimals, and on the grids that are passed over.
-/

namespace CssValues

namespace Binary64

/-- There are tenths in a unit, so quotients by them are defined. -/
theorem tenthsPerUnit_pos : 0 < tenthsPerUnit := by
  have hpow (n : Nat) : 0 < Nat.pow 5 n := Nat.pow_pos (by decide)
  simp only [tenthsPerUnit_eq, hpow]

/-- A decimal reads back when rounding it gives the magnitude. -/
theorem readsBack_iff {magnitude coefficient place : Nat} :
    readsBack magnitude coefficient place = true ↔
      nearestMagnitude (coefficient * 10 ^ place) tenthsPerUnit = magnitude := by
  rw [readsBack, beq_iff_eq, Nat.pow_eq]

/-- A grid point that is taken rounds to the magnitude. -/
theorem readsBack_of_gridPoint? {magnitude place coefficient : Nat}
    (h : gridPoint? magnitude place = some coefficient) :
    readsBack magnitude coefficient place = true := by
  unfold gridPoint? at h
  simp only at h
  have hfound := List.find?_some h
  exact hfound

/-- The magnitude itself, on the finest grid, rounds to the magnitude. -/
theorem readsBack_scaledMagnitude {magnitude : Nat} (hmagnitude : magnitude ≤ infinityMagnitude) :
    readsBack magnitude (scaledMagnitude magnitude) 0 = true := by
  rw [readsBack_iff, pow_zero, Nat.mul_one, scaledMagnitude]
  exact nearestMagnitude_magnitudeUnits tenthsPerUnit_pos hmagnitude

/-- A row of grids has a first point, before which there is none, or no point at all. -/
theorem firstPoint?_cases (point? : Nat → Option Nat) (start : Nat) :
    (∃ coefficient place, firstPoint? point? start = some (coefficient, place) ∧ 0 < place ∧
        point? place = some coefficient ∧ ∀ above, place < above → above ≤ start →
          point? above = none) ∨
      firstPoint? point? start = none ∧ ∀ above, 0 < above → above ≤ start →
        point? above = none := by
  induction start with
  | zero => exact Or.inr ⟨rfl, fun above hpos hle => absurd hpos (Nat.not_lt.mpr hle)⟩
  | succ start ih =>
    cases hpoint : point? (start + 1) with
    | some coefficient =>
      refine Or.inl ⟨coefficient, start + 1, ?_, Nat.succ_pos start, hpoint, ?_⟩
      · rw [firstPoint?, hpoint]
      · intro above hlt hle
        exact absurd hlt (Nat.not_lt.mpr hle)
    | none =>
      have hrest : firstPoint? point? (start + 1) = firstPoint? point? start := by
        rw [firstPoint?, hpoint]
      rw [hrest]
      have hnext {above : Nat} (hle : above ≤ start + 1) (h : above ≤ start → point? above = none) :
          point? above = none := by
        rcases Nat.lt_or_eq_of_le hle with hlt | heq
        · exact h (Nat.le_of_lt_succ hlt)
        · rw [heq, hpoint]
      rcases ih with ⟨coefficient, place, hfirst, hpos, hplace, habove⟩ | ⟨hnone, habove⟩
      · exact Or.inl ⟨coefficient, place, hfirst, hpos, hplace, fun above hlt hle =>
          hnext hle (habove above hlt)⟩
      · exact Or.inr ⟨hnone, fun above hpos hle => hnext hle (habove above hpos)⟩

/-- The point found on the coarsest grid rounds to the magnitude. -/
theorem readsBack_coarsestPoint {magnitude : Nat} (hmagnitude : magnitude ≤ infinityMagnitude)
    (start : Nat) :
    readsBack magnitude (coarsestPoint magnitude start).1 (coarsestPoint magnitude start).2 =
      true := by
  unfold coarsestPoint
  rcases firstPoint?_cases (gridPoint? magnitude) start with
    ⟨coefficient, place, hfirst, -, hpoint, -⟩ | ⟨hnone, -⟩
  · rw [hfirst]
    exact readsBack_of_gridPoint? hpoint
  · rw [hnone]
    exact readsBack_scaledMagnitude hmagnitude

/-- The shortest decimal of a zero is zero. -/
theorem shortest_of_isZero {x : Binary64} (hx : x.IsZero) : x.shortest = ⟨0, 0⟩ := by
  rw [shortest, if_pos hx]

/-- The shortest decimal of any other value is at the coarsest place that has one. -/
theorem shortest_of_not_isZero {x : Binary64} (hx : ¬ x.IsZero) :
    x.shortest = ⟨(coarsestPoint x.magnitude (coarsePlace x.magnitude)).1,
      ((coarsestPoint x.magnitude (coarsePlace x.magnitude)).2 : Int) - 1074⟩ := by
  rw [shortest, if_neg hx]

/-- The shortest decimal of a finite value is a multiple of `10 ^ -1074` that rounds to the
magnitude of the value. -/
theorem exists_shortest_eq {x : Binary64} (hx : x.IsFinite) :
    ∃ coefficient place : Nat, x.shortest = ⟨coefficient, (place : Int) - 1074⟩ ∧
      nearestMagnitude (coefficient * 10 ^ place) tenthsPerUnit = x.magnitude := by
  by_cases hzero : x.IsZero
  · refine ⟨0, 1074, shortest_of_isZero hzero, ?_⟩
    rw [Nat.zero_mul, nearestMagnitude_zero]
    exact hzero.symm
  · exact ⟨_, _, shortest_of_not_isZero hzero,
      readsBack_iff.mp (readsBack_coarsestPoint (Nat.le_of_lt hx) _)⟩

/-- Finite values whose shortest decimals are the same number have the same magnitude. -/
theorem magnitude_eq_of_toRat_shortest_eq {x y : Binary64} (hx : x.IsFinite) (hy : y.IsFinite)
    (h : x.shortest.toRat = y.shortest.toRat) : x.magnitude = y.magnitude := by
  obtain ⟨m, p, hm, hxmagnitude⟩ := exists_shortest_eq hx
  obtain ⟨n, q, hn, hymagnitude⟩ := exists_shortest_eq hy
  have hten : (10 : ℚ) ≠ 0 := by norm_num
  have hscaled : (m : ℚ) * 10 ^ p = n * 10 ^ q := by
    rw [hm, hn, Decimal.toRat, Decimal.toRat, sub_eq_add_neg, sub_eq_add_neg,
      zpow_add₀ hten, zpow_add₀ hten, ← mul_assoc, ← mul_assoc] at h
    exact mul_right_cancel₀ (zpow_ne_zero _ hten) h
  have hnat : m * 10 ^ p = n * 10 ^ q := by exact_mod_cast hscaled
  rw [← hxmagnitude, ← hymagnitude, hnat]

/-- The shortest decimal depends on the magnitude alone. -/
theorem shortest_eq_of_magnitude_eq {x y : Binary64} (h : x.magnitude = y.magnitude) :
    x.shortest = y.shortest := by
  by_cases hzero : x.IsZero
  · have hzero' : y.IsZero := h.symm.trans hzero
    rw [shortest_of_isZero hzero, shortest_of_isZero hzero']
  · have hzero' : ¬ y.IsZero := fun hy => hzero (h.trans hy)
    rw [shortest_of_not_isZero hzero, shortest_of_not_isZero hzero', h]

end Binary64

end CssValues
