import CssValues.Proofs.Binary64.Nearest
import CssValues.Proofs.Binary64.Whole

/-!
# No decimal is shorter than the shortest

Rounding keeps the order, so the numbers that round to one magnitude are all the numbers between two
of them. A grid with a point among them has one next to the magnitude itself, and the search finds
it; a grid coarser than those searched has its first point past them all. So no point of a grid
coarser than that of the shortest decimal rounds to the magnitude, and a decimal with fewer digits
on a finer grid cannot either: between it and the shortest decimal lies a power of ten that is on a
coarser grid.
-/

namespace CssValues

open Binary64 (unitsPerOne nearestMagnitude infinityMagnitude magnitudeUnits tenthsPerUnit
  scaledMagnitude readsBack gridPoint? firstPoint? coarsestPoint coarsePlace binadeSize maxExactNat)

/-! ## Order of decimals -/

namespace Decimal

/-- A decimal is a whole number of units over every power of ten that holds its places. -/
theorem exists_units_eq (d : Decimal) {places : Nat} (h : -d.exponent ≤ places) :
    ∃ num : Nat, d.toRat * unitsPerOne * (10 ^ places : Nat) = num := by
  obtain ⟨zeros, hzeros⟩ := Int.eq_ofNat_of_zero_le (by omega : 0 ≤ d.exponent + places)
  have hten : (10 : ℚ) ≠ 0 := by norm_num
  refine ⟨d.coefficient * unitsPerOne * 10 ^ zeros, ?_⟩
  have hpow : (10 : ℚ) ^ d.exponent * 10 ^ places = 10 ^ zeros := by
    rw [← zpow_natCast (10 : ℚ) places, ← zpow_add₀ hten, hzeros, zpow_natCast]
  push_cast
  rw [toRat, ← hpow]
  ring

/-- Rounding keeps the order of decimals. -/
theorem nearest_mono {d e : Decimal} (h : d.toRat ≤ e.toRat) :
    d.nearest.magnitude ≤ e.nearest.magnitude := by
  obtain ⟨places, hdplaces, heplaces⟩ :
      ∃ places : Nat, -d.exponent ≤ places ∧ -e.exponent ≤ places :=
    ⟨max (-d.exponent).toNat (-e.exponent).toNat, by omega, by omega⟩
  have hden : 0 < 10 ^ places := Nat.pow_pos (by decide)
  obtain ⟨m, hm⟩ := d.exists_units_eq hdplaces
  obtain ⟨n, hn⟩ := e.exists_units_eq heplaces
  rw [magnitude_nearest hden hm, magnitude_nearest hden hn]
  refine Binary64.nearestMagnitude_mono hden (Nat.cast_le (α := ℚ).mp ?_)
  rw [← hm, ← hn]
  gcongr

/-- Decimals that are one number round to one magnitude. -/
theorem nearest_congr {d e : Decimal} (h : d.toRat = e.toRat) :
    d.nearest.magnitude = e.nearest.magnitude :=
  Nat.le_antisymm (nearest_mono h.le) (nearest_mono h.ge)

/-- A decimal without a fraction is rounded as a number of units. -/
theorem magnitude_nearest_whole (coefficient zeros : Nat) :
    (⟨coefficient, zeros⟩ : Decimal).nearest.magnitude =
      nearestMagnitude (coefficient * 10 ^ zeros * unitsPerOne) 1 := by
  apply magnitude_nearest Nat.one_pos
  rw [toRat, zpow_natCast]
  push_cast
  ring

/-- What does not round to zero has a digit. -/
theorem coefficient_pos {d : Decimal} (h : 0 < d.nearest.magnitude) : 0 < d.coefficient := by
  refine Nat.pos_of_ne_zero fun hzero => Nat.ne_of_gt h ?_
  have hnothing : d.toRat * unitsPerOne * (1 : Nat) = (0 : Nat) := by
    rw [toRat, hzero, Nat.cast_zero, zero_mul, zero_mul, zero_mul]
  rw [magnitude_nearest Nat.one_pos hnothing, Binary64.nearestMagnitude_zero]

/-- What lies between two decimals that round to one magnitude rounds to it as well. -/
theorem nearest_eq_of_between {d e f : Decimal} {magnitude : Nat}
    (hd : d.nearest.magnitude = magnitude) (hf : f.nearest.magnitude = magnitude)
    (hde : d.toRat ≤ e.toRat) (hef : e.toRat ≤ f.toRat) : e.nearest.magnitude = magnitude :=
  Nat.le_antisymm (hf ▸ nearest_mono hef) (hd ▸ nearest_mono hde)

/-- The decimal has at most so many significant digits: those of its coefficient without the zeros
at the end. -/
def HasDigits (d : Decimal) (digits : Nat) : Prop :=
  ∃ significand zeros, d.coefficient = significand * 10 ^ zeros ∧ significand < 10 ^ digits

/-- The zeros at the end can be left out. -/
theorem HasDigits.exists_toRat_eq {d : Decimal} {digits : Nat} (h : d.HasDigits digits) :
    ∃ e : Decimal, e.toRat = d.toRat ∧ e.coefficient < 10 ^ digits := by
  obtain ⟨significand, zeros, hcoefficient, hlt⟩ := h
  have hten : (10 : ℚ) ≠ 0 := by norm_num
  refine ⟨⟨significand, d.exponent + zeros⟩, ?_, hlt⟩
  rw [toRat, toRat, hcoefficient, zpow_add₀ hten, zpow_natCast]
  push_cast
  ring

/-- How many significant digits a decimal has depends on its number alone. -/
theorem HasDigits.of_toRat_eq {d e : Decimal} {digits : Nat} (h : d.HasDigits digits)
    (hsame : d.toRat = e.toRat) : e.HasDigits digits := by
  obtain ⟨significand, zeros, hcoefficient, hlt⟩ := h
  have hten : (10 : ℚ) ≠ 0 := by norm_num
  have hnumber : (significand : ℚ) * 10 ^ (zeros + d.exponent) =
      e.coefficient * 10 ^ e.exponent := by
    rw [toRat, toRat, hcoefficient] at hsame
    rw [← hsame, zpow_add₀ hten, zpow_natCast]
    push_cast
    ring
  generalize (zeros : Int) + d.exponent = exponent at hnumber
  rcases le_total e.exponent exponent with hle | hle
  · obtain ⟨more, hmore⟩ := Int.eq_ofNat_of_zero_le (Int.sub_nonneg_of_le hle)
    refine ⟨significand, more, ?_, hlt⟩
    rw [sub_eq_iff_eq_add.mp hmore, zpow_add₀ hten, ← mul_assoc, zpow_natCast] at hnumber
    have hcast := mul_right_cancel₀ (zpow_ne_zero _ hten) hnumber
    exact_mod_cast hcast.symm
  · obtain ⟨more, hmore⟩ := Int.eq_ofNat_of_zero_le (Int.sub_nonneg_of_le hle)
    rw [sub_eq_iff_eq_add.mp hmore, zpow_add₀ hten, ← mul_assoc, zpow_natCast] at hnumber
    have hcast := mul_right_cancel₀ (zpow_ne_zero _ hten) hnumber
    have hsignificand : significand = e.coefficient * 10 ^ more := by exact_mod_cast hcast
    refine ⟨e.coefficient, 0, by rw [pow_zero, Nat.mul_one], lt_of_le_of_lt ?_ hlt⟩
    rw [hsignificand]
    exact Nat.le_mul_of_pos_right _ (Nat.pow_pos (by decide))

end Decimal

namespace Binary64

/-! ## Points of grids -/

/-- A decimal reads back when the value nearest to it has the magnitude. -/
theorem readsBack_iff_nearest {magnitude coefficient place : Nat} :
    readsBack magnitude coefficient place = true ↔
      (⟨coefficient, (place : Int) - 1074⟩ : Decimal).nearest.magnitude = magnitude := by
  rw [readsBack_iff, magnitude_nearest_gridPoint rfl]

/-- What lies between two points that round to one magnitude rounds to it as well. -/
theorem nearestMagnitude_eq_of_between {a b c den magnitude : Nat} (hden : 0 < den) (hab : a ≤ b)
    (hbc : b ≤ c) (ha : nearestMagnitude a den = magnitude)
    (hc : nearestMagnitude c den = magnitude) : nearestMagnitude b den = magnitude :=
  Nat.le_antisymm (hc ▸ nearestMagnitude_mono hden hbc) (ha ▸ nearestMagnitude_mono hden hab)

/-- A point of a grid is a point of every finer grid. -/
theorem readsBack_mul_pow {magnitude coefficient place : Nat} (zeros : Nat) :
    readsBack magnitude (coefficient * 10 ^ zeros) place =
      readsBack magnitude coefficient (place + zeros) := by
  have hpow : coefficient * 10 ^ zeros * 10 ^ place = coefficient * 10 ^ (place + zeros) := by
    rw [Nat.mul_assoc, ← Nat.pow_add, Nat.add_comm zeros]
  rw [Bool.eq_iff_iff, readsBack_iff, readsBack_iff, hpow]

section Grid

variable {magnitude : Nat} (hfinite : magnitude ≤ infinityMagnitude)

include hfinite

/-- If a point of a grid rounds to the magnitude, one of the two next to the magnitude does. -/
theorem isSome_gridPoint? {coefficient place : Nat}
    (h : readsBack magnitude coefficient place = true) :
    (gridPoint? magnitude place).isSome = true := by
  have hstep : 0 < 10 ^ place := Nat.pow_pos (by decide)
  have hself := readsBack_scaledMagnitude hfinite
  rw [readsBack_iff, pow_zero, Nat.mul_one] at hself
  rw [readsBack_iff] at h
  have hnext : readsBack magnitude (scaledMagnitude magnitude / 10 ^ place) place = true ∨
      readsBack magnitude (scaledMagnitude magnitude / 10 ^ place + 1) place = true := by
    rw [readsBack_iff, readsBack_iff]
    have hbelow := Nat.div_mul_le_self (scaledMagnitude magnitude) (10 ^ place)
    have habove := Nat.lt_div_mul_add (a := scaledMagnitude magnitude) hstep
    generalize scaledMagnitude magnitude / 10 ^ place = below at *
    generalize scaledMagnitude magnitude = scaled at *
    rcases Nat.lt_or_ge below coefficient with hlarge | hsmall
    · refine Or.inr (nearestMagnitude_eq_of_between tenthsPerUnit_pos ?_
        (Nat.mul_le_mul_right _ hlarge) hself h)
      rw [Nat.succ_mul]
      exact habove.le
    · exact Or.inl (nearestMagnitude_eq_of_between tenthsPerUnit_pos
        (Nat.mul_le_mul_right _ hsmall) hbelow h hself)
  unfold gridPoint?
  simp only [Nat.pow_eq]
  rw [List.find?_isSome]
  split
  · rcases hnext with hbelow | habove
    · exact ⟨_, List.mem_cons_self, hbelow⟩
    · exact ⟨_, List.mem_cons_of_mem _ List.mem_cons_self, habove⟩
  · rcases hnext with hbelow | habove
    · exact ⟨_, List.mem_cons_of_mem _ List.mem_cons_self, hbelow⟩
    · exact ⟨_, List.mem_cons_self, habove⟩

end Grid

/-! ## Grids that are too coarse -/

/-- The next magnitude has at most twice as many units. -/
theorem magnitudeUnits_succ_le {magnitude : Nat} (h : 0 < magnitude) :
    magnitudeUnits (magnitude + 1) ≤ 2 * magnitudeUnits magnitude := by
  obtain ⟨surplus, rest, rfl, hrest, hlow⟩ := exists_eq_surplus_add magnitude
  have hpos : 1 ≤ rest := by
    rcases hlow with rfl | hlow
    · rwa [Nat.zero_mul, Nat.zero_add] at h
    · exact (by decide : 1 ≤ binadeSize).trans hlow
  rw [Nat.add_assoc, magnitudeUnits_add hrest (hlow.imp_right Nat.le_succ_of_le),
    magnitudeUnits_add hrest.le hlow, Nat.shiftLeft_eq, Nat.shiftLeft_eq, ← Nat.mul_assoc]
  exact Nat.mul_le_mul_right _ (by omega)

/-- Ten to so many places exceeds the double of a number, because `10 ^ 28` exceeds `2 ^ 93`. -/
theorem two_mul_le_ten_pow {n place : Nat} (h : n.log2 * 28 / 93 + 2 < place) :
    2 * n ≤ 10 ^ place := by
  let quotient := n.log2 * 28 / 93
  have hquotient : n.log2 * 28 ≤ 93 * (quotient + 1) := by omega
  have hpow : 2 ^ n.log2 ≤ 10 ^ (quotient + 1) := by
    rw [← Nat.pow_le_pow_iff_left (n := 93) (by decide), ← Nat.pow_mul, ← Nat.pow_mul]
    calc 2 ^ (n.log2 * 93)
        = (2 ^ 93) ^ n.log2 := by rw [← Nat.pow_mul, Nat.mul_comm]
      _ ≤ (10 ^ 28) ^ n.log2 := Nat.pow_le_pow_left (by norm_num) _
      _ = 10 ^ (n.log2 * 28) := by rw [← Nat.pow_mul, Nat.mul_comm]
      _ ≤ 10 ^ ((quotient + 1) * 93) :=
        Nat.pow_le_pow_right (by decide) (hquotient.trans_eq (Nat.mul_comm _ _))
  calc 2 * n
      ≤ 2 * (2 * 2 ^ n.log2) := by
        have hlog := (Nat.lt_log2_self (n := n)).le
        rw [Nat.pow_succ] at hlog
        omega
    _ ≤ 10 ^ 2 * 10 ^ (quotient + 1) := by omega
    _ = 10 ^ (2 + (quotient + 1)) := (Nat.pow_add 10 2 _).symm
    _ ≤ 10 ^ place := Nat.pow_le_pow_right (by decide) (by omega)

/-- Nothing on a grid that is too coarse rounds to the magnitude. -/
theorem readsBack_eq_false_of_coarsePlace_lt {magnitude : Nat} (hpos : 0 < magnitude)
    (hfinite : magnitude < infinityMagnitude) {coefficient place : Nat}
    (hplace : coarsePlace magnitude < place) : readsBack magnitude coefficient place = false := by
  rw [← Bool.not_eq_true, readsBack_iff]
  intro hread
  rcases Nat.eq_zero_or_pos coefficient with hzero | hcoefficient
  · rw [hzero, Nat.zero_mul, nearestMagnitude_zero] at hread
    exact Nat.ne_of_lt hpos hread
  · have hpast : magnitudeUnits (magnitude + 1) * tenthsPerUnit ≤ coefficient * 10 ^ place := by
      calc magnitudeUnits (magnitude + 1) * tenthsPerUnit
          ≤ 2 * magnitudeUnits magnitude * tenthsPerUnit :=
            Nat.mul_le_mul_right _ (magnitudeUnits_succ_le hpos)
        _ = 2 * scaledMagnitude magnitude := by rw [Nat.mul_assoc, scaledMagnitude]
        _ ≤ 10 ^ place := two_mul_le_ten_pow hplace
        _ ≤ coefficient * 10 ^ place := Nat.le_mul_of_pos_left _ hcoefficient
    have hmono := nearestMagnitude_mono tenthsPerUnit_pos hpast
    rw [nearestMagnitude_magnitudeUnits tenthsPerUnit_pos hfinite, hread] at hmono
    exact Nat.not_succ_le_self magnitude hmono

/-! ## The coarsest grid -/

/-- The point rounds to the magnitude, and no point of a coarser grid does. -/
structure IsCoarsest (magnitude coefficient place : Nat) : Prop where
  readsBack : readsBack magnitude coefficient place = true
  coarser : ∀ other above, place < above → Binary64.readsBack magnitude other above = false

section Coarsest

variable {magnitude : Nat} (hpos : 0 < magnitude) (hfinite : magnitude < infinityMagnitude)

include hpos hfinite

/-- The search finds a point of the coarsest grid that has one, next to the magnitude unless it is
the magnitude. -/
theorem isCoarsest_coarsestPoint :
    IsCoarsest magnitude (coarsestPoint magnitude (coarsePlace magnitude)).1
        (coarsestPoint magnitude (coarsePlace magnitude)).2 ∧
      (0 < (coarsestPoint magnitude (coarsePlace magnitude)).2 →
        gridPoint? magnitude (coarsestPoint magnitude (coarsePlace magnitude)).2 =
          some (coarsestPoint magnitude (coarsePlace magnitude)).1) := by
  have hcoarser {place other above : Nat} (habove : place < above)
      (hnone : above ≤ coarsePlace magnitude → gridPoint? magnitude above = none) :
      readsBack magnitude other above = false := by
    rcases Nat.lt_or_ge (coarsePlace magnitude) above with hpast | hsearched
    · exact readsBack_eq_false_of_coarsePlace_lt hpos hfinite hpast
    · rw [← Bool.not_eq_true]
      intro hread
      have hsome := isSome_gridPoint? hfinite.le hread
      rw [hnone hsearched] at hsome
      contradiction
  unfold coarsestPoint
  rcases firstPoint?_cases (gridPoint? magnitude) (coarsePlace magnitude) with
    ⟨coefficient, place, hfirst, -, hpoint, habove⟩ | ⟨hnone, habove⟩
  · rw [hfirst]
    exact ⟨⟨readsBack_of_gridPoint? hpoint, fun other above hlt =>
      hcoarser hlt (habove above hlt)⟩, fun _ => hpoint⟩
  · rw [hnone]
    exact ⟨⟨readsBack_scaledMagnitude hfinite.le, fun other above hlt =>
      hcoarser hlt (habove above hlt)⟩, fun hlt => absurd hlt (Nat.lt_irrefl 0)⟩

end Coarsest

namespace IsCoarsest

variable {magnitude coefficient place : Nat} (h : IsCoarsest magnitude coefficient place)

include h

/-- The last digit is not zero, or the point would be on a coarser grid. -/
theorem not_dvd : ¬ 10 ∣ coefficient := by
  rintro ⟨rest, rfl⟩
  have hread := h.readsBack
  rw [Nat.mul_comm, ← pow_one 10, readsBack_mul_pow,
    h.coarser rest (place + 1) (Nat.lt_succ_self place)] at hread
  contradiction

/-- No decimal that rounds to the magnitude ends in front of the last place of the point. -/
theorem exponent_le {d : Decimal} (hd : d.nearest.magnitude = magnitude) :
    d.exponent ≤ (place : Int) - 1074 := by
  by_contra hcoarser
  obtain ⟨above, habove⟩ := Int.eq_ofNat_of_zero_le (by omega : 0 ≤ d.exponent + 1074)
  have hsame : d = ⟨d.coefficient, (above : Int) - 1074⟩ := by
    obtain ⟨coefficient, exponent⟩ := d
    rw [Decimal.mk.injEq]
    exact ⟨rfl, eq_sub_of_add_eq habove⟩
  rw [hsame, ← readsBack_iff_nearest, h.coarser d.coefficient above (by omega)] at hd
  contradiction

/-- A decimal that rounds to the magnitude has at least as many significant digits: otherwise a
power of ten between the decimal and the point would be on a coarser grid. -/
theorem lt_ten_pow (hpos : 0 < magnitude) {d : Decimal} (hd : d.nearest.magnitude = magnitude)
    {digits : Nat} (hdigits : d.HasDigits digits) : coefficient < 10 ^ digits := by
  obtain ⟨e, hsame, hlt⟩ := hdigits.exists_toRat_eq
  have he : e.nearest.magnitude = magnitude := (Decimal.nearest_congr hsame).trans hd
  have hcoefficient : 0 < e.coefficient := Decimal.coefficient_pos (he.symm ▸ hpos)
  by_contra hge
  have hle : 10 ^ digits ≤ coefficient := Nat.not_lt.mp hge
  obtain ⟨fewer, rfl⟩ : ∃ fewer, digits = fewer + 1 := by
    refine Nat.exists_eq_add_one.mpr (Nat.pos_of_ne_zero fun hzero => ?_)
    rw [hzero, pow_zero] at hlt
    exact Nat.not_lt.mpr hcoefficient hlt
  have hbelow : e.toRat ≤ (⟨10 ^ fewer * 10 ^ 1, (place : Int) - 1074⟩ : Decimal).toRat := by
    have hcast : (e.coefficient : ℚ) ≤ (10 ^ fewer * 10 ^ 1 : Nat) := Nat.cast_le.mpr hlt.le
    have hpow : (10 : ℚ) ^ e.exponent ≤ 10 ^ ((place : Int) - 1074) :=
      zpow_le_zpow_right₀ (by norm_num) (h.exponent_le he)
    exact mul_le_mul hcast hpow (zpow_nonneg (by norm_num) _) (Nat.cast_nonneg _)
  have habove : (⟨10 ^ fewer * 10 ^ 1, (place : Int) - 1074⟩ : Decimal).toRat ≤
      (⟨coefficient, (place : Int) - 1074⟩ : Decimal).toRat :=
    mul_le_mul_of_nonneg_right (Nat.cast_le.mpr hle) (zpow_nonneg (by norm_num) _)
  have hpower := Decimal.nearest_eq_of_between he (readsBack_iff_nearest.mp h.readsBack)
    hbelow habove
  rw [← readsBack_iff_nearest, readsBack_mul_pow,
    h.coarser _ (place + 1) (Nat.lt_succ_self place)] at hpower
  contradiction

end IsCoarsest

/-! ## Shortest decimals -/

section Shortest

variable {x : Binary64} (hx : x.IsFinite) (hzero : ¬ x.IsZero)

include hx hzero

/-- The shortest decimal of a value that is not zero is on the coarsest grid. -/
theorem exists_isCoarsest_shortest :
    ∃ coefficient place : Nat, x.shortest = ⟨coefficient, (place : Int) - 1074⟩ ∧
      IsCoarsest x.magnitude coefficient place ∧
      (0 < place → gridPoint? x.magnitude place = some coefficient) := by
  obtain ⟨hcoarsest, hpoint⟩ := isCoarsest_coarsestPoint (Nat.pos_of_ne_zero hzero) hx
  exact ⟨_, _, shortest_of_not_isZero hzero, hcoarsest, hpoint⟩

/-- The shortest decimal does not end in a zero. -/
theorem not_dvd_coefficient_shortest : ¬ 10 ∣ x.shortest.coefficient := by
  obtain ⟨coefficient, place, hshortest, hcoarsest, -⟩ := exists_isCoarsest_shortest hx hzero
  rw [hshortest]
  exact hcoarsest.not_dvd

/-- No decimal that rounds to the value has fewer significant digits. -/
theorem coefficient_shortest_lt {d : Decimal} (hd : d.nearest.magnitude = x.magnitude)
    {digits : Nat} (hdigits : d.HasDigits digits) : x.shortest.coefficient < 10 ^ digits := by
  obtain ⟨coefficient, place, hshortest, hcoarsest, -⟩ := exists_isCoarsest_shortest hx hzero
  rw [hshortest]
  exact hcoarsest.lt_ten_pow (Nat.pos_of_ne_zero hzero) hd hdigits

end Shortest

/-! ## Whole numbers -/

/-- A magnitude that is itself a point of a grid is its point on that grid. -/
theorem gridPoint?_of_scaledMagnitude_eq {magnitude coefficient place : Nat}
    (hfinite : magnitude ≤ infinityMagnitude)
    (h : scaledMagnitude magnitude = coefficient * 10 ^ place) :
    gridPoint? magnitude place = some coefficient := by
  have hstep : 0 < 10 ^ place := Nat.pow_pos (by decide)
  have hself := readsBack_scaledMagnitude hfinite
  rw [h, readsBack_mul_pow, Nat.zero_add] at hself
  have hbelow : scaledMagnitude magnitude / 10 ^ place = coefficient := by
    rw [h, Nat.mul_div_cancel _ hstep]
  have hnearer : 2 * scaledMagnitude magnitude <
      (coefficient + (coefficient + 1)) * 10 ^ place := by
    rw [h, ← Nat.mul_assoc]
    exact Nat.mul_lt_mul_of_pos_right (by omega) hstep
  unfold gridPoint?
  simp only [Nat.pow_eq]
  rw [hbelow, if_pos hnearer]
  exact List.find?_cons_of_pos hself

/-- A whole number up to `2 ^ 53` is the only one that rounds to it, but for `2 ^ 53 + 1`. -/
theorem eq_of_nearestMagnitude_eq {m n : Nat} (hn : n ≤ maxExactNat) (hm : m ≠ maxExactNat + 1)
    (h : nearestMagnitude (m * unitsPerOne) 1 = nearestMagnitude (n * unitsPerOne) 1) : m = n := by
  have hpos := unitsPerOne_pos
  have hexact {k : Nat} (hk : IsRepresentable (k * unitsPerOne)) :
      magnitudeUnits (nearestMagnitude (k * unitsPerOne) 1) = k * unitsPerOne := by
    have hsame := (hk.nearestMagnitude_mul Nat.one_pos).2
    rwa [Nat.mul_one] at hsame
  rcases Nat.lt_or_ge maxExactNat m with hlarge | hsmall
  · -- the next value is two further
    have hnext : IsRepresentable ((maxExactNat + 2) * unitsPerOne) := by
      have hdouble : maxExactNat + 2 = 2 * (binadeSize + 1) := by decide
      rw [mul_unitsPerOne_eq, hdouble, ← Nat.shiftLeft_succ_inside]
      exact isRepresentable_shiftLeft (by decide) (by decide)
    have hmono := nearestMagnitude_mono Nat.one_pos
      (Nat.mul_le_mul_right unitsPerOne (by omega : maxExactNat + 2 ≤ m))
    rw [h, ← magnitudeUnits_strictMono.le_iff_le, hexact hnext,
      hexact (isRepresentable_mul_unitsPerOne hn)] at hmono
    have hle := Nat.le_of_mul_le_mul_right hmono hpos
    omega
  · have hunits := congrArg magnitudeUnits h
    rw [hexact (isRepresentable_mul_unitsPerOne hsmall),
      hexact (isRepresentable_mul_unitsPerOne hn)] at hunits
    exact Nat.eq_of_mul_eq_mul_right hpos hunits

/-- The shortest decimal of a whole number up to `2 ^ 53` is that number without the zeros at its
end. -/
theorem shortest_of_whole {x : Binary64} (hx : x.IsFinite) {n : Nat} (hpos : 0 < n)
    (hn : n ≤ maxExactNat) (hunits : x.units = n * unitsPerOne) :
    ∃ coefficient zeros : Nat, x.shortest = ⟨coefficient, zeros⟩ ∧
      coefficient * 10 ^ zeros = n := by
  have hzero : ¬ x.IsZero := by
    rw [← units_eq_zero_iff, hunits]
    exact (Nat.mul_pos hpos unitsPerOne_pos).ne'
  have hmagnitude : nearestMagnitude (n * unitsPerOne) 1 = x.magnitude := by
    have hself := nearestMagnitude_magnitudeUnits Nat.one_pos hx.le
    rwa [Nat.mul_one, ← units, hunits] at hself
  obtain ⟨coefficient, place, hshortest, hcoarsest, hpoint⟩ := exists_isCoarsest_shortest hx hzero
  -- the number is a point of the grid of whole numbers, so the grid is that or coarser
  have hself : (⟨n, (0 : Nat)⟩ : Decimal).nearest.magnitude = x.magnitude := by
    rw [Decimal.magnitude_nearest_whole, pow_zero, Nat.mul_one, hmagnitude]
  obtain ⟨zeros, hplace⟩ := Int.eq_ofNat_of_zero_le (hcoarsest.exponent_le hself)
  refine ⟨coefficient, zeros, hplace ▸ hshortest, ?_⟩
  cases zeros with
  | zero =>
    -- on the grid of whole numbers the number itself is taken, even where `2 ^ 53 + 1` reads back
    have hten := unitsPerOne_mul_tenthsPerUnit
    rw [← (by omega : place = 1074)] at hten
    have hscaled : scaledMagnitude x.magnitude = n * 10 ^ place := by
      rw [scaledMagnitude, ← units, hunits, Nat.mul_assoc]
      exact congrArg (n * ·) (by exact_mod_cast hten)
    have htaken := gridPoint?_of_scaledMagnitude_eq hx.le hscaled
    rw [hpoint (by omega), Option.some.injEq] at htaken
    rw [pow_zero, Nat.mul_one, htaken]
  | succ zeros =>
    have hread := readsBack_iff_nearest.mp hcoarsest.readsBack
    rw [hplace, Decimal.magnitude_nearest_whole, ← hmagnitude] at hread
    refine eq_of_nearestMagnitude_eq hn (fun hlast => ?_) hread
    have hdvd : 10 ∣ maxExactNat + 1 := by
      rw [← hlast, Nat.pow_succ, ← Nat.mul_assoc]
      exact Nat.dvd_mul_left 10 _
    exact absurd hdvd (by decide)

end Binary64

end CssValues
