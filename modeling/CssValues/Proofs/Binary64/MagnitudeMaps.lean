import CssValues.Proofs.Binary64.Nearest
import CssValues.Proofs.Binary64.Monotone

/-!
# Maps of magnitudes

Multiplication and division by a positive finite value leave the sign of a value alone and scale its
magnitude. Scaling keeps the order of magnitudes and both ends of them, zero and infinity: a product
that overflows is an infinity of the same sign, and a quotient of it is that infinity still. So such
a map is odd and keeps the order of values, and so is one such map after another.
-/

namespace CssValues

namespace Binary64

/-! ## Signs -/

/-- Negation changes the sign. -/
theorem negative_neg (x : Binary64) : (-x).negative = !x.negative := rfl

/-- Negation keeps the magnitude. -/
theorem magnitude_neg (x : Binary64) : (-x).magnitude = x.magnitude := rfl

/-! ## Maps of signs and magnitudes -/

/-- The map keeps signs and NaN, and does to the magnitudes up to infinity what `g` does, which
keeps their order and both their ends. -/
structure ActsOnMagnitudes (f : Binary64 → Binary64) (g : Nat → Nat) : Prop where
  isNaN : ∀ {x}, x.IsNaN → (f x).IsNaN
  negative : ∀ {x}, ¬ x.IsNaN → (f x).negative = x.negative
  magnitude : ∀ {x}, ¬ x.IsNaN → (f x).magnitude = g x.magnitude
  mono : ∀ {m n}, m ≤ n → n ≤ infinityMagnitude → g m ≤ g n
  zero : g 0 = 0
  infinity : g infinityMagnitude = infinityMagnitude

namespace ActsOnMagnitudes

/-- The map that keeps everything. -/
theorem id : ActsOnMagnitudes id id :=
  ⟨fun h => h, fun _ => rfl, fun _ => rfl, fun h _ => h, rfl, rfl⟩

variable {f f' : Binary64 → Binary64} {g g' : Nat → Nat} (h : ActsOnMagnitudes f g)

include h

/-- Only NaN is mapped to NaN. -/
theorem isNaN_iff {x : Binary64} : (f x).IsNaN ↔ x.IsNaN := by
  constructor
  · intro hnan
    by_contra hx
    have hle := h.mono (Nat.not_lt.mp hx) (Nat.le_refl _)
    rw [h.infinity, ← h.magnitude hx] at hle
    exact Nat.not_lt.mpr hle hnan
  · exact h.isNaN

/-- One map after another. -/
theorem comp (h' : ActsOnMagnitudes f' g') : ActsOnMagnitudes (f' ∘ f) (g' ∘ g) where
  isNaN hx := h'.isNaN (h.isNaN hx)
  negative hx := (h'.negative (mt h.isNaN_iff.mp hx)).trans (h.negative hx)
  magnitude hx := (h'.magnitude (mt h.isNaN_iff.mp hx)).trans (congrArg g' (h.magnitude hx))
  mono hmn hn := h'.mono (h.mono hmn hn) ((h.mono hn (Nat.le_refl _)).trans_eq h.infinity)
  zero := (congrArg g' h.zero).trans h'.zero
  infinity := (congrArg g' h.infinity).trans h'.infinity

/-- A value whose magnitude is kept is kept. -/
theorem eq_self {x : Binary64} (hx : ¬ x.IsNaN) (hkept : g x.magnitude = x.magnitude) : f x = x :=
  eq_of_magnitude_eq (h.negative hx) ((h.magnitude hx).trans hkept)

/-- A zero keeps its word. -/
theorem eq_of_isZero {x : Binary64} (hx : x.IsZero) : f x = x := by
  have hfinite : x.IsFinite := hx.trans_lt (by decide)
  refine h.eq_self hfinite.not_isNaN ?_
  rw [hx, h.zero]

/-- An infinity keeps its word. -/
theorem eq_of_isInfinite {x : Binary64} (hx : x.IsInfinite) : f x = x := by
  refine h.eq_self hx.not_isNaN ?_
  rw [hx, h.infinity]

/-- The map is odd. -/
theorem map_neg {x : Binary64} (hx : ¬ x.IsNaN) : f (-x) = -f x := by
  have hneg : ¬ (-x).IsNaN := hx
  refine eq_of_magnitude_eq ?_ ?_
  · rw [h.negative hneg, negative_neg, negative_neg, h.negative hx]
  · rw [h.magnitude hneg, magnitude_neg, magnitude_neg, h.magnitude hx]

/-- Larger magnitudes are not mapped to fewer units. -/
theorem magnitudeUnits_map_le {m n : Nat} (hn : n ≤ infinityMagnitude)
    (hmn : magnitudeUnits m ≤ magnitudeUnits n) : magnitudeUnits (g m) ≤ magnitudeUnits (g n) :=
  magnitudeUnits_strictMono.monotone (h.mono (magnitudeUnits_strictMono.le_iff_le.mp hmn) hn)

/-- The map keeps the order of values. -/
theorem map_le {x y : Binary64} (hle : x ≤ y) : f x ≤ f y := by
  obtain ⟨hx, hy, hunits⟩ := le_iff.mp hle
  refine le_iff.mpr ⟨mt h.isNaN_iff.mp hx, mt h.isNaN_iff.mp hy, ?_⟩
  have hxy := h.magnitudeUnits_map_le (m := x.magnitude) (Nat.not_lt.mp hy)
  have hyx := h.magnitudeUnits_map_le (m := y.magnitude) (Nat.not_lt.mp hx)
  have hzero (m : Nat) : magnitudeUnits m ≤ 0 → magnitudeUnits (g m) ≤ 0 := by
    have hm := h.magnitudeUnits_map_le (m := m) (Nat.zero_le infinityMagnitude)
    rwa [h.zero, (by decide : magnitudeUnits 0 = 0)] at hm
  simp only [signedUnits, units, h.negative hx, h.negative hy, h.magnitude hx, h.magnitude hy]
    at hunits ⊢
  cases hxsign : x.negative <;> cases hysign : y.negative <;>
    simp only [hxsign, hysign, Bool.false_eq_true, if_true, if_false] at hunits ⊢
  · exact Int.ofNat_le.mpr (hxy (Int.ofNat_le.mp hunits))
  · -- a value without a sign is not below one with a sign, unless both are zero
    have hxzero := hzero x.magnitude (by omega)
    have hyzero := hzero y.magnitude (by omega)
    omega
  · omega
  · have hmap := hyx (by omega)
    omega

/-- The map never reverses an order. It may make values equal, and keeps what is not ordered. -/
theorem compare?_map (x y : Binary64) :
    (f x).compare? (f y) = x.compare? y ∨
      x.compare? y ≠ none ∧ (f x).compare? (f y) = some .eq := by
  by_cases hnan : x.IsNaN ∨ y.IsNaN
  · left
    rw [compare?, compare?, if_pos hnan, if_pos (hnan.imp h.isNaN h.isNaN)]
  · obtain ⟨hx, hy⟩ := not_or.mp hnan
    have hmap : ¬ ((f x).IsNaN ∨ (f y).IsNaN) := by
      rwa [h.isNaN_iff, h.isNaN_iff]
    have hxy (hle : x.signedUnits ≤ y.signedUnits) : (f x).signedUnits ≤ (f y).signedUnits :=
      (h.map_le ⟨hx, hy, hle⟩).2.2
    have hyx (hle : y.signedUnits ≤ x.signedUnits) : (f y).signedUnits ≤ (f x).signedUnits :=
      (h.map_le ⟨hy, hx, hle⟩).2.2
    rw [compare?, compare?, if_neg hnan, if_neg hmap, Option.some.injEq, Option.some.injEq]
    rcases lt_trichotomy x.signedUnits y.signedUnits with hlt | heq | hgt
    · rw [Int.compare_eq_lt.mpr hlt, Int.compare_eq_lt, compare_eq_iff_eq]
      exact (Int.lt_or_eq_of_le (hxy hlt.le)).imp_right fun heq => ⟨Option.some_ne_none _, heq⟩
    · left
      rw [compare_eq_iff_eq.mpr heq, compare_eq_iff_eq]
      exact Int.le_antisymm (hxy heq.le) (hyx heq.ge)
    · rw [Int.compare_eq_gt.mpr hgt, Int.compare_eq_gt, compare_eq_iff_eq]
      exact (Int.lt_or_eq_of_le (hyx hgt.le)).imp_right fun heq => ⟨Option.some_ne_none _, heq.symm⟩

/-- A value that comes back after two such steps was kept by the first. -/
theorem map_map_eq_iff {x : Binary64} (hx : ¬ x.IsNaN) : f (f x) = x ↔ f x = x := by
  have hfx : ¬ (f x).IsNaN := mt h.isNaN_iff.mp hx
  refine ⟨fun hback => h.eq_self hx ?_, fun hkept => (congrArg f hkept).trans hkept⟩
  have hmagnitude : g (g x.magnitude) = x.magnitude := by
    rw [← h.magnitude hx, ← h.magnitude hfx, hback]
  rcases Nat.le_total (g x.magnitude) x.magnitude with hle | hge
  · exact Nat.le_antisymm hle (hmagnitude.symm.trans_le (h.mono hle (Nat.not_lt.mp hx)))
  · have hbound : g x.magnitude ≤ infinityMagnitude := h.magnitude hx ▸ Nat.not_lt.mp hfx
    exact Nat.le_antisymm ((h.mono hge hbound).trans_eq hmagnitude) hge

/-- A value is equal to what it is mapped to only if it is kept. -/
theorem compare?_self_iff {x : Binary64} (hx : ¬ x.IsNaN) :
    x.compare? (f x) = some .eq ↔ f x = x := by
  have hfx : ¬ (f x).IsNaN := mt h.isNaN_iff.mp hx
  rw [compare?, if_neg (not_or.mpr ⟨hx, hfx⟩), Option.some.injEq, compare_eq_iff_eq]
  constructor
  · intro hequal
    have hmagnitude := ((beq_iff_magnitude hx hfx).mp (beq_iff.mpr ⟨hx, hfx, hequal⟩)).1
    exact h.eq_self hx ((h.magnitude hx).symm.trans hmagnitude.symm)
  · intro hkept
    rw [hkept]

end ActsOnMagnitudes

/-! ## Multiplication and division -/

/-- A magnitude times `num / den`, rounded. Infinity stays where it is. -/
def scaleMagnitude (num den magnitude : Nat) : Nat :=
  if magnitude = infinityMagnitude then infinityMagnitude
  else nearestMagnitude (magnitudeUnits magnitude * num) den

/-- The infinite magnitude is not scaled. -/
theorem scaleMagnitude_infinity (num den : Nat) :
    scaleMagnitude num den infinityMagnitude = infinityMagnitude := if_pos rfl

/-- The magnitude of a number is scaled by rounding the exact quotient. -/
theorem scaleMagnitude_of_lt (num den : Nat) {magnitude : Nat} (h : magnitude < infinityMagnitude) :
    scaleMagnitude num den magnitude = nearestMagnitude (magnitudeUnits magnitude * num) den :=
  if_neg h.ne

/-- A map that scales all numbers acts on magnitudes. -/
theorem ActsOnMagnitudes.of_scaled {f : Binary64 → Binary64} {num den : Nat} (hden : 0 < den)
    (hnan : ∀ {x : Binary64}, x.IsNaN → (f x).IsNaN)
    (hscaled : ∀ {x : Binary64}, ¬ x.IsNaN → f x = x.scaled num den) :
    ActsOnMagnitudes f (scaleMagnitude num den) where
  isNaN := hnan
  negative {x} hx := by
    rw [hscaled hx, scaled]
    split
    · rfl
    · rw [negative_ofQuotient]
  magnitude {x} hx := by
    rw [hscaled hx, scaled]
    rcases isFinite_or_isInfinite hx with h | h
    · rw [if_neg h.not_isInfinite, scaleMagnitude_of_lt num den h]
      rfl
    · rw [if_pos h, show x.magnitude = infinityMagnitude from h, scaleMagnitude_infinity]
      rfl
  mono {m n} hmn hn := by
    rcases Nat.lt_or_eq_of_le hn with hlt | rfl
    · rw [scaleMagnitude_of_lt num den hlt, scaleMagnitude_of_lt num den (hmn.trans_lt hlt)]
      exact nearestMagnitude_mono hden
        (Nat.mul_le_mul_right num (magnitudeUnits_strictMono.monotone hmn))
    · rw [scaleMagnitude_infinity]
      rcases Nat.lt_or_eq_of_le hmn with hlt | rfl
      · rw [scaleMagnitude_of_lt num den hlt]
        exact nearestMagnitude_le _ _
      · rw [scaleMagnitude_infinity]
  zero := by
    rw [scaleMagnitude_of_lt num den (by decide), (by decide : magnitudeUnits 0 = 0), Nat.zero_mul,
      nearestMagnitude_zero]
  infinity := scaleMagnitude_infinity num den

section Positive

variable {s : Binary64} (hs : s.IsFinite) (hpos : 0 < s)

include hs hpos

/-- Multiplication by a positive finite value acts on magnitudes. -/
theorem actsOnMagnitudes_mul :
    ActsOnMagnitudes (· * s) (scaleMagnitude s.units unitsPerOne) := by
  refine .of_scaled unitsPerOne_pos (fun {x} hx => ?_) fun hx => mul_eq_scaled hx hpos hs
  change (mul x s).IsNaN
  unfold mul
  rw [if_pos (Or.inl hx)]
  decide

/-- Division by a positive finite value acts on magnitudes. -/
theorem actsOnMagnitudes_div :
    ActsOnMagnitudes (· / s) (scaleMagnitude unitsPerOne s.units) := by
  have hunits : 0 < s.units :=
    Nat.pos_of_ne_zero (mt units_eq_zero_iff.mp (zero_lt_iff.mp hpos).2.2)
  refine .of_scaled hunits (fun {x} hx => ?_) fun hx => div_eq_scaled hx hpos hs
  change (div x s).IsNaN
  unfold div
  rw [if_pos (Or.inl hx)]
  decide

end Positive

end Binary64

end CssValues
