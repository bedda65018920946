import CssValues.Proofs.Binary64.MagnitudeMaps

/-!
# Comparing values with what others are mapped to

A product and a quotient by the same factor undo each other but for rounding. Rounding never takes a
value past another one, so a product and a quotient never cross: if the product of one value is
above a second value, then the quotient of the second is not above the first. This is so for values
of every size, also where one of the two overflows or becomes zero.
-/

namespace CssValues

namespace Binary64

/-! ## Answers of comparisons -/

/-- The first value compares as less exactly when it is. -/
theorem compare?_eq_lt_iff {x y : Binary64} : x.compare? y = some .lt ↔ x < y := by
  rw [lt_iff, compare?]
  split
  next hnan => exact iff_of_false (by simp) fun h => hnan.elim h.1 h.2.1
  next hnan =>
    rw [not_or] at hnan
    simp only [Option.some.injEq, Int.compare_eq_lt, hnan, not_false_eq_true, true_and]

/-- Two values compare as equal exactly when they are. -/
theorem compare?_eq_eq_iff {x y : Binary64} : x.compare? y = some .eq ↔ (x == y) = true := by
  rw [beq_iff, compare?]
  split
  next hnan => exact iff_of_false (by simp) fun h => hnan.elim h.1 h.2.1
  next hnan =>
    rw [not_or] at hnan
    simp only [Option.some.injEq, compare_eq_iff_eq, hnan, not_false_eq_true, true_and]

/-- Exchanged values have the opposite answer. -/
theorem compare?_swap (x y : Binary64) : y.compare? x = (x.compare? y).map Ordering.swap := by
  by_cases hnan : x.IsNaN ∨ y.IsNaN
  · rw [compare?, compare?, if_pos hnan, if_pos hnan.symm]
    rfl
  · rw [compare?, compare?, if_neg hnan, if_neg (mt Or.symm hnan), Option.map_some,
      ← Std.OrientedOrd.eq_swap]

/-- The first value compares as greater exactly when the second one is less. -/
theorem compare?_eq_gt_iff {x y : Binary64} : x.compare? y = some .gt ↔ y < x := by
  rw [← compare?_eq_lt_iff, compare?_swap y x]
  cases y.compare? x with
  | none => exact iff_of_false nofun nofun
  | some order => cases order <;> simp

/-- A value that is at most another is not above it. -/
theorem not_lt_of_le {x y : Binary64} (h : x ≤ y) : ¬ y < x :=
  fun hlt => Int.not_lt.mpr h.2.2 hlt.2.2

/-- A value that is not below another one is above it or equal to it. -/
theorem compare?_of_le {x y : Binary64} (h : x ≤ y) :
    y.compare? x = some .gt ∨ y.compare? x = some .eq := by
  obtain ⟨hx, hy, hle⟩ := le_iff.mp h
  rw [compare?_eq_gt_iff, compare?_eq_eq_iff, lt_iff, beq_iff]
  exact (Int.lt_or_eq_of_le hle).imp (fun hlt => ⟨hx, hy, hlt⟩) fun heq => ⟨hy, hx, heq.symm⟩

/-- Negation turns the order around. -/
theorem neg_le_neg_iff {x y : Binary64} : -x ≤ -y ↔ y ≤ x := by
  rw [le_iff, le_iff, signedUnits_neg, signedUnits_neg, Int.neg_le_neg_iff, and_left_comm]
  rfl

/-! ## Maps that do not cross -/

/-- Neither map takes a magnitude past another one that the second map takes past the first, upwards
or downwards. -/
structure NeverCross (g g' : Nat → Nat) : Prop where
  le_or_le : ∀ {m n}, m ≤ infinityMagnitude → n ≤ infinityMagnitude → g m ≤ n ∨ g' n ≤ m
  ge_or_ge : ∀ {m n}, m ≤ infinityMagnitude → n ≤ infinityMagnitude → n ≤ g m ∨ m ≤ g' n

namespace NeverCross

variable {g g' : Nat → Nat}

/-- Values that are not changed do not cross. -/
theorem id : NeverCross id id :=
  ⟨fun _ _ => Nat.le_total _ _, fun _ _ => Nat.le_total _ _⟩

/-- Which of the two maps comes first does not matter. -/
theorem symm (h : NeverCross g g') : NeverCross g' g :=
  ⟨fun hm hn => (h.le_or_le hn hm).symm, fun hm hn => (h.ge_or_ge hn hm).symm⟩

/-- Maps that act in the same way on the magnitudes up to infinity do not cross either. -/
theorem congr {h h' : Nat → Nat} (hcross : NeverCross g g')
    (hg : ∀ {m}, m ≤ infinityMagnitude → h m = g m)
    (hg' : ∀ {m}, m ≤ infinityMagnitude → h' m = g' m) : NeverCross h h' where
  le_or_le hm hn := by
    rw [hg hm, hg' hn]
    exact hcross.le_or_le hm hn
  ge_or_ge hm hn := by
    rw [hg hm, hg' hn]
    exact hcross.ge_or_ge hm hn

end NeverCross

/-- A scaled magnitude is that of a number or an infinity. -/
theorem scaleMagnitude_le (num den magnitude : Nat) :
    scaleMagnitude num den magnitude ≤ infinityMagnitude := by
  unfold scaleMagnitude
  split
  · exact Nat.le_refl _
  · exact nearestMagnitude_le _ _

/-- A magnitude times one is itself. -/
theorem scaleMagnitude_self {factor : Nat} (hfactor : 0 < factor) {magnitude : Nat}
    (h : magnitude ≤ infinityMagnitude) : scaleMagnitude factor factor magnitude = magnitude := by
  rcases Nat.lt_or_eq_of_le h with hlt | rfl
  · rw [scaleMagnitude_of_lt _ _ hlt, nearestMagnitude_magnitudeUnits hfactor h]
  · exact scaleMagnitude_infinity _ _

/-- Rounded products and rounded quotients do not cross: of the exact product of one magnitude and
the other one, the smaller is not rounded past the larger. -/
theorem neverCross_scaleMagnitude {num den : Nat} (hnum : 0 < num) (hden : 0 < den) :
    NeverCross (scaleMagnitude num den) (scaleMagnitude den num) := by
  have hself {factor m : Nat} (hfactor : 0 < factor) (hm : m < infinityMagnitude) :
      nearestMagnitude (magnitudeUnits m * factor) factor = m :=
    nearestMagnitude_magnitudeUnits hfactor hm.le
  constructor
  · intro m n hm hn
    rcases Nat.lt_or_eq_of_le hm with hmlt | rfl
    · rcases Nat.lt_or_eq_of_le hn with hnlt | rfl
      · rw [scaleMagnitude_of_lt _ _ hmlt, scaleMagnitude_of_lt _ _ hnlt]
        refine (Nat.le_total (magnitudeUnits m * num) (magnitudeUnits n * den)).imp ?_ ?_
        · exact fun hle => (nearestMagnitude_mono hden hle).trans_eq (hself hden hnlt)
        · exact fun hle => (nearestMagnitude_mono hnum hle).trans_eq (hself hnum hmlt)
      · exact Or.inl (scaleMagnitude_le _ _ _)
    · exact Or.inr (scaleMagnitude_le _ _ _)
  · intro m n hm hn
    rcases Nat.lt_or_eq_of_le hm with hmlt | rfl
    · rcases Nat.lt_or_eq_of_le hn with hnlt | rfl
      · rw [scaleMagnitude_of_lt _ _ hmlt, scaleMagnitude_of_lt _ _ hnlt]
        refine (Nat.le_total (magnitudeUnits n * den) (magnitudeUnits m * num)).imp ?_ ?_
        · exact fun hle => (hself hden hnlt).symm.trans_le (nearestMagnitude_mono hden hle)
        · exact fun hle => (hself hnum hmlt).symm.trans_le (nearestMagnitude_mono hnum hle)
      · rw [scaleMagnitude_infinity]
        exact Or.inr hm
    · rw [scaleMagnitude_infinity]
      exact Or.inl hn

section Values

variable {f f' : Binary64 → Binary64} {g g' : Nat → Nat} (hf : ActsOnMagnitudes f g)
  (hf' : ActsOnMagnitudes f' g') (hcross : NeverCross g g') {x y : Binary64} (hx : ¬ x.IsNaN)
  (hy : ¬ y.IsNaN)

include hf hf' hcross hx hy

/-- Values are not taken past each other upwards. -/
theorem NeverCross.map_le_or_map_le : f x ≤ y ∨ f' y ≤ x := by
  have hupper := hcross.le_or_le (Nat.not_lt.mp hx) (Nat.not_lt.mp hy)
  have hlower := hcross.ge_or_ge (Nat.not_lt.mp hx) (Nat.not_lt.mp hy)
  have hle {a b : Nat} (h : a ≤ b) : magnitudeUnits a ≤ magnitudeUnits b :=
    magnitudeUnits_strictMono.monotone h
  simp only [le_iff, mt hf.isNaN_iff.mp hx, mt hf'.isNaN_iff.mp hy, hx, hy, not_false_eq_true,
    true_and, signedUnits, units, hf.negative hx, hf'.negative hy, hf.magnitude hx,
    hf'.magnitude hy]
  cases x.negative <;> cases y.negative <;>
    simp only [Bool.false_eq_true, if_true, if_false, Int.neg_le_neg_iff, Int.ofNat_le]
  · exact hupper.imp hle hle
  · exact Or.inr (by omega)
  · exact Or.inl (by omega)
  · exact hlower.imp hle hle

/-- Values are not taken past each other downwards. -/
theorem NeverCross.le_map_or_le_map : y ≤ f x ∨ x ≤ f' y := by
  have hneg := hcross.map_le_or_map_le hf hf' (x := -x) (y := -y) hx hy
  rwa [hf.map_neg hx, hf'.map_neg hy, neg_le_neg_iff, neg_le_neg_iff] at hneg

end Values

end Binary64

end CssValues
