import CssValues.Proofs.Binary64.MagnitudeMaps
import CssValues.Proofs.Binary64.Whole

/-!
# Ninety-six times a value, divided by ninety-six

Ninety-six is three times a power of two. Three times a number of 53 bits has up to two bits more,
so the product loses them, and the quotient by three finds the number again unless it was half way
between two products: the two bits were `10`, which happens in the upper two thirds of a binade and
for numbers that end in `10` themselves. A product may also overflow, and then the value is gone.
So multiplying by ninety-six and dividing by it again is not the identity, and this module says
for which values it is.
-/

namespace CssValues

namespace Binary64

/-! ## Three times a number -/

/-- Three times a number of 53 bits, rounded to 53 bits, with zeros in place of the lost ones. -/
def tripled (n : Nat) : Nat :=
  if 3 * n < 2 * binadeSize then 3 * n
  else if 3 * n < 4 * binadeSize then 2 * roundHalfEven (3 * n) 2
  else 4 * roundHalfEven (3 * n) 4

/-- Three times the number is half way between two numbers of 53 bits. -/
def HasTiedTriple (n : Nat) : Prop := 4 * binadeSize ≤ 3 * n ∧ n % 4 = 2

instance (n : Nat) : Decidable (HasTiedTriple n) := inferInstanceAs (Decidable (_ ∧ _))

/-- One lost bit is off by at most one. -/
theorem roundHalfEven_two_error (m : Nat) :
    2 * roundHalfEven m 2 ≤ m + 1 ∧ m ≤ 2 * roundHalfEven m 2 + 1 := by
  simp only [roundHalfEven]
  split_ifs <;> omega

/-- Two lost bits are off by two when they are `10`, and by at most one otherwise. -/
theorem roundHalfEven_four_error (m : Nat) :
    (m % 4 = 2 → 4 * roundHalfEven m 4 = m + 2 ∨ 4 * roundHalfEven m 4 + 2 = m) ∧
      (m % 4 ≠ 2 → 4 * roundHalfEven m 4 ≤ m + 1 ∧ m ≤ 4 * roundHalfEven m 4 + 1) := by
  simp only [roundHalfEven]
  split_ifs <;> omega

/-- A rounded triple is off by two if it was half way between two numbers, and by at most one
otherwise. -/
theorem tripled_error (n : Nat) :
    (HasTiedTriple n → tripled n = 3 * n + 2 ∨ tripled n + 2 = 3 * n) ∧
      (¬ HasTiedTriple n → tripled n ≤ 3 * n + 1 ∧ 3 * n ≤ tripled n + 1) := by
  have htwo := roundHalfEven_two_error (3 * n)
  obtain ⟨htied, hfree⟩ := roundHalfEven_four_error (3 * n)
  have hmod : 3 * n % 4 = 2 ↔ n % 4 = 2 := by omega
  rw [hmod] at htied
  rw [ne_eq, hmod] at hfree
  simp only [tripled, HasTiedTriple, not_and_or, Nat.not_le]
  split
  next hnone => omega
  next hsome =>
    split
    next hone => omega
    next hboth => exact ⟨fun h => htied h.2, fun h => hfree (h.resolve_left hboth)⟩

/-- A rounded triple is off by at most two. -/
theorem tripled_close (n : Nat) : tripled n ≤ 3 * n + 2 ∧ 3 * n ≤ tripled n + 2 := by
  obtain ⟨htied, hfree⟩ := tripled_error n
  by_cases hn : HasTiedTriple n
  · have := htied hn
    omega
  · have := hfree hn
    omega

/-- A rounded triple stays above three times the least number of 53 bits. -/
theorem binadeSize_le_tripled {n : Nat} (hn : binadeSize ≤ n) : 3 * binadeSize ≤ tripled n := by
  have hclose := tripled_close n
  rcases Nat.lt_or_eq_of_le hn with hlt | rfl
  · omega
  · decide

/-- A rounded triple stays below three times the least number of 54 bits. -/
theorem tripled_lt {n : Nat} (hn : n < 2 * binadeSize) : tripled n < 6 * binadeSize := by
  have hclose := tripled_close n
  omega

/-- A number is nearest to the third of another if three times it is off by at most one. -/
theorem roundHalfEven_three_iff {t n : Nat} :
    roundHalfEven t 3 = n ↔ t ≤ 3 * n + 1 ∧ 3 * n ≤ t + 1 := by
  simp only [roundHalfEven]
  split_ifs <;> omega

/-- The third of a rounded triple is nearest to the number, unless the triple was half way between
two numbers of 53 bits. -/
theorem roundHalfEven_tripled_iff (n : Nat) :
    roundHalfEven (tripled n) 3 = n ↔ ¬ HasTiedTriple n := by
  obtain ⟨htied, hfree⟩ := tripled_error n
  rw [roundHalfEven_three_iff]
  constructor
  · intro hclose hn
    have := htied hn
    omega
  · exact hfree

/-! ## Product and quotient -/

/-- Zero bits at the end of both numbers do not change a rounded quotient. -/
theorem roundHalfEven_shiftLeft (num den shift : Nat) :
    roundHalfEven (num <<< shift) (den <<< shift) = roundHalfEven num den := by
  rw [Nat.shiftLeft_eq, Nat.shiftLeft_eq, roundHalfEven_mul_mul (Nat.two_pow_pos shift)]

/-- A shifted number with a known number of bits beyond 53 loses these bits. -/
theorem magnitudeUnits_of_lost {m : Nat} (lost shift : Nat) (hlow : binadeSize <<< lost ≤ m)
    (hhigh : m < (2 * binadeSize) <<< lost)
    (hfinite : nearestMagnitude (m <<< shift) 1 < infinityMagnitude) :
    magnitudeUnits (nearestMagnitude (m <<< shift) 1) =
      (roundHalfEven m (1 <<< lost) <<< lost) <<< shift := by
  have hscale (n : Nat) : n * (1 <<< (lost + shift)) = (n <<< lost) <<< shift := by
    rw [Nat.one_shiftLeft, ← Nat.shiftLeft_eq, Nat.shiftLeft_add]
  have hsurplus : surplusBits (m <<< shift) 1 = lost + shift := by
    apply surplusBits_eq Nat.one_pos
    · rw [hscale, Nat.shiftLeft_eq _ shift, Nat.shiftLeft_eq _ shift]
      exact Or.inr (Nat.mul_le_mul_right _ hlow)
    · rw [hscale, Nat.shiftLeft_eq _ shift, Nat.shiftLeft_eq _ shift]
      exact Nat.mul_lt_mul_of_pos_right hhigh (Nat.two_pow_pos shift)
  rw [magnitudeUnits_nearestMagnitude Nat.one_pos hfinite, hsurplus, Nat.shiftLeft_add,
    Nat.shiftLeft_add, roundHalfEven_shiftLeft]

section NinetySix

variable {n shift : Nat} (hn : n < 2 * binadeSize) (hlow : shift = 0 ∨ binadeSize ≤ n)

include hn hlow

/-- A product with ninety-six that does not overflow is the rounded triple of the significand. -/
theorem magnitudeUnits_mul_ninetySix
    (hfinite : nearestMagnitude (n <<< shift * 96) 1 < infinityMagnitude) :
    magnitudeUnits (nearestMagnitude (n <<< shift * 96) 1) = tripled n <<< (shift + 5) := by
  have hscale : n <<< shift * 96 = (3 * n) <<< (shift + 5) := by
    rw [Nat.shiftLeft_eq, Nat.shiftLeft_eq, Nat.pow_add]
    ring
  rw [hscale] at hfinite ⊢
  rw [tripled]
  split
  next hnone =>
    have hzero : shift = 0 := hlow.resolve_right (by omega)
    have hexact := isRepresentable_shiftLeft hnone.le (show shift + 5 ≤ 2044 by omega)
    have hrounded := hexact.nearestMagnitude_mul Nat.one_pos
    rw [Nat.mul_one] at hrounded
    exact hrounded.2
  next hsome =>
    split
    next hone =>
      rw [magnitudeUnits_of_lost 1 (shift + 5) (by omega) (by omega) hfinite,
        Nat.shiftLeft_eq _ 1, Nat.mul_comm]
      rfl
    next hboth =>
      rw [magnitudeUnits_of_lost 2 (shift + 5) (by omega) (by omega) hfinite,
        Nat.shiftLeft_eq _ 2, Nat.mul_comm]
      rfl

/-- The quotient of a rounded triple by ninety-six is in the binade of the significand. -/
theorem nearestMagnitude_div_ninetySix :
    nearestMagnitude (tripled n <<< (shift + 5)) 96 =
      Nat.min (shift * binadeSize + roundHalfEven (tripled n) 3) infinityMagnitude := by
  have hscale : tripled n <<< (shift + 5) = tripled n <<< shift * 32 := by
    rw [Nat.shiftLeft_add, Nat.shiftLeft_eq _ 5]
  rw [hscale, show 96 = 3 * 32 from rfl, nearestMagnitude_mul_mul (by decide),
    nearestMagnitude_of_binade shift (by decide), roundHalfEven_shiftLeft]
  · refine hlow.imp_right fun hlow => ?_
    have htriple := Nat.mul_le_mul_right (2 ^ shift) (binadeSize_le_tripled hlow)
    rw [Nat.shiftLeft_eq, Nat.shiftLeft_eq]
    linarith
  · have htriple := Nat.mul_lt_mul_of_pos_right (tripled_lt hn) (Nat.two_pow_pos shift)
    rw [Nat.shiftLeft_eq, Nat.shiftLeft_eq]
    linarith

end NinetySix

/-- Three times the value is half way between two values: it is in the upper two thirds of a binade
of normal values, and its last two bits are `10`. -/
def TripleIsTied (x : Binary64) : Prop :=
  binadeSize ≤ x.magnitude ∧ binadeSize ≤ 3 * (x.magnitude % binadeSize) ∧ x.magnitude % 4 = 2

instance (x : Binary64) : Decidable x.TripleIsTied := inferInstanceAs (Decidable (_ ∧ _))

/-- Whether the triple of a value is tied can be told from the bits that are left of it, wherever
its binade is. -/
theorem tripleIsTied_iff {x : Binary64} {shift n : Nat}
    (hmagnitude : x.magnitude = shift * binadeSize + n) (hn : n < 2 * binadeSize)
    (hlow : shift = 0 ∨ binadeSize ≤ n) : x.TripleIsTied ↔ HasTiedTriple n := by
  have hmod : x.magnitude % 4 = n % 4 := by
    rw [hmagnitude, binadeSize]
    omega
  rw [TripleIsTied, HasTiedTriple, hmod]
  by_cases hnormal : binadeSize ≤ n
  · have hfraction : x.magnitude % binadeSize = n - binadeSize := by
      rw [hmagnitude, Nat.mul_add_mod_self_right, Nat.mod_eq_sub_mod hnormal, Nat.mod_eq_of_lt]
      omega
    rw [hfraction, hmagnitude]
    omega
  · have hzero : shift = 0 := hlow.resolve_right hnormal
    rw [hmagnitude, hzero]
    omega

/-! ## Values -/

/-- Ninety-six is finite. -/
theorem isFinite_ninetySix : (96 : Binary64).IsFinite := isFinite_ofNat (by decide)

/-- Ninety-six is above zero. -/
theorem ninetySix_pos : (0 : Binary64) < 96 :=
  zero_lt_iff.mpr ⟨isFinite_ninetySix.not_isNaN, rfl, (magnitude_ofNat_pos (by decide)).ne'⟩

/-- Ninety-six is exact. -/
theorem units_ninetySix : (96 : Binary64).units = 96 * unitsPerOne := units_ofNat (by decide)

/-- The magnitude of a finite product with ninety-six. -/
theorem scaleMagnitude_mul_ninetySix {magnitude : Nat} (h : magnitude < infinityMagnitude) :
    scaleMagnitude (96 : Binary64).units unitsPerOne magnitude =
      nearestMagnitude (magnitudeUnits magnitude * 96) 1 := by
  have hscale := nearestMagnitude_mul_mul unitsPerOne_pos (magnitudeUnits magnitude * 96) 1
  rw [Nat.one_mul, Nat.mul_assoc] at hscale
  rw [scaleMagnitude_of_lt _ _ h, units_ninetySix, hscale]

/-- The magnitude of a finite value divided by ninety-six. -/
theorem scaleMagnitude_div_ninetySix {magnitude : Nat} (h : magnitude < infinityMagnitude) :
    scaleMagnitude unitsPerOne (96 : Binary64).units magnitude =
      nearestMagnitude (magnitudeUnits magnitude) 96 := by
  rw [scaleMagnitude_of_lt _ _ h, units_ninetySix, nearestMagnitude_mul_mul unitsPerOne_pos]

/-- A product with ninety-six and a quotient by it, one after the other. -/
theorem actsOnMagnitudes_mul_div_ninetySix :
    ActsOnMagnitudes (fun x => x * 96 / 96)
      (scaleMagnitude unitsPerOne (96 : Binary64).units ∘
        scaleMagnitude (96 : Binary64).units unitsPerOne) :=
  (actsOnMagnitudes_mul isFinite_ninetySix ninetySix_pos).comp
    (actsOnMagnitudes_div isFinite_ninetySix ninetySix_pos)

/-- A value comes back from a product with ninety-six unless the product overflows or the triple
was half way between two values. -/
theorem mul_div_ninetySix_eq_iff {x : Binary64} (hx : x.IsFinite) :
    x * 96 / 96 = x ↔ (x * 96).IsFinite ∧ ¬ x.TripleIsTied := by
  obtain ⟨shift, n, hmagnitude, hn, hlow⟩ := exists_eq_surplus_add x.magnitude
  have hunits : magnitudeUnits x.magnitude = n <<< shift := by
    rw [hmagnitude, magnitudeUnits_add hn.le hlow]
  have hmul := (actsOnMagnitudes_mul isFinite_ninetySix ninetySix_pos).magnitude hx.not_isNaN
  have hacts := actsOnMagnitudes_mul_div_ninetySix
  have hkept : x * 96 / 96 = x ↔ (x * 96 / 96).magnitude = x.magnitude :=
    ⟨congrArg magnitude, fun h => hacts.eq_self hx.not_isNaN
      ((hacts.magnitude hx.not_isNaN).symm.trans h)⟩
  rw [hkept, hacts.magnitude hx.not_isNaN, Function.comp_apply]
  rw [scaleMagnitude_mul_ninetySix hx, hunits] at hmul ⊢
  rcases Nat.lt_or_eq_of_le (nearestMagnitude_le (n <<< shift * 96) 1) with hfinite | hinfinite
  · have hproduct : (x * 96).IsFinite := hmul.trans_lt hfinite
    have hbound : shift * binadeSize + n < infinityMagnitude := hmagnitude ▸ hx
    rw [scaleMagnitude_div_ninetySix hfinite, magnitudeUnits_mul_ninetySix hn hlow hfinite,
      nearestMagnitude_div_ninetySix hn hlow, tripleIsTied_iff hmagnitude hn hlow,
      ← roundHalfEven_tripled_iff, hmagnitude]
    simp only [hproduct, true_and, Nat.min_def]
    split_ifs <;> omega
  · have hproduct : ¬ (x * 96).IsFinite := fun h => Nat.ne_of_lt h (hmul.trans hinfinite)
    rw [hinfinite, scaleMagnitude_infinity]
    simp only [hproduct, false_and, iff_false]
    exact fun h => hx.not_isInfinite h.symm

end Binary64

end CssValues
