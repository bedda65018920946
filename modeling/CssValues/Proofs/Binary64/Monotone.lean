import CssValues.Proofs.Binary64.RelativeError
import Mathlib.Data.Nat.Log

/-!
# Order and exact results

A larger quotient never rounds to a smaller magnitude. A number of at most 53 bits, shifted by some
places, is the number of units of a finite magnitude, and a quotient that equals such a number is
not changed by rounding.
-/

namespace CssValues

namespace Binary64

/-! ## Order -/

/-- Rounding to a natural number keeps the order. -/
theorem roundHalfEven_mono {num num' : Nat} (den : Nat) (h : num ≤ num') :
    roundHalfEven num den ≤ roundHalfEven num' den := by
  have hquotient : num / den ≤ num' / den := Nat.div_le_div_right h
  rcases Nat.lt_or_eq_of_le hquotient with hlt | heq
  · calc roundHalfEven num den
        ≤ num / den + 1 := roundHalfEven_le num den
      _ ≤ num' / den := hlt
      _ ≤ roundHalfEven num' den := le_roundHalfEven num' den
  · have hdiv := Nat.div_add_mod' num den
    have hdiv' := Nat.div_add_mod' num' den
    have hmod : num % den ≤ num' % den := by
      rw [heq] at hdiv
      omega
    simp only [roundHalfEven, heq]
    generalize num % den = rest at hmod
    generalize num' % den = rest' at hmod
    clear hdiv hdiv' heq hquotient
    split_ifs <;> omega

/-- A larger quotient drops as many bits or more. -/
theorem surplusBits_mono {num num' : Nat} (den : Nat) (h : num ≤ num') :
    surplusBits num den ≤ surplusBits num' den := by
  rw [surplusBits, surplusBits, Nat.log2_eq_log_two, Nat.log2_eq_log_two]
  exact Nat.sub_le_sub_right (Nat.log_mono_right (Nat.div_le_div_right h)) 52

/-- Rounding keeps the order of quotients. -/
theorem nearestMagnitude_mono {num num' den : Nat} (hden : 0 < den) (h : num ≤ num') :
    nearestMagnitude num den ≤ nearestMagnitude num' den := by
  have hsum : surplusBits num den * binadeSize + roundHalfEven num (den <<< surplusBits num den) ≤
      surplusBits num' den * binadeSize +
        roundHalfEven num' (den <<< surplusBits num' den) := by
    rcases Nat.lt_or_eq_of_le (surplusBits_mono den h) with hlt | heq
    · have hhigh : roundHalfEven num (den <<< surplusBits num den) ≤ 2 * binadeSize :=
        (roundHalfEven_le _ _).trans (div_surplus_lt num den)
      -- the larger quotient drops bits, so it keeps all 53
      have hnormal : binadeSize * den ≤ num' := by
        by_contra hsmall
        rw [surplusBits_eq_zero hden (Nat.not_le.mp hsmall)] at hlt
        exact Nat.not_lt_zero _ hlt
      have hshift : 0 < den <<< surplusBits num' den := shiftLeft_pos hden _
      have hlow : binadeSize ≤ roundHalfEven num' (den <<< surplusBits num' den) :=
        ((Nat.le_div_iff_mul_le hshift).mpr (binadeSize_mul_le hden hnormal)).trans
          (le_roundHalfEven _ _)
      have hstep := Nat.mul_le_mul_right binadeSize hlt
      rw [Nat.succ_mul] at hstep
      omega
    · rw [heq]
      exact Nat.add_le_add_left (roundHalfEven_mono _ h) _
  exact Nat.le_min.mpr ⟨(Nat.min_le_left _ _).trans hsum, Nat.min_le_right _ _⟩

/-! ## Exact results -/

/-- The number of units of a finite magnitude. -/
def IsRepresentable (n : Nat) : Prop :=
  ∃ magnitude, magnitude < infinityMagnitude ∧ magnitudeUnits magnitude = n

/-- The units of a finite value are representable. -/
theorem IsFinite.isRepresentable {x : Binary64} (hx : x.IsFinite) : IsRepresentable x.units :=
  ⟨x.magnitude, hx, rfl⟩

/-- A number of at most 53 bits is representable wherever its last bit is. -/
theorem isRepresentable_shiftLeft {n : Nat} (hn : n ≤ 2 * binadeSize) {shift : Nat}
    (hshift : shift ≤ 2044) : IsRepresentable (n <<< shift) := by
  induction shift generalizing n with
  | zero =>
    refine ⟨0 * binadeSize + n, ?_, magnitudeUnits_add hn (Or.inl rfl)⟩
    rw [Nat.zero_mul, Nat.zero_add]
    exact hn.trans_lt (by decide)
  | succ shift ih =>
    by_cases hlow : binadeSize ≤ n
    · refine ⟨(shift + 1) * binadeSize + n, ?_, magnitudeUnits_add hn (Or.inr hlow)⟩
      have hscaled := Nat.mul_le_mul_right binadeSize hshift
      have hroom : 2044 * binadeSize + 2 * binadeSize < infinityMagnitude := by decide
      omega
    · -- one place fewer, with a number of one bit more
      have hdouble : n <<< (shift + 1) = (2 * n) <<< shift := by
        rw [Nat.shiftLeft_succ_inside]
      rw [hdouble]
      exact ih (by omega) (by omega)

/-- A representable quotient is not changed by rounding. -/
theorem IsRepresentable.nearestMagnitude_mul {n : Nat} (hn : IsRepresentable n) {den : Nat}
    (hden : 0 < den) : nearestMagnitude (n * den) den < infinityMagnitude ∧
      magnitudeUnits (nearestMagnitude (n * den) den) = n := by
  obtain ⟨magnitude, hfinite, rfl⟩ := hn
  rw [nearestMagnitude_magnitudeUnits hden hfinite.le]
  exact ⟨hfinite, rfl⟩

/-- An operation whose exact result is representable gives that result. -/
theorem IsRepresentable.ofQuotient {n : Nat} (hn : IsRepresentable n) (negative : Bool) {den : Nat}
    (hden : 0 < den) : (ofQuotient negative (n * den) den).IsFinite ∧
      (Binary64.ofQuotient negative (n * den) den).units = n :=
  hn.nearestMagnitude_mul hden

/-- The units of a finite value are a number of 53 bits, shifted by some places, with its first bit
set unless nothing is shifted. -/
theorem IsFinite.exists_units_eq {x : Binary64} (hx : x.IsFinite) :
    ∃ significand shift, x.units = significand <<< shift ∧ significand < 2 * binadeSize ∧
      (shift = 0 ∨ binadeSize ≤ significand) ∧ shift ≤ 2045 := by
  obtain ⟨shift, significand, hmagnitude, hlt, hlow⟩ := exists_eq_surplus_add x.magnitude
  refine ⟨significand, shift, ?_, hlt, hlow, ?_⟩
  · rw [units, hmagnitude, magnitudeUnits_add hlt.le hlow]
  · rcases hlow with hzero | hlow
    · omega
    · have hbound : shift * binadeSize + significand < infinityMagnitude := hmagnitude ▸ hx
      have hsum : (shift + 1) * binadeSize < 2047 * binadeSize := by
        rw [Nat.succ_mul]
        exact (Nat.add_le_add_left hlow _).trans_lt hbound
      have := Nat.lt_of_mul_lt_mul_right hsum
      omega

end Binary64

end CssValues
