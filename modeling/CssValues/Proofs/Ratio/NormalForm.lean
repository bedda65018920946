import CssValues.Proofs.Ratio.DecimalReduction

/-!
# Lowest terms are a normal form

Whole numbers up to `2 ^ 53` without a common divisor are accepted without a scale and divided by
one. So simplifying twice is simplifying once: what a scale made whole is such a pair, and what no
scale makes whole is the same ratio the second time. The search and the divisor treat the components
alike, so exchanging them before or after makes no difference.
-/

namespace CssValues

open Binary64 (maxExactNat)

/-! ## Exchanged components -/

/-- A scale accepts exchanged components with exchanged words. -/
theorem wholeAtScale?_swap (width height scale : Binary64) :
    wholeAtScale? height width scale = (wholeAtScale? width height scale).map Prod.swap := by
  simp only [wholeAtScale?]
  rw [apply_ite (Option.map Prod.swap), apply_ite (Option.map Prod.swap)]
  simp only [Option.map_none, Option.map_some, Prod.swap_prod_mk]
  refine if_congr or_comm rfl (if_congr ?_ rfl rfl)
  rw [← and_assoc, ← and_assoc, and_comm (a := IsCloseTo _ _), and_assoc, and_assoc,
    and_comm (a := 1 ≤ _)]

/-- The first scale that is accepted is the same for exchanged components. -/
theorem wholeComponents?_swap (width height : Binary64) :
    wholeComponents? height width = (wholeComponents? width height).map Prod.swap := by
  rw [wholeComponents?, wholeComponents?, List.map_findSome?]
  exact congrArg (List.findSome? · _) (funext fun _ => wholeAtScale?_swap width height _)

/-- The lowest terms of exchanged components are the exchanged lowest terms. -/
theorem lowestTerms_swap (width height : Binary64) :
    lowestTerms height width = (lowestTerms width height).swap := by
  have hswap := wholeComponents?_swap width height
  cases hcomponents : wholeComponents? width height with
  | none =>
    rw [hcomponents] at hswap
    rw [lowestTerms_of_none hswap, lowestTerms_of_none hcomponents]
    rfl
  | some words =>
    obtain ⟨w, h⟩ := words
    rw [hcomponents] at hswap
    rw [lowestTerms_of_some hswap, lowestTerms_of_some hcomponents, Nat.gcd_comm]
    rfl

/-- A component that is a whole number is the word of that number. -/
theorem IsRatioComponent.ofNat_eq {x : Binary64} (hx : IsRatioComponent x) {n : ℕ} (hpos : 0 < n)
    (hn : n ≤ maxExactNat) (h : x.toRat = n) : Binary64.ofNat n = x := by
  have hcomponent := Ratio.isRatioComponent_ofNat hpos hn
  rw [← hcomponent.beq_iff_eq hx, hcomponent.beq_iff_toRat_eq hx, Binary64.toRat_ofNat hn, h]

namespace Ratio

/-- The first component of an inverse is the second of the ratio. -/
theorem width_inverse (r : Ratio) : r.inverse.width = r.height := rfl

/-- The second component of an inverse is the first of the ratio. -/
theorem height_inverse (r : Ratio) : r.inverse.height = r.width := rfl

/-- Simplifying an exchanged ratio exchanges the simplified one. -/
theorem simplified_inverse (r : Ratio) : r.inverse.simplified = r.simplified.inverse := by
  have hterms : lowestTerms r.inverse.width r.inverse.height =
      (lowestTerms r.width r.height).swap := lowestTerms_swap r.width r.height
  refine eq_of_components ?_ ?_
  · rw [width_simplified, hterms, Prod.fst_swap, ← height_simplified, width_inverse]
  · rw [height_simplified, hterms, Prod.snd_swap, ← width_simplified, height_inverse]

/-! ## Lowest terms -/

/-- The components are two positive whole numbers up to `2 ^ 53` without a common divisor. -/
structure IsInLowestTerms (r : Ratio) (m n : ℕ) : Prop where
  width_eq : r.width.toRat = m
  height_eq : r.height.toRat = n
  width_pos : 0 < m
  height_pos : 0 < n
  width_le : m ≤ 2 ^ 53
  height_le : n ≤ 2 ^ 53
  coprime : Nat.Coprime m n

/-- A ratio that some scale makes whole is simplified to lowest terms of the same fraction, and any
other is left as it is. -/
theorem isInLowestTerms_or_simplified_eq (r : Ratio) :
    (∃ decimals w h m n, r.IsWholeUnder decimals w h ∧ r.simplified.IsInLowestTerms m n ∧
      m * h = n * w) ∨
    (∀ decimals w h, ¬ r.IsWholeUnder decimals w h) ∧ r.simplified = r := by
  rcases r.simplified_cases with ⟨hnone, hsame⟩ | ⟨decimals, w, h, -, hwhole, hwidth, hheight⟩
  · refine Or.inr ⟨fun decimals w h hwhole => ?_, hsame⟩
    obtain ⟨-, _, _, -, hfound, -⟩ :=
      exists_wholeComponents? hwhole.decimals_le hwhole.wholeAtScale?_eq_some
    cases hnone.symm.trans hfound
  · obtain ⟨m, n, hcoprime, hm, hn⟩ := Nat.exists_coprime w.toNat h.toNat
    have hgcd := Nat.gcd_pos_of_pos_left h.toNat hwhole.width.pos
    have hw := hwhole.width.le_maxExactNat
    have hh := hwhole.height.le_maxExactNat
    have hw_pos := hwhole.width.pos
    have hh_pos := hwhole.height.pos
    generalize Nat.gcd w.toNat h.toNat = divisor at *
    rw [hm] at hw hw_pos
    rw [hn] at hh hh_pos
    have hm_le := (Nat.le_mul_of_pos_right m hgcd).trans hw
    have hn_le := (Nat.le_mul_of_pos_right n hgcd).trans hh
    rw [hm, Nat.mul_div_cancel m hgcd] at hwidth
    rw [hn, Nat.mul_div_cancel n hgcd] at hheight
    refine Or.inl ⟨decimals, w.toNat, h.toNat, m, n, hwhole, ⟨?_, ?_, ?_, ?_, hm_le, hn_le,
      hcoprime⟩, ?_⟩
    · rw [hwidth, Binary64.toRat_ofNat hm_le]
    · rw [hheight, Binary64.toRat_ofNat hn_le]
    · exact Nat.pos_of_mul_pos_right hw_pos
    · exact Nat.pos_of_mul_pos_right hh_pos
    · rw [hm, hn, Nat.mul_left_comm]

/-- Without a scale, whole numbers are accepted as they are. -/
theorem IsInLowestTerms.isWholeUnder {r : Ratio} {m n : ℕ} (hr : r.IsInLowestTerms m n) :
    r.IsWholeUnder 0 m n where
  decimals_le := Nat.zero_le _
  width := by
    rw [r.width_valid.toRat_mul_scale_zero, hr.width_eq]
    exact isNearWhole_natCast hr.width_pos hr.width_le
  height := by
    rw [r.height_valid.toRat_mul_scale_zero, hr.height_eq]
    exact isNearWhole_natCast hr.height_pos hr.height_le

/-- A ratio in lowest terms is simplified to itself. -/
theorem IsInLowestTerms.simplified_eq {r : Ratio} {m n : ℕ} (hr : r.IsInLowestTerms m n) :
    r.simplified = r := by
  have hwhole := hr.isWholeUnder
  obtain ⟨decimals, w, h, hzero, hfound, hhere⟩ :=
    exists_wholeComponents? hwhole.decimals_le hwhole.wholeAtScale?_eq_some
  rw [Nat.le_zero.mp hzero, hwhole.wholeAtScale?_eq_some, Option.some.injEq, Prod.mk.injEq] at hhere
  obtain ⟨rfl, rfl⟩ := hhere
  have hterms := lowestTerms_of_some hfound
  rw [toNat_ofNat_of_le hr.width_le, toNat_ofNat_of_le hr.height_le, hr.coprime, Nat.div_one,
    Nat.div_one] at hterms
  refine eq_of_components ?_ ?_
  · rw [width_simplified, hterms]
    exact r.width_valid.ofNat_eq hr.width_pos hr.width_le hr.width_eq
  · rw [height_simplified, hterms]
    exact r.height_valid.ofNat_eq hr.height_pos hr.height_le hr.height_eq

/-- Lowest terms are a normal form: simplifying again changes nothing, and it does not matter
whether the components are exchanged before or after. A ratio that some scale makes whole is
simplified to whole numbers up to `2 ^ 53` without a common divisor, and any other is left as it
is. -/
theorem simplified_is_normal_form (r : Ratio) :
    r.simplified.simplified = r.simplified ∧
    r.inverse.simplified = r.simplified.inverse ∧
    ((∃ decimals w h m n, r.IsWholeUnder decimals w h ∧ r.simplified.IsInLowestTerms m n ∧
        m * h = n * w) ∨
      (∀ decimals w h, ¬ r.IsWholeUnder decimals w h) ∧ r.simplified = r) := by
  refine ⟨?_, r.simplified_inverse, r.isInLowestTerms_or_simplified_eq⟩
  rcases r.isInLowestTerms_or_simplified_eq with ⟨_, _, _, m, n, -, hterms, -⟩ | ⟨-, hsame⟩
  · exact hterms.simplified_eq
  · rw [hsame, hsame]

end Ratio

end CssValues
