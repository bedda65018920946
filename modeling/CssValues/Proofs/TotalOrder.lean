import CssValues.Proofs.Binary64.Comparison
import CssValues.Scalar

/-!
# The total order of scalars

Scalars have two orders. One compares what the words stand for and leaves NaN out; the other one
compares the words, as integers that fall with the magnitude for negative words and rise with it for
the others. The second is total, and it agrees with the first wherever that decides: units rise with
the magnitude, so the words of two different values are in the order of the values. Equal values are
the same word or the two zeros, of which the negative one comes first, and NaN lies beyond the
infinity of its sign.
-/

namespace CssValues

namespace Binary64

/-! ## The order of words -/

/-- Words are told apart by their places. -/
theorem totalKey_injective : Function.Injective totalKey := by
  rintro ⟨xnegative, xmagnitude, hx⟩ ⟨ynegative, ymagnitude, hy⟩ h
  cases xnegative <;> cases ynegative <;>
    simp only [totalKey, Bool.false_eq_true, if_true, if_false] at h <;>
    simp only [mk.injEq, true_and, false_and, reduceCtorEq] <;> omega

instance : Std.TransCmp totalCompare := inferInstanceAs (Std.TransCmp (compareOn totalKey))

instance : Std.LawfulEqCmp totalCompare where
  compare_self := Std.ReflCmp.compare_self
  eq_of_compare h := totalKey_injective (compare_eq_iff_eq.mp h)

/-- Every word is equal to itself in the total order, NaN included. -/
theorem totalCompare_self (x : Binary64) : totalCompare x x = .eq := Std.ReflCmp.compare_self

/-- Exchanged words have the opposite answer. -/
theorem totalCompare_swap (x y : Binary64) : totalCompare y x = (totalCompare x y).swap :=
  Std.OrientedCmp.eq_swap

/-! ## Agreement with the order of values -/

/-- Larger values have later places: magnitudes are in the order of their units. -/
theorem totalKey_lt_of_signedUnits_lt {x y : Binary64} :
    x.signedUnits < y.signedUnits → x.totalKey < y.totalKey := by
  have hmagnitude {m n : Nat} : magnitudeUnits m < magnitudeUnits n → m < n :=
    magnitudeUnits_strictMono.lt_iff_lt.mp
  simp only [signedUnits, units, totalKey]
  cases x.negative <;> cases y.negative <;>
    simp only [Bool.false_eq_true, if_true, if_false] <;> intro hunits
  · have := hmagnitude (Int.ofNat_lt.mp hunits)
    omega
  · omega
  · omega
  · have := hmagnitude (Int.ofNat_lt.mp (Int.neg_lt_neg_iff.mp hunits))
    omega

/-- A value that is less than another comes before it in the total order. -/
theorem totalCompare_of_lt {x y : Binary64} (h : x < y) : totalCompare x y = .lt :=
  Int.compare_eq_lt.mpr (totalKey_lt_of_signedUnits_lt h.2.2)

/-- Equal values are the same word, or the two zeros, of which the negative one comes first. -/
theorem totalCompare_of_beq {x y : Binary64} (h : (x == y) = true) :
    x = y ∧ totalCompare x y = .eq ∨
      x = zero true ∧ y = zero false ∧ totalCompare x y = .lt ∨
      x = zero false ∧ y = zero true ∧ totalCompare x y = .gt := by
  obtain ⟨hxnan, hynan, -⟩ := beq_iff.mp h
  obtain ⟨hmagnitude, hsign⟩ := (beq_iff_magnitude hxnan hynan).mp h
  by_cases hsame : x.negative = y.negative
  · have heq := eq_of_magnitude_eq hsame hmagnitude
    exact Or.inl ⟨heq, heq ▸ totalCompare_self x⟩
  · have hzero : x.magnitude = 0 := hsign.resolve_left hsame
    have hx : x = zero x.negative := eq_of_magnitude_eq rfl hzero
    have hy : y = zero y.negative := eq_of_magnitude_eq rfl (hmagnitude.symm.trans hzero)
    rw [hx, hy]
    cases hxsign : x.negative <;> cases hysign : y.negative
    · exact absurd (hxsign.trans hysign.symm) hsame
    · exact Or.inr (Or.inr ⟨rfl, rfl, by decide⟩)
    · exact Or.inr (Or.inl ⟨rfl, rfl, by decide⟩)
    · exact absurd (hxsign.trans hysign.symm) hsame

/-- NaN comes before all values if it is negative, and after them otherwise. -/
theorem totalCompare_of_isNaN {x y : Binary64} (hx : x.IsNaN) (hy : ¬ y.IsNaN) :
    totalCompare x y = if x.negative then .lt else .gt := by
  rw [IsNaN] at hx hy
  cases hsign : x.negative with
  | true =>
    simp only [totalCompare, totalKey, hsign, if_true, Int.compare_eq_lt]
    cases y.negative <;> simp only [Bool.false_eq_true, if_true, if_false] <;> omega
  | false =>
    simp only [totalCompare, totalKey, hsign, Bool.false_eq_true, if_false, Int.compare_eq_gt]
    cases y.negative <;> simp only [Bool.false_eq_true, if_true, if_false] <;> omega

end Binary64

namespace Scalar

variable {kind : ScalarKind}

/-- The first scalar is the second, or comes before it, in the total order. -/
def IsAtMost (x y : Scalar kind) : Prop := (totalCompare x y).isLE = true

/-- The total order of scalars is an order of all words, NaN included, in which two scalars are at
most each other only if they are the same word. It gives the same answer as the order of values
wherever that tells two values apart; of equal values it tells the zeros apart alone, and puts the
negative one first. It puts NaN beyond all values, on the side of its sign. -/
theorem totalCompare_refines_compare? :
    ((∀ x : Scalar kind, IsAtMost x x) ∧
      (∀ x y : Scalar kind, IsAtMost x y → IsAtMost y x → x.value.toBits = y.value.toBits) ∧
      (∀ x y z : Scalar kind, IsAtMost x y → IsAtMost y z → IsAtMost x z) ∧
      (∀ x y : Scalar kind, IsAtMost x y ∨ IsAtMost y x)) ∧
    (∀ x y : Scalar kind, totalCompare y x = (totalCompare x y).swap) ∧
    (∀ x y : Scalar kind, compare? x y = some .lt → totalCompare x y = .lt) ∧
    (∀ x y : Scalar kind, compare? x y = some .gt → totalCompare x y = .gt) ∧
    (∀ x y : Scalar kind, compare? x y = some .eq →
      x = y ∧ totalCompare x y = .eq ∨
      x.value = .zero true ∧ y.value = .zero false ∧ totalCompare x y = .lt ∨
      x.value = .zero false ∧ y.value = .zero true ∧ totalCompare x y = .gt) ∧
    (∀ x y : Scalar kind, x.value.IsNaN → ¬ y.value.IsNaN →
      totalCompare x y = if x.value.negative then .lt else .gt) := by
  refine ⟨⟨fun x => ?_, fun x y hxy hyx => ?_, fun x y z => ?_, fun x y => ?_⟩, fun x y => ?_,
    fun x y h => ?_, fun x y h => ?_, fun x y h => ?_, fun x y => ?_⟩
  · rw [IsAtMost, totalCompare, Binary64.totalCompare_self]
    rfl
  · have heq : x.value.totalCompare y.value = .eq := Std.OrientedCmp.isLE_antisymm hxy hyx
    rw [Std.LawfulEqCmp.eq_of_compare heq]
  · intro hxy hyz
    have hxz : (x.value.totalCompare z.value).isLE = true := Std.TransCmp.isLE_trans hxy hyz
    exact hxz
  · rw [IsAtMost, IsAtMost, totalCompare, totalCompare, Binary64.totalCompare_swap]
    cases y.value.totalCompare x.value <;> decide
  · exact Binary64.totalCompare_swap x.value y.value
  · exact Binary64.totalCompare_of_lt (Binary64.compare?_eq_lt_iff.mp h)
  · rw [totalCompare, Binary64.totalCompare_swap,
      Binary64.totalCompare_of_lt (Binary64.compare?_eq_gt_iff.mp h)]
    rfl
  · have hcases := Binary64.totalCompare_of_beq (Binary64.compare?_eq_eq_iff.mp h)
    exact hcases.imp_left fun hsame => ⟨congrArg Scalar.mk hsame.1, hsame.2⟩
  · exact Binary64.totalCompare_of_isNaN

end Scalar

end CssValues
