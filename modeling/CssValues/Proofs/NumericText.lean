import CssValues.NumericText
import CssValues.Proofs.Binary64.Shortest
import CssValues.Proofs.Text.CharClasses

/-!
# Texts of finite numbers

The text of a finite number is its shortest decimal with a minus sign in front if it is below zero.
Finite numbers have the same text exactly when they are equal, so the text of a zero does not tell
its sign.
-/

namespace CssValues

/-- A finite number has no keyword. -/
theorem nonFiniteKeyword?_of_isFinite {x : Binary64} (hx : x.IsFinite) :
    nonFiniteKeyword? x = none := by
  rw [nonFiniteKeyword?, if_neg hx.not_isNaN, if_neg hx.not_isInfinite]

/-- A finite number has no `calc()` around it. -/
theorem numberText_of_isFinite {x : Binary64} (hx : x.IsFinite) : numberText x = finiteText x := by
  rw [numberText, nonFiniteKeyword?_of_isFinite hx]

/-- The text of a finite number has only digits, the point and the minus sign in it. -/
theorem isNumeralChar_of_mem_finiteText {x : Binary64} {c : Char} (hc : c ∈ (finiteText x).toList) :
    isNumeralChar c = true := by
  rw [finiteText, String.toList_append, List.mem_append] at hc
  rcases hc with hsign | hdigits
  · split at hsign
    · rw [List.mem_singleton.mp hsign]
      decide
    · contradiction
  · rw [Decimal.text, String.toList_ofList] at hdigits
    rcases Decimal.isDigit_or_eq_of_mem_chars hdigits with hdigit | hpoint
    · simp [isNumeralChar, hdigit]
    · simp [isNumeralChar, hpoint]

/-- A number below zero has a minus sign before its digits. -/
theorem toList_finiteText_of_lt {x : Binary64} (h : x < 0) :
    (finiteText x).toList = '-' :: x.shortest.chars := by
  rw [finiteText, if_pos h, String.toList_append, Decimal.text, String.toList_ofList,
    String.toList_ofList, List.singleton_append]

/-- Any other number has no sign, and neither have the zeros. -/
theorem toList_finiteText_of_not_lt {x : Binary64} (h : ¬ x < 0) :
    (finiteText x).toList = x.shortest.chars := by
  rw [finiteText, if_neg h, String.toList_append, Decimal.text, String.toList_ofList,
    String.toList_ofList, List.nil_append]

/-- The text of a finite number has a digit in it. -/
theorem exists_isDigit_mem_finiteText (x : Binary64) :
    ∃ c ∈ (finiteText x).toList, c.isDigit = true := by
  obtain ⟨c, rest, hcons, hc⟩ := x.shortest.exists_chars_eq_cons
  refine ⟨c, ?_, hc⟩
  by_cases hsign : x < 0
  · rw [toList_finiteText_of_lt hsign, hcons]
    exact List.mem_cons_of_mem _ List.mem_cons_self
  · rw [toList_finiteText_of_not_lt hsign, hcons]
    exact List.mem_cons_self

/-- The text of a finite number starts with a digit or the minus sign. -/
theorem exists_finiteText_eq_cons (x : Binary64) :
    ∃ c rest, (finiteText x).toList = c :: rest ∧ isNumeralChar c = true := by
  by_cases hsign : x < 0
  · exact ⟨'-', _, toList_finiteText_of_lt hsign, rfl⟩
  · obtain ⟨c, rest, hcons, hc⟩ := x.shortest.exists_chars_eq_cons
    exact ⟨c, rest, (toList_finiteText_of_not_lt hsign).trans hcons, by simp [isNumeralChar, hc]⟩

/-- Digits do not start with the minus sign. -/
theorem Decimal.chars_ne_minus_cons (d : Decimal) (rest : List Char) : d.chars ≠ '-' :: rest := by
  intro h
  obtain ⟨c, digits, hcons, hc⟩ := d.exists_chars_eq_cons
  rw [h, List.cons.injEq] at hcons
  rw [← hcons.1] at hc
  contradiction

/-- Numbers with the same text have the same sign in it, and the same digits. -/
theorem lt_zero_iff_of_finiteText_eq {x y : Binary64} (h : finiteText x = finiteText y) :
    (x < 0 ↔ y < 0) ∧ x.shortest.chars = y.shortest.chars := by
  have hlist : (finiteText x).toList = (finiteText y).toList := by rw [h]
  by_cases hx : x < 0
  · rw [toList_finiteText_of_lt hx] at hlist
    by_cases hy : y < 0
    · rw [toList_finiteText_of_lt hy, List.cons.injEq] at hlist
      exact ⟨⟨fun _ => hy, fun _ => hx⟩, hlist.2⟩
    · rw [toList_finiteText_of_not_lt hy] at hlist
      exact absurd hlist.symm (Decimal.chars_ne_minus_cons _ _)
  · rw [toList_finiteText_of_not_lt hx] at hlist
    by_cases hy : y < 0
    · rw [toList_finiteText_of_lt hy] at hlist
      exact absurd hlist (Decimal.chars_ne_minus_cons _ _)
    · rw [toList_finiteText_of_not_lt hy] at hlist
      exact ⟨⟨fun h => absurd h hx, fun h => absurd h hy⟩, hlist⟩

/-- Finite numbers have the same text exactly when they are equal. -/
theorem finiteText_eq_iff {x y : Binary64} (hx : x.IsFinite) (hy : y.IsFinite) :
    finiteText x = finiteText y ↔ (x == y) = true := by
  have hxnan := hx.not_isNaN
  have hynan := hy.not_isNaN
  rw [Binary64.beq_iff_magnitude hxnan hynan]
  constructor
  · intro h
    obtain ⟨hsign, hchars⟩ := lt_zero_iff_of_finiteText_eq h
    have hmagnitude : x.magnitude = y.magnitude :=
      Binary64.magnitude_eq_of_toRat_shortest_eq hx hy
        (Decimal.toRat_eq_of_text_eq (congrArg String.ofList hchars))
    refine ⟨hmagnitude, ?_⟩
    by_cases hzero : x.IsZero
    · exact Or.inr hzero
    · have hzero' : ¬ y.IsZero := fun h => hzero (hmagnitude.trans h)
      rw [Binary64.lt_zero_iff, Binary64.lt_zero_iff] at hsign
      exact Or.inl (Bool.eq_iff_iff.mpr ⟨fun h => (hsign.mp ⟨hxnan, h, hzero⟩).2.1,
        fun h => (hsign.mpr ⟨hynan, h, hzero'⟩).2.1⟩)
  · intro h
    obtain ⟨hmagnitude, hsign⟩ := h
    have hlt : x < 0 ↔ y < 0 := by
      have hzero : x.IsZero ↔ y.IsZero := by rw [Binary64.IsZero, Binary64.IsZero, hmagnitude]
      rw [Binary64.lt_zero_iff, Binary64.lt_zero_iff, ← hzero]
      rcases hsign with hnegative | hx0
      · simp [hxnan, hynan, hnegative]
      · simp [hx0]
    rw [finiteText, finiteText, Binary64.shortest_eq_of_magnitude_eq hmagnitude]
    simp only [hlt]

end CssValues
