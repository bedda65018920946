import CssValues.Proofs.Binary64.Nearest
import CssValues.Proofs.NumericText

/-!
# Reading numbers

A reader of numerals: an optional minus sign, digits, and then nothing or a point with digits behind
it. The decimal that the digits are is rounded once. The text of a finite number reads back as the
number, word for word but for the sign of a zero.

Style sheets also allow a plus sign, an exponent and a point without digits before it. No number is
written in these forms, and the reader refuses them.
-/

namespace CssValues

namespace Decimal

/-- The decimal that a text is: digits, and then nothing or a point with digits behind it. -/
def ofChars? (text : List Char) : Option Decimal :=
  let whole := text.takeWhile (· ≠ '.')
  let rest := text.dropWhile (· ≠ '.')
  if isDigits whole && (rest.isEmpty || isDigits rest.tail) then
    some ⟨Nat.ofDigitChars 10 (whole ++ rest.tail) 0, -(rest.tail.length : Int)⟩
  else none

/-- The decimal read from a text is the number that the text stands for. -/
theorem toRat_of_ofChars? {text : List Char} {d : Decimal} (h : ofChars? text = some d) :
    d.toRat = positionalValue text := by
  unfold ofChars? at h
  simp only at h
  split at h
  · cases h
    rw [toRat, positionalValue, zpow_neg, zpow_natCast, div_eq_mul_inv]
  · contradiction

/-- The text of a decimal reads back as the same number. -/
theorem exists_ofChars?_chars (d : Decimal) :
    ∃ e, ofChars? d.chars = some e ∧ e.toRat = d.toRat := by
  obtain ⟨whole, rest, hchars, hwhole, hrest⟩ := d.exists_chars_eq_append
  have hpoint : ∀ c ∈ rest.head?, c = '.' := by
    rcases hrest with hnil | ⟨fraction, hcons, -⟩
    · simp [hnil]
    · simp [hcons]
  obtain ⟨hfront, hback⟩ := takeWhile_and_dropWhile_point (isDigits_iff.mp hwhole).2 hpoint
  have hdigits : (rest.isEmpty || isDigits rest.tail) = true := by
    rcases hrest with hnil | ⟨fraction, hcons, hfraction⟩
    · rw [hnil]
      rfl
    · rw [hcons, List.tail_cons, hfraction, Bool.or_true]
  have hread : ofChars? d.chars =
      some ⟨Nat.ofDigitChars 10 (whole ++ rest.tail) 0, -(rest.tail.length : Int)⟩ := by
    simp only [ofChars?, hchars, hfront, hback, hwhole, hdigits, Bool.and_self, if_true]
  exact ⟨_, hread, (toRat_of_ofChars? hread).trans (positionalValue_chars d)⟩

end Decimal

namespace Binary64

/-- The value nearest to the number that a text is. -/
def ofChars? : List Char → Option Binary64
  | '-' :: digits => (Decimal.ofChars? digits).map fun d => -d.nearest
  | digits => (Decimal.ofChars? digits).map Decimal.nearest

/-- The digits of a finite value read back as its magnitude. -/
theorem exists_ofChars?_shortest {x : Binary64} (hx : x.IsFinite) :
    ∃ d, Decimal.ofChars? x.shortest.chars = some d ∧ d.nearest.negative = false ∧
      d.nearest.magnitude = x.magnitude := by
  obtain ⟨d, hread, hvalue⟩ := x.shortest.exists_ofChars?_chars
  exact ⟨d, hread, d.negative_nearest, magnitude_nearest_of_toRat_eq hx hvalue⟩

/-- The text of a decimal is read as the value nearest to it. -/
theorem ofChars?_chars (d : Decimal) :
    ofChars? d.chars = (Decimal.ofChars? d.chars).map Decimal.nearest := by
  unfold ofChars?
  split
  next digits hminus => exact absurd hminus (d.chars_ne_minus_cons digits)
  next => rfl

/-- The text of a finite value reads back as the value, a zero as the positive zero. -/
theorem ofChars?_finiteText {x : Binary64} (hx : x.IsFinite) :
    ofChars? (finiteText x).toList = some (if x.IsZero then zero false else x) := by
  obtain ⟨d, hread, hsign, hmagnitude⟩ := exists_ofChars?_shortest hx
  by_cases hlt : x < 0
  · obtain ⟨-, hnegative, hzero⟩ := lt_zero_iff.mp hlt
    rw [toList_finiteText_of_lt hlt, ofChars?, hread, if_neg hzero, Option.map_some]
    refine congrArg some (eq_of_magnitude_eq ?_ hmagnitude)
    change (!d.nearest.negative) = x.negative
    rw [hsign, hnegative]
    rfl
  · rw [toList_finiteText_of_not_lt hlt, ofChars?_chars, hread, Option.map_some]
    refine congrArg some ?_
    split
    next hzero => exact eq_of_magnitude_eq hsign (hmagnitude.trans hzero)
    next hzero =>
      have hpositive : x.negative = false := by
        rw [← Bool.not_eq_true]
        exact fun hnegative => hlt (lt_zero_iff.mpr ⟨hx.not_isNaN, hnegative, hzero⟩)
      exact eq_of_magnitude_eq (hsign.trans hpositive.symm) hmagnitude

end Binary64

end CssValues
