import CssValues.Decimal
import CssValues.Proofs.Text.Split
import Mathlib.Algebra.Field.Rat
import Mathlib.Algebra.GroupWithZero.Basic
import Mathlib.Tactic.FieldSimp
import Mathlib.Tactic.Ring

/-!
# Positional texts of decimals

The text of a decimal consists of digits and at most one point, and starts with a digit. Read digit
by digit it stands for the number that the decimal is, so decimals with the same text are the same
number. Their coefficients and exponents may still differ: `10` and `1 · 10 ^ 1` have one text.
-/

namespace CssValues

namespace Decimal

/-- The number that a decimal is. -/
def toRat (d : Decimal) : ℚ := d.coefficient * 10 ^ d.exponent

/-- The number that a positional text stands for. -/
def positionalValue (text : List Char) : ℚ :=
  let whole := text.takeWhile (· ≠ '.')
  let fraction := (text.dropWhile (· ≠ '.')).tail
  Nat.ofDigitChars 10 (whole ++ fraction) 0 / 10 ^ fraction.length

/-! ## Digits -/

/-- The decimal digits of a number are digits. -/
theorem isDigit_of_mem_toDigits {n : Nat} {c : Char} (hc : c ∈ Nat.toDigits 10 n) :
    c.isDigit = true :=
  Nat.isDigit_of_mem_toDigits (by decide) (by decide) hc

/-- The digits behind the point are digits, those that fill up the places included. -/
theorem isDigit_of_mem_fractionDigits {places n : Nat} {c : Char}
    (hc : c ∈ fractionDigits places n) : c.isDigit = true := by
  rw [fractionDigits, List.leftpad, List.mem_append] at hc
  rcases hc with hzero | hdigit
  · rw [List.eq_of_mem_replicate hzero]
    decide
  · exact isDigit_of_mem_toDigits hdigit

/-- The zeros in front fill all places. -/
theorem length_fractionDigits (below n : Nat) :
    (fractionDigits (below + 1) (n % 10 ^ (below + 1))).length = below + 1 := by
  have hlt : n % 10 ^ (below + 1) < 10 ^ (below + 1) := Nat.mod_lt n (Nat.pow_pos (by decide))
  have hle : (Nat.toDigits 10 (n % 10 ^ (below + 1))).length ≤ below + 1 :=
    (Nat.length_toDigits_le_iff (by decide) (Nat.succ_pos below)).mpr hlt
  rw [fractionDigits, List.length_leftpad]
  omega

/-- One digit or more, and nothing else. -/
def isDigits (text : List Char) : Bool := !text.isEmpty && text.all Char.isDigit

/-- A text is digits when it has some and nothing else. -/
theorem isDigits_iff {text : List Char} :
    isDigits text = true ↔ text ≠ [] ∧ ∀ c ∈ text, c.isDigit = true := by
  rw [isDigits, Bool.and_eq_true, Bool.not_eq_true', List.isEmpty_eq_false_iff, List.all_eq_true]

/-- The digits of a number stay digits with zeros behind them. -/
theorem isDigits_toDigits_append_zeros (n zeros : Nat) :
    isDigits (Nat.toDigits 10 n ++ List.replicate zeros '0') = true := by
  refine isDigits_iff.mpr ⟨List.append_ne_nil_of_left_ne_nil Nat.toDigits_ne_nil _, fun c hc => ?_⟩
  rcases List.mem_append.mp hc with hdigit | hzero
  · exact isDigit_of_mem_toDigits hdigit
  · rw [List.eq_of_mem_replicate hzero]
    rfl

/-- A number has digits, and nothing else. -/
theorem isDigits_toDigits (n : Nat) : isDigits (Nat.toDigits 10 n) = true :=
  isDigits_iff.mpr ⟨Nat.toDigits_ne_nil, fun _ => isDigit_of_mem_toDigits⟩

/-- There are digits behind the point if there is a place for them. -/
theorem isDigits_fractionDigits (below n : Nat) :
    isDigits (fractionDigits (below + 1) (n % 10 ^ (below + 1))) = true := by
  refine isDigits_iff.mpr ⟨fun hnil => ?_, fun _ => isDigit_of_mem_fractionDigits⟩
  have hlength := length_fractionDigits below n
  rw [hnil] at hlength
  exact absurd hlength.symm (Nat.succ_ne_zero below)

/-- The text of a decimal has digits, and then nothing or a point with digits behind it. -/
theorem exists_chars_eq_append (d : Decimal) :
    ∃ whole rest, d.chars = whole ++ rest ∧ isDigits whole = true ∧
      (rest = [] ∨ ∃ fraction, rest = '.' :: fraction ∧ isDigits fraction = true) := by
  obtain ⟨coefficient, exponent⟩ := d
  cases exponent with
  | ofNat zeros =>
    exact ⟨_, [], (List.append_nil _).symm, isDigits_toDigits_append_zeros coefficient zeros,
      Or.inl rfl⟩
  | negSucc below =>
    exact ⟨Nat.toDigits 10 (coefficient / 10 ^ (below + 1)), _, rfl, isDigits_toDigits _,
      Or.inr ⟨_, rfl, isDigits_fractionDigits below coefficient⟩⟩

/-- The text of a decimal has only digits and the point in it. -/
theorem isDigit_or_eq_of_mem_chars {d : Decimal} {c : Char} (hc : c ∈ d.chars) :
    c.isDigit = true ∨ c = '.' := by
  obtain ⟨whole, rest, hchars, hwhole, hrest⟩ := d.exists_chars_eq_append
  rw [hchars, List.mem_append] at hc
  rcases hc with hc | hc
  · exact Or.inl ((isDigits_iff.mp hwhole).2 c hc)
  · rcases hrest with hnil | ⟨fraction, hcons, hfraction⟩
    · rw [hnil] at hc
      contradiction
    · rw [hcons, List.mem_cons] at hc
      exact hc.symm.imp ((isDigits_iff.mp hfraction).2 c) id

/-- The text of a decimal starts with a digit. -/
theorem exists_chars_eq_cons (d : Decimal) :
    ∃ c rest, d.chars = c :: rest ∧ c.isDigit = true := by
  obtain ⟨whole, rest, hchars, hwhole, -⟩ := d.exists_chars_eq_append
  obtain ⟨hne, hdigit⟩ := isDigits_iff.mp hwhole
  obtain ⟨c, digits, hcons⟩ := List.exists_cons_of_ne_nil hne
  exact ⟨c, digits ++ rest, by rw [hchars, hcons, List.cons_append],
    hdigit c (hcons ▸ List.mem_cons_self)⟩

/-! ## Values -/

/-- Digits are told from what follows them by the point. -/
theorem takeWhile_and_dropWhile_point {whole rest : List Char}
    (hwhole : ∀ c ∈ whole, c.isDigit = true) (hrest : ∀ c ∈ rest.head?, c = '.') :
    (whole ++ rest).takeWhile (· ≠ '.') = whole ∧
      (whole ++ rest).dropWhile (· ≠ '.') = rest := by
  have hfront : ∀ c ∈ whole, decide (c ≠ '.') = true := by
    intro c hc
    have hdigit := hwhole c hc
    rw [decide_eq_true_eq]
    intro heq
    rw [heq] at hdigit
    contradiction
  have hback : ∀ c ∈ rest.head?, decide (c ≠ '.') = false := by
    intro c hc
    rw [hrest c hc]
    rfl
  exact ⟨takeWhile_append_eq hfront hback, dropWhile_append_eq hfront hback⟩

/-- Digits, and then nothing or a fraction behind a point, stand for the number of all the digits
over the power of ten that moves the point. -/
theorem positionalValue_append {whole rest : List Char} (hwhole : ∀ c ∈ whole, c.isDigit = true)
    (hrest : ∀ c ∈ rest.head?, c = '.') :
    positionalValue (whole ++ rest) =
      Nat.ofDigitChars 10 (whole ++ rest.tail) 0 / 10 ^ rest.tail.length := by
  obtain ⟨hfront, hback⟩ := takeWhile_and_dropWhile_point hwhole hrest
  simp only [positionalValue, hfront, hback]

/-- The text of a decimal stands for the decimal. -/
theorem positionalValue_chars (d : Decimal) : positionalValue d.chars = d.toRat := by
  obtain ⟨coefficient, exponent⟩ := d
  cases exponent with
  | ofNat zeros =>
    have hdigits := (isDigits_iff.mp (isDigits_toDigits_append_zeros coefficient zeros)).2
    change positionalValue (Nat.toDigits 10 coefficient ++ List.replicate zeros '0') = _
    rw [← List.append_nil (_ ++ _), positionalValue_append hdigits (by simp), List.tail_nil,
      List.append_nil, Nat.ofDigitChars_append, Nat.ofDigitChars_ten_toDigits,
      Nat.ofDigitChars_replicate_zero]
    simp [toRat, mul_comm]
  | negSucc below =>
    change positionalValue (Nat.toDigits 10 (coefficient / 10 ^ (below + 1)) ++
      '.' :: fractionDigits (below + 1) (coefficient % 10 ^ (below + 1))) = _
    rw [positionalValue_append (fun _ => isDigit_of_mem_toDigits) (by simp), List.tail_cons,
      Nat.ofDigitChars_append, Nat.ofDigitChars_ten_toDigits,
      Nat.ofDigitChars_eq_ofDigitChars_zero, length_fractionDigits, ofDigitChars_fractionDigits,
      Nat.div_add_mod]
    simp [toRat, div_eq_mul_inv, zpow_negSucc]

/-- Decimals with the same text are the same number. -/
theorem toRat_eq_of_text_eq {d d' : Decimal} (h : d.text = d'.text) : d.toRat = d'.toRat := by
  rw [← positionalValue_chars, ← positionalValue_chars, String.ofList_injective h]

end Decimal

end CssValues
