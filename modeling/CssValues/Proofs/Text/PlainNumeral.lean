import CssValues.Proofs.Decimal
import Mathlib.Tactic.IntervalCases

/-!
# Numerals without superfluous zeros

A decimal whose coefficient does not end in a zero has a text without superfluous zeros: the whole
part starts with a zero only if it is nothing else, and the fraction does not end in one. A whole
decimal has the digits of the whole number as its text.
-/

namespace CssValues

open Decimal (isDigits isDigits_iff)

/-! ## First and last digits -/

/-- The character of a digit above zero. -/
theorem digitChar_ne_zero {n : ℕ} (hpos : 0 < n) (hlt : n < 10) : Nat.digitChar n ≠ '0' := by
  interval_cases n <;> decide

/-- The digits of a number above zero do not start with a zero. -/
theorem head?_toDigits {n : ℕ} (h : 0 < n) : (Nat.toDigits 10 n).head? ≠ some '0' := by
  induction n using Nat.strong_induction_on with
  | h n ih =>
    rcases Nat.lt_or_ge n 10 with hlt | hge
    · rw [Nat.toDigits_of_lt_base hlt, List.head?_cons, ne_eq, Option.some.injEq]
      exact digitChar_ne_zero h hlt
    · rw [Nat.toDigits_of_base_le (by decide) hge,
        List.head?_append_of_ne_nil _ Nat.toDigits_ne_nil]
      exact ih (n / 10) (Nat.div_lt_self h (by decide)) (Nat.div_pos hge (by decide))

/-- The last digit of a number is the rest of its division by ten. -/
theorem getLast?_toDigits (n : ℕ) :
    (Nat.toDigits 10 n).getLast? = some (Nat.digitChar (n % 10)) := by
  rcases Nat.lt_or_ge n 10 with hlt | hge
  · rw [Nat.toDigits_of_lt_base hlt, Nat.mod_eq_of_lt hlt]
    rfl
  · rw [Nat.toDigits_of_base_le (by decide) hge, List.getLast?_concat]

/-- Zeros behind the digits of a number multiply it by powers of ten. -/
theorem toDigits_mul_pow {n : ℕ} (h : 0 < n) (zeros : ℕ) :
    Nat.toDigits 10 (n * 10 ^ zeros) = Nat.toDigits 10 n ++ List.replicate zeros '0' := by
  induction zeros with
  | zero => rw [pow_zero, Nat.mul_one, List.replicate_zero, List.append_nil]
  | succ zeros ih =>
    have hpos : 0 < n * 10 ^ zeros := Nat.mul_pos h (Nat.pow_pos (by decide))
    have hzero : Nat.toDigits 10 0 = ['0'] := Nat.toDigits_zero 10
    have hstep := Nat.toDigits_append_toDigits (d := 0) (by decide : 1 < 10) hpos (by decide)
    rw [Nat.pow_succ, ← Nat.mul_assoc, Nat.mul_comm _ 10, ← Nat.add_zero (10 * _), ← hstep, ih,
      hzero, List.append_assoc, List.replicate_succ']

/-! ## Plain numerals -/

/-- Digits, and then nothing or a point with digits behind it. The first digit is a zero only if no
other stands in front of the point, and the last digit behind a point is not a zero. -/
def isPlainNumeral (text : List Char) : Bool :=
  let whole := text.takeWhile (· ≠ '.')
  let rest := text.dropWhile (· ≠ '.')
  isDigits whole && (whole.head? != some '0' || whole == ['0']) &&
    (rest.isEmpty || isDigits rest.tail && rest.getLast? != some '0')

example : isPlainNumeral "0.25".toList = true ∧ isPlainNumeral "120".toList = true ∧
    isPlainNumeral "007".toList = false ∧ isPlainNumeral "1.50".toList = false := by decide

/-- The digits of a whole number start with a zero only for zero. -/
theorem head?_toDigits_or (n : ℕ) :
    ((Nat.toDigits 10 n).head? != some '0' || Nat.toDigits 10 n == ['0']) = true := by
  rcases Nat.eq_zero_or_pos n with rfl | hpos
  · rw [Nat.toDigits_zero]
    rfl
  · rw [bne_iff_ne.mpr (head?_toDigits hpos), Bool.true_or]

namespace Decimal

/-- The digits of a whole decimal. -/
theorem chars_natCast {coefficient : ℕ} (h : 0 < coefficient) (zeros : ℕ) :
    (⟨coefficient, zeros⟩ : Decimal).chars = Nat.toDigits 10 (coefficient * 10 ^ zeros) :=
  (toDigits_mul_pow h zeros).symm

/-- The fraction ends in the last digit of the coefficient. -/
theorem getLast?_fractionDigits (below n : ℕ) :
    (fractionDigits (below + 1) (n % 10 ^ (below + 1))).getLast? =
      some (Nat.digitChar (n % 10)) := by
  have hdvd : 10 ∣ 10 ^ (below + 1) := Dvd.intro_left _ (Nat.pow_succ ..).symm
  rw [fractionDigits, List.leftpad, List.getLast?_append_of_ne_nil _ Nat.toDigits_ne_nil,
    getLast?_toDigits, Nat.mod_mod_of_dvd n hdvd]

/-- A coefficient that does not end in a zero gives no superfluous zeros. -/
theorem isPlainNumeral_chars {d : Decimal} (h : ¬ 10 ∣ d.coefficient) :
    isPlainNumeral d.chars = true := by
  obtain ⟨coefficient, exponent⟩ := d
  have hpos : 0 < coefficient := Nat.pos_of_ne_zero fun hzero => h (hzero ▸ Nat.dvd_zero 10)
  cases exponent with
  | ofNat zeros =>
    have hdigits := isDigits_toDigits (coefficient * 10 ^ zeros)
    obtain ⟨hfront, hback⟩ := takeWhile_and_dropWhile_point (isDigits_iff.mp hdigits).2
      (by simp : ∀ c ∈ ([] : List Char).head?, c = '.')
    rw [List.append_nil] at hfront hback
    have hchars := chars_natCast hpos zeros
    rw [Int.ofNat_eq_natCast, hchars]
    simp only [isPlainNumeral, hfront, hback, hdigits, head?_toDigits_or, List.isEmpty_nil,
      Bool.true_or, Bool.and_self]
  | negSucc below =>
    have hwhole := isDigits_toDigits (coefficient / 10 ^ (below + 1))
    have hfraction := isDigits_fractionDigits below coefficient
    have hlast : Nat.digitChar (coefficient % 10) ≠ '0' :=
      digitChar_ne_zero (Nat.pos_of_ne_zero fun hzero => h (Nat.dvd_of_mod_eq_zero hzero))
        (Nat.mod_lt _ (by decide))
    have hne : fractionDigits (below + 1) (coefficient % 10 ^ (below + 1)) ≠ [] :=
      (isDigits_iff.mp hfraction).1
    have hend : ('.' :: fractionDigits (below + 1) (coefficient % 10 ^ (below + 1))).getLast? =
        some (Nat.digitChar (coefficient % 10)) := by
      rw [← List.singleton_append, List.getLast?_append_of_ne_nil _ hne, getLast?_fractionDigits]
    obtain ⟨hfront, hback⟩ := takeWhile_and_dropWhile_point (isDigits_iff.mp hwhole).2
      (by simp : ∀ c ∈ ('.' :: fractionDigits (below + 1)
        (coefficient % 10 ^ (below + 1))).head?, c = '.')
    change isPlainNumeral (Nat.toDigits 10 (coefficient / 10 ^ (below + 1)) ++
      '.' :: fractionDigits (below + 1) (coefficient % 10 ^ (below + 1))) = true
    simp only [isPlainNumeral, hfront, hback, hwhole, head?_toDigits_or, List.tail_cons, hfraction,
      hend, bne_iff_ne.mpr (fun heq => hlast (Option.some.inj heq)), Bool.and_self, Bool.or_true]

end Decimal

end CssValues
