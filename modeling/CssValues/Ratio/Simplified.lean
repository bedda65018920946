import CssValues.Binary64.Whole
import CssValues.Ratio.Basic

/-!
# Ratios in lowest terms

A ratio whose components have few decimals equals a ratio of whole numbers. Both components are
scaled by one power of ten after the other, up to ten decimals, until each is as good as whole: at
most `2 ^ 53`, at least one when rounded, and within `2 ^ -50` of that whole number, relative to its
own size. The whole numbers are then divided by their greatest common divisor. A ratio that no scale
makes whole stays as it is.

All of this happens in rounded arithmetic and on words of 64 bits. The results are components again:
the divisor divides both numbers, so neither becomes zero.
-/

namespace CssValues

/-- The greatest common divisor of two words, by repeated remainders. -/
def euclid (a b : UInt64) : UInt64 :=
  if b = 0 then a else euclid b (a % b)
termination_by b.toNat
decreasing_by
  rename_i hb
  rw [UInt64.toNat_mod]
  exact Nat.mod_lt _ (Nat.pos_of_ne_zero fun hzero => hb (UInt64.toNat.inj hzero))

/-- The remainders end in the greatest common divisor. -/
theorem toNat_euclid (a b : UInt64) : (euclid a b).toNat = Nat.gcd a.toNat b.toNat := by
  fun_induction euclid a b with
  | case1 a => exact (Nat.gcd_zero_right _).symm
  | case2 a b hb ih => rw [ih, UInt64.toNat_mod, Nat.gcd_comm, ← Nat.gcd_rec, Nat.gcd_comm]

/-- The most decimals that a component may have. -/
def maxDecimals : Nat := 10

/-- A value is as good as the whole number that it rounds to: they differ by at most four times the
distance from one to the next value, relative to the value, or to one if that is more. -/
def IsCloseTo (scaled rounded : Binary64) : Prop :=
  (scaled - rounded).abs ≤ 4 * Binary64.epsilon * max scaled 1

instance (scaled rounded : Binary64) : Decidable (IsCloseTo scaled rounded) :=
  inferInstanceAs (Decidable (_ ≤ _))

/-- The whole numbers that two components are as good as under a scale. Past `2 ^ 53` every value is
whole, and nothing is accepted. -/
def wholeAtScale? (width height scale : Binary64) : Option (UInt64 × UInt64) :=
  let width := width * scale
  let height := height * scale
  if 9007199254740992 < width ∨ 9007199254740992 < height then none
  else if IsCloseTo width width.round ∧ IsCloseTo height height.round ∧
      1 ≤ width.round ∧ 1 ≤ height.round then
    some (width.round.toUInt64, height.round.toUInt64)
  else none

/-- Both components as whole numbers, scaled by the first power of ten that makes them whole. -/
def wholeComponents? (width height : Binary64) : Option (UInt64 × UInt64) :=
  (List.range (maxDecimals + 1)).findSome? fun decimals =>
    wholeAtScale? width height (Binary64.ofNat (Nat.pow 10 decimals))

/-- The components in lowest terms, if they are as good as whole under some scale. -/
def lowestTerms (width height : Binary64) : Binary64 × Binary64 :=
  match wholeComponents? width height with
  | some (width, height) =>
    let divisor := euclid width height
    (Binary64.ofUInt64 (width / divisor), Binary64.ofUInt64 (height / divisor))
  | none => (width, height)

/-- What is accepted as whole is at least one. -/
theorem pos_of_wholeAtScale? {width height scale : Binary64} {m n : UInt64}
    (haccepted : wholeAtScale? width height scale = some (m, n)) : 0 < m.toNat ∧ 0 < n.toNat := by
  unfold wholeAtScale? at haccepted
  simp only at haccepted
  split at haccepted
  · cases haccepted
  · split at haccepted
    next hclose =>
      cases haccepted
      exact ⟨Binary64.toUInt64_pos hclose.2.2.1, Binary64.toUInt64_pos hclose.2.2.2⟩
    next => cases haccepted

/-- The scale that makes both components whole is one of those tried. -/
theorem exists_of_wholeComponents? {width height : Binary64} {m n : UInt64}
    (haccepted : wholeComponents? width height = some (m, n)) :
    ∃ decimals, decimals ≤ maxDecimals ∧
      wholeAtScale? width height (Binary64.ofNat (Nat.pow 10 decimals)) = some (m, n) := by
  obtain ⟨decimals, htried, hhere⟩ := List.exists_of_findSome?_eq_some haccepted
  exact ⟨decimals, Nat.le_of_lt_succ (List.mem_range.mp htried), hhere⟩

/-- The quotient of a positive word by a divisor of it is positive. -/
theorem toNat_div_pos {n divisor : UInt64} (hn : 0 < n.toNat) (h : divisor.toNat ∣ n.toNat) :
    0 < (n / divisor).toNat := by
  rw [UInt64.toNat_div]
  exact Nat.div_pos (Nat.le_of_dvd hn h) (Nat.pos_of_dvd_of_pos h hn)

/-- A positive word can be a component. -/
theorem isRatioComponent_ofUInt64 {n : UInt64} (hn : 0 < n.toNat) :
    IsRatioComponent (Binary64.ofUInt64 n) :=
  ⟨Binary64.isFinite_ofUInt64 n, Binary64.zero_lt_ofUInt64 hn⟩

/-- In lowest terms components stay components. -/
theorem isRatioComponent_lowestTerms {width height : Binary64} (hwidth : IsRatioComponent width)
    (hheight : IsRatioComponent height) :
    IsRatioComponent (lowestTerms width height).1 ∧
      IsRatioComponent (lowestTerms width height).2 := by
  unfold lowestTerms
  split
  next m n haccepted =>
    obtain ⟨_, _, hhere⟩ := exists_of_wholeComponents? haccepted
    obtain ⟨hm, hn⟩ := pos_of_wholeAtScale? hhere
    have hdvd_m : (euclid m n).toNat ∣ m.toNat := toNat_euclid m n ▸ Nat.gcd_dvd_left _ _
    have hdvd_n : (euclid m n).toNat ∣ n.toNat := toNat_euclid m n ▸ Nat.gcd_dvd_right _ _
    exact ⟨isRatioComponent_ofUInt64 (toNat_div_pos hm hdvd_m),
      isRatioComponent_ofUInt64 (toNat_div_pos hn hdvd_n)⟩
  next => exact ⟨hwidth, hheight⟩

/-- The ratio in lowest terms, if it is one of whole numbers. -/
def Ratio.simplified (r : Ratio) : Ratio where
  width := (lowestTerms r.width r.height).1
  height := (lowestTerms r.width r.height).2
  width_valid := (isRatioComponent_lowestTerms r.width_valid r.height_valid).1
  height_valid := (isRatioComponent_lowestTerms r.width_valid r.height_valid).2

end CssValues
