import CssValues.Proofs.Text.NumberReader
import CssValues.Property.AspectRatio

/-!
# Reading ratios

A ratio in a style sheet is two numbers with a slash between them, or one number, which stands for
itself over one. Its text reads back as the ratio, unless the components are equal: then the text is
the one number that they share, and it reads back as that number over one. That is the same
proportion only for the number one.
-/

namespace CssValues

/-! ## Readers -/

namespace Ratio

/-- The ratio that a text is: a number over a number, or a number over one. -/
def ofChars? (text : List Char) : Option Ratio := do
  let front := text.takeWhile (· ≠ '/')
  let width ← Binary64.ofChars? (trimWhiteSpace front)
  match text.dropWhile (· ≠ '/') with
  | [] => (ofValue width).toOption
  | _ :: back =>
    let height ← Binary64.ofChars? (trimWhiteSpace back)
    (ofComponents width height).toOption

/-- The components are in the same proportion, by exact products. -/
def SameProportion (r s : Ratio) : Prop :=
  r.width.units * s.height.units = s.width.units * r.height.units

end Ratio

namespace AspectRatio

/-- The value of `aspect-ratio` that a text is: `auto`, alone or before a ratio, or a ratio, or a
keyword of every property. -/
def ofChars? (text : List Char) : Option AspectRatio :=
  if text.takeWhile (!isWhiteSpace ·) = "auto".toList then
    match text.dropWhile (!isWhiteSpace ·) with
    | [] => some auto
    | back => (Ratio.ofChars? back).map autoRatio
  else
    (Ratio.ofChars? text).map ratio <|> (Vocabulary.ofText? (String.ofList text)).map global

end AspectRatio

/-! ## Numerals -/

/-- No numeral has white space in it. -/
theorem isWhiteSpace_eq_false_of_isNumeralChar {c : Char} (h : isNumeralChar c = true) :
    isWhiteSpace c = false := by
  rw [isNumeralChar, Bool.or_eq_true, Bool.or_eq_true, beq_iff_eq, beq_iff_eq] at h
  apply isWhiteSpace_eq_false_of_toNat
  rcases h with (hdigit | hpoint) | hminus
  · rw [Char.isDigit_iff_toNat] at hdigit
    change 48 ≤ c.toNat ∧ c.toNat ≤ 57 at hdigit
    omega
  · rw [hpoint]
    decide
  · rw [hminus]
    decide

/-- The text of a number between white space reads back as the number, unless it is a zero. -/
theorem ofChars?_trimWhiteSpace_finiteText {x : Binary64} (hx : x.IsFinite) (hzero : ¬ x.IsZero)
    {before after : List Char} (hbefore : ∀ c ∈ before, isWhiteSpace c = true)
    (hafter : ∀ c ∈ after, isWhiteSpace c = true) :
    Binary64.ofChars? (trimWhiteSpace (before ++ ((finiteText x).toList ++ after))) = some x := by
  have hspace {c : Char} (hc : c ∈ (finiteText x).toList) : isWhiteSpace c = false :=
    isWhiteSpace_eq_false_of_isNumeralChar (isNumeralChar_of_mem_finiteText hc)
  rw [trimWhiteSpace_append (fun c hc => hspace (List.mem_of_mem_head? hc))
    (fun c hc => hspace (List.mem_of_getLast? hc)) hbefore hafter,
    Binary64.ofChars?_finiteText hx, if_neg hzero]

/-! ## Ratios -/

namespace IsRatioComponent

/-- A component is not zero. -/
theorem not_isZero {x : Binary64} (h : IsRatioComponent x) : ¬ x.IsZero :=
  (Binary64.zero_lt_iff.mp h.2).2.2

/-- Components have no sign, so their magnitudes tell them apart. -/
theorem eq_of_magnitude_eq {x y : Binary64} (hx : IsRatioComponent x) (hy : IsRatioComponent y)
    (h : x.magnitude = y.magnitude) : x = y := by
  have hxsign := (Binary64.zero_lt_iff.mp hx.2).2.1
  have hysign := (Binary64.zero_lt_iff.mp hy.2).2.1
  exact Binary64.eq_of_magnitude_eq (hxsign.trans hysign.symm) h

/-- Components are equal as numbers only if they are the same word. -/
theorem beq_iff_eq {x y : Binary64} (hx : IsRatioComponent x) (hy : IsRatioComponent y) :
    (x == y) = true ↔ x = y := by
  rw [Binary64.beq_iff_magnitude hx.1.not_isNaN hy.1.not_isNaN]
  constructor
  · intro h
    exact hx.eq_of_magnitude_eq hy h.1
  · intro h
    rw [h]
    exact ⟨rfl, Or.inl rfl⟩

/-- Components with the same number of units are the same. -/
theorem units_eq_iff {x y : Binary64} (hx : IsRatioComponent x) (hy : IsRatioComponent y) :
    x.units = y.units ↔ x = y := by
  constructor
  · intro h
    apply hx.eq_of_magnitude_eq hy
    exact Binary64.magnitudeUnits_inj (Nat.le_of_lt hx.1) (Nat.le_of_lt hy.1) h
  · intro h
    rw [h]

/-- A component has some units. -/
theorem units_pos {x : Binary64} (h : IsRatioComponent x) : 0 < x.units :=
  Nat.pos_of_ne_zero fun hunits => h.not_isZero (Binary64.units_eq_zero_iff.mp hunits)

/-- One may stand in a ratio. -/
theorem one : IsRatioComponent 1 := Ratio.isRatioComponent_ofNat (by decide) (by decide)

end IsRatioComponent

namespace Ratio

/-- The ratio that the text of a ratio stands for. -/
def written (r : Ratio) : Ratio :=
  if r.width = r.height then ⟨r.width, 1, r.width_valid, IsRatioComponent.one⟩ else r

/-- A ratio of equal components is written as the first of them. -/
theorem toList_cssText_of_eq {r : Ratio} (h : r.width = r.height) :
    (cssText r).toList = (finiteText r.width).toList := by
  change (numberText r.width ++
    (if r.width == r.height then "" else " / " ++ numberText r.height)).toList = _
  rw [if_pos ((r.width_valid.beq_iff_eq r.height_valid).mpr h), String.append_empty,
    numberText_of_isFinite r.width_valid.1]

/-- Any other ratio is written as both components with a slash between them. -/
theorem toList_cssText_of_ne {r : Ratio} (h : r.width ≠ r.height) :
    (cssText r).toList = (finiteText r.width).toList ++
      ' ' :: '/' :: ' ' :: (finiteText r.height).toList := by
  change (numberText r.width ++
    (if r.width == r.height then "" else " / " ++ numberText r.height)).toList = _
  rw [if_neg (mt (r.width_valid.beq_iff_eq r.height_valid).mp h),
    numberText_of_isFinite r.width_valid.1, numberText_of_isFinite r.height_valid.1,
    String.toList_append, String.toList_append]
  rfl

/-- A text without a slash is read as a single number. -/
theorem ofChars?_of_single {front : List Char} (hfront : ∀ c ∈ front, c ≠ '/') {width : Binary64}
    (hwidth : Binary64.ofChars? (trimWhiteSpace front) = some width) :
    ofChars? front = (ofValue width).toOption := by
  have htest : ∀ c ∈ front, decide (c ≠ '/') = true := fun c hc => decide_eq_true (hfront c hc)
  have hend : ∀ c ∈ ([] : List Char).head?, decide (c ≠ '/') = false := by simp
  rw [← List.append_nil front]
  simp only [ofChars?, takeWhile_append_eq htest hend, dropWhile_append_eq htest hend, hwidth,
    Option.bind_eq_bind, Option.bind_some]

/-- A text is split at its first slash. -/
theorem ofChars?_of_pair {front back : List Char} (hfront : ∀ c ∈ front, c ≠ '/')
    {width height : Binary64} (hwidth : Binary64.ofChars? (trimWhiteSpace front) = some width)
    (hheight : Binary64.ofChars? (trimWhiteSpace back) = some height) :
    ofChars? (front ++ '/' :: back) = (ofComponents width height).toOption := by
  have htest : ∀ c ∈ front, decide (c ≠ '/') = true := fun c hc => decide_eq_true (hfront c hc)
  have hslash : ∀ c ∈ ('/' :: back).head?, decide (c ≠ '/') = false := by simp
  simp only [ofChars?, takeWhile_append_eq htest hslash, dropWhile_append_eq htest hslash, hwidth,
    hheight, Option.bind_eq_bind, Option.bind_some]

/-- The text of a ratio, with white space in front or without, reads back as what it stands for. -/
theorem ofChars?_append_cssText (r : Ratio) {before : List Char}
    (hbefore : ∀ c ∈ before, isWhiteSpace c = true) :
    ofChars? (before ++ (cssText r).toList) = some r.written := by
  have hslash {after : List Char} (hafter : ∀ c ∈ after, isWhiteSpace c = true) :
      ∀ c ∈ before ++ ((finiteText r.width).toList ++ after), c ≠ '/' := by
    intro c hc heq
    rw [List.mem_append, List.mem_append] at hc
    rw [heq] at hc
    rcases hc with hspace | hnumeral | hspace
    · exact absurd (hbefore _ hspace) (by decide)
    · exact absurd (isNumeralChar_of_mem_finiteText hnumeral) (by decide)
    · exact absurd (hafter _ hspace) (by decide)
  have hwidth {after : List Char} (hafter : ∀ c ∈ after, isWhiteSpace c = true) :=
    ofChars?_trimWhiteSpace_finiteText r.width_valid.1 r.width_valid.not_isZero hbefore hafter
  have hspace : ∀ c ∈ [' '], isWhiteSpace c = true := List.forall_mem_singleton.mpr rfl
  by_cases heq : r.width = r.height
  · have hnil : ∀ c ∈ ([] : List Char), isWhiteSpace c = true := List.forall_mem_nil _
    have hread := ofChars?_of_single (hslash hnil) (hwidth hnil)
    rw [toList_cssText_of_eq heq, written, if_pos heq]
    rw [List.append_nil, ofValue, ofComponents_eq_ok r.width_valid IsRatioComponent.one] at hread
    exact hread
  · have hheight := ofChars?_trimWhiteSpace_finiteText r.height_valid.1 r.height_valid.not_isZero
      hspace (List.forall_mem_nil _)
    have hread := ofChars?_of_pair (hslash hspace) (hwidth hspace) hheight
    rw [toList_cssText_of_ne heq, written, if_neg heq]
    rw [ofComponents_eq_ok r.width_valid r.height_valid, List.append_assoc, List.append_assoc,
      List.append_nil] at hread
    exact hread

/-- The text of a ratio reads back as what is written: the width over one if the components are
equal, and the ratio otherwise. -/
theorem ofChars?_cssText (r : Ratio) : ofChars? (cssText r).toList = some r.written := by
  have hread := r.ofChars?_append_cssText (List.forall_mem_nil _)
  rwa [List.nil_append] at hread

/-- A ratio is in the same proportion as what its text stands for exactly when its components
differ, or are both one. -/
theorem sameProportion_written_iff (r : Ratio) :
    r.SameProportion r.written ↔ (r.width ≠ r.height ∨ r.width = 1) := by
  by_cases heq : r.width = r.height
  · have hpos := r.width_valid.units_pos
    rw [SameProportion, written, if_pos heq, ← heq, Nat.mul_right_inj (Nat.ne_of_gt hpos),
      IsRatioComponent.one.units_eq_iff r.width_valid, eq_comm]
    exact (or_iff_right (not_not_intro rfl)).symm
  · rw [written, if_neg heq]
    exact iff_of_true rfl (Or.inl heq)

/-- The text of a ratio starts as a numeral. -/
theorem exists_cssText_eq_cons (r : Ratio) :
    ∃ c rest, (cssText r).toList = c :: rest ∧ isNumeralChar c = true := by
  obtain ⟨c, rest, hcons, hc⟩ := exists_finiteText_eq_cons r.width
  by_cases heq : r.width = r.height
  · exact ⟨c, rest, (toList_cssText_of_eq heq).trans hcons, hc⟩
  · exact ⟨c, _, by rw [toList_cssText_of_ne heq, hcons, List.cons_append], hc⟩

end Ratio

namespace AspectRatio

/-- The text of a ratio is read as a ratio: it does not start with a word. -/
theorem ofChars?_cssText_ratio (r : Ratio) :
    ofChars? (cssText (ratio r)).toList = some (ratio r.written) := by
  obtain ⟨c, rest, hcons, hc⟩ := r.exists_cssText_eq_cons
  have hword : (cssText r).toList.takeWhile (!isWhiteSpace ·) ≠ "auto".toList := by
    rw [hcons, List.takeWhile_cons, isWhiteSpace_eq_false_of_isNumeralChar hc]
    intro hauto
    -- the word has the first character of the numeral, which is not a letter
    obtain ⟨hfirst, -⟩ := List.cons.inj hauto
    rw [hfirst] at hc
    contradiction
  change ofChars? (cssText r).toList = _
  rw [ofChars?, if_neg hword, r.ofChars?_cssText]
  rfl

/-- The text of a ratio behind `auto` is read as one behind `auto`. -/
theorem ofChars?_cssText_autoRatio (r : Ratio) :
    ofChars? (cssText (autoRatio r)).toList = some (autoRatio r.written) := by
  have hauto : ∀ c ∈ "auto".toList, (!isWhiteSpace c) = true := List.all_eq_true.mp rfl
  have hspace : ∀ c ∈ (' ' :: (cssText r).toList).head?, (!isWhiteSpace c) = false := by
    simp [isWhiteSpace, whiteSpaceRanges]
  have htext : (cssText (autoRatio r)).toList = "auto".toList ++ ' ' :: (cssText r).toList := by
    change ("auto " ++ cssText r).toList = _
    rw [String.toList_append]
    rfl
  have hblank : ∀ c ∈ [' '], isWhiteSpace c = true := List.forall_mem_singleton.mpr rfl
  have hread := r.ofChars?_append_cssText hblank
  rw [htext, ofChars?, if_pos (takeWhile_append_eq hauto hspace), dropWhile_append_eq hauto hspace]
  change (Ratio.ofChars? ([' '] ++ (cssText r).toList)).map autoRatio = _
  rw [hread]
  rfl

end AspectRatio

/-! ## Round trip -/

/-- The text of a ratio reads back as a ratio, alone and inside `aspect-ratio`: as itself if its
components differ, and as their number over one if they are equal. It is read in the same proportion
exactly when the components differ or are both one. -/
theorem Ratio.cssText_reads_back (r : Ratio) :
    ∃ s : Ratio, Ratio.ofChars? (cssText r).toList = some s ∧
      AspectRatio.ofChars? (cssText (AspectRatio.ratio r)).toList = some (.ratio s) ∧
      AspectRatio.ofChars? (cssText (AspectRatio.autoRatio r)).toList = some (.autoRatio s) ∧
      (r.width ≠ r.height ∧ s = r ∨ r.width = r.height ∧ s.width = r.width ∧ s.height = 1) ∧
      (r.SameProportion s ↔ (r.width ≠ r.height ∨ r.width = 1)) := by
  refine ⟨r.written, r.ofChars?_cssText, AspectRatio.ofChars?_cssText_ratio r,
    AspectRatio.ofChars?_cssText_autoRatio r, ?_, r.sameProportion_written_iff⟩
  by_cases heq : r.width = r.height
  · rw [written, if_pos heq]
    exact Or.inr ⟨heq, rfl, rfl⟩
  · rw [written, if_neg heq]
    exact Or.inl ⟨heq, rfl⟩

/-- The ratio `2 / 2` is read as `2 / 1`, which is another proportion. -/
theorem Ratio.two_over_two_reads_as_two :
    ∃ r s : Ratio, (r.width = 2 ∧ r.height = 2) ∧ (s.width = 2 ∧ s.height = 1) ∧
      Ratio.ofChars? (cssText r).toList = some s ∧ ¬ r.SameProportion s := by
  have bound : 2 ≤ Binary64.maxExactNat := by decide
  let r := ofNats 2 2 (by decide) (by decide) bound bound
  have hwritten : r.written = ofNats 2 1 (by decide) (by decide) bound (by decide) := if_pos rfl
  have hread := r.ofChars?_cssText
  have hsame := r.sameProportion_written_iff
  rw [hwritten] at hread hsame
  refine ⟨r, _, ⟨rfl, rfl⟩, ⟨rfl, rfl⟩, hread, ?_⟩
  rw [hsame]
  intro hor
  rcases hor with hne | hone
  · exact hne rfl
  · exact absurd hone (by decide +kernel : Binary64.ofNat 2 ≠ Binary64.ofNat 1)

end CssValues
