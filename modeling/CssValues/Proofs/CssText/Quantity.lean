import CssValues.Proofs.NumericText
import CssValues.Proofs.Text.Split
import CssValues.Proofs.Vocabulary

/-!
# Texts of quantities

A quantity is a value with a unit or without one, as the values of all numeric types are. Its unit
is a word or the percent sign, so it starts with a character that no numeral has. Quantities that
are not NaN have the same text exactly when their units are the same and their values are equal.
-/

namespace CssValues

/-- A value with a unit, or without one. -/
structure Quantity where
  value : Binary64
  unit : Option String
deriving BEq

/-- The text is a word or the percent sign. -/
def isUnitText (text : List Char) : Bool := isWord text || text == ['%']

namespace Quantity

/-- The text of a quantity in a style sheet. -/
def text (q : Quantity) : String :=
  match q.unit with
  | none => numberText q.value
  | some unit => dimensionText q.value unit

/-- The value is not NaN, and the unit is a word or the percent sign. -/
def IsValid (q : Quantity) : Prop :=
  ¬ q.value.IsNaN ∧ ∀ unit ∈ q.unit, isUnitText unit.toList = true

/-- Quantities are equal when their values are and they have the same unit. -/
theorem beq_iff {q r : Quantity} :
    (q == r) = true ↔ (q.value == r.value) = true ∧ q.unit = r.unit := by
  change (q.value == r.value && q.unit == r.unit) = true ↔ _
  exact Bool.and_eq_true_iff.trans (and_congr_right fun _ => beq_iff_eq)

/-! ## Parts of the text -/

/-- The unit behind the digits of a finite value. -/
def finiteTail (unit : Option String) : List Char := (unit.getD "").toList

/-- The text of an infinite value, up to the end of its keyword. -/
def infiniteHead (negative : Bool) : List Char :=
  (if negative then "calc(-infinity" else "calc(infinity").toList

/-- The text behind the keyword of an infinite value. -/
def infiniteTail : Option String → List Char
  | none => [')']
  | some unit => ' ' :: '*' :: ' ' :: '1' :: (unit.toList ++ [')'])

/-- The text of a finite quantity is the number and then the unit. -/
theorem toList_text_of_isFinite {q : Quantity} (h : q.value.IsFinite) :
    q.text.toList = (finiteText q.value).toList ++ finiteTail q.unit := by
  have hkeyword := nonFiniteKeyword?_of_isFinite h
  obtain ⟨value, unit⟩ := q
  cases unit with
  | none =>
    simp only [text, numberText, hkeyword, finiteTail, Option.getD_none, String.toList_empty,
      List.append_nil]
  | some unit =>
    simp only [text, dimensionText, hkeyword, finiteTail, Option.getD_some, String.toList_append]

/-- The text of an infinite quantity is the keyword of its sign and then one of the unit, in a
`calc()`. -/
theorem toList_text_of_isInfinite {q : Quantity} (h : q.value.IsInfinite) :
    q.text.toList = infiniteHead q.value.negative ++ infiniteTail q.unit := by
  have hkeyword : nonFiniteKeyword? q.value =
      some (if q.value.negative then "-infinity" else "infinity") := by
    rw [nonFiniteKeyword?, if_neg h.not_isNaN, if_pos h]
  obtain ⟨value, unit⟩ := q
  cases unit with
  | none =>
    simp only [text, numberText, hkeyword, infiniteHead, infiniteTail]
    cases value.negative <;> rfl
  | some unit =>
    simp only [text, dimensionText, hkeyword, infiniteHead, infiniteTail, String.toList_append]
    cases value.negative <;> simp

/-! ## Characters -/

/-- The characters in the texts of quantities. -/
def isQuantityChar (c : Char) : Bool := isValueChar c || ['(', ')', '*', ' '].contains c

/-- The characters that the texts of quantities start with. -/
def isQuantityStart (c : Char) : Bool := isNumeralChar c || c == 'c'

/-- The characters of numerals and words are characters of quantities. -/
theorem isQuantityChar_of_isValueChar {c : Char} (h : isValueChar c = true) :
    isQuantityChar c = true := by
  rw [isQuantityChar, h, Bool.true_or]

/-- The characters of units are characters of quantities. -/
theorem isQuantityChar_of_mem_unit {text : List Char} (h : isUnitText text = true) {c : Char}
    (hc : c ∈ text) : isQuantityChar c = true := by
  rw [isUnitText, Bool.or_eq_true, beq_iff_eq] at h
  rcases h with hword | hpercent
  · exact isQuantityChar_of_isValueChar (isValueChar_of_isWordChar (isWordChar_of_mem hword hc))
  · rw [hpercent, List.mem_singleton] at hc
    rw [hc]
    rfl

/-- What holds of the characters of both keywords of infinite values holds of either. -/
theorem forall_mem_infiniteHead {p : Char → Bool} (hpositive : (infiniteHead false).all p = true)
    (hnegative : (infiniteHead true).all p = true) (negative : Bool) :
    ∀ c ∈ infiniteHead negative, p c = true := by
  cases negative with
  | false => exact List.all_eq_true.mp hpositive
  | true => exact List.all_eq_true.mp hnegative

/-- A unit is not empty, and no numeral has its first character. -/
theorem exists_unit_eq_cons {text : List Char} (h : isUnitText text = true) :
    ∃ c rest, text = c :: rest ∧ isNumeralChar c = false := by
  rw [isUnitText, Bool.or_eq_true, beq_iff_eq] at h
  rcases h with hword | hpercent
  · cases text with
    | nil => contradiction
    | cons c rest =>
      rw [isWord, Bool.and_eq_true] at hword
      exact ⟨c, rest, rfl, isNumeralChar_eq_false_of_isAlpha hword.1⟩
  · exact ⟨'%', [], hpercent, rfl⟩

section Valid

variable {q : Quantity} (hq : q.IsValid)

include hq

/-- The text behind the digits starts with no character of a numeral. -/
theorem isNumeralChar_eq_false_of_head? :
    ∀ c ∈ (finiteTail q.unit).head?, isNumeralChar c = false := by
  obtain ⟨value, unit⟩ := q
  cases unit with
  | none =>
    intro c hc
    contradiction
  | some unit =>
    obtain ⟨c, rest, hcons, hc⟩ := exists_unit_eq_cons (hq.2 unit rfl)
    change ∀ c ∈ unit.toList.head?, isNumeralChar c = false
    rw [hcons]
    intro d hd
    rw [← Option.some.inj hd]
    exact hc

/-- The text behind the digits tells the unit. -/
theorem unit_eq_of_finiteTail_eq {r : Quantity} (hr : r.IsValid)
    (h : finiteTail q.unit = finiteTail r.unit) : q.unit = r.unit := by
  obtain ⟨value, unit⟩ := q
  obtain ⟨value', unit'⟩ := r
  have hne {unit : String} (hunit : isUnitText unit.toList = true) : unit.toList ≠ [] := by
    obtain ⟨c, rest, hcons, -⟩ := exists_unit_eq_cons hunit
    rw [hcons]
    exact List.cons_ne_nil c rest
  cases unit with
  | none =>
    cases unit' with
    | none => rfl
    | some unit' => exact absurd h.symm (hne (hr.2 unit' rfl))
  | some unit =>
    cases unit' with
    | none => exact absurd h (hne (hq.2 unit rfl))
    | some unit' => exact congrArg some (String.toList_inj.mp h)

/-- The texts of quantities have only letters, digits and some signs in them. -/
theorem isQuantityChar_of_mem_text {c : Char} (hc : c ∈ q.text.toList) :
    isQuantityChar c = true := by
  obtain ⟨value, unit⟩ := q
  rcases Binary64.isFinite_or_isInfinite hq.1 with hfinite | hinfinite
  · rw [toList_text_of_isFinite hfinite, List.mem_append] at hc
    rcases hc with hnumeral | hunit
    · exact isQuantityChar_of_isValueChar
        (isValueChar_of_isNumeralChar (isNumeralChar_of_mem_finiteText hnumeral))
    · cases unit with
      | none => contradiction
      | some unit => exact isQuantityChar_of_mem_unit (hq.2 unit rfl) hunit
  · have hhead (negative : Bool) : ∀ c ∈ infiniteHead negative, isQuantityChar c = true :=
      forall_mem_infiniteHead (by decide) (by decide) negative
    have hsigns : [' ', '*', ' ', '1'].all isQuantityChar = true := by decide
    have hclose : [')'].all isQuantityChar = true := by decide
    rw [toList_text_of_isInfinite hinfinite, List.mem_append] at hc
    rcases hc with hc | htail
    · exact hhead _ c hc
    · cases unit with
      | none => exact List.all_eq_true.mp hclose c htail
      | some unit =>
        change c ∈ [' ', '*', ' ', '1'] ++ (unit.toList ++ [')']) at htail
        rw [List.mem_append, List.mem_append] at htail
        rcases htail with hc | hc | hc
        · exact List.all_eq_true.mp hsigns c hc
        · exact isQuantityChar_of_mem_unit (hq.2 unit rfl) hc
        · exact List.all_eq_true.mp hclose c hc

/-- The text of a quantity starts as a numeral, or as `calc`. -/
theorem exists_text_eq_cons : ∃ c rest, q.text.toList = c :: rest ∧ isQuantityStart c = true := by
  rcases Binary64.isFinite_or_isInfinite hq.1 with hfinite | hinfinite
  · obtain ⟨c, rest, hcons, hc⟩ := exists_finiteText_eq_cons q.value
    exact ⟨c, rest ++ finiteTail q.unit, by rw [toList_text_of_isFinite hfinite, hcons,
      List.cons_append], by rw [isQuantityStart, hc, Bool.true_or]⟩
  · rw [toList_text_of_isInfinite hinfinite]
    cases q.value.negative with
    | false => exact ⟨'c', _, rfl, rfl⟩
    | true => exact ⟨'c', _, rfl, rfl⟩

/-- A character in the text of a quantity, a digit or a parenthesis, is in no word. -/
theorem exists_mem_text : ∃ c ∈ q.text.toList, isWordChar c = false := by
  rcases Binary64.isFinite_or_isInfinite hq.1 with hfinite | hinfinite
  · obtain ⟨c, hmem, hc⟩ := exists_isDigit_mem_finiteText q.value
    refine ⟨c, ?_, isWordChar_eq_false_of_isDigit hc⟩
    rw [toList_text_of_isFinite hfinite]
    exact List.mem_append_left _ hmem
  · refine ⟨'(', ?_, rfl⟩
    rw [toList_text_of_isInfinite hinfinite]
    refine List.mem_append_left _ ?_
    cases q.value.negative with
    | false => decide
    | true => decide

end Valid

/-! ## Equality -/

/-- The keyword tells the sign. -/
theorem infiniteHead_injective {negative negative' : Bool}
    (h : infiniteHead negative = infiniteHead negative') : negative = negative' := by
  have hlength : (infiniteHead false).length ≠ (infiniteHead true).length := by decide
  cases negative with
  | false =>
    cases negative' with
    | false => rfl
    | true => exact absurd (congrArg List.length h) hlength
  | true =>
    cases negative' with
    | false => exact absurd (congrArg List.length h).symm hlength
    | true => rfl

/-- The text behind the keyword tells the unit. -/
theorem infiniteTail_injective {unit unit' : Option String}
    (h : infiniteTail unit = infiniteTail unit') : unit = unit' := by
  have hne : ')' ≠ ' ' := by decide
  cases unit with
  | none =>
    cases unit' with
    | none => rfl
    | some unit' => exact absurd (List.cons.inj h).1 hne
  | some unit =>
    cases unit' with
    | none => exact absurd (List.cons.inj h).1.symm hne
    | some unit' =>
      simp only [infiniteTail, List.cons.injEq, true_and] at h
      rw [String.toList_inj.mp (List.append_cancel_right h)]

/-- The characters up to the end of the keyword of an infinite value. -/
def isHeadChar (c : Char) : Bool := isWordChar c || c == '('

/-- Infinite quantities have the same text exactly when they have the same sign and unit. -/
theorem infinite_append_eq_iff {negative negative' : Bool} {unit unit' : Option String} :
    infiniteHead negative ++ infiniteTail unit = infiniteHead negative' ++ infiniteTail unit' ↔
      negative = negative' ∧ unit = unit' := by
  have hhead (negative : Bool) : ∀ c ∈ infiniteHead negative, isHeadChar c = true :=
    forall_mem_infiniteHead (by decide) (by decide) negative
  have htail : ∀ unit, ∀ c ∈ (infiniteTail unit).head?, isHeadChar c = false := by
    intro unit c hc
    cases unit with
    | none =>
      rw [← Option.some.inj hc]
      decide
    | some unit =>
      rw [← Option.some.inj hc]
      decide
  constructor
  · intro h
    obtain ⟨hsign, hunit⟩ := eq_and_eq_of_append_eq (hhead _) (hhead _) (htail _) (htail _) h
    exact ⟨infiniteHead_injective hsign, infiniteTail_injective hunit⟩
  · intro h
    rw [h.1, h.2]

/-- The text of a finite quantity is not that of an infinite one. -/
theorem text_ne_of_isInfinite {q r : Quantity} (hq : q.value.IsFinite) (hr : r.value.IsInfinite) :
    q.text ≠ r.text := by
  intro h
  have hlist : q.text.toList = r.text.toList := by rw [h]
  obtain ⟨c, rest, hcons, hc⟩ := exists_finiteText_eq_cons q.value
  rw [toList_text_of_isFinite hq, toList_text_of_isInfinite hr, hcons] at hlist
  cases hsign : r.value.negative with
  | false =>
    rw [hsign] at hlist
    rw [(List.cons.inj hlist).1] at hc
    contradiction
  | true =>
    rw [hsign] at hlist
    rw [(List.cons.inj hlist).1] at hc
    contradiction

/-- Quantities that are not NaN have the same text exactly when they are equal. -/
theorem text_eq_iff {q r : Quantity} (hq : q.IsValid) (hr : r.IsValid) :
    q.text = r.text ↔ (q == r) = true := by
  rw [beq_iff]
  rcases Binary64.isFinite_or_isInfinite hq.1 with hqf | hqi
  · rcases Binary64.isFinite_or_isInfinite hr.1 with hrf | hri
    · rw [← String.toList_inj, toList_text_of_isFinite hqf, toList_text_of_isFinite hrf,
        ← finiteText_eq_iff hqf hrf]
      constructor
      · intro h
        obtain ⟨hnumeral, hunit⟩ := eq_and_eq_of_append_eq
          (fun _ => isNumeralChar_of_mem_finiteText) (fun _ => isNumeralChar_of_mem_finiteText)
          (isNumeralChar_eq_false_of_head? hq) (isNumeralChar_eq_false_of_head? hr) h
        exact ⟨String.toList_inj.mp hnumeral, unit_eq_of_finiteTail_eq hq hr hunit⟩
      · intro h
        rw [h.1, h.2]
    · have hne := text_ne_of_isInfinite hqf hri
      have hbeq := Binary64.beq_eq_false_of_isInfinite hqf hri
      simp [hne, hbeq]
  · rcases Binary64.isFinite_or_isInfinite hr.1 with hrf | hri
    · have hne := (text_ne_of_isInfinite hrf hqi).symm
      have hbeq := Binary64.beq_eq_false_of_isInfinite hrf hqi
      rw [Binary64.beq_comm] at hbeq
      simp [hne, hbeq]
    · rw [← String.toList_inj, toList_text_of_isInfinite hqi, toList_text_of_isInfinite hri,
        infinite_append_eq_iff, Binary64.beq_iff_of_isInfinite hqi hri]

end Quantity

end CssValues
