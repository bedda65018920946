/-!
# Characters of numerals and words

Numerals consist of digits, points and minus signs; words start with a letter and go on with letters
and hyphens. A numeral and a word share the minus sign alone, so a word that follows a numeral
cannot be mistaken for a part of it.
-/

namespace CssValues

/-- The characters in the text of a finite number. -/
def isNumeralChar (c : Char) : Bool := c.isDigit || c == '.' || c == '-'

/-- The characters of words. -/
def isWordChar (c : Char) : Bool := c.isAlpha || c == '-'

/-- A letter, and then letters and hyphens. -/
def isWord : List Char → Bool
  | [] => false
  | c :: rest => c.isAlpha && rest.all isWordChar

/-- The characters of numerals, of words and of percentages. -/
def isValueChar (c : Char) : Bool := c.isAlphanum || c == '.' || c == '-' || c == '%'

/-- Letters are those of ASCII. -/
theorem toNat_of_isAlpha {c : Char} (h : c.isAlpha = true) :
    (65 ≤ c.toNat ∧ c.toNat ≤ 90) ∨ (97 ≤ c.toNat ∧ c.toNat ≤ 122) := by
  change (decide ('A'.val ≤ c.val ∧ c.val ≤ 'Z'.val) ||
    (decide ('a'.val ≤ c.val) && decide (c.val ≤ 'z'.val))) = true at h
  rw [Bool.or_eq_true, Bool.and_eq_true, decide_eq_true_eq, decide_eq_true_eq, decide_eq_true_eq,
    UInt32.le_iff_toNat_le, UInt32.le_iff_toNat_le, UInt32.le_iff_toNat_le,
    UInt32.le_iff_toNat_le] at h
  exact h

/-- Letters are not digits. -/
theorem isDigit_eq_false_of_isAlpha {c : Char} (h : c.isAlpha = true) : c.isDigit = false := by
  have hletter := toNat_of_isAlpha h
  rw [← Bool.not_eq_true, Char.isDigit_iff_toNat]
  change ¬ (48 ≤ c.toNat ∧ c.toNat ≤ 57)
  omega

/-- No numeral has a letter in it. -/
theorem isNumeralChar_eq_false_of_isAlpha {c : Char} (h : c.isAlpha = true) :
    isNumeralChar c = false := by
  have hne {d : Char} (hd : d.isAlpha = false) : (c == d) = false := by
    rw [beq_eq_false_iff_ne]
    intro heq
    rw [heq, hd] at h
    contradiction
  rw [isNumeralChar, isDigit_eq_false_of_isAlpha h, hne rfl, hne rfl]
  rfl

/-- Digits are in no word. -/
theorem isWordChar_eq_false_of_isDigit {c : Char} (h : c.isDigit = true) :
    isWordChar c = false := by
  rw [← Bool.not_eq_true, isWordChar, Bool.or_eq_true, beq_iff_eq]
  intro hword
  rcases hword with halpha | hminus
  · rw [isDigit_eq_false_of_isAlpha halpha] at h
    contradiction
  · rw [hminus] at h
    contradiction

/-- The characters of numerals are characters of values. -/
theorem isValueChar_of_isNumeralChar {c : Char} (h : isNumeralChar c = true) :
    isValueChar c = true := by
  simp only [isNumeralChar, Bool.or_eq_true, beq_iff_eq] at h
  rcases h with (hdigit | hpoint) | hminus
  · simp only [isValueChar, Char.isAlphanum, hdigit, Bool.or_true, Bool.true_or]
  · rw [hpoint]
    rfl
  · rw [hminus]
    rfl

/-- The characters of words are characters of values. -/
theorem isValueChar_of_isWordChar {c : Char} (h : isWordChar c = true) : isValueChar c = true := by
  simp only [isWordChar, Bool.or_eq_true, beq_iff_eq] at h
  rcases h with halpha | hminus
  · simp only [isValueChar, Char.isAlphanum, halpha, Bool.true_or]
  · rw [hminus]
    rfl

/-- The characters of a word are letters and hyphens. -/
theorem isWordChar_of_mem {text : List Char} (h : isWord text = true) {c : Char} (hc : c ∈ text) :
    isWordChar c = true := by
  cases text with
  | nil => contradiction
  | cons d rest =>
    rw [isWord, Bool.and_eq_true, List.all_eq_true] at h
    rcases List.mem_cons.mp hc with hd | hrest
    · rw [hd, isWordChar, h.1, Bool.true_or]
    · exact h.2 c hrest

/-- A text with another character in it is not a word. -/
theorem isWord_eq_false_of_mem {text : List Char} {c : Char} (hc : c ∈ text)
    (hother : isWordChar c = false) : isWord text = false := by
  rw [← Bool.not_eq_true]
  intro h
  rw [isWordChar_of_mem h hc] at hother
  contradiction

end CssValues
