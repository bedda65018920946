import CssValues.Proofs.Text.LetterCase
import CssValues.Proofs.Vocabulary
import CssValues.Text.WhiteSpace

/-!
# Looking up tokens

A text is looked up as the first member whose token it is up to case. In a lawful vocabulary no two
tokens agree up to case, so a text is that of one member at most and the order of the members does
not matter. The tokens are words: a text in which there is white space or a character beyond ASCII
agrees with none of them.
-/

namespace CssValues

open Vocabulary

/-- The texts have the same length, and at each place the same letter up to case. -/
def AgreeUpToCase (text other : String) : Prop := List.Forall₂ SameLetter text.toList other.toList

/-- Texts are looked up exactly up to the case of ASCII letters. -/
structure LooksUpUpToCase (α : Type) [Vocabulary α] : Prop where
  /-- A member is found by the texts that agree with its token, and by no others. -/
  found_iff : ∀ (text : String) (member : α),
    ofText? text = some member ↔ AgreeUpToCase text (token member)
  /-- It makes no difference to compare the bytes of the texts. -/
  found_iff_bytes : ∀ (text : String) (member : α),
    ofText? text = some member ↔
      (utf8Bytes text.toList).map lowerByte = (utf8Bytes (token member).toList).map lowerByte
  /-- No text agrees with the tokens of two members, so the first one found is the only one. -/
  unique : ∀ (text : String) (member other : α), AgreeUpToCase text (token member) →
    AgreeUpToCase text (token other) → member = other
  /-- Every member is found by its token. -/
  token_found : ∀ member : α, ofText? (token member) = some member
  /-- The case of letters makes no difference. -/
  ofText?_eq : ∀ text other : String, AgreeUpToCase text other →
    (ofText? text : Option α) = ofText? other
  /-- A text that is found has only ASCII characters, and no white space. -/
  plain : ∀ (text : String) (member : α), ofText? text = some member →
    ∀ c ∈ text.toList, c.toNat < 128 ∧ isWhiteSpace c = false
  /-- With further characters anywhere in it, a text does not find the same member. -/
  no_extra : ∀ (before extra after : String) (member : α), extra ≠ "" →
    ofText? (before ++ after) = some member → ofText? (before ++ extra ++ after) ≠ some member

/-! ## Characters of words -/

/-- The characters that agree with one of a word are visible characters of ASCII. -/
theorem SameLetter.toNat_bounds {c d : Char} (h : SameLetter c d) (hd : isWordChar d = true) :
    45 ≤ c.toNat ∧ c.toNat ≤ 122 := by
  have hword : d.toNat = 45 ∨ (65 ≤ d.toNat ∧ d.toNat ≤ 90) ∨ (97 ≤ d.toNat ∧ d.toNat ≤ 122) := by
    rw [isWordChar, Bool.or_eq_true, beq_iff_eq] at hd
    rcases hd with halpha | rfl
    · exact .inr (toNat_of_isAlpha halpha)
    · exact .inl rfl
  rw [SameLetter, isUpper_iff_toNat, isUpper_iff_toNat] at h
  rcases h with rfl | hupper | hlower <;> omega

/-- So are all characters of a text that agrees with a word. -/
theorem toNat_bounds_of_forall₂ {text word : List Char} (h : List.Forall₂ SameLetter text word)
    (hword : ∀ d ∈ word, isWordChar d = true) : ∀ c ∈ text, 45 ≤ c.toNat ∧ c.toNat ≤ 122 := by
  induction h with
  | nil => exact List.forall_mem_nil _
  | cons hsame _ ih =>
    rw [List.forall_mem_cons] at hword ⊢
    exact ⟨hsame.toNat_bounds hword.1, ih hword.2⟩

namespace AgreeUpToCase

/-- Texts agree up to case exactly when they are the same in lower case. -/
theorem iff_map_toLower {text other : String} :
    AgreeUpToCase text other ↔ text.toList.map Char.toLower = other.toList.map Char.toLower := by
  rw [AgreeUpToCase, ← sameUpToCase_iff_forall₂, sameUpToCase_iff]

/-- Texts that agree up to case have the same number of characters. -/
theorem length_eq {text other : String} (h : AgreeUpToCase text other) :
    text.length = other.length := by
  rw [← String.length_toList, ← String.length_toList]
  exact List.Forall₂.length_eq h

end AgreeUpToCase

/-! ## Lookups -/

namespace Vocabulary

variable {α : Type} [Vocabulary α]

/-- The member that a text finds agrees with it. -/
theorem agreeUpToCase_of_ofText? {text : String} {member : α} (h : ofText? text = some member) :
    AgreeUpToCase text (token member) := by
  rw [ofText?] at h
  have hsame := List.find?_some h
  exact AgreeUpToCase.iff_map_toLower.mpr (sameUpToCase_iff.mp hsame).symm

/-- Texts that agree up to case find the same. -/
theorem ofText?_congr {text other : String} (h : AgreeUpToCase text other) :
    (ofText? text : Option α) = ofText? other := by
  rw [AgreeUpToCase.iff_map_toLower] at h
  simp only [ofText?, sameUpToCase, h]

variable [LawfulVocabulary α]

/-- A text agrees with the token of one member at most. -/
theorem eq_of_agreeUpToCase {text : String} {member other : α}
    (hmember : AgreeUpToCase text (token member)) (hother : AgreeUpToCase text (token other)) :
    member = other := by
  rw [AgreeUpToCase.iff_map_toLower] at hmember hother
  apply LawfulVocabulary.eq_of_sameUpToCase _ (LawfulVocabulary.mem_all member) _
    (LawfulVocabulary.mem_all other)
  rw [sameUpToCase_iff, ← hmember, hother]

/-- A member is found by the texts that agree with its token, and by no others. -/
theorem ofText?_eq_some_iff {text : String} {member : α} :
    ofText? text = some member ↔ AgreeUpToCase text (token member) := by
  constructor
  · exact agreeUpToCase_of_ofText?
  · intro h
    have hfound : (ofText? text : Option α).isSome := by
      rw [ofText?, List.find?_isSome]
      exact ⟨member, LawfulVocabulary.mem_all member,
        sameUpToCase_iff.mpr (AgreeUpToCase.iff_map_toLower.mp h).symm⟩
    obtain ⟨found, hfound⟩ := Option.isSome_iff_exists.mp hfound
    rw [hfound, eq_of_agreeUpToCase (agreeUpToCase_of_ofText? hfound) h]

/-- Lawful vocabularies are looked up exactly up to case. -/
theorem looksUpUpToCase : LooksUpUpToCase α where
  found_iff _ _ := ofText?_eq_some_iff
  found_iff_bytes text member := by
    rw [ofText?_eq_some_iff, AgreeUpToCase, ← sameUpToCase_iff_forall₂, sameUpToCase_iff_utf8Bytes]
  unique _ _ _ := eq_of_agreeUpToCase
  token_found member := ofText?_eq_some_iff.mpr (AgreeUpToCase.iff_map_toLower.mpr rfl)
  ofText?_eq _ _ := ofText?_congr
  plain text member h c hc := by
    have hword : ∀ d ∈ (token member).toList, isWordChar d = true := fun d hd =>
      isWordChar_of_mem (isWord_token member) hd
    have hbounds := toNat_bounds_of_forall₂ (ofText?_eq_some_iff.mp h) hword c hc
    exact ⟨by omega, isWhiteSpace_eq_false_of_toNat (by omega)⟩
  no_extra before extra after member hextra h hlonger := by
    have hlength := (ofText?_eq_some_iff.mp h).length_eq
    have hlonger := (ofText?_eq_some_iff.mp hlonger).length_eq
    have hextra : extra.length ≠ 0 := mt String.length_eq_zero_iff.mp hextra
    rw [String.length_append] at hlength
    rw [String.length_append, String.length_append] at hlonger
    omega

end Vocabulary

/-- Units and keywords are looked up exactly up to the case of ASCII letters. -/
theorem tokens_looked_up_up_to_case :
    LooksUpUpToCase LengthUnit ∧ LooksUpUpToCase TimeUnit ∧ LooksUpUpToCase FrequencyUnit ∧
      LooksUpUpToCase AngleUnit ∧ LooksUpUpToCase ResolutionUnit ∧ LooksUpUpToCase Global ∧
      LooksUpUpToCase LineStyle :=
  ⟨looksUpUpToCase, looksUpUpToCase, looksUpUpToCase, looksUpUpToCase, looksUpUpToCase,
    looksUpUpToCase, looksUpUpToCase⟩

/-- The Kelvin sign, whose lower case is a `k` elsewhere, is not one in a unit. -/
example : (ofText? "\u212aHz" : Option FrequencyUnit) = none := by decide +kernel

end CssValues
