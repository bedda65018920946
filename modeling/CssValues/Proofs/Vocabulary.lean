import CssValues.Dimension.Angle
import CssValues.Dimension.Frequency
import CssValues.Dimension.Length
import CssValues.Dimension.Resolution
import CssValues.Dimension.Time
import CssValues.Keyword.Global
import CssValues.Keyword.LineStyle
import CssValues.Proofs.Text.CharClasses

/-!
# Lawful vocabularies

A vocabulary is lawful when it lists every member, its tokens differ even up to case, and each token
is a word.
-/

namespace CssValues

/-- Vocabularies that list all members and tell them apart by their tokens. -/
class LawfulVocabulary (α : Type) [Vocabulary α] : Prop where
  mem_all : ∀ member : α, member ∈ (Vocabulary.all : List α)
  eq_of_sameUpToCase : ∀ member ∈ (Vocabulary.all : List α), ∀ other ∈ (Vocabulary.all : List α),
    sameUpToCase (Vocabulary.token member).toList (Vocabulary.token other).toList = true →
      member = other := by decide +kernel
  isWord_token : ∀ member ∈ (Vocabulary.all : List α),
    isWord (Vocabulary.token member).toList = true := by decide +kernel

instance : LawfulVocabulary LengthUnit where
  mem_all member := by cases member <;> decide

instance : LawfulVocabulary TimeUnit where
  mem_all member := by cases member <;> decide

instance : LawfulVocabulary FrequencyUnit where
  mem_all member := by cases member <;> decide

instance : LawfulVocabulary AngleUnit where
  mem_all member := by cases member <;> decide

instance : LawfulVocabulary ResolutionUnit where
  mem_all member := by cases member <;> decide

instance : LawfulVocabulary Global where
  mem_all member := by cases member <;> decide

instance : LawfulVocabulary LineStyle where
  mem_all member := by cases member <;> decide

namespace Vocabulary

variable {α : Type} [Vocabulary α] [LawfulVocabulary α]

/-- Members with the same token are the same. -/
theorem token_injective {member other : α} (h : token member = token other) : member = other := by
  apply LawfulVocabulary.eq_of_sameUpToCase _ (LawfulVocabulary.mem_all member) _
    (LawfulVocabulary.mem_all other)
  rw [h, sameUpToCase_iff]

/-- A written-out token is found again exactly. -/
theorem ofToken?_token (member : α) : ofToken? (token member) = some member := by
  have hfound : (ofToken? (token member) : Option α).isSome := by
    rw [ofToken?, List.find?_isSome]
    exact ⟨member, LawfulVocabulary.mem_all member, BEq.rfl⟩
  obtain ⟨found, hfound⟩ := Option.isSome_iff_exists.mp hfound
  have htoken : token found = token member := by
    rw [ofToken?] at hfound
    have hbeq := List.find?_some hfound
    exact beq_iff_eq.mp hbeq
  rw [hfound, token_injective htoken]

/-- The members are found by their tokens and by nothing else. -/
theorem ofToken?_eq_some_iff {text : String} {member : α} :
    ofToken? text = some member ↔ text = token member := by
  constructor
  · intro h
    rw [ofToken?] at h
    have hbeq := List.find?_some h
    exact (beq_iff_eq.mp hbeq).symm
  · intro h
    rw [h, ofToken?_token]

/-- Every token is a word. -/
theorem isWord_token (member : α) : isWord (token member).toList = true :=
  LawfulVocabulary.isWord_token member (LawfulVocabulary.mem_all member)

end Vocabulary

end CssValues
