import CssValues.OrPercentage
import CssValues.Proofs.CssText.Form
import CssValues.Ratio.Basic

/-!
# Forms of numeric types and ratios

Each type gives its values a form, which determines the text; two values are equal exactly when
their forms are. Forms with the same text are equal, so the values of such a type have the same text
exactly when they are equal. NaN is left out because it is not equal to itself, and math expressions
are left out because those that differ in white space alone have the same text.
-/

namespace CssValues

/-! ## Values without NaN -/

/-- Types whose values may have NaN or math expressions in them. -/
class Concrete (α : Type) where
  /-- The value has neither NaN nor a math expression in it. -/
  IsConcrete : α → Prop

export Concrete (IsConcrete)

instance {kind : ScalarKind} : Concrete (Scalar kind) := ⟨fun x => ¬ x.value.IsNaN⟩

instance {U : Type} : Concrete (Dimension U) := ⟨fun x => ¬ x.value.IsNaN⟩

instance : Concrete Resolution := ⟨fun r => ¬ r.value.IsNaN⟩

instance : Concrete Ratio := ⟨fun r => ¬ r.width.IsNaN ∧ ¬ r.height.IsNaN⟩

instance {α : Type} [Concrete α] : Concrete (OrPercentage α) where
  IsConcrete
    | .value x => IsConcrete x
    | .percentage p => IsConcrete p

/-- Values of the type that have neither NaN nor a math expression in them are equal exactly when
their texts are. -/
def TextIsFaithful (α : Type) [BEq α] [CssText α] [Concrete α] : Prop :=
  ∀ a b : α, IsConcrete a → IsConcrete b → ((a == b) = true ↔ cssText a = cssText b)

/-- Types whose values have a form that tells them apart and determines their text. -/
class Formed (α : Type) [BEq α] [CssText α] [Concrete α] where
  /-- The layout of the type. -/
  layout : Layout
  /-- The form of a value. -/
  form : α → Form
  isValid_form {a : α} : IsConcrete a → (form a).IsValid
  cssText_eq {a : α} : IsConcrete a → cssText a = layout.text (form a)
  beq_form {a b : α} : IsConcrete a → IsConcrete b → (a == b) = (form a == form b)

/-- Types whose values have forms have faithful texts. -/
theorem textIsFaithful (α : Type) [BEq α] [CssText α] [Concrete α] [Formed α] :
    TextIsFaithful α := by
  intro a b ha hb
  rw [Formed.cssText_eq ha, Formed.cssText_eq hb,
    Layout.text_eq_iff (Formed.isValid_form ha) (Formed.isValid_form hb), Formed.beq_form ha hb]

/-! ## Numeric types -/

/-- Types whose values are quantities. -/
class Numeric (α : Type) [BEq α] [CssText α] [Concrete α] where
  /-- The value with its unit. -/
  quantity : α → Quantity
  isValid_quantity {a : α} : IsConcrete a → (quantity a).IsValid
  cssText_eq_text (a : α) : cssText a = (quantity a).text
  beq_quantity (a b : α) : (a == b) = (quantity a == quantity b)

export Numeric (quantity isValid_quantity)

instance : Numeric Number where
  quantity x := ⟨x.value, none⟩
  isValid_quantity h := ⟨h, fun _ hunit => nomatch hunit⟩
  cssText_eq_text _ := rfl
  beq_quantity _ _ := (Bool.and_true _).symm

instance : Numeric Percentage where
  quantity x := ⟨x.value, some "%"⟩
  isValid_quantity h := ⟨h, fun unit hunit => Option.some.inj hunit ▸ by decide⟩
  cssText_eq_text _ := rfl
  beq_quantity _ _ := (Bool.and_true _).symm

instance {U : Type} [DecidableEq U] [Vocabulary U] [LawfulVocabulary U] :
    Numeric (Dimension U) where
  quantity x := ⟨x.value, some (Vocabulary.token x.unit)⟩
  isValid_quantity {x} h := by
    refine ⟨h, fun unit hunit => ?_⟩
    rw [← Option.some.inj hunit, isUnitText, Vocabulary.isWord_token, Bool.true_or]
  cssText_eq_text _ := rfl
  beq_quantity x y := by
    rw [Bool.eq_iff_iff, Quantity.beq_iff]
    change (x.value == y.value && x.unit == y.unit) = true ↔ _
    rw [Bool.and_eq_true, beq_iff_eq (α := U)]
    refine and_congr_right fun _ => ⟨fun h => by rw [h], fun h => ?_⟩
    exact Vocabulary.token_injective (Option.some.inj h)

instance : Numeric Resolution where
  quantity r := quantity r.toDimension
  isValid_quantity {r} h := isValid_quantity (a := r.toDimension) h
  cssText_eq_text _ := rfl
  beq_quantity r s := Numeric.beq_quantity r.toDimension s.toDimension

/-- Numeric types besides percentages. -/
class NotPercentage (α : Type) [BEq α] [CssText α] [Concrete α] [Numeric α] : Prop where
  unit_ne : ∀ a : α, (quantity a).unit ≠ some "%"

instance : NotPercentage Number := ⟨fun _ h => nomatch h⟩

instance {U : Type} [DecidableEq U] [Vocabulary U] [LawfulVocabulary U] :
    NotPercentage (Dimension U) where
  unit_ne x h := by
    have hword := Vocabulary.isWord_token x.unit
    rw [show Vocabulary.token x.unit = "%" from Option.some.inj h] at hword
    contradiction

section OrPercentage

variable {α : Type} [BEq α] [CssText α] [Concrete α] [Numeric α] [NotPercentage α]

/-- A value is not equal to a percentage, and neither is its quantity. -/
theorem quantity_beq_percentage (x : α) (p : Percentage) :
    (quantity x == quantity p) = false := by
  rw [← Bool.not_eq_true, Quantity.beq_iff]
  intro h
  exact NotPercentage.unit_ne x h.2

/-- A percentage is not equal to a value, and neither is its quantity. -/
theorem percentage_beq_quantity (p : Percentage) (x : α) :
    (quantity p == quantity x) = false := by
  rw [← Bool.not_eq_true, Quantity.beq_iff]
  intro h
  exact NotPercentage.unit_ne x h.2.symm

instance : Numeric (OrPercentage α) where
  quantity
    | .value x => quantity x
    | .percentage p => quantity p
  isValid_quantity {a} h := by
    cases a with
    | value x => exact isValid_quantity (α := α) h
    | percentage p => exact isValid_quantity (α := Percentage) h
  cssText_eq_text a := by
    cases a with
    | value x => exact Numeric.cssText_eq_text x
    | percentage p => exact Numeric.cssText_eq_text p
  beq_quantity a b := by
    cases a with
    | value x =>
      cases b with
      | value y => exact Numeric.beq_quantity x y
      | percentage q => exact (quantity_beq_percentage x q).symm
    | percentage p =>
      cases b with
      | value y => exact (percentage_beq_quantity p y).symm
      | percentage q => exact Numeric.beq_quantity p q

end OrPercentage

/-- Commas between values, and the function that encloses a limit. -/
def Layout.commas : Layout where
  separator := ", "
  opening := "fit-content("
  closing := ")"
  separator_split := ⟨[], ',', [' '], by decide, by decide, by decide⟩
  opening_other := ⟨'(', by decide, by decide⟩
  opening_start := by decide

/-- The slash between the components of a ratio, and the keyword that may stand in front. -/
def Layout.slash : Layout where
  separator := " / "
  opening := "auto "
  closing := ""
  separator_split := ⟨[' '], '/', [' '], by decide, by decide, by decide⟩
  opening_other := ⟨' ', by decide, by decide⟩
  opening_start := by decide

section Numeric

variable {α : Type} [BEq α] [CssText α] [Concrete α] [Numeric α]

/-- The only quantity of a concrete value is valid. -/
theorem forall_mem_singleton_quantity {a : α} (h : IsConcrete a) :
    ∀ q ∈ [quantity a], q.IsValid :=
  List.forall_mem_singleton.mpr (isValid_quantity h)

/-- The text of a value is that of its quantity, in every layout. -/
theorem cssText_eq_joined (layout : Layout) (a : α) : cssText a = layout.joined [quantity a] := by
  rw [Layout.joined_singleton, Numeric.cssText_eq_text]

/-- Values are equal exactly when the lists of their quantities are. -/
theorem beq_eq_singleton_beq (a b : α) : (a == b) = ([quantity a] == [quantity b]) := by
  rw [Numeric.beq_quantity]
  exact (Bool.and_true _).symm

instance : Formed α where
  layout := .commas
  form a := .plain [quantity a]
  isValid_form := forall_mem_singleton_quantity
  cssText_eq _ := cssText_eq_joined _ _
  beq_form _ _ := beq_eq_singleton_beq _ _

end Numeric

/-! ## Ratios -/

namespace Ratio

/-- The components that are written: the height only if it differs from the width. -/
def components (r : Ratio) : List Quantity :=
  if r.width == r.height then [⟨r.width, none⟩] else [⟨r.width, none⟩, ⟨r.height, none⟩]

/-- The components of a concrete ratio are valid quantities. -/
theorem isValid_of_mem_components {r : Ratio} (h : IsConcrete r) :
    ∀ q ∈ r.components, q.IsValid := by
  have hvalid {x : Binary64} (hx : ¬ x.IsNaN) : (Quantity.mk x none).IsValid :=
    ⟨hx, fun _ hunit => nomatch hunit⟩
  unfold components
  split
  · exact List.forall_mem_singleton.mpr (hvalid h.1)
  · exact List.forall_mem_cons.mpr ⟨hvalid h.1, List.forall_mem_singleton.mpr (hvalid h.2)⟩

/-- The text of a ratio is that of its components, with a slash between them. -/
theorem cssText_eq_joined (r : Ratio) : cssText r = Layout.slash.joined r.components := by
  change numberText r.width ++
    (if r.width == r.height then "" else " / " ++ numberText r.height) = _
  unfold components
  split
  · rw [Layout.joined_singleton, String.append_empty]
    rfl
  · rw [Layout.joined_cons_cons, Layout.joined_singleton, String.append_assoc]
    rfl

/-- Ratios are equal exactly when the components that are written are. -/
theorem beq_eq_components_beq (r s : Ratio) : (r == s) = (r.components == s.components) := by
  change (r.width == s.width && r.height == s.height) = _
  have hsame {x y : Binary64} : ((Quantity.mk x none) == ⟨y, none⟩) = (x == y) := Bool.and_true _
  unfold components
  by_cases hr : (r.width == r.height) = true
  · by_cases hs : (s.width == s.height) = true
    · rw [if_pos hr, if_pos hs]
      change _ = (Quantity.mk r.width none == ⟨s.width, none⟩ && true)
      rw [hsame, Bool.and_true, Bool.eq_iff_iff, Bool.and_eq_true, and_iff_left_iff_imp]
      intro h
      exact Binary64.beq_trans (Binary64.beq_trans (Binary64.beq_comm.trans hr) h) hs
    · rw [if_pos hr, if_neg hs]
      change _ = (Quantity.mk r.width none == ⟨s.width, none⟩ && false)
      rw [Bool.and_false, ← Bool.not_eq_true, Bool.and_eq_true]
      intro h
      exact hs (Binary64.beq_trans (Binary64.beq_comm.trans h.1) (Binary64.beq_trans hr h.2))
  · by_cases hs : (s.width == s.height) = true
    · rw [if_neg hr, if_pos hs]
      change _ = (Quantity.mk r.width none == ⟨s.width, none⟩ && false)
      rw [Bool.and_false, ← Bool.not_eq_true, Bool.and_eq_true]
      intro h
      exact hr (Binary64.beq_trans h.1 (Binary64.beq_trans hs (Binary64.beq_comm.trans h.2)))
    · rw [if_neg hr, if_neg hs]
      change _ = (Quantity.mk r.width none == ⟨s.width, none⟩ &&
        (Quantity.mk r.height none == ⟨s.height, none⟩ && true))
      rw [hsame, hsame, Bool.and_true]

instance : Formed Ratio where
  layout := .slash
  form r := .plain r.components
  isValid_form := isValid_of_mem_components
  cssText_eq _ := cssText_eq_joined _
  beq_form _ _ := beq_eq_components_beq _ _

end Ratio

end CssValues
