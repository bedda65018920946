import CssValues.Proofs.Vocabulary
import CssValues.Structured.Values

/-!
# Values read back from their trees

A type is lawful when each of its values is read back from its tree, word for word, as long as all
numbers in it are finite. Other numbers are null in a tree and are lost there. Lists and optional
content of a lawful type are lawful too; for optional content this needs that no content is written
as null.
-/

namespace CssValues

/-- Types whose values have numbers in them. -/
class HasNumbers (α : Type) where
  /-- The numbers in a value. -/
  numbers : α → List Binary64

export HasNumbers (numbers)

/-- All numbers in the value are finite. -/
def AllFinite {α : Type} [HasNumbers α] (v : α) : Prop := ∀ x ∈ numbers v, x.IsFinite

/-- Types whose values are read back from their trees. -/
class LawfulStructured (α : Type) [Structured α] [HasNumbers α] : Prop where
  decode_encode : ∀ v : α, AllFinite v → decode (encode v) = .ok v

export LawfulStructured (decode_encode)

/-- Content is read back under the name that it was written with. -/
theorem map_decode_encode {α β : Type} [Structured α] [HasNumbers α] [LawfulStructured α]
    (name : α → β) {v : α} (h : AllFinite v) : name <$> decode (encode v) = .ok (name v) := by
  rw [decode_encode v h]
  rfl

/-! ## Numbers and names -/

instance : HasNumbers Binary64 := ⟨fun x => [x]⟩

instance {α : Type} [Vocabulary α] : HasNumbers α := ⟨fun _ => []⟩

instance : HasNumbers MathExpr := ⟨fun _ => []⟩

instance : LawfulStructured Binary64 where
  decode_encode x h := by
    have hx : x.IsFinite := h x List.mem_cons_self
    simp only [encode, decode, if_pos hx]

instance {α : Type} [Vocabulary α] [LawfulVocabulary α] : LawfulStructured α where
  decode_encode member _ := by
    simp only [encode, decode, Vocabulary.ofToken?_token]

instance : LawfulStructured MathExpr := ⟨fun _ _ => rfl⟩

/-! ## Records, lists and optional content -/

section Combined

variable {α β : Type} [HasNumbers α] [HasNumbers β]

instance : HasNumbers (List α) := ⟨fun items => items.flatMap numbers⟩

instance : HasNumbers (Option α) := ⟨fun content => content.toList.flatMap numbers⟩

/-- The numbers of a list are finite when those of its first item and of the others are. -/
theorem allFinite_cons {item : α} {items : List α} :
    AllFinite (item :: items) ↔ AllFinite item ∧ AllFinite items := by
  change (∀ x ∈ (item :: items).flatMap numbers, x.IsFinite) ↔ _
  rw [List.flatMap_cons, List.forall_mem_append]
  rfl

/-- The numbers of an optional value are those of the value that is there. -/
theorem allFinite_some {v : α} : AllFinite (some v) ↔ AllFinite v := by
  change (∀ x ∈ [v].flatMap numbers, x.IsFinite) ↔ _
  rw [List.flatMap_singleton]
  rfl

variable [Structured α] [Structured β]

/-- The two fields of a record are read back. -/
theorem decodePair_record [LawfulStructured α] [LawfulStructured β] {first second : String}
    (hnames : first ≠ second) {a : α} {b : β} (ha : AllFinite a) (hb : AllFinite b) :
    (Tree.record [(first, encode a), (second, encode b)]).decodePair first second =
      .ok (a, b) := by
  have hfirst : (first == second) = false := beq_eq_false_iff_ne.mpr hnames
  have hsecond : (second == first) = false := beq_eq_false_iff_ne.mpr hnames.symm
  have hpair : (Tree.record [(first, encode a), (second, encode b)]).pair? first second =
      some (encode a, encode b) := by
    simp [Tree.pair?, Tree.field?, hfirst, hsecond]
  rw [Tree.decodePair, hpair]
  simp only [decode_encode a ha, decode_encode b hb]
  rfl

instance [LawfulStructured α] : LawfulStructured (List α) where
  decode_encode items h := by
    change (items.map encode).mapM decode = .ok items
    induction items with
    | nil => rfl
    | cons item items ih =>
      obtain ⟨hitem, hitems⟩ := allFinite_cons.mp h
      rw [List.map_cons, List.mapM_cons, decode_encode item hitem, ih hitems]
      rfl

/-- Types none of whose values is written as null. -/
class NeverNull (α : Type) [Structured α] : Prop where
  encode_ne_null : ∀ v : α, encode v ≠ .null

instance [LawfulStructured α] [NeverNull α] : LawfulStructured (Option α) where
  decode_encode content h := by
    cases content with
    | none => rfl
    | some v =>
      have hdecode : decode (encode v) = .ok v := decode_encode v (allFinite_some.mp h)
      change decode (encode v) = (.ok (some v) : Except DecodeError (Option α))
      cases htree : encode v with
      | null => exact absurd htree (NeverNull.encode_ne_null v)
      | bool | number | text | list | record =>
        rw [htree] at hdecode
        change some <$> decode _ = _
        rw [hdecode]
        rfl

end Combined

/-! ## Scalars, dimensions and ratios -/

instance {kind : ScalarKind} : HasNumbers (Scalar kind) := ⟨fun x => [x.value]⟩

instance {U : Type} : HasNumbers (Dimension U) := ⟨fun x => [x.value]⟩

instance : HasNumbers Resolution := ⟨fun r => [r.value]⟩

instance : HasNumbers Ratio := ⟨fun r => [r.width, r.height]⟩

instance {kind : ScalarKind} : LawfulStructured (Scalar kind) where
  decode_encode x h := by
    have hvalue : AllFinite x.value := h
    exact map_decode_encode Scalar.mk hvalue

instance {U : Type} [Vocabulary U] [LawfulVocabulary U] : LawfulStructured (Dimension U) where
  decode_encode x h := by
    have hunit : AllFinite x.unit := fun _ hx => nomatch hx
    have hfields := decodePair_record (show "value" ≠ "unit" by decide) (a := x.value) h hunit
    calc decode (encode x)
        = Tree.decodePair "value" "unit" (encode x) >>= fun fields => pure ⟨fields.1, fields.2⟩ :=
          rfl
      _ = .ok x := by
        change Tree.decodePair "value" "unit" (.record [_, _]) >>= _ = _
        rw [hfields]
        rfl

/-- The check of the reader accepts every resolution. -/
instance : LawfulStructured Resolution where
  decode_encode r h := by
    calc decode (encode r)
        = decode (encode r.toDimension) >>= fun x : Dimension ResolutionUnit =>
            DecodeError.ofCheck (Resolution.ofValue x.value x.unit) := rfl
      _ = DecodeError.ofCheck (Resolution.ofValue r.value r.unit) := by
        rw [decode_encode r.toDimension h]
        exact pure_bind r.toDimension _
      _ = .ok r := by
        rw [Resolution.ofValue_eq_ok r.zero_le_value]
        rfl

/-- The check of the reader accepts every ratio. -/
instance : LawfulStructured Ratio where
  decode_encode r h := by
    obtain ⟨hwidth, hheight⟩ := List.forall_mem_cons.mp h
    have hfields := decodePair_record (show "width" ≠ "height" by decide) (a := r.width)
      (b := r.height) (List.forall_mem_singleton.mpr hwidth) hheight
    calc decode (encode r)
        = Tree.decodePair "width" "height" (encode r) >>= fun components =>
            DecodeError.ofCheck (Ratio.ofComponents components.1 components.2) := rfl
      _ = DecodeError.ofCheck (Ratio.ofComponents r.width r.height) := by
        change Tree.decodePair "width" "height" (.record [_, _]) >>= _ = _
        rw [hfields]
        rfl
      _ = .ok r := by
        rw [Ratio.ofComponents_eq_ok r.width_valid r.height_valid]
        rfl

/-! ## Values or percentages -/

section OrPercentage

variable {α : Type} [Structured α] [ValueTag α]

instance [HasNumbers α] : HasNumbers (OrPercentage α) where
  numbers
    | .value x => numbers x
    | .percentage p => numbers p

instance : NeverNull (OrPercentage α) where
  encode_ne_null v := by cases v <;> exact Tree.noConfusion

/-- Types whose name is not that of percentages. -/
class LawfulValueTag (α : Type) [ValueTag α] : Prop where
  tag_ne_percentage : ValueTag.tag α ≠ "percentage" := by decide

instance : LawfulValueTag Length where
instance : LawfulValueTag Angle where
instance : LawfulValueTag Number where
instance : LawfulValueTag Time where

instance [HasNumbers α] [LawfulStructured α] [LawfulValueTag α] :
    LawfulStructured (OrPercentage α) where
  decode_encode v h := by
    cases v with
    | value x =>
      change (if ValueTag.tag α = ValueTag.tag α then OrPercentage.value <$> decode (encode x)
        else _) = _
      rw [if_pos rfl]
      exact map_decode_encode OrPercentage.value h
    | percentage p =>
      change (if "percentage" = ValueTag.tag α then _ else if "percentage" = "percentage" then
        OrPercentage.percentage <$> decode (encode p) else _) = _
      rw [if_neg LawfulValueTag.tag_ne_percentage.symm, if_pos rfl]
      exact map_decode_encode OrPercentage.percentage h

end OrPercentage

end CssValues
