import CssValues.Proofs.Dimension.ResolutionRun
import CssValues.Structured.Property

/-!
# Checked input

Resolutions and ratios are read in two stages. The fields of the record come first, and a record
that lacks one of them, or holds it in another type, has the wrong shape whatever else it holds. The
values that the fields hold are then built as any others are, and refused if they are refused there.
The two shapes of an aspect ratio that hold a ratio read it in the same way.
-/

namespace CssValues

/-! ## Fields of a type -/

/-- Types that read some trees and refuse all others for their shape. -/
class PlainData (α : Type) [Structured α] where
  /-- The tree is data of the type, and stands for the value. -/
  StandsFor : Tree → α → Prop
  decode_eq_ok_iff : ∀ {tree : Tree} {a : α}, decode tree = .ok a ↔ StandsFor tree a
  error_eq_shape : ∀ {tree : Tree} {error : DecodeError},
    (decode tree : Except DecodeError α) = .error error → error = .shape

export PlainData (StandsFor)

instance : PlainData Binary64 where
  StandsFor tree value := tree = .number value
  decode_eq_ok_iff {tree value} := by
    cases tree with
    | number other =>
      constructor
      · intro h
        cases h
        rfl
      · intro h
        cases h
        rfl
    | _ => exact ⟨nofun, nofun⟩
  error_eq_shape {tree error} h := by
    cases tree with
    | number => cases h
    | _ =>
      cases h
      rfl

/-- A token stands for its member, alone or over null. -/
instance {α : Type} [Vocabulary α] [LawfulVocabulary α] : PlainData α where
  StandsFor tree member :=
    tree = .text (Vocabulary.token member) ∨ tree = .alternative (Vocabulary.token member) .null
  decode_eq_ok_iff {tree member} := by
    constructor
    · intro h
      simp only [decode] at h
      split at h
      · split at h
        next hfound =>
          cases h
          rw [Vocabulary.ofToken?_eq_some_iff.mp hfound]
          exact Or.inl rfl
        next => cases h
      · split at h
        next hfound =>
          cases h
          rw [Vocabulary.ofToken?_eq_some_iff.mp hfound]
          exact Or.inr rfl
        next => cases h
      · cases h
    · rintro (rfl | rfl)
      · simp only [decode, Vocabulary.ofToken?_token]
      · simp only [decode, Vocabulary.ofToken?_token]
  error_eq_shape {tree error} h := by
    simp only [decode] at h
    split at h
    · split at h
      · cases h
      · cases h
        rfl
    · split at h
      · cases h
      · cases h
        rfl
    · cases h
      rfl

namespace Tree

variable {α β : Type} [Structured α] [Structured β] [PlainData α] [PlainData β]

/-- The record has one field of the name, and it holds a value of the type. -/
def Holds (fields : List (String × Tree)) (name : String) (a : α) : Prop :=
  ∃ content, field? name fields = some content ∧ StandsFor content a

/-- A field holds at most one value of a type. -/
theorem Holds.unique {fields : List (String × Tree)} {name : String} {a b : α}
    (ha : Holds fields name a) (hb : Holds fields name b) : a = b := by
  obtain ⟨content, hcontent, ha⟩ := ha
  obtain ⟨other, hother, hb⟩ := hb
  cases hcontent.symm.trans hother
  rw [← PlainData.decode_eq_ok_iff] at ha hb
  exact Except.ok.inj (ha.symm.trans hb)

/-- A field is missing, or it holds a value of the type, or its shape is wrong. -/
theorem field?_cases (α : Type) [Structured α] [PlainData α] (name : String)
    (fields : List (String × Tree)) :
    (∃ content, field? name fields = some content ∧ ∃ a : α, decode content = .ok a) ∨
    (∀ a : α, ¬ Holds fields name a) ∧ (field? name fields = none ∨
      ∃ content, field? name fields = some content ∧
        (decode content : Except DecodeError α) = .error .shape) := by
  unfold Holds
  cases field? name fields with
  | none => exact Or.inr ⟨nofun, Or.inl rfl⟩
  | some content =>
    cases hdecode : (decode content : Except DecodeError α) with
    | ok a => exact Or.inl ⟨content, rfl, a, hdecode⟩
    | error error =>
      cases PlainData.error_eq_shape hdecode
      refine Or.inr ⟨fun a ha => ?_, Or.inr ⟨content, rfl, hdecode⟩⟩
      obtain ⟨other, hother, hstands⟩ := ha
      cases hother
      rw [← PlainData.decode_eq_ok_iff, hdecode] at hstands
      cases hstands

/-- Two fields are read when both hold values of their types, and otherwise the shape is wrong. -/
theorem decodePair_record_cases (α β : Type) [Structured α] [Structured β] [PlainData α]
    [PlainData β] (first second : String) (fields : List (String × Tree)) :
    (∃ (a : α) (b : β), Holds fields first a ∧ Holds fields second b ∧
      (record fields).decodePair first second = .ok (a, b)) ∨
    ((∀ a : α, ¬ Holds fields first a) ∨ ∀ b : β, ¬ Holds fields second b) ∧
      ((record fields).decodePair first second : Except DecodeError (α × β)) = .error .shape := by
  rcases field?_cases α first fields with
    ⟨content, hfirst, a, ha⟩ | ⟨hnot, hmissing | ⟨content, hfirst, ha⟩⟩
  · rcases field?_cases β second fields with
      ⟨other, hsecond, b, hb⟩ | ⟨hnot, hmissing | ⟨other, hsecond, hb⟩⟩
    · refine Or.inl ⟨a, b, ⟨content, hfirst, PlainData.decode_eq_ok_iff.mp ha⟩,
        ⟨other, hsecond, PlainData.decode_eq_ok_iff.mp hb⟩, ?_⟩
      simp [decodePair, pair?, hfirst, hsecond, ha, hb, pure, Except.pure, bind, Except.bind]
    · refine Or.inr ⟨Or.inr hnot, ?_⟩
      simp [decodePair, pair?, hfirst, hmissing, bind]
    · refine Or.inr ⟨Or.inr hnot, ?_⟩
      simp [decodePair, pair?, hfirst, hsecond, ha, hb, bind, Except.bind]
  · refine Or.inr ⟨Or.inl hnot, ?_⟩
    simp [decodePair, pair?, hmissing, bind]
  · refine Or.inr ⟨Or.inl hnot, ?_⟩
    cases hsecond : field? second fields with
    | none => simp [decodePair, pair?, hfirst, hsecond, bind]
    | some other => simp [decodePair, pair?, hfirst, hsecond, ha, bind, Except.bind]

end Tree

/-! ## Readings of two checked fields -/

/-- A reading of two parts that are checked together. It succeeds when both parts are there and pass
the check, with what the check gives; it fails with the error of the check when both are there and
do not pass; and it has the wrong shape when one of them is not there, whatever the other is. -/
structure ReadsChecked {α β ρ γ : Type} (first : α → Prop) (second : β → Prop)
    (check : α → β → Except ValueError ρ) (wrap : ρ → γ) (read : Except DecodeError γ) : Prop where
  eq_ok_iff : ∀ c, read = .ok c ↔
    ∃ a b r, first a ∧ second b ∧ check a b = .ok r ∧ c = wrap r
  eq_refused_iff : ∀ error, read = .error (.refused error) ↔
    ∃ a b, first a ∧ second b ∧ check a b = .error error
  eq_shape_iff : read = .error .shape ↔ (∀ a, ¬ first a) ∨ ∀ b, ¬ second b

namespace DecodeError

variable {ρ γ : Type} {checked : Except ValueError ρ} {wrap : ρ → γ}

/-- A checked reading succeeds when the check does, with what holds the result. -/
theorem map_ofCheck_eq_ok_iff {c : γ} :
    (ofCheck checked).map wrap = .ok c ↔ ∃ r, checked = .ok r ∧ c = wrap r := by
  cases checked with
  | ok r =>
    change Except.ok (wrap r) = .ok c ↔ _
    simp [eq_comm]
  | error error =>
    change Except.error (refused error) = .ok c ↔ _
    simp

/-- A checked reading is refused when the check refuses, with the error of the check. -/
theorem map_ofCheck_eq_refused_iff {error : ValueError} :
    (ofCheck checked).map wrap = .error (.refused error) ↔ checked = .error error := by
  cases checked with
  | ok r =>
    change Except.ok (wrap r) = .error (refused error) ↔ _
    simp
  | error other =>
    change Except.error (refused other) = .error (refused error) ↔ _
    simp

/-- A check never finds fault with the shape. -/
theorem map_ofCheck_ne_shape : (ofCheck checked).map wrap ≠ .error .shape := by
  cases checked with
  | ok r => exact nofun
  | error other => exact nofun

end DecodeError

namespace ReadsChecked

variable {α β ρ γ : Type} {first : α → Prop} {second : β → Prop}
  {check : α → β → Except ValueError ρ} {wrap : ρ → γ}

/-- Parts that are there are checked. -/
theorem of_parts {a : α} {b : β} (ha : first a) (hb : second b)
    (hfirst : ∀ other, first other → other = a) (hsecond : ∀ other, second other → other = b) :
    ReadsChecked first second check wrap ((DecodeError.ofCheck (check a b)).map wrap) where
  eq_ok_iff c := by
    rw [DecodeError.map_ofCheck_eq_ok_iff]
    constructor
    · rintro ⟨r, hcheck, hc⟩
      exact ⟨a, b, r, ha, hb, hcheck, hc⟩
    · rintro ⟨other, another, r, hother, hanother, hcheck, hc⟩
      rw [hfirst other hother, hsecond another hanother] at hcheck
      exact ⟨r, hcheck, hc⟩
  eq_refused_iff error := by
    rw [DecodeError.map_ofCheck_eq_refused_iff]
    constructor
    · intro hcheck
      exact ⟨a, b, ha, hb, hcheck⟩
    · rintro ⟨other, another, hother, hanother, hcheck⟩
      rwa [hfirst other hother, hsecond another hanother] at hcheck
  eq_shape_iff := by
    refine iff_of_false DecodeError.map_ofCheck_ne_shape fun hnot => ?_
    rcases hnot with hnot | hnot
    · exact hnot a ha
    · exact hnot b hb

/-- Without one of the parts there is nothing to check. -/
theorem of_not_exists (h : (∀ a, ¬ first a) ∨ ∀ b, ¬ second b) :
    ReadsChecked first second check wrap (.error .shape) where
  eq_ok_iff c := by
    refine ⟨nofun, ?_⟩
    rintro ⟨a, b, r, ha, hb, -⟩
    exact (h.elim (· a ha) (· b hb)).elim
  eq_refused_iff error := by
    refine ⟨nofun, ?_⟩
    rintro ⟨a, b, ha, hb, -⟩
    exact (h.elim (· a ha) (· b hb)).elim
  eq_shape_iff := iff_of_true rfl h

/-- Two fields of a record, checked when both have been read. -/
theorem of_record [Structured α] [Structured β] [PlainData α] [PlainData β]
    (firstName secondName : String) (fields : List (String × Tree))
    (check : α → β → Except ValueError ρ) (wrap : ρ → γ) :
    ReadsChecked (Tree.Holds fields firstName) (Tree.Holds fields secondName) check wrap
      (((Tree.record fields).decodePair firstName secondName >>= fun parts =>
        DecodeError.ofCheck (check parts.1 parts.2)).map wrap) := by
  rcases Tree.decodePair_record_cases α β firstName secondName fields with
    ⟨a, b, ha, hb, hread⟩ | ⟨hnot, hread⟩
  · rw [hread]
    exact of_parts ha hb (fun _ hother => hother.unique ha) (fun _ hother => hother.unique hb)
  · rw [hread]
    exact of_not_exists hnot

end ReadsChecked

/-! ## Resolutions and ratios -/

/-- A resolution is built exactly when the value is neither NaN nor below zero. -/
theorem Resolution.ofValue_eq_ok_iff {value : Binary64} {unit : ResolutionUnit} {r : Resolution} :
    ofValue value unit = .ok r ↔ IsNonNegative value ∧ r.toDimension = ⟨value, unit⟩ := by
  rw [isNonNegative_iff]
  by_cases h : 0 ≤ value
  · rw [ofValue_eq_ok h, Except.ok.injEq, and_iff_right h]
    constructor
    · intro heq
      rw [← heq]
    · intro heq
      obtain ⟨_, _⟩ := r
      cases heq
      rfl
  · rw [ofValue_eq_error h]
    exact ⟨nofun, fun hok => absurd hok.1 h⟩

/-- A resolution is refused when its value is negative or NaN, and the error has the value. -/
theorem Resolution.ofValue_eq_error_iff {value : Binary64} {unit : ResolutionUnit}
    {error : ValueError} :
    ofValue value unit = .error error ↔
      ¬ IsNonNegative value ∧ error = .negativeResolution value := by
  rw [isNonNegative_iff]
  by_cases h : 0 ≤ value
  · rw [ofValue_eq_ok h]
    exact ⟨nofun, fun herror => absurd h herror.1⟩
  · rw [ofValue_eq_error h, Except.error.injEq, and_iff_right h, eq_comm]

/-- A ratio is built exactly when both components are finite and above zero. -/
theorem Ratio.ofComponents_eq_ok_iff {width height : Binary64} {r : Ratio} :
    ofComponents width height = .ok r ↔
      (IsRatioComponent width ∧ IsRatioComponent height) ∧ r.width = width ∧ r.height = height := by
  by_cases h : IsRatioComponent width ∧ IsRatioComponent height
  · rw [ofComponents_eq_ok h.1 h.2, Except.ok.injEq, and_iff_right h]
    constructor
    · intro heq
      rw [← heq]
      exact ⟨rfl, rfl⟩
    · rintro ⟨rfl, rfl⟩
      rfl
  · rw [ofComponents_eq_error h]
    exact ⟨nofun, fun hok => absurd hok.1 h⟩

/-- A ratio is refused when one of its components is not valid, and the error has both. -/
theorem Ratio.ofComponents_eq_error_iff {width height : Binary64} {error : ValueError} :
    ofComponents width height = .error error ↔
      ¬ (IsRatioComponent width ∧ IsRatioComponent height) ∧
        error = .malformedRatio width height := by
  by_cases h : IsRatioComponent width ∧ IsRatioComponent height
  · rw [ofComponents_eq_ok h.1 h.2]
    exact ⟨nofun, fun herror => absurd h herror.1⟩
  · rw [ofComponents_eq_error h, Except.error.injEq, and_iff_right h, eq_comm]

/-- The reading is that of a checked resolution in the fields of a record. -/
def ReadsResolution (fields : List (String × Tree)) (read : Except DecodeError Resolution) : Prop :=
  ReadsChecked (Tree.Holds fields "value") (Tree.Holds fields "unit") Resolution.ofValue id read

/-- The reading is that of a checked ratio in the fields of a record, and of what holds it. -/
def ReadsRatio {γ : Type} (fields : List (String × Tree)) (wrap : Ratio → γ)
    (read : Except DecodeError γ) : Prop :=
  ReadsChecked (Tree.Holds fields "width") (Tree.Holds fields "height") Ratio.ofComponents wrap read

section Readings

variable (fields : List (String × Tree))

/-- A record is read as a resolution by reading its two fields and then checking them together. -/
theorem decode_resolution_record :
    (decode (.record fields) : Except DecodeError Resolution) =
      (Tree.record fields).decodePair "value" "unit" >>= fun parts =>
        DecodeError.ofCheck (Resolution.ofValue parts.1 parts.2) := by
  change (((Tree.record fields).decodePair "value" "unit" >>= fun parts =>
      pure (⟨parts.1, parts.2⟩ : Dimension ResolutionUnit)) >>= fun x =>
        DecodeError.ofCheck (Resolution.ofValue x.value x.unit)) = _
  rw [bind_assoc]
  simp only [pure_bind]

/-- A record is read as a ratio by reading its two fields and then checking them together. -/
theorem decode_ratio_record :
    (decode (.record fields) : Except DecodeError Ratio) =
      (Tree.record fields).decodePair "width" "height" >>= fun parts =>
        DecodeError.ofCheck (Ratio.ofComponents parts.1 parts.2) := rfl

/-- Every record is read as a resolution by the check of its fields. -/
theorem readsResolution : ReadsResolution fields (decode (.record fields)) := by
  have h := ReadsChecked.of_record "value" "unit" fields Resolution.ofValue id
  rwa [← decode_resolution_record, Except.map_id] at h

/-- A ratio is read in one way wherever it is held. -/
theorem readsRatio {γ : Type} (wrap : Ratio → γ) :
    ReadsRatio fields wrap ((decode (.record fields)).map wrap) :=
  ReadsChecked.of_record "width" "height" fields Ratio.ofComponents wrap

end Readings

namespace Tree

variable {name : String} (before after : List (String × Tree)) (content : Tree)

/-- A field of another name makes no difference to the field of a name. -/
theorem field?_append_cons {wanted : String} (hname : name ≠ wanted) :
    field? wanted (before ++ (name, content) :: after) = field? wanted (before ++ after) := by
  have hother : (name == wanted) = false := beq_eq_false_iff_ne.mpr hname
  simp [field?, hother]

/-- A field of a third name makes no difference to the two fields that are read. -/
theorem decodePair_append_cons {α β : Type} [Structured α] [Structured β] {first second : String}
    (hfirst : name ≠ first) (hsecond : name ≠ second) :
    ((record (before ++ (name, content) :: after)).decodePair first second :
        Except DecodeError (α × β)) =
      (record (before ++ after)).decodePair first second := by
  rw [decodePair, decodePair, pair?, pair?, field?_append_cons _ _ _ hfirst,
    field?_append_cons _ _ _ hsecond]

end Tree

/-- No record gets past a check. Whatever its fields, a record is read as a resolution, or as a
ratio alone, inside an aspect ratio or inside the property, exactly when the fields that are asked
for hold values of their types and the constructor accepts these, and then as what it builds. When
it refuses them, the error is its own, with the numbers read. When one of the fields is missing or
of another type, the error is that of the shape, whatever the other one holds. No further field
makes a difference. -/
theorem records_are_checked (fields : List (String × Tree)) :
    (ReadsResolution fields (decode (.record fields)) ∧
      ∀ value unit,
        (∀ r, Resolution.ofValue value unit = .ok r ↔
          IsNonNegative value ∧ r.toDimension = ⟨value, unit⟩) ∧
        ∀ error, Resolution.ofValue value unit = .error error ↔
          ¬ IsNonNegative value ∧ error = .negativeResolution value) ∧
    ((ReadsRatio fields id (decode (.record fields)) ∧
        ReadsRatio fields AspectRatio.ratio (decode (.alternative "Ratio" (.record fields))) ∧
        ReadsRatio fields AspectRatio.autoRatio
          (decode (.alternative "AutoRatio" (.record fields))) ∧
        ReadsRatio fields (fun r => (⟨.ratio r⟩ : Property .aspectRatio))
          (decode (.alternative "Ratio" (.record fields))) ∧
        ReadsRatio fields (fun r => (⟨.autoRatio r⟩ : Property .aspectRatio))
          (decode (.alternative "AutoRatio" (.record fields)))) ∧
      ∀ width height,
        (∀ r, Ratio.ofComponents width height = .ok r ↔
          (IsRatioComponent width ∧ IsRatioComponent height) ∧
            r.width = width ∧ r.height = height) ∧
        ∀ error, Ratio.ofComponents width height = .error error ↔
          ¬ (IsRatioComponent width ∧ IsRatioComponent height) ∧
            error = .malformedRatio width height) ∧
    ∀ (before after : List (String × Tree)) (name : String) (content : Tree),
      fields = before ++ (name, content) :: after →
      (name ≠ "value" → name ≠ "unit" →
        (decode (.record fields) : Except DecodeError Resolution) =
          decode (.record (before ++ after))) ∧
      (name ≠ "width" → name ≠ "height" →
        (decode (.record fields) : Except DecodeError Ratio) =
          decode (.record (before ++ after))) := by
  refine ⟨⟨readsResolution fields, fun _ _ => ⟨fun _ => Resolution.ofValue_eq_ok_iff,
      fun _ => Resolution.ofValue_eq_error_iff⟩⟩,
    ⟨⟨?_, readsRatio fields AspectRatio.ratio, readsRatio fields AspectRatio.autoRatio, ?_, ?_⟩,
      fun _ _ => ⟨fun _ => Ratio.ofComponents_eq_ok_iff,
        fun _ => Ratio.ofComponents_eq_error_iff⟩⟩,
    fun before after name content hfields => ⟨fun hvalue hunit => ?_, fun hwidth hheight => ?_⟩⟩
  · have h := readsRatio fields id
    rwa [Except.map_id] at h
  · change ReadsRatio fields _ ((fun value => (⟨value⟩ : Property .aspectRatio)) <$>
      AspectRatio.ratio <$> decode (.record fields))
    rw [Functor.map_map]
    exact readsRatio fields _
  · change ReadsRatio fields _ ((fun value => (⟨value⟩ : Property .aspectRatio)) <$>
      AspectRatio.autoRatio <$> decode (.record fields))
    rw [Functor.map_map]
    exact readsRatio fields _
  · rw [hfields, decode_resolution_record, decode_resolution_record,
      Tree.decodePair_append_cons _ _ _ hvalue hunit]
  · rw [hfields, decode_ratio_record, decode_ratio_record,
      Tree.decodePair_append_cons _ _ _ hwidth hheight]

end CssValues
