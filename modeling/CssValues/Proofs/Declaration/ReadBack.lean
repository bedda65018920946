import CssValues.Declaration.Block
import CssValues.Proofs.Declaration.PlainText

/-!
# Reading blocks

The text of a block is cut after every semicolon, and each piece at its first colon. No name of a
property has a colon or a semicolon in it. Neither has the text of a value, nor an exclamation mark
that could pass for importance, unless a math expression is in the value. So a block of properties
without math expressions reads back as it is, and such blocks are equal exactly when their texts
are.
-/

namespace CssValues

/-! ## Readers -/

/-- The text before the first colon that a space follows, and the text after both. -/
def splitAtColon? : List Char → Option (List Char × List Char)
  | ':' :: ' ' :: rest => some ([], rest)
  | c :: rest => (splitAtColon? rest).map fun (front, back) => (c :: front, back)
  | [] => none

/-- What follows a value that is important. -/
def importanceMark : List Char := " !important".toList

/-- The declaration that a text without its semicolon is: a name, a colon and a value, which is
important if the mark stands at its end. -/
def Declaration.ofChars? (text : List Char) : Option Declaration := do
  let (name, rest) ← splitAtColon? text
  match rest.dropSuffix? importanceMark with
  | some value => return ⟨String.ofList name, String.ofList value, true⟩
  | none => return ⟨String.ofList name, String.ofList rest, false⟩

/-- The pieces of a text that end in a semicolon each, without it; none if anything follows the last
semicolon. -/
def semicolonPieces? (text : List Char) : Option (List (List Char)) :=
  let pieces := text.splitOn ';'
  if pieces.getLast? = some [] then some pieces.dropLast else none

/-- The text after a space at its start. -/
def dropSpace? : List Char → Option (List Char)
  | ' ' :: rest => some rest
  | _ => none

/-- The pieces without the space that separates each of them from the one before. -/
def dropSeparators? : List (List Char) → Option (List (List Char))
  | [] => some []
  | first :: others => (others.mapM dropSpace?).map (first :: ·)

/-- The block that a text is. -/
def Block.ofChars? (text : List Char) : Option Block := do
  let texts ← dropSeparators? (← semicolonPieces? text)
  return ⟨← texts.mapM Declaration.ofChars?⟩

/-! ## Declarations -/

/-- A text is split at its first colon and the space after it. -/
theorem splitAtColon?_append {front : List Char} (h : ':' ∉ front) (back : List Char) :
    splitAtColon? (front ++ ':' :: ' ' :: back) = some (front, back) := by
  induction front with
  | nil => rfl
  | cons c front ih =>
    rw [List.mem_cons, not_or] at h
    rw [List.cons_append, splitAtColon?, ih h.2]
    · rfl
    · intro rest hcolon _
      exact absurd hcolon.symm h.1

namespace Declaration

/-- The text of a declaration before its semicolon. -/
def chars (d : Declaration) : List Char :=
  d.property.toList ++ ':' :: ' ' :: (d.value.toList ++ if d.important then importanceMark else [])

/-- The text of a declaration is its characters and a semicolon. -/
theorem toList_cssText (d : Declaration) : (cssText d).toList = d.chars ++ [';'] := by
  have hcolon : ": ".toList = [':', ' '] := rfl
  have hsemicolon : ";".toList = [';'] := rfl
  have hmark : (if d.important then " !important" else "").toList =
      if d.important then importanceMark else [] := by
    cases d.important with
    | true => rfl
    | false => rfl
  change (d.property ++ ": " ++ d.value ++ (if d.important then " !important" else "") ++
    ";").toList = _
  simp only [chars, String.toList_append, hcolon, hsemicolon, hmark, List.append_assoc,
    List.cons_append, List.nil_append]

/-- A declaration reads back, unless its name has a colon or its value an exclamation mark. -/
theorem ofChars?_chars {d : Declaration} (hname : ':' ∉ d.property.toList)
    (hvalue : '!' ∉ d.value.toList) : ofChars? d.chars = some d := by
  obtain ⟨property, value, important⟩ := d
  simp only [ofChars?, chars, splitAtColon?_append hname]
  cases important with
  | true =>
    have hmark : (value.toList ++ importanceMark).dropSuffix? importanceMark = some value.toList :=
      List.dropSuffix?_eq_some_iff.mpr ⟨importanceMark, rfl, BEq.rfl⟩
    simp [hmark]
  | false =>
    have hmark : value.toList.dropSuffix? importanceMark = none := by
      by_contra hsome
      obtain ⟨front, hfront⟩ := Option.ne_none_iff_exists'.mp hsome
      obtain ⟨mark, happend, hmark⟩ := List.dropSuffix?_eq_some_iff.mp hfront
      refine hvalue ?_
      rw [happend, beq_iff_eq.mp hmark]
      exact List.mem_append_right _ (by decide)
    simp [hmark]

/-- The name is a word, and the value is plain. -/
def IsPlain (d : Declaration) : Prop :=
  isWord d.property.toList = true ∧ IsPlainText d.value

namespace IsPlain

variable {d : Declaration}

/-- The name of a plain declaration has no colon in it. -/
theorem colon_not_mem (h : d.IsPlain) : ':' ∉ d.property.toList :=
  (IsPlainText.of_isWord h.1).not_mem (by decide)

/-- A plain declaration reads back. -/
theorem ofChars?_chars (h : d.IsPlain) : ofChars? d.chars = some d :=
  Declaration.ofChars?_chars h.colon_not_mem (h.2.not_mem (by decide))

/-- A plain declaration has no semicolon in it, so it ends where its own stands. -/
theorem semicolon_not_mem (h : d.IsPlain) : ';' ∉ d.chars := by
  have hname := (IsPlainText.of_isWord h.1).not_mem (c := ';') (by decide)
  have hvalue := h.2.not_mem (c := ';') (by decide)
  have hmark : ';' ∉ if d.important then importanceMark else [] := by
    cases d.important with
    | true => decide
    | false => exact List.not_mem_nil
  rw [chars, List.mem_append, List.mem_cons, List.mem_cons, List.mem_append]
  rintro (hmem | hmem | hmem | hmem | hmem)
  · exact hname hmem
  · exact absurd hmem (by decide)
  · exact absurd hmem (by decide)
  · exact hvalue hmem
  · exact hmark hmem

/-- Importance makes no difference. -/
theorem makeImportant (h : d.IsPlain) : d.makeImportant.IsPlain := h

end IsPlain

end Declaration

/-- The declaration of a property without math expressions is plain. -/
theorem Property.IsMathFree.isPlain {name : PropertyName} {p : Property name} (h : p.IsMathFree) :
    p.declaration.IsPlain :=
  ⟨Vocabulary.isWord_token name, PropertyKind.isPlainText_of_isMathFree h⟩

/-! ## Blocks -/

namespace Block

/-- The pieces of the text of a block, without the semicolons: each but the first starts with a
space. -/
def pieces : List Declaration → List (List Char)
  | [] => []
  | d :: others => d.chars :: others.map (' ' :: ·.chars)

/-- A character before a list of texts stays before them when they are joined. -/
theorem intercalate_cons_head (separator : List Char) (c : Char) (text : List Char)
    (texts : List (List Char)) :
    separator.intercalate ((c :: text) :: texts) =
      c :: separator.intercalate (text :: texts) := by
  cases texts with
  | nil => rw [List.intercalate_singleton, List.intercalate_singleton]
  | cons other texts =>
    rw [List.intercalate_cons_cons, List.intercalate_cons_cons, List.cons_append, List.cons_append]

/-- The text of a block is its pieces with semicolons between them, and nothing after the last
semicolon. -/
theorem toList_cssText (declarations : List Declaration) :
    (cssText (Block.mk declarations)).toList =
      [';'].intercalate (pieces declarations ++ [[]]) := by
  have hspace : " ".toList = [' '] := rfl
  change (" ".intercalate (declarations.map cssText)).toList = _
  cases declarations with
  | nil => rfl
  | cons d others =>
    induction others generalizing d with
    | nil =>
      rw [List.map_singleton, String.intercalate_singleton, Declaration.toList_cssText]
      simp [pieces]
    | cons other others ih =>
      have hrest := ih other
      rw [List.map_cons] at hrest
      rw [List.map_cons, List.map_cons, String.intercalate_cons_cons, String.toList_append,
        String.toList_append, hrest, Declaration.toList_cssText, hspace]
      simp only [pieces, List.map_cons, List.cons_append]
      rw [List.intercalate_cons_cons, intercalate_cons_head]
      simp only [List.append_assoc, List.cons_append, List.nil_append]

/-- The text of a block is cut into its pieces if no declaration has a semicolon in it. -/
theorem semicolonPieces?_cssText {declarations : List Declaration}
    (h : ∀ d ∈ declarations, ';' ∉ d.chars) :
    semicolonPieces? (cssText (Block.mk declarations)).toList = some (pieces declarations) := by
  have hpieces : ∀ piece ∈ pieces declarations, ';' ∉ piece := by
    cases declarations with
    | nil => exact nofun
    | cons d others =>
      rw [List.forall_mem_cons] at h
      refine List.forall_mem_cons.mpr ⟨h.1, List.forall_mem_map.mpr fun other hother => ?_⟩
      rw [List.mem_cons, not_or]
      exact ⟨by decide, h.2 other hother⟩
  have hall : ∀ piece ∈ pieces declarations ++ [[]], ';' ∉ piece :=
    List.forall_mem_append.mpr ⟨hpieces, List.forall_mem_singleton.mpr List.not_mem_nil⟩
  have hne : pieces declarations ++ [[]] ≠ [] :=
    List.append_ne_nil_of_right_ne_nil _ (List.cons_ne_nil _ _)
  rw [toList_cssText, semicolonPieces?, List.splitOn_intercalate ';' hall hne]
  simp only [List.getLast?_concat, List.dropLast_concat, if_true]

/-- Reading a list of written items gives the items, if each of them reads back. -/
theorem mapM_map_eq_some {α β γ : Type} {write : α → β} {read? : β → Option γ} {value : α → γ}
    {items : List α} (h : ∀ item ∈ items, read? (write item) = some (value item)) :
    (items.map write).mapM read? = some (items.map value) := by
  induction items with
  | nil => rfl
  | cons item items ih =>
    rw [List.forall_mem_cons] at h
    rw [List.map_cons, List.mapM_cons, h.1, ih h.2]
    rfl

/-- The pieces of a block without the spaces between them are the texts of its declarations. -/
theorem dropSeparators?_pieces (declarations : List Declaration) :
    dropSeparators? (pieces declarations) = some (declarations.map Declaration.chars) := by
  cases declarations with
  | nil => rfl
  | cons d others =>
    have hothers : (others.map (' ' :: ·.chars)).mapM dropSpace? =
        some (others.map Declaration.chars) := mapM_map_eq_some fun _ _ => rfl
    rw [pieces, dropSeparators?, hothers]
    rfl

/-- A block reads back if the names of its declarations are words and their values plain. -/
theorem ofChars?_cssText {block : Block} (h : ∀ d ∈ block.declarations, d.IsPlain) :
    ofChars? (cssText block).toList = some block := by
  obtain ⟨declarations⟩ := block
  have hread : (declarations.map Declaration.chars).mapM Declaration.ofChars? =
      some (declarations.map id) :=
    mapM_map_eq_some fun d hd => (h d hd).ofChars?_chars
  rw [List.map_id] at hread
  rw [ofChars?, semicolonPieces?_cssText fun d hd => (h d hd).semicolon_not_mem]
  simp [dropSeparators?_pieces, hread]

/-! ## Blocks without math expressions -/

/-- A block that is built by adding properties without math expressions, by pushing declarations of
such properties as important ones, and by pushing its own declarations again as important ones. -/
inductive IsMathFree : Block → Prop where
  | empty : IsMathFree empty
  | add {block : Block} {name : PropertyName} {property : Property name} :
    IsMathFree block → property.IsMathFree → IsMathFree (block.add property)
  | push {block : Block} {name : PropertyName} {property : Property name} :
    IsMathFree block → property.IsMathFree →
      IsMathFree (block.push property.declaration.makeImportant)
  | repush {block : Block} {d : Declaration} :
    IsMathFree block → d ∈ block.declarations → IsMathFree (block.push d.makeImportant)

/-- All declarations of a block without math expressions are plain. -/
theorem IsMathFree.isPlain {block : Block} (h : block.IsMathFree) :
    ∀ d ∈ block.declarations, d.IsPlain := by
  induction h with
  | empty => exact nofun
  | add _ hproperty ih =>
    rw [declarations_add]
    exact List.forall_mem_append.mpr ⟨ih, List.forall_mem_singleton.mpr hproperty.isPlain⟩
  | push _ hproperty ih =>
    rw [declarations_push]
    exact List.forall_mem_append.mpr
      ⟨ih, List.forall_mem_singleton.mpr hproperty.isPlain.makeImportant⟩
  | repush _ hmem ih =>
    rw [declarations_push]
    exact List.forall_mem_append.mpr ⟨ih, List.forall_mem_singleton.mpr (ih _ hmem).makeImportant⟩

/-- The text of a block without math expressions reads back as the block, its declarations in order
and repeated ones included; so two such blocks are equal exactly when their texts are. -/
theorem cssText_decodes {block other : Block} (hblock : block.IsMathFree)
    (hother : other.IsMathFree) :
    ofChars? (cssText block).toList = some block ∧
      (block = other ↔ cssText block = cssText other) := by
  have hread := ofChars?_cssText hblock.isPlain
  refine ⟨hread, fun h => by rw [h], fun h => ?_⟩
  rw [h, ofChars?_cssText hother.isPlain] at hread
  exact (Option.some.inj hread).symm

/-- The same width twice, the second time as an important one. -/
theorem repeated_width_decodes :
    let width : Property .width := ⟨.lengthPercentage (.value (Length.px Binary64.nan))⟩
    let once := empty.add width
    let twice := once.push width.declaration.makeImportant
    (once.IsMathFree ∧ twice.IsMathFree) ∧
      ofChars? (cssText twice).toList = some twice ∧
      (twice = once ↔ cssText twice = cssText once) := by
  intro width once twice
  have hwidth : width.IsMathFree := nofun
  have honce : once.IsMathFree := .add .empty hwidth
  have htwice : twice.IsMathFree := .repush honce (List.mem_singleton_self _)
  exact ⟨⟨honce, htwice⟩, cssText_decodes htwice honce⟩

end Block

end CssValues
